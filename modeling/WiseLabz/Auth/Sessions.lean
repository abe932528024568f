/-
**Refresh tokens and their revocation.**

A session holds the hash of one refresh token, and a refresh replaces it in one conditional
statement, so a token is good for one refresh.  Logging out and changing the password delete the
sessions; but a login checks its credentials long before it inserts its session, and one that is
under way then opens a session that nobody will delete.  So does a change of the password, which
checks the old one first and inserts a session last.

Main definitions:

* `Auth.SessionRequest`, `Auth.SessionState` — where a request of the user stands, and the sessions;
* `Auth.nextSession` — **one store call of a request**;
* `Auth.SessionState.Final` — tokens are single use, and revocation is final;
* `Auth.unrevoked` — the condition on a step.

Main results:

* `Auth.SessionInv.next` — what every step keeps;
* `Auth.sessions_final_iff` — **when revocation is final**.
-/

import Mathlib.Data.List.Nodup
import WiseLabz.Lib.Bytes
import WiseLabz.Lib.Machine
import WiseLabz.Lib.Threads

set_option relaxedAutoImplicit false
set_option autoImplicit false

namespace WiseLabz.Auth

open Lib

/-! ### Sessions -/

/-- A refresh token: its own id, and the session that it was issued for. -/
structure RefreshToken where
  jti : ℕ
  sessionID : ℕ
  deriving DecidableEq, Repr

/-- A row of the sessions. -/
structure Session (H : Type) where
  id : ℕ
  tokenHash : H
  deriving DecidableEq, Repr

/-- Where a request of the user stands.  `v` is the version of the password hash that it, or its
login, has verified; a request that opens a session uses its own number as the session's id. -/
inductive SessionRequest
  /-- `Login` has read the user and verified the password. -/
  | loginVerified (v : ℕ)
  /-- `Login` has answered with an MFA ticket. -/
  | ticketed (v : ℕ)
  /-- `LoginMFA` has validated a ticket. -/
  | mfaBegun (v : ℕ)
  | mfaVerified (v : ℕ)
  /-- The session is inserted. -/
  | signedIn
  | changeVerified (v : ℕ)
  /-- `ChangePassword` has written a new hash, of version `new`. -/
  | changeWritten (v new : ℕ)
  | changeEvicted (v : ℕ)
  /-- `Refresh` has validated the token and read the user. -/
  | refreshing (token : RefreshToken)
  /-- `DeleteSession` has read the session. -/
  | deleting (id : ℕ)
  | done
  deriving DecidableEq, Repr

/-- A request that has verified its credentials and not inserted its session. -/
def SessionRequest.verified : SessionRequest → Bool
  | .loginVerified _ | .mfaVerified _ | .changeVerified _ | .changeWritten _ _
  | .changeEvicted _ => true
  | _ => false

/-- A request under way that has verified a password hash older than version `v`. -/
def SessionRequest.older (v : ℕ) : SessionRequest → Bool
  | .loginVerified v' | .mfaBegun v' | .mfaVerified v' | .changeVerified v' | .changeWritten v' _
  | .changeEvicted v' => v' < v
  | _ => false

/-- A request under way that inserts a session in the end. -/
def SessionRequest.pending : SessionRequest → Bool
  | .loginVerified _ | .mfaBegun _ | .mfaVerified _ | .changeVerified _ | .changeWritten _ _
  | .changeEvicted _ => true
  | _ => false

/-- The numbers of the requests with a property. -/
def numbers (p : SessionRequest → Bool) (requests : List SessionRequest) : List ℕ :=
  (List.range requests.length).filter fun i => (requests[i]?).any p

structure SessionState (H : Type) where
  /-- The version of the password hash. -/
  version : ℕ
  /-- The newest version for which older sessions were evicted. -/
  evicted : ℕ
  sessions : List (Session H)
  requests : List SessionRequest
  issued : List RefreshToken
  /-- The tokens that `Refresh` has accepted. -/
  accepted : List RefreshToken
  /-- The sessions, by their ids, of which no token may be accepted any more. -/
  revoked : List ℕ

/-! ### Requests -/

inductive SessionEvent
  | login
  | ticket (i : ℕ)
  /-- `LoginMFA`, with the ticket that request `j` was answered with. -/
  | loginMFA (j : ℕ)
  | verifyFactor (i : ℕ)
  /-- `CreateSession` of a login. -/
  | create (i jti : ℕ)
  | change
  | changeWrite (i : ℕ)
  | changeEvict (i : ℕ)
  | changeCreate (i jti : ℕ)
  | refresh (token : RefreshToken)
  | rotate (i jti : ℕ)
  /-- `Logout`, which ends well whether or not the sessions can be deleted. -/
  | logout (ok : Bool)
  | getSession (id : ℕ)
  | deleteSession (i : ℕ)
  deriving DecidableEq, Repr

section Steps

variable {H : Type} (hashToken : RefreshToken → H)

/-- `CreateSession` of request `i`, with a new token. -/
def createSession (s : SessionState H) (i jti : ℕ) : Option (SessionState H) :=
  if ∀ t ∈ s.issued, t.jti ≠ jti then
    some { s with
      sessions := s.sessions ++ [⟨i, hashToken ⟨jti, i⟩⟩]
      issued := s.issued ++ [⟨jti, i⟩]
      requests := s.requests.set i .signedIn }
  else none

/-- **One store call**, with the checks that come before it. -/
def nextSession [DecidableEq H] (s : SessionState H) : SessionEvent → Option (SessionState H)
  | .login => some { s with requests := s.requests ++ [.loginVerified s.version] }
  | .ticket i =>
      match s.requests[i]? with
      | some (.loginVerified v) => some { s with requests := s.requests.set i (.ticketed v) }
      | _ => none
  | .loginMFA j =>
      match s.requests[j]? with
      | some (.ticketed v) => some { s with
          requests := s.requests ++ [.mfaBegun v]
          revoked := if v < s.evicted then s.requests.length :: s.revoked else s.revoked }
      | _ => none
  | .verifyFactor i =>
      match s.requests[i]? with
      | some (.mfaBegun v) => some { s with requests := s.requests.set i (.mfaVerified v) }
      | _ => none
  | .create i jti =>
      match s.requests[i]? with
      | some (.loginVerified _) | some (.mfaVerified _) => createSession hashToken s i jti
      | _ => none
  | .change => some { s with requests := s.requests ++ [.changeVerified s.version] }
  | .changeWrite i =>
      match s.requests[i]? with
      | some (.changeVerified v) => some { s with
          version := s.version + 1
          requests := s.requests.set i (.changeWritten v (s.version + 1)) }
      | _ => none
  | .changeEvict i =>
      match s.requests[i]? with
      | some (.changeWritten v new) => some { s with
          sessions := []
          evicted := max s.evicted new
          requests := s.requests.set i (.changeEvicted v)
          revoked := s.sessions.map Session.id ++
            -- the session that this request is going to insert stays
            (numbers (SessionRequest.older new) s.requests).filter (· ≠ i) ++ s.revoked }
      | _ => none
  | .changeCreate i jti =>
      match s.requests[i]? with
      | some (.changeEvicted _) => createSession hashToken s i jti
      | _ => none
  | .refresh token =>
      if token ∈ s.issued then some { s with requests := s.requests ++ [.refreshing token] }
      else none
  | .rotate i jti =>
      match s.requests[i]? with
      | some (.refreshing token) =>
          if s.sessions.any fun r => r.tokenHash = hashToken token then
            if ∀ t ∈ s.issued, t.jti ≠ jti then
              some { s with
                sessions := s.sessions.map fun r =>
                  if r.tokenHash = hashToken token then
                    { r with tokenHash := hashToken ⟨jti, token.sessionID⟩ }
                  else r
                issued := s.issued ++ [⟨jti, token.sessionID⟩]
                accepted := s.accepted ++ [token]
                requests := s.requests.set i .done }
            else none
          else some { s with requests := s.requests.set i .done }
      | _ => none
  | .logout ok => some { s with
      sessions := if ok then [] else s.sessions
      revoked := s.sessions.map Session.id ++ numbers SessionRequest.verified s.requests ++
        s.revoked }
  | .getSession id =>
      if s.sessions.any fun r => r.id = id then
        some { s with requests := s.requests ++ [.deleting id] }
      else none
  | .deleteSession i =>
      match s.requests[i]? with
      | some (.deleting id) =>
          if s.sessions.any fun r => r.id = id then
            some { s with
              sessions := s.sessions.filter fun r => r.id ≠ id
              requests := s.requests.set i .done
              revoked := id :: s.revoked }
          else some { s with requests := s.requests.set i .done }
      | _ => none

/-- The requests of one user, from the first login on. -/
def sessionMachine [DecidableEq H] : Machine (SessionState H) SessionEvent where
  init s := s.sessions = [] ∧ s.requests = [] ∧ s.issued = [] ∧ s.accepted = [] ∧ s.revoked = []
  step s ev t := nextSession hashToken s ev = some t

/-! ### What is claimed -/

/-- A token that `Refresh` would accept. -/
def Acceptable (s : SessionState H) (t : RefreshToken) : Prop :=
  t ∈ s.issued ∧ ∃ r ∈ s.sessions, r.tokenHash = hashToken t

/-- **Tokens are single use, and revocation is final.** -/
structure Final (s : SessionState H) : Prop where
  single : s.accepted.Nodup
  oneToken : ∀ t t', Acceptable hashToken s t → Acceptable hashToken s t' →
    t.sessionID = t'.sessionID → t = t'
  spent : ∀ t ∈ s.accepted, ¬ Acceptable hashToken s t
  final : ∀ t, Acceptable hashToken s t → t.sessionID ∉ s.revoked

/-- **The condition on a step**: no session is inserted by a request whose sessions were deleted
meanwhile, and a logout deletes the sessions that there are. -/
def unrevoked (s : SessionState H) : SessionEvent → Bool
  | .create i _ | .changeCreate i _ => i ∉ s.revoked
  | .logout ok => ok || s.sessions.isEmpty
  | _ => true

/-- What holds of the sessions and of the tokens. -/
structure SessionInv (s : SessionState H) : Prop where
  ids : (s.sessions.map Session.id).Nodup
  /-- A session holds the hash of an issued token that was not spent. -/
  tokens : ∀ r ∈ s.sessions, ∃ t ∈ s.issued,
    r.tokenHash = hashToken t ∧ t.sessionID = r.id ∧ t ∉ s.accepted
  signedIn : ∀ r ∈ s.sessions, s.requests[r.id]? = some .signedIn
  accepted : ∀ t ∈ s.accepted, t ∈ s.issued
  single : s.accepted.Nodup
  /-- What is revoked is a session, or a request that may open one. -/
  revoked : ∀ i ∈ s.revoked, ∀ r, s.requests[i]? = some r →
    r.pending = true ∨ (∃ v, r = .ticketed v) ∨ r = .signedIn
  known : ∀ i ∈ s.revoked, i < s.requests.length

/-- No session is there of which no token may be accepted. -/
def Evicted (s : SessionState H) : Prop := ∀ r ∈ s.sessions, r.id ∉ s.revoked

variable {hashToken}

/-- **What is claimed holds as long as the revoked sessions are gone.** -/
theorem SessionInv.final_iff {s : SessionState H} (hinj : Function.Injective hashToken)
    (h : SessionInv hashToken s) : Final hashToken s ↔ Evicted s := by
  have hrow : ∀ t, Acceptable hashToken s t → ∃ r ∈ s.sessions, r.tokenHash = hashToken t ∧
      t.sessionID = r.id ∧ t ∉ s.accepted := by
    rintro t ⟨-, r, hr, hhash⟩
    obtain ⟨t', ht', hhash', hid, hspent⟩ := h.tokens r hr
    obtain rfl : t' = t := hinj (hhash'.symm.trans hhash)
    exact ⟨r, hr, hhash, hid, hspent⟩
  constructor
  · intro hfinal r hr
    obtain ⟨t, ht, hhash, hid, -⟩ := h.tokens r hr
    exact hid ▸ hfinal.final t ⟨ht, r, hr, hhash⟩
  · intro hevicted
    refine ⟨h.single, ?_, ?_, ?_⟩
    · intro t t' ht ht' hsession
      obtain ⟨r, hr, hhash, hid, -⟩ := hrow t ht
      obtain ⟨r', hr', hhash', hid', -⟩ := hrow t' ht'
      obtain rfl : r = r' := List.inj_on_of_nodup_map h.ids hr hr'
        (hid.symm.trans (hsession.trans hid'))
      exact hinj (hhash.symm.trans hhash')
    · intro t ht hacceptable
      obtain ⟨r, -, -, -, hspent⟩ := hrow t hacceptable
      exact hspent ht
    · intro t hacceptable
      obtain ⟨r, hr, -, hid, -⟩ := hrow t hacceptable
      exact hid ▸ hevicted r hr

/-! ### The steps -/

theorem mem_numbers {p : SessionRequest → Bool} {requests : List SessionRequest} {i : ℕ} :
    i ∈ numbers p requests ↔ ∃ r, requests[i]? = some r ∧ p r = true := by
  rw [numbers, List.mem_filter, List.mem_range]
  constructor
  · rintro ⟨hi, hp⟩
    rw [List.getElem?_eq_getElem hi] at hp ⊢
    exact ⟨_, rfl, hp⟩
  · rintro ⟨r, hr, hp⟩
    obtain ⟨hi, -⟩ := List.getElem?_eq_some_iff.1 hr
    rw [hr]
    exact ⟨hi, hp⟩

theorem length_of_getElem? {requests : List SessionRequest} {i : ℕ} {r : SessionRequest}
    (h : requests[i]? = some r) : i < requests.length := (List.getElem?_eq_some_iff.1 h).1

/-- What may be revoked. -/
def SessionRequest.opens (r : SessionRequest) : Prop :=
  r.pending = true ∨ (∃ v, r = .ticketed v) ∨ r = .signedIn

variable {s : SessionState H}

/-- A request begins. -/
theorem SessionInv.begin (h : SessionInv hashToken s) (r : SessionRequest) :
    SessionInv hashToken { s with requests := s.requests ++ [r] } where
  ids := h.ids
  tokens := h.tokens
  signedIn r' hr' := by
    have hsome := h.signedIn r' hr'
    rwa [List.getElem?_append_left (length_of_getElem? hsome)]
  accepted := h.accepted
  single := h.single
  revoked i hi r' hr' := by
    rw [List.getElem?_append_left (h.known i hi)] at hr'
    exact h.revoked i hi r' hr'
  known i hi := by
    have := h.known i hi
    rw [List.length_append]
    omega

/-- A request goes on that has not opened a session. -/
theorem SessionInv.move (h : SessionInv hashToken s) {i : ℕ} {r r' : SessionRequest}
    (hi : s.requests[i]? = some r) (hr : r ≠ .signedIn) (hr' : r.opens → r'.opens) (version : ℕ) :
    SessionInv hashToken { s with version := version, requests := s.requests.set i r' } where
  ids := h.ids
  tokens := h.tokens
  signedIn row hrow := by
    have hsome := h.signedIn row hrow
    rw [getElem?_set_of_some hi, if_neg]
    · exact hsome
    · rintro hid
      rw [hid, hi] at hsome
      exact hr (Option.some.inj hsome)
  accepted := h.accepted
  single := h.single
  revoked j hj q hq := by
    rw [getElem?_set_of_some hi] at hq
    split at hq
    · next hji =>
        obtain rfl := Option.some.inj hq
        exact hr' (h.revoked j hj r (hji ▸ hi))
    · exact h.revoked j hj q hq
  known j hj := by
    rw [List.length_set]
    exact h.known j hj

/-- Some sessions are deleted, and more is revoked. -/
theorem SessionInv.evict (h : SessionInv hashToken s) {sessions : List (Session H)}
    (hsub : sessions.Sublist s.sessions) {revoked : List ℕ} (evicted : ℕ)
    (hrevoked : ∀ i ∈ revoked, i ∈ s.revoked ∨ ∃ r, s.requests[i]? = some r ∧ r.opens) :
    SessionInv hashToken { s with
      sessions := sessions
      evicted := evicted
      revoked := revoked } where
  ids := h.ids.sublist (hsub.map _)
  tokens r hr := h.tokens r (hsub.subset hr)
  signedIn r hr := h.signedIn r (hsub.subset hr)
  accepted := h.accepted
  single := h.single
  revoked i hi r hr := by
    rcases hrevoked i hi with hold | ⟨r', hr', hopens⟩
    · exact h.revoked i hold r hr
    · obtain rfl := Option.some.inj (hr'.symm.trans hr)
      exact hopens
  known i hi := by
    rcases hrevoked i hi with hold | ⟨r', hr', -⟩
    · exact h.known i hold
    · exact length_of_getElem? hr'

/-- The rows, and requests under way with a property, may be revoked. -/
theorem SessionInv.mem_revoked (h : SessionInv hashToken s) {p : SessionRequest → Bool}
    (hp : ∀ r, p r = true → r.pending = true) {more : List ℕ} (hmore : more ⊆ numbers p s.requests)
    {i : ℕ} (hi : i ∈ s.sessions.map Session.id ++ more ++ s.revoked) :
    i ∈ s.revoked ∨ ∃ r, s.requests[i]? = some r ∧ r.opens := by
  rcases List.mem_append.1 hi with hi | hi
  · right
    rcases List.mem_append.1 hi with hi | hi
    · obtain ⟨row, hrow, rfl⟩ := List.mem_map.1 hi
      exact ⟨_, h.signedIn row hrow, .inr (.inr rfl)⟩
    · obtain ⟨r, hr, hpr⟩ := mem_numbers.1 (hmore hi)
      exact ⟨r, hr, .inl (hp r hpr)⟩
  · exact .inl hi

/-- **A session is inserted.** -/
theorem SessionInv.create (h : SessionInv hashToken s) {i jti : ℕ} {r : SessionRequest}
    (hi : s.requests[i]? = some r) (hr : r ≠ .signedIn) (hjti : ∀ t ∈ s.issued, t.jti ≠ jti) :
    SessionInv hashToken { s with
      sessions := s.sessions ++ [⟨i, hashToken ⟨jti, i⟩⟩]
      issued := s.issued ++ [⟨jti, i⟩]
      requests := s.requests.set i .signedIn } where
  ids := by
    rw [List.map_append]
    refine h.ids.append (List.nodup_singleton _) ?_
    intro id hid hid'
    obtain ⟨row, hrow, rfl⟩ := List.mem_map.1 hid
    have hsome := h.signedIn row hrow
    rw [List.mem_singleton.1 hid'] at hsome
    exact hr (Option.some.inj (hi.symm.trans hsome))
  tokens := by
    refine forall_mem_append_singleton (fun row hrow => ?_) ?_
    · obtain ⟨t, ht, hrest⟩ := h.tokens row hrow
      exact ⟨t, List.mem_append_left _ ht, hrest⟩
    · refine ⟨⟨jti, i⟩, List.mem_append_right _ List.mem_cons_self, rfl, rfl, fun hmem => ?_⟩
      exact hjti _ (h.accepted _ hmem) rfl
  signedIn := by
    refine forall_mem_append_singleton (fun row hrow => ?_) ?_
    · have hsome := h.signedIn row hrow
      rw [getElem?_set_of_some hi]
      split
      · rfl
      · exact hsome
    · exact (getElem?_set_of_some hi).trans (if_pos rfl)
  accepted t ht := List.mem_append_left _ (h.accepted t ht)
  single := h.single
  revoked j hj q hq := by
    rw [getElem?_set_of_some hi] at hq
    split at hq
    · obtain rfl := Option.some.inj hq
      exact .inr (.inr rfl)
    · exact h.revoked j hj q hq
  known j hj := by
    rw [List.length_set]
    exact h.known j hj

/-- **A token is replaced** by a new one for the same session. -/
theorem SessionInv.rotate [DecidableEq H] (hinj : Function.Injective hashToken)
    (h : SessionInv hashToken s)
    {i jti : ℕ} {token : RefreshToken} (hi : s.requests[i]? = some (.refreshing token))
    (hrow : ∃ r ∈ s.sessions, r.tokenHash = hashToken token)
    (hjti : ∀ t ∈ s.issued, t.jti ≠ jti) :
    SessionInv hashToken { s with
      sessions := s.sessions.map fun r =>
        if r.tokenHash = hashToken token then
          { r with tokenHash := hashToken ⟨jti, token.sessionID⟩ }
        else r
      issued := s.issued ++ [⟨jti, token.sessionID⟩]
      accepted := s.accepted ++ [token]
      requests := s.requests.set i .done } := by
  have hmap : ∀ r : Session H, (if r.tokenHash = hashToken token then
      ({ r with tokenHash := hashToken ⟨jti, token.sessionID⟩ } : Session H) else r).id = r.id := by
    intro r
    split <;> rfl
  obtain ⟨row, hmem, hhash⟩ := hrow
  obtain ⟨t, ht, hhash', -, hspent⟩ := h.tokens row hmem
  obtain rfl : t = token := hinj (hhash'.symm.trans hhash)
  have hids : (s.sessions.map fun r => if r.tokenHash = hashToken t then
      ({ r with tokenHash := hashToken ⟨jti, t.sessionID⟩ } : Session H) else r).map Session.id =
        s.sessions.map Session.id := by
    rw [List.map_map]
    exact List.map_congr_left fun r _ => hmap r
  have hmoved := h.move hi (fun hcontra => nomatch hcontra)
    (fun hopens : (SessionRequest.refreshing t).opens => show SessionRequest.done.opens by
      rcases hopens with hopens | ⟨v, hopens⟩ | hopens <;> cases hopens) s.version
  refine ⟨hids ▸ h.ids, ?_, ?_, ?_, ?_, hmoved.revoked, hmoved.known⟩
  · intro r' hr'
    obtain ⟨r, hr, rfl⟩ := List.mem_map.1 hr'
    obtain ⟨u, hu, huhash, huid, huspent⟩ := h.tokens r hr
    by_cases heq : r.tokenHash = hashToken t
    · -- the session's token was the one that is spent now
      obtain rfl : u = t := hinj (huhash.symm.trans heq)
      refine ⟨⟨jti, u.sessionID⟩, List.mem_append_right _ List.mem_cons_self, ?_, ?_, ?_⟩
      · rw [if_pos heq]
      · rw [hmap]
        exact huid
      · intro hmem'
        rcases List.mem_append.1 hmem' with hmem' | hmem'
        · exact hjti _ (h.accepted _ hmem') rfl
        · exact hjti u hu (congrArg RefreshToken.jti (List.mem_singleton.1 hmem')).symm
    · refine ⟨u, List.mem_append_left _ hu, ?_, ?_, ?_⟩
      · rw [if_neg heq]
        exact huhash
      · rw [hmap]
        exact huid
      · intro hmem'
        rcases List.mem_append.1 hmem' with hmem' | hmem'
        · exact huspent hmem'
        · rw [List.mem_singleton.1 hmem'] at huhash
          exact heq huhash
  · intro r' hr'
    obtain ⟨r, hr, rfl⟩ := List.mem_map.1 hr'
    rw [hmap]
    exact hmoved.signedIn r hr
  · intro u hu
    rcases List.mem_append.1 hu with hu | hu
    · exact List.mem_append_left _ (h.accepted u hu)
    · exact List.mem_append_left _ (List.mem_singleton.1 hu ▸ ht)
  · refine h.single.append (List.nodup_singleton _) ?_
    intro u hu hu'
    exact hspent (List.mem_singleton.1 hu' ▸ hu)

theorem createSession_eq_some {i jti : ℕ} {t : SessionState H} :
    createSession hashToken s i jti = some t ↔ (∀ u ∈ s.issued, u.jti ≠ jti) ∧
      { s with
        sessions := s.sessions ++ [⟨i, hashToken ⟨jti, i⟩⟩]
        issued := s.issued ++ [⟨jti, i⟩]
        requests := s.requests.set i .signedIn } = t := by
  rw [createSession]
  split
  · next hjti =>
      rw [Option.some.injEq]
      exact ⟨fun heq => ⟨hjti, heq⟩, fun heq => heq.2⟩
  · next hjti => exact ⟨(fun heq => nomatch heq), fun heq => absurd heq.1 hjti⟩

/-- A session that is inserted is revoked already exactly if its request is. -/
theorem evicted_create {i jti : ℕ} {t : SessionState H} (hs : Evicted s)
    (hcreate : createSession hashToken s i jti = some t) : Evicted t ↔ i ∉ s.revoked := by
  obtain ⟨-, rfl⟩ := createSession_eq_some.1 hcreate
  constructor
  · exact fun hevicted => hevicted ⟨i, _⟩ (List.mem_append_right _ List.mem_cons_self)
  · exact fun hi => forall_mem_append_singleton hs hi

variable [DecidableEq H]

/-- **Every step keeps it.** -/
theorem SessionInv.next (hinj : Function.Injective hashToken) {t : SessionState H}
    {ev : SessionEvent} (h : SessionInv hashToken s) (hnext : nextSession hashToken s ev = some t) :
    SessionInv hashToken t := by
  cases ev with
  | login =>
      obtain rfl := Option.some.inj hnext
      exact h.begin _
  | ticket i =>
      simp only [nextSession] at hnext
      split at hnext
      · next v hi =>
          obtain rfl := Option.some.inj hnext
          exact h.move hi (fun hcontra => nomatch hcontra) (fun _ => .inr (.inl ⟨v, rfl⟩)) s.version
      · cases hnext
  | loginMFA j =>
      simp only [nextSession] at hnext
      split at hnext
      · next v hj =>
          obtain rfl := Option.some.inj hnext
          have hbegun := h.begin (.mfaBegun v)
          refine hbegun.evict (List.Sublist.refl _) s.evicted fun i hi => ?_
          split at hi
          · rcases List.mem_cons.1 hi with rfl | hi
            · exact .inr ⟨_, List.getElem?_concat_length, .inl rfl⟩
            · exact .inl hi
          · exact .inl hi
      · cases hnext
  | verifyFactor i =>
      simp only [nextSession] at hnext
      split at hnext
      · next v hi =>
          obtain rfl := Option.some.inj hnext
          exact h.move hi (fun hcontra => nomatch hcontra) (fun _ => .inl rfl) s.version
      · cases hnext
  | create i jti =>
      simp only [nextSession] at hnext
      split at hnext
      · next v hi =>
          obtain ⟨hjti, rfl⟩ := createSession_eq_some.1 hnext
          exact h.create hi (fun hcontra => nomatch hcontra) hjti
      · next v hi =>
          obtain ⟨hjti, rfl⟩ := createSession_eq_some.1 hnext
          exact h.create hi (fun hcontra => nomatch hcontra) hjti
      · cases hnext
  | change =>
      obtain rfl := Option.some.inj hnext
      exact h.begin _
  | changeWrite i =>
      simp only [nextSession] at hnext
      split at hnext
      · next v hi =>
          obtain rfl := Option.some.inj hnext
          exact h.move hi (fun hcontra => nomatch hcontra) (fun _ => .inl rfl) _
      · cases hnext
  | changeEvict i =>
      simp only [nextSession] at hnext
      split at hnext
      · next v new hi =>
          obtain rfl := Option.some.inj hnext
          have hpending : ∀ r : SessionRequest, r.older new = true → r.pending = true := by
            intro r hr
            cases r <;> first | rfl | cases hr
          have hothers : (numbers (SessionRequest.older new) s.requests).filter (· ≠ i) ⊆
              numbers (SessionRequest.older new) s.requests := fun j hj => (List.mem_filter.1 hj).1
          have hevicted := h.evict (List.nil_sublist s.sessions) (max s.evicted new)
            fun j hj => h.mem_revoked hpending hothers hj
          exact hevicted.move hi (fun hcontra => nomatch hcontra) (fun _ => .inl rfl) s.version
      · cases hnext
  | changeCreate i jti =>
      simp only [nextSession] at hnext
      split at hnext
      · next v hi =>
          obtain ⟨hjti, rfl⟩ := createSession_eq_some.1 hnext
          exact h.create hi (fun hcontra => nomatch hcontra) hjti
      · cases hnext
  | refresh token =>
      simp only [nextSession] at hnext
      split at hnext
      · obtain rfl := Option.some.inj hnext
        exact h.begin _
      · cases hnext
  | rotate i jti =>
      simp only [nextSession] at hnext
      split at hnext
      · next token hi =>
          split at hnext
          · next hrow =>
              split at hnext
              · next hjti =>
                  obtain rfl := Option.some.inj hnext
                  obtain ⟨r, hr, hhash⟩ := List.any_eq_true.1 hrow
                  exact h.rotate hinj hi ⟨r, hr, of_decide_eq_true hhash⟩ hjti
              · cases hnext
          · obtain rfl := Option.some.inj hnext
            exact h.move hi (fun hcontra => nomatch hcontra)
              (fun hopens => by rcases hopens with hopens | ⟨v, hopens⟩ | hopens <;> cases hopens)
              s.version
      · cases hnext
  | logout ok =>
      obtain rfl := Option.some.inj hnext
      have hpending : ∀ r : SessionRequest, r.verified = true → r.pending = true := by
        intro r hr
        cases r <;> first | rfl | cases hr
      refine h.evict ?_ s.evicted fun j hj => h.mem_revoked hpending (List.Subset.refl _) hj
      cases ok
      · exact List.Sublist.refl _
      · exact List.nil_sublist _
  | getSession id =>
      simp only [nextSession] at hnext
      split at hnext
      · obtain rfl := Option.some.inj hnext
        exact h.begin _
      · cases hnext
  | deleteSession i =>
      simp only [nextSession] at hnext
      split at hnext
      · next id hi =>
          have hclosed : (SessionRequest.deleting id).opens → SessionRequest.done.opens := by
            rintro (hopens | ⟨v, hopens⟩ | hopens) <;> cases hopens
          split at hnext
          · next hrow =>
              obtain rfl := Option.some.inj hnext
              obtain ⟨r, hr, hid⟩ := List.any_eq_true.1 hrow
              have hrevoked : ∀ j ∈ id :: s.revoked,
                  j ∈ s.revoked ∨ ∃ q, s.requests[j]? = some q ∧ q.opens := by
                intro j hj
                rcases List.mem_cons.1 hj with rfl | hj
                · exact .inr ⟨_, of_decide_eq_true hid ▸ h.signedIn r hr, .inr (.inr rfl)⟩
                · exact .inl hj
              have hevicted := h.evict (List.filter_sublist (p := fun r => decide (r.id ≠ id)))
                s.evicted hrevoked
              exact hevicted.move hi (fun hcontra => nomatch hcontra) hclosed s.version
          · obtain rfl := Option.some.inj hnext
            exact h.move hi (fun hcontra => nomatch hcontra) hclosed s.version
      · cases hnext

/-- **A step keeps the revoked sessions away** exactly if it meets the condition. -/
theorem evicted_next {t : SessionState H} {ev : SessionEvent} (h : SessionInv hashToken s)
    (hs : Evicted s) (hnext : nextSession hashToken s ev = some t) :
    Evicted t ↔ unrevoked s ev = true := by
  cases ev with
  | login =>
      obtain rfl := Option.some.inj hnext
      exact iff_of_true hs rfl
  | ticket i =>
      simp only [nextSession] at hnext
      split at hnext
      · obtain rfl := Option.some.inj hnext
        exact iff_of_true hs rfl
      · cases hnext
  | loginMFA j =>
      simp only [nextSession] at hnext
      split at hnext
      · next v hj =>
          obtain rfl := Option.some.inj hnext
          refine iff_of_true (fun r hr hmem => ?_) rfl
          have hmem : r.id ∈ if v < s.evicted then s.requests.length :: s.revoked
              else s.revoked := hmem
          split at hmem
          · rcases List.mem_cons.1 hmem with hid | hmem
            · have hlt := length_of_getElem? (h.signedIn r hr)
              omega
            · exact hs r hr hmem
          · exact hs r hr hmem
      · cases hnext
  | verifyFactor i =>
      simp only [nextSession] at hnext
      split at hnext
      · obtain rfl := Option.some.inj hnext
        exact iff_of_true hs rfl
      · cases hnext
  | create i jti =>
      rw [unrevoked, decide_eq_true_eq]
      simp only [nextSession] at hnext
      split at hnext
      · exact evicted_create hs hnext
      · exact evicted_create hs hnext
      · cases hnext
  | change =>
      obtain rfl := Option.some.inj hnext
      exact iff_of_true hs rfl
  | changeWrite i =>
      simp only [nextSession] at hnext
      split at hnext
      · obtain rfl := Option.some.inj hnext
        exact iff_of_true hs rfl
      · cases hnext
  | changeEvict i =>
      simp only [nextSession] at hnext
      split at hnext
      · obtain rfl := Option.some.inj hnext
        exact iff_of_true (fun r hr => absurd hr List.not_mem_nil) rfl
      · cases hnext
  | changeCreate i jti =>
      rw [unrevoked, decide_eq_true_eq]
      simp only [nextSession] at hnext
      split at hnext
      · exact evicted_create hs hnext
      · cases hnext
  | refresh token =>
      simp only [nextSession] at hnext
      split at hnext
      · obtain rfl := Option.some.inj hnext
        exact iff_of_true hs rfl
      · cases hnext
  | rotate i jti =>
      simp only [nextSession] at hnext
      split at hnext
      · split at hnext
        · split at hnext
          · obtain rfl := Option.some.inj hnext
            refine iff_of_true (fun r' hr' => ?_) rfl
            obtain ⟨r, hr, rfl⟩ := List.mem_map.1 hr'
            split
            · exact hs r hr
            · exact hs r hr
          · cases hnext
        · obtain rfl := Option.some.inj hnext
          exact iff_of_true hs rfl
      · cases hnext
  | logout ok =>
      obtain rfl := Option.some.inj hnext
      cases ok with
      | true => exact iff_of_true (fun r hr => absurd hr List.not_mem_nil) rfl
      | false =>
          rw [unrevoked, Bool.false_or, List.isEmpty_iff]
          constructor
          · intro hevicted
            refine List.eq_nil_iff_forall_not_mem.2 fun r hr => hevicted r hr ?_
            exact List.mem_append_left _ (List.mem_append_left _ (List.mem_map_of_mem hr))
          · intro hnil r hr
            have hr : r ∈ s.sessions := hr
            rw [hnil] at hr
            exact absurd hr List.not_mem_nil
  | getSession id =>
      simp only [nextSession] at hnext
      split at hnext
      · obtain rfl := Option.some.inj hnext
        exact iff_of_true hs rfl
      · cases hnext
  | deleteSession i =>
      simp only [nextSession] at hnext
      split at hnext
      · next id hi =>
          split at hnext
          · obtain rfl := Option.some.inj hnext
            refine iff_of_true (fun r hr hmem => ?_) rfl
            obtain ⟨hr, hne⟩ := List.mem_filter.1 hr
            rcases List.mem_cons.1 hmem with hid | hmem
            · exact of_decide_eq_true hne hid
            · exact hs r hr hmem
          · obtain rfl := Option.some.inj hnext
            exact iff_of_true hs rfl
      · cases hnext

/-- **When tokens are single use and revocation is final**: along a sequence of store calls, exactly
when no login and no change of the password inserts its session after the sessions were deleted
behind it, and every logout deletes what there is. -/
theorem sessions_final_iff (hinj : Function.Injective hashToken) (version : ℕ)
    (evs : List SessionEvent) :
    (sessionMachine hashToken).Along ⟨version, 0, [], [], [], [], []⟩ evs
        (fun _ _ t => Final hashToken t) ↔
      (sessionMachine hashToken).Along ⟨version, 0, [], [], [], [], []⟩ evs
        fun s ev _ => unrevoked s ev = true := by
  refine Machine.along_iff (I := fun s => SessionInv hashToken s ∧ Evicted s)
    (C := fun s ev => unrevoked s ev = true) ?_ ?_ ?_
  · intro s ev t hs hstep
    rw [(hs.1.next hinj hstep).final_iff hinj]
    exact evicted_next hs.1 hs.2 hstep
  · intro s ev t hs hstep hunrevoked
    exact ⟨hs.1.next hinj hstep, (evicted_next hs.1 hs.2 hstep).2 hunrevoked⟩
  · refine ⟨⟨List.nodup_nil, ?_, ?_, ?_, List.nodup_nil, ?_, ?_⟩, ?_⟩ <;>
      exact fun _ hmem => absurd hmem List.not_mem_nil

end Steps

/-- A login, a refresh and a logout, one after the other. -/
theorem sessions_final_sample :
    (sessionMachine (id : RefreshToken → RefreshToken)).Along ⟨0, 0, [], [], [], [], []⟩
      [.login, .create 0 0, .refresh ⟨0, 0⟩, .rotate 1 1, .logout true]
      fun _ _ t => Final id t :=
  (sessions_final_iff Function.injective_id 0 _).2
    (Machine.along_of_check (fun _ _ _ => Iff.rfl)
      (show Machine.alongCheck (nextSession id) unrevoked _ _ = true by decide))

/-- A logout between a login's check and its session. -/
def logoutBetween : List SessionEvent := [.login, .logout true, .create 0 0, .refresh ⟨0, 0⟩]

/-- A change of the password between a login's check and its session. -/
def changeBetween : List SessionEvent :=
  [.login, .change, .changeWrite 1, .changeEvict 1, .changeCreate 1 1, .create 0 0, .refresh ⟨0, 0⟩]

/-- The login's token is accepted afterwards. -/
theorem login_survives_revocation :
    (∃ s t, (sessionMachine (id : RefreshToken → RefreshToken)).Reachable s ∧ s.revoked = [0] ∧
      nextSession id s (.rotate 1 1) = some t ∧ t.accepted = [⟨0, 0⟩]) ∧
    ∃ s t, (sessionMachine (id : RefreshToken → RefreshToken)).Reachable s ∧ s.revoked = [0] ∧
      nextSession id s (.rotate 2 2) = some t ∧ t.accepted = [⟨0, 0⟩] := by
  have hrun : ∀ (evs : List SessionEvent) (ev : SessionEvent), ((evs.foldlM (nextSession id)
      (⟨0, 0, [], [], [], [], []⟩ : SessionState RefreshToken)).bind fun s =>
        (nextSession id s ev).map fun t => (s.revoked, t.accepted)) = some ([0], [⟨0, 0⟩]) →
      ∃ s t, (sessionMachine (id : RefreshToken → RefreshToken)).Reachable s ∧ s.revoked = [0] ∧
        nextSession id s ev = some t ∧ t.accepted = [⟨0, 0⟩] := by
    intro evs ev heq
    obtain ⟨s, hs, hnext⟩ := Option.bind_eq_some_iff.1 heq
    obtain ⟨t, ht, hvalue⟩ := Option.map_eq_some_iff.1 hnext
    obtain ⟨hrevoked, haccepted⟩ := Prod.ext_iff.1 hvalue
    have hinit : (sessionMachine (id : RefreshToken → RefreshToken)).Reachable
        ⟨0, 0, [], [], [], [], []⟩ := .of_init ⟨rfl, rfl, rfl, rfl, rfl⟩
    exact ⟨s, t, hinit.foldlM (fun _ _ _ h => h) hs, hrevoked, ht, haccepted⟩
  exact ⟨hrun logoutBetween _ (by decide), hrun changeBetween _ (by decide)⟩

end WiseLabz.Auth
