/-
**The cache of user statuses.**

Every request asks for the role and the disabled flag of its user, so the store caches them for half
a minute.  A lookup, the read from the database and the filling of the cache are separate steps, and
so are the commit of a mutation and the invalidation after it; a read that a mutation overtakes must
not fill the cache with what it read.  A counter tells whether one did.

Main definitions:

* `UserStatus.StatusCache` — the generation counter and the cached entries;
* `UserStatus.CacheState` — the committed databases, the cache and the calls in flight;
* `UserStatus.next` — **one step** of any of the calls;
* `UserStatus.Fresh` — an answer is no older than the mutations that had returned when its call
  began.

Main results:

* `UserStatus.inv_next` — what every step preserves;
* `UserStatus.status_never_revoked` — **no answer is from before a mutation that had returned**.
-/

import WiseLabz.Lib.Bytes
import WiseLabz.Lib.Machine
import WiseLabz.Lib.Table

set_option relaxedAutoImplicit false
set_option autoImplicit false

namespace WiseLabz.UserStatus

open Lib

/-! ### Users and their statuses -/

/-- A user, as far as its status is concerned. -/
structure UserRow where
  id : Bytes
  role : Bytes
  disabled : Bool
  deriving DecidableEq, Repr

/-- A cached status. -/
structure StatusEntry where
  userID : Bytes
  role : Bytes
  disabled : Bool
  expires : ℕ
  deriving DecidableEq, Repr

/-- The cache of a store.  The counter is a number: it does not wrap. -/
structure StatusCache where
  generation : ℕ
  statuses : List StatusEntry
  deriving DecidableEq, Repr

def StatusCache.empty : StatusCache := ⟨0, []⟩

/-- Drops the entries, and what reads in flight would add. -/
def invalidateUserStatuses (c : StatusCache) : StatusCache := ⟨c.generation + 1, []⟩

/-- How many entries the cache may hold, and for how long in milliseconds. -/
def maxStatuses : ℕ := 4096

def statusLifetime : ℕ := 30000

/-- Fills the cache with what a read found, unless it was invalidated since the lookup. -/
def fillStatus (c : StatusCache) (generation now : ℕ) (row : UserRow) : StatusCache :=
  if generation = c.generation then
    let statuses := if maxStatuses ≤ c.statuses.length then [] else c.statuses
    { c with
      statuses := put StatusEntry.userID statuses
        ⟨row.id, row.role, row.disabled, now + statusLifetime⟩ }
  else c

/-! ### Mutations -/

/-- The columns that an update of a user sets; other columns are not seen here. -/
structure UserUpdate where
  role : Option Bytes
  disabled : Option Bool
  deriving DecidableEq, Repr

/-- The rows after an update, if the user exists. -/
def updateRow (users : List UserRow) (id : Bytes) (u : UserUpdate) : Option (List UserRow) :=
  if (lookup UserRow.id users id).isSome then
    some (users.map fun r =>
      if r.id = id then { r with role := u.role.getD r.role, disabled := u.disabled.getD r.disabled }
      else r)
  else none

/-- The rows after a deletion, if the user exists. -/
def deleteRow (users : List UserRow) (id : Bytes) : Option (List UserRow) :=
  if (lookup UserRow.id users id).isSome then some (users.filter fun r => r.id ≠ id) else none

/-- A store that is bound to a transaction: it has a cache of its own. -/
structure TxStore where
  users : List UserRow
  cache : StatusCache

/-- An operation within a transaction. -/
inductive TxOp
  | updateUser (id : Bytes) (u : UserUpdate)
  | deleteUser (id : Bytes)
  /-- Any other write. -/
  | write (f : List UserRow → List UserRow)

/-- An operation invalidates the cache of its own store. -/
def TxOp.apply (s : TxStore) : TxOp → Option TxStore
  | .updateUser id u => do
      let users ← updateRow s.users id u
      some ⟨users, invalidateUserStatuses s.cache⟩
  | .deleteUser id => do
      let users ← deleteRow s.users id
      some ⟨users, invalidateUserStatuses s.cache⟩
  | .write f => some ⟨f s.users, s.cache⟩

/-- The rows that a transaction commits, unless an operation of it fails. -/
def transactionRows (users : List UserRow) (ops : List TxOp) : Option (List UserRow) :=
  (ops.foldlM TxOp.apply ⟨users, .empty⟩).map TxStore.users

/-! ### Calls -/

/-- A call between two of its steps.  `floor` is the number of commits that had been invalidated
when it began. -/
inductive Call
  /-- A lookup that found nothing, with the time and the generation it saw. -/
  | missed (user : Bytes) (now generation floor : ℕ)
  /-- A read: after how many commits, and what it found. -/
  | read (user : Bytes) (now generation floor version : ℕ) (row : Option UserRow)
  /-- A mutation that has committed, as which commit. -/
  | committed (version : ℕ)
  | done
  deriving DecidableEq, Repr

/-- What a call returned. -/
structure Answer where
  user : Bytes
  role : Bytes
  disabled : Bool
  floor : ℕ
  deriving DecidableEq, Repr

/-- The committed databases, oldest first after the initial one, the cache of the store, the calls
in flight and the answers so far; `returned` is the last commit whose mutation has returned. -/
structure CacheState where
  initial : List UserRow
  history : List (List UserRow)
  cache : StatusCache
  calls : List Call
  returned : ℕ
  answers : List Answer

def CacheState.start (users : List UserRow) : CacheState := ⟨users, [], .empty, [], 0, []⟩

/-- The database after a number of commits. -/
def CacheState.version (s : CacheState) (k : ℕ) : Option (List UserRow) :=
  (s.initial :: s.history)[k]?

/-- The last committed database. -/
def CacheState.users (s : CacheState) : List UserRow := (s.initial :: s.history).getLast (by simp)

/-- Commits rows, if there are any; the mutation still has to invalidate the cache. -/
def CacheState.commit (s : CacheState) (rows : Option (List UserRow)) : CacheState :=
  match rows with
  | some rows =>
      { s with
        history := s.history ++ [rows]
        calls := s.calls ++ [.committed (s.history.length + 1)] }
  | none => s

inductive Action
  /-- A status call begins at a time: the lookup. -/
  | lookup (user : Bytes) (now : ℕ)
  /-- Its read of the database, which may fail. -/
  | query (i : ℕ) (fails : Bool)
  /-- It fills the cache and returns. -/
  | fill (i : ℕ)
  /-- A mutation, up to its commit. -/
  | updateUser (id : Bytes) (u : UserUpdate)
  | deleteUser (id : Bytes)
  | transaction (ops : List TxOp)
  /-- A mutation invalidates the cache and returns. -/
  | invalidate (i : ℕ)

/-- The lookup of a status call. -/
def lookupStatus (s : CacheState) (user : Bytes) (now : ℕ) : CacheState :=
  let missed := { s with
    calls := s.calls ++ [.missed user now s.cache.generation s.returned] }
  match lookup StatusEntry.userID s.cache.statuses user with
  | some e =>
      if now < e.expires then
        { s with answers := s.answers ++ [⟨user, e.role, e.disabled, s.returned⟩] }
      else missed
  | none => missed

/-- The read of a status call. -/
def queryStatus (s : CacheState) (i : ℕ) (fails : Bool) : CacheState :=
  match s.calls[i]? with
  | some (.missed user now generation floor) =>
      let call := if fails then .done else
        .read user now generation floor s.history.length (lookup UserRow.id s.users user)
      { s with calls := s.calls.set i call }
  | _ => s

/-- The end of a status call; a missing user is not cached. -/
def endStatus (s : CacheState) (i : ℕ) : CacheState :=
  match s.calls[i]? with
  | some (.read user now generation floor _ (some row)) =>
      { s with
        cache := fillStatus s.cache generation now row
        calls := s.calls.set i .done
        answers := s.answers ++ [⟨user, row.role, row.disabled, floor⟩] }
  | some (.read _ _ _ _ _ none) => { s with calls := s.calls.set i .done }
  | _ => s

/-- The end of a mutation. -/
def endMutation (s : CacheState) (i : ℕ) : CacheState :=
  match s.calls[i]? with
  | some (.committed version) =>
      { s with
        cache := invalidateUserStatuses s.cache
        calls := s.calls.set i .done
        returned := max s.returned version }
  | _ => s

/-- **One step** of one of the calls. -/
def next (s : CacheState) : Action → CacheState
  | .lookup user now => lookupStatus s user now
  | .query i fails => queryStatus s i fails
  | .fill i => endStatus s i
  | .updateUser id u =>
      -- disabling a user runs in a transaction of its own
      if u.disabled = some true then s.commit (transactionRows s.users [.updateUser id u])
      else s.commit (updateRow s.users id u)
  | .deleteUser id => s.commit (deleteRow s.users id)
  | .transaction ops => s.commit (transactionRows s.users ops)
  | .invalidate i => endMutation s i

/-! ### Freshness -/

/-- A status was that of a user after some commit from a given one on. -/
def Known (s : CacheState) (floor : ℕ) (user role : Bytes) (disabled : Bool) : Prop :=
  ∃ k, floor ≤ k ∧ ∃ rows, s.version k = some rows ∧
    lookup UserRow.id rows user = some ⟨user, role, disabled⟩

/-- **An answer is no older** than the mutations that had returned when its call began. -/
def Fresh (s : CacheState) (a : Answer) : Prop := Known s a.floor a.user a.role a.disabled

theorem Known.mono {s : CacheState} {m n : ℕ} {user role : Bytes} {disabled : Bool} (hmn : m ≤ n)
    (h : Known s n user role disabled) : Known s m user role disabled := by
  obtain ⟨k, hk, hrows⟩ := h
  exact ⟨k, hmn.trans hk, hrows⟩

/-- Nothing is ever removed from the history. -/
theorem version_append {s t : CacheState} {more : List (List UserRow)}
    (hinitial : t.initial = s.initial) (hhistory : t.history = s.history ++ more) {k : ℕ}
    {rows : List UserRow} (h : s.version k = some rows) : t.version k = some rows := by
  have hk : k < (s.initial :: s.history).length := (List.getElem?_eq_some_iff.1 h).1
  rw [CacheState.version, hinitial, hhistory, ← List.cons_append,
    List.getElem?_append_left hk]
  exact h

theorem Known.append {s t : CacheState} {more : List (List UserRow)}
    (hinitial : t.initial = s.initial) (hhistory : t.history = s.history ++ more) {n : ℕ}
    {user role : Bytes} {disabled : Bool} (h : Known s n user role disabled) :
    Known t n user role disabled := by
  obtain ⟨k, hk, rows, hrows, hrow⟩ := h
  exact ⟨k, hk, rows, version_append hinitial hhistory hrows, hrow⟩

theorem version_users (s : CacheState) : s.version s.history.length = some s.users := by
  rw [CacheState.version, CacheState.users, List.getLast_eq_getElem]
  exact List.getElem?_eq_getElem (by simp)

/-! ### The invariant -/

/-- What is known of a call in flight.  A read that no invalidation overtook is as new as every
mutation that has returned. -/
def CallOk (s : CacheState) : Call → Prop
  | .missed _ _ generation floor => generation ≤ s.cache.generation ∧ floor ≤ s.returned
  | .read user _ generation floor version row =>
      generation ≤ s.cache.generation ∧ floor ≤ version ∧
        (generation = s.cache.generation → s.returned ≤ version) ∧
        ∀ r, row = some r →
          ∃ rows, s.version version = some rows ∧ lookup UserRow.id rows user = some r
  | .committed version => version ≤ s.history.length
  | .done => True

/-- **The invariant**: the cached entries and the reads that may still be cached are as new as every
mutation that has returned. -/
structure Inv (s : CacheState) : Prop where
  returned : s.returned ≤ s.history.length
  cached : ∀ e ∈ s.cache.statuses, Known s s.returned e.userID e.role e.disabled
  calls : ∀ c ∈ s.calls, CallOk s c
  answers : ∀ a ∈ s.answers, Fresh s a

theorem inv_start (users : List UserRow) : Inv (.start users) where
  returned := le_rfl
  cached _ he := absurd he List.not_mem_nil
  calls _ hc := absurd hc List.not_mem_nil
  answers _ ha := absurd ha List.not_mem_nil

theorem lookup_known {rows : List UserRow} {user : Bytes} {r : UserRow}
    (h : lookup UserRow.id rows user = some r) :
    lookup UserRow.id rows user = some ⟨user, r.role, r.disabled⟩ := by
  obtain ⟨-, rfl⟩ := lookup_eq_some h
  exact h

/-- A call that moves on, or another one that begins. -/
theorem Inv.setCall {s : CacheState} (h : Inv s) {i : ℕ} {c : Call} (hc : CallOk s c) :
    Inv { s with calls := s.calls.set i c } where
  returned := h.returned
  cached := h.cached
  calls c' hc' := (List.mem_or_eq_of_mem_set hc').elim (h.calls c') fun heq => heq ▸ hc
  answers := h.answers

theorem Inv.addCall {s : CacheState} (h : Inv s) {c : Call} (hc : CallOk s c) :
    Inv { s with calls := s.calls ++ [c] } where
  returned := h.returned
  cached := h.cached
  calls c' hc' := (List.mem_append.1 hc').elim (h.calls c') fun hmem =>
    List.mem_singleton.1 hmem ▸ hc
  answers := h.answers

theorem Inv.addAnswer {s : CacheState} (h : Inv s) {a : Answer} (ha : Fresh s a) :
    Inv { s with answers := s.answers ++ [a] } where
  returned := h.returned
  cached := h.cached
  calls := h.calls
  answers a' ha' := (List.mem_append.1 ha').elim (h.answers a') fun hmem =>
    List.mem_singleton.1 hmem ▸ ha

/-- A commit changes neither the cache nor what has returned. -/
theorem Inv.commit {s : CacheState} (h : Inv s) (rows : Option (List UserRow)) :
    Inv (s.commit rows) := by
  cases rows with
  | none => exact h
  | some rows =>
      have hreturned := h.returned
      have hhistory : (s.commit (some rows)).history = s.history ++ [rows] := rfl
      have hinitial : (s.commit (some rows)).initial = s.initial := rfl
      refine ⟨?_, fun e he => (h.cached e he).append hinitial hhistory, ?_,
        fun a ha => (h.answers a ha).append hinitial hhistory⟩
      · simp only [CacheState.commit, List.length_append, List.length_singleton]
        omega
      · intro c hc
        rcases List.mem_append.1 hc with hc | hc
        · have hok := h.calls c hc
          cases c with
          | missed user now generation floor => exact hok
          | read user now generation floor version row =>
              obtain ⟨hgen, hfloor, hnew, hrow⟩ := hok
              refine ⟨hgen, hfloor, hnew, fun r hr => ?_⟩
              obtain ⟨rows', hrows', hl⟩ := hrow r hr
              exact ⟨rows', version_append hinitial hhistory hrows', hl⟩
          | committed version =>
              simp only [CallOk, CacheState.commit, List.length_append, List.length_singleton] at hok ⊢
              omega
          | done => exact trivial
        · rw [List.mem_singleton.1 hc]
          simp [CallOk, CacheState.commit]

theorem Inv.lookupStatus {s : CacheState} (h : Inv s) (user : Bytes) (now : ℕ) :
    Inv (lookupStatus s user now) := by
  have hmissed : Inv { s with
      calls := s.calls ++ [.missed user now s.cache.generation s.returned] } :=
    h.addCall ⟨le_rfl, le_rfl⟩
  unfold UserStatus.lookupStatus
  split
  · next e hentry =>
      split
      · obtain ⟨he, rfl⟩ := lookup_eq_some hentry
        exact h.addAnswer (h.cached e he)
      · exact hmissed
  · exact hmissed

theorem Inv.queryStatus {s : CacheState} (h : Inv s) (i : ℕ) (fails : Bool) :
    Inv (queryStatus s i fails) := by
  unfold UserStatus.queryStatus
  split
  · next user now generation floor hcall =>
      obtain ⟨hgen, hfloor⟩ := h.calls _ (List.mem_of_getElem? hcall)
      refine h.setCall ?_
      cases fails with
      | true => exact trivial
      | false =>
          -- what is read is committed after everything that has returned
          exact ⟨hgen, hfloor.trans h.returned, fun _ => h.returned,
            fun r hr => ⟨s.users, version_users s, hr⟩⟩
  · exact h

/-- What a read may fill the cache with is as new as what has returned. -/
theorem Inv.fillStatus {s : CacheState} (h : Inv s) {generation now : ℕ} {row : UserRow}
    (hrow : generation = s.cache.generation → Known s s.returned row.id row.role row.disabled) :
    Inv { s with cache := fillStatus s.cache generation now row } := by
  unfold UserStatus.fillStatus
  split
  · next hgen =>
      refine ⟨h.returned, ?_, h.calls, h.answers⟩
      intro e he
      rcases mem_put he with rfl | he
      · exact hrow hgen
      · split at he
        · exact absurd he List.not_mem_nil
        · exact h.cached e he
  · exact h

theorem Inv.endStatus {s : CacheState} (h : Inv s) (i : ℕ) : Inv (endStatus s i) := by
  unfold UserStatus.endStatus
  split
  · next user now generation floor version row hcall =>
      obtain ⟨-, hfloor, hnew, hrow⟩ := h.calls _ (List.mem_of_getElem? hcall)
      obtain ⟨rows, hrows, hl⟩ := hrow row rfl
      have hid : row.id = user := (lookup_eq_some hl).2
      have hknown : Known s version user row.role row.disabled :=
        ⟨version, le_rfl, rows, hrows, lookup_known hl⟩
      have hfill : Inv { s with cache := UserStatus.fillStatus s.cache generation now row } :=
        h.fillStatus fun hgen => hid ▸ hknown.mono (hnew hgen)
      have hdone : Inv { s with
          cache := UserStatus.fillStatus s.cache generation now row
          calls := s.calls.set i .done } := hfill.setCall trivial
      exact hdone.addAnswer (hknown.mono hfloor)
  · exact h.setCall trivial
  · exact h

/-- An invalidation empties the cache and overtakes the reads in flight. -/
theorem Inv.endMutation {s : CacheState} (h : Inv s) (i : ℕ) : Inv (endMutation s i) := by
  unfold UserStatus.endMutation
  split
  · next version hcall =>
      have hversion : version ≤ s.history.length := h.calls _ (List.mem_of_getElem? hcall)
      refine ⟨max_le h.returned hversion, fun e he => absurd he List.not_mem_nil, ?_, h.answers⟩
      intro c hc
      rcases List.mem_or_eq_of_mem_set hc with hc | rfl
      · have hok := h.calls c hc
        cases c with
        | missed user now generation floor =>
            exact ⟨hok.1.trans (Nat.le_succ _), hok.2.trans (le_max_left _ _)⟩
        | read user now generation floor version' row =>
            obtain ⟨hgen, hfloor, -, hrow⟩ := hok
            refine ⟨hgen.trans (Nat.le_succ _), hfloor, fun heq => ?_, hrow⟩
            simp only [invalidateUserStatuses] at heq
            omega
        | committed version' => exact hok
        | done => exact trivial
      · exact trivial
  · exact h

/-- **Every step keeps the invariant.** -/
theorem inv_next {s : CacheState} (h : Inv s) (a : Action) : Inv (next s a) := by
  cases a with
  | lookup user now => exact h.lookupStatus user now
  | query i fails => exact h.queryStatus i fails
  | fill i => exact h.endStatus i
  | updateUser id u =>
      rw [next]
      split
      · exact h.commit _
      · exact h.commit _
  | deleteUser id => exact h.commit _
  | transaction ops => exact h.commit _
  | invalidate i => exact h.endMutation i

/-- The calls on a store that starts with an empty cache. -/
def machine : Machine CacheState Action := Machine.ofFun (fun s => ∃ users, s = .start users) next

/-- **No revoked state is served**: whatever the interleaving, an answer is the status of the user
after all the mutations that had returned when its call began. -/
theorem status_never_revoked {s : CacheState} (h : machine.Reachable s) :
    ∀ a ∈ s.answers, Fresh s a := by
  have hinv : Inv s := h.invariant
    (fun s hs => by obtain ⟨users, rfl⟩ := hs; exact inv_start users)
    (fun s a t hs ht => by rw [show t = next s a from ht]; exact inv_next hs a)
  exact hinv.answers

/-- A read that a mutation overtakes is answered and not cached; the next call reads again. -/
def sampleCalls : List Action :=
  [.lookup (bytes "u") 0, .query 0 false,
    .updateUser (bytes "u") ⟨none, some true⟩, .invalidate 1, .fill 0,
    .lookup (bytes "u") 1, .query 2 false, .fill 2]

theorem status_never_revoked_sample :
    let s := sampleCalls.foldl next (.start [⟨bytes "u", bytes "admin", false⟩])
    s.answers = [⟨bytes "u", bytes "admin", false, 0⟩, ⟨bytes "u", bytes "admin", true, 1⟩] ∧
      ∀ a ∈ s.answers, Fresh s a :=
  ⟨by decide, status_never_revoked (Machine.reachable_ofFun ⟨_, rfl⟩ sampleCalls)⟩

end WiseLabz.UserStatus
