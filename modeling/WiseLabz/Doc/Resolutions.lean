/-
**Decisions about one change of a doc that are made at the same time.**

A decision is made on a record of the change that was read before: the doc is read, then written,
and then the change is acknowledged, by three calls of the store with others in between.  The write
looks at the version of the doc, and at no time at the status of the change.

Main definitions:

* `Doc.StoreCall` — what else happens to the tables;
* `Doc.ResolveCall.step` — **the next call of a decision**;
* `Doc.Decided` — a doc that holds a decision;
* `Doc.ResolutionGood` — what a step should do;
* `Doc.resolutionOrderly` — the steps that the order of the calls is right for.

Main results:

* `Doc.resolveWrite_decided` — the write of a decision;
* `Doc.ResolutionOk.next` — orderly steps keep what the decisions and the tables agree on;
* `Doc.resolutions_whole` — **in orderly runs a change is resolved once and completely**;
* `Doc.resolution_torn` — in others it need not be.
-/

import WiseLabz.Doc.SavesKept

set_option relaxedAutoImplicit false
set_option autoImplicit false

namespace WiseLabz.Doc

open Lib Store

/-! ### What else happens -/

/-- A call of the store by a sync, a save, a review or a listing. -/
inductive StoreCall
  | save (docId content : Bytes) (expectedVersion : Option ℕ) (author trigger : Bytes) (now : ℕ)
  | render (docId : Bytes) (r : GeneratedRender) (now : ℕ)
  | touch (docId : Bytes) (genKeys : List Bytes) (now : ℕ)
  | setOrigin (docId : Bytes) (origin : DocOrigin)
  | setFingerprint (docId fingerprint : Bytes) (content : Option Bytes) (expectedVersion : ℕ)
  | approve (proposalId reviewerId : Bytes) (now : ℕ)
  /-- A change is acknowledged or dismissed. -/
  | close (id : ℕ) (status : ChangeStatus)
  | raise (c : ChangeRecord)

/-- The tables after a call that returns no error. -/
def tablesAfter (db : Db) : Except StoreError (Db × ℕ) → Db
  | .ok (db', _) => db'
  | .error _ => db

def StoreCall.run (db : Db) : StoreCall → Db
  | .save docId content expectedVersion author trigger now =>
      tablesAfter db (updateDocWithVersion db docId content expectedVersion author trigger now)
  | .render docId r now => tablesAfter db (applyGeneratedRender db docId r now)
  | .touch docId genKeys now => touchDocSynced db docId genKeys now
  | .setOrigin docId origin => tablesAfter db ((setDocOrigin db docId origin).map (·, 0))
  | .setFingerprint docId fingerprint content expectedVersion =>
      tablesAfter db ((setDocTopologyFingerprint db docId fingerprint content expectedVersion).map
        (·, 0))
  | .approve proposalId reviewerId now =>
      tablesAfter db (approveDocEditProposal db proposalId reviewerId now)
  | .close id status => updateChangeStatus db id status
  | .raise c => createChange db c

/-- No status goes back to new, and a change that is raised has an id of its own. -/
def StoreCall.allowed (db : Db) : StoreCall → Bool
  | .close _ status => status ≠ .new
  | .raise c => db.changes.all fun c' => decide (c'.id ≠ c.id)
  | _ => true

/-- The status of a change. -/
def statusOf (db : Db) (id : ℕ) : Option ChangeStatus :=
  (db.changes.find? fun c => c.id = id).map ChangeRecord.status

/-! ### A decision -/

/-- Where a decision is: before `GetDoc`, before its write, before `UpdateChangeStatus`, or
returned. -/
inductive ResolvePlace
  | called
  | fetched (diff : ChangeDiff) (d : DocRecord)
  | decided (diff : ChangeDiff) (d : DocRecord)
  | failed
  | resolved
  deriving DecidableEq

/-- A call of `ResolveChange` with the record of the change that it holds, and, not stored anywhere,
whether it has written the doc. -/
structure ResolveCall where
  change : ChangeRecord
  action : ResolveAction
  userId : Bytes
  place : ResolvePlace
  wrote : Bool

/-- Keeping a doc that was to be adopted writes nothing. -/
def ResolveCall.writes (call : ResolveCall) : Bool :=
  call.change.changeType ≠ changeTypeDocAdopt || call.action ≠ .keep

/-- **The next call** of a decision, which goes through or not. -/
def ResolveCall.step (db : Db) (call : ResolveCall) (io : Bool) (now : ℕ) : Db × ResolveCall :=
  let fail := (db, { call with place := .failed })
  match call.place with
  | .called =>
      match call.change.diff with
      | none => fail
      | some diff =>
          if resolvable call.change && io then
            match getDoc db diff.docId with
            | none => fail
            | some d => (db, { call with place := .fetched diff d })
          else fail
  | .fetched diff d =>
      if io || !call.writes then
        match resolveWrite db d call.change diff call.action call.userId now with
        | .error _ => fail
        | .ok db' => (db', { call with place := .decided diff d, wrote := call.writes })
      else fail
  | .decided _ _ =>
      if io && (statusOf db call.change.id).isSome then
        (updateChangeStatus db call.change.id .acknowledged, { call with place := .resolved })
      else fail
  | .failed => (db, call)
  | .resolved => (db, call)

/-- The tables and the decisions about one change. -/
structure ResolutionState where
  db : Db
  calls : List ResolveCall

inductive ResolutionEvent
  /-- The change is read, and `ResolveChange` is called with it. -/
  | resolve (action : ResolveAction) (userId : Bytes)
  | step (i : ℕ) (io : Bool) (now : ℕ)
  | other (call : StoreCall)

/-- **What happens next** to the change with the id. -/
def ResolutionState.next (id : ℕ) (s : ResolutionState) :
    ResolutionEvent → Option ResolutionState
  | .resolve action userId =>
      match s.db.changes.find? fun c => c.id = id with
      | none => none
      | some c => some { s with calls := s.calls ++ [⟨c, action, userId, .called, false⟩] }
  | .step i io now =>
      match s.calls[i]? with
      | none => none
      | some call =>
          some ⟨(call.step s.db io now).1, s.calls.set i (call.step s.db io now).2⟩
  | .other call => if call.allowed s.db then some { s with db := call.run s.db } else none

/-- Any tables that have the change. -/
def resolutions (id : ℕ) : Machine ResolutionState ResolutionEvent where
  init s := UniqueIds s.db ∧ (statusOf s.db id).isSome ∧ s.calls = []
  step s ev t := s.next id ev = some t

/-! ### What the steps should do -/

/-- **The doc `d'` holds a decision** about the doc `d` as it was read: a doc that was to be adopted
is generated from now on, or stays whose it was. -/
def Decided (c : ChangeRecord) (diff : ChangeDiff) (action : ResolveAction) (d d' : DocRecord) :
    Prop :=
  if c.changeType = changeTypeDocAdopt then
    match action with
    | .accept => d'.content = diff.generated ∧ d'.origin = .generated ∧
        d'.genKeys = some (blockKeys (blocksOf (parseBlocks diff.generated)))
    | .keep => d'.origin = d.origin
  else
    ∃ i, blockIndex (parseBlocks d.content) diff.key = some i ∧
      d'.content = renderSegments ((parseBlocks d.content).set i
        (match action with
          | .accept => .block (newBlock diff.key diff.generated)
          | .keep => .text (((parseBlocks d.content)[i]?.bind Segment.block?).elim [] (·.body))))

/-- **What a step should do**: at most one of the decisions writes the doc; what a decision writes
first, the doc or the status, it writes while the change is open; one that returns an error has
written nothing; one that returns no error leaves the change acknowledged and the doc with the
decision. -/
def ResolutionGood (id : ℕ) (s : ResolutionState) (ev : ResolutionEvent) (t : ResolutionState) :
    Prop :=
  (∀ (i j : ℕ) (call call' : ResolveCall), t.calls[i]? = some call → t.calls[j]? = some call' →
    call.wrote = true → call'.wrote = true → i = j) ∧
  match ev with
  | .step i _ _ =>
      ∀ call call' : ResolveCall, s.calls[i]? = some call → t.calls[i]? = some call' →
        (call'.wrote = false → call'.place ≠ .resolved → t.db = s.db) ∧
        (call'.place = .failed → call'.wrote = false) ∧
        (call.wrote = false → call.place ≠ .resolved →
          call'.wrote = true ∨ call'.place = .resolved → statusOf s.db id = some .new) ∧
        ∀ diff d, call.place = .decided diff d → call'.place = .resolved →
          statusOf t.db id = some .acknowledged ∧
            ∃ d', getDoc t.db d.id = some d' ∧ Decided call.change diff call.action d d'
  | _ => True

/-- The decision has written the doc and not yet acknowledged the change. -/
def ResolveCall.halfWay (call : ResolveCall) : Option Bytes :=
  match call.place with
  | .decided _ d => if call.wrote then some d.id else none
  | _ => none

/-- **The steps that the order of the calls is right for.**

* A decision that is to write the doc, at the version that it has read, finds the change open, and
  no other decision between its write and its acknowledgement.
* The acknowledgement after a write goes through.
* Nothing else changes the doc between the two.
* A decision that has nothing to write finds, at its acknowledgement, the change open and the doc
  as much a generated one as it has read. -/
def resolutionOrderly (id : ℕ) (s : ResolutionState) : ResolutionEvent → Bool
  | .resolve _ _ => true
  | .step i io _ =>
      match s.calls[i]? with
      | none => true
      | some call =>
          match call.place with
          | .fetched _ d =>
              !(io && call.writes && decide
                  ((getDoc s.db d.id).map DocRecord.currentVersion = some d.currentVersion)) ||
                (decide (statusOf s.db id = some .new) &&
                  s.calls.all fun other => other.halfWay.isNone)
          | .decided _ d =>
              if call.wrote then io
              else !io || (decide (statusOf s.db id = some .new) &&
                decide ((getDoc s.db d.id).map DocRecord.origin = some d.origin))
          | _ => true
  | .other call =>
      s.calls.all fun c =>
        match c.halfWay with
        | none => true
        | some docId => decide (getDoc (call.run s.db) docId = getDoc s.db docId)

/-! ### What the calls leave -/

section Tables

variable {db db' : Db} {id : ℕ}

theorem updateDocContent_changes {docId content : Bytes} {expectedVersion : Option ℕ} {now rev : ℕ}
    (h : updateDocContent db docId content expectedVersion now = .ok (db', rev)) :
    db'.changes = db.changes := by
  obtain ⟨-, -, -, rfl⟩ := updateDocContent_eq_ok.1 h
  rfl

theorem createDocVersion_docs {v : DocVersionRecord} (h : createDocVersion db v = .ok db') :
    db'.docs = db.docs ∧ db'.changes = db.changes := by
  obtain ⟨-, -, rfl⟩ := createDocVersion_eq_ok.1 h
  exact ⟨rfl, rfl⟩

/-- What a call keeps: the ids of the docs, and the rows of the changes. -/
def KeepsRows (db db' : Db) : Prop := (UniqueIds db → UniqueIds db') ∧ db'.changes = db.changes

theorem KeepsRows.refl : KeepsRows db db := ⟨fun h => h, rfl⟩

theorem keepsRows_updateDocs (p : DocRecord → Bool) {f : DocRecord → DocRecord}
    (hf : ∀ d, (f d).id = d.id) : KeepsRows db (updateDocs db p f) :=
  ⟨fun hu => hu.updateDocs p hf, rfl⟩

theorem keepsRows_tablesAfter {x : Except StoreError (Db × ℕ)}
    (h : ∀ db' rev, x = .ok (db', rev) → KeepsRows db db') : KeepsRows db (tablesAfter db x) := by
  cases x with
  | error e => exact .refl
  | ok p => exact h p.1 p.2 rfl

/-- **The calls that write docs** keep the rows of the changes. -/
theorem StoreCall.run_keeps (db : Db) (call : StoreCall) :
    KeepsRows db (call.run db) ∨ (∃ c, call = .raise c) ∨ ∃ i st, call = .close i st := by
  cases call with
  | save docId content expectedVersion author trigger now =>
      refine .inl (keepsRows_tablesAfter fun db' rev h => ?_)
      exact ⟨fun hu => (updateDocWithVersion_getDoc hu h).choose_spec.2.2.2,
        updateDocWithVersion_changes h⟩
  | render docId r now =>
      refine .inl (keepsRows_tablesAfter fun db' rev h => ?_)
      exact ⟨fun hu => (applyGeneratedRender_getDoc hu h).choose_spec.2.2.2,
        applyGeneratedRender_changes h⟩
  | touch docId genKeys now => exact .inl (keepsRows_updateDocs _ fun _ => rfl)
  | setOrigin docId origin =>
      refine .inl ?_
      rw [StoreCall.run, setDocOrigin]
      split
      · exact keepsRows_updateDocs _ fun _ => rfl
      · exact .refl
  | setFingerprint docId fingerprint content expectedVersion =>
      refine .inl ?_
      rw [StoreCall.run, setDocTopologyFingerprint]
      split
      · exact keepsRows_updateDocs _ fun _ => rfl
      · split <;> exact .refl
  | approve proposalId reviewerId now =>
      refine .inl (keepsRows_tablesAfter fun db' rev h => ?_)
      obtain ⟨p, proposals, db₁, h₁, h₂⟩ := approveDocEditProposal_eq_ok h
      obtain ⟨hdocs, hchanges⟩ := createDocVersion_docs h₂
      have hsame := updateDocContent_changes h₁
      refine ⟨fun hu => ?_, hchanges.trans hsame⟩
      rw [UniqueIds, hdocs]
      have hu' : UniqueIds { db with proposals := proposals } := hu
      exact updateDocContent_unique hu' h₁
  | close i st => exact .inr (.inr ⟨i, st, rfl⟩)
  | raise c => exact .inr (.inl ⟨c, rfl⟩)

theorem KeepsRows.statusOf (h : KeepsRows db db') : statusOf db' id = statusOf db id := by
  rw [Doc.statusOf, h.2, Doc.statusOf]

theorem statusOf_updateChangeStatus (db : Db) (i : ℕ) (st : ChangeStatus) :
    statusOf (updateChangeStatus db i st) id =
      if i = id then (statusOf db id).map fun _ => st else statusOf db id := by
  rw [statusOf, updateChangeStatus]
  dsimp only
  rw [List.find?_map, statusOf]
  have hkey : ((fun c : ChangeRecord => decide (c.id = id)) ∘
      fun c => if c.id = i then { c with status := st } else c) = fun c => decide (c.id = id) := by
    funext c
    by_cases hc : c.id = i <;> simp [hc]
  rw [hkey]
  cases hfind : db.changes.find? fun c => c.id = id with
  | none => simp
  | some c =>
      have hc : c.id = id := by simpa using List.find?_some hfind
      by_cases hi : i = id
      · simp [hi, hc]
      · have hne : c.id ≠ i := fun h => hi (h.symm.trans hc)
        simp [hi, hne]

/-- **A status never goes back** to new, and its row stays. -/
theorem StoreCall.statusOf_run {call : StoreCall} (hallowed : call.allowed db = true)
    (hrow : (statusOf db id).isSome) :
    (statusOf (call.run db) id).isSome ∧
      (statusOf (call.run db) id = some .new → statusOf db id = some .new) := by
  rcases call.run_keeps db with hkeeps | ⟨c, rfl⟩ | ⟨i, st, rfl⟩
  · rw [hkeeps.statusOf]
    exact ⟨hrow, fun h => h⟩
  · have hsame : statusOf ((StoreCall.raise c).run db) id = statusOf db id := by
      rw [statusOf, StoreCall.run, createChange, statusOf]
      dsimp only
      rw [List.find?_append]
      obtain ⟨st, hst⟩ := Option.isSome_iff_exists.1 hrow
      obtain ⟨c', hc', -⟩ := Option.map_eq_some_iff.1 hst
      rw [hc', Option.some_or]
    rw [hsame]
    exact ⟨hrow, fun h => h⟩
  · have hst : st ≠ .new := of_decide_eq_true hallowed
    rw [StoreCall.run, statusOf_updateChangeStatus]
    split
    · rw [Option.isSome_map]
      refine ⟨hrow, fun h => ?_⟩
      obtain ⟨-, -, h⟩ := Option.map_eq_some_iff.1 h
      exact absurd h hst
    · exact ⟨hrow, fun h => h⟩

theorem StoreCall.unique_run (call : StoreCall) (hu : UniqueIds db) : UniqueIds (call.run db) := by
  rcases call.run_keeps db with hkeeps | ⟨c, rfl⟩ | ⟨i, st, rfl⟩
  · exact hkeeps.1 hu
  · exact hu
  · exact hu

/-- **The write of a decision**, of a doc that is at the version that was read. -/
theorem resolveWrite_decided {d : DocRecord} {c : ChangeRecord} {diff : ChangeDiff}
    {action : ResolveAction} {userId : Bytes} {now : ℕ} (hu : UniqueIds db)
    (h : resolveWrite db d c diff action userId now = .ok db') :
    UniqueIds db' ∧ db'.changes = db.changes ∧
      if c.changeType = changeTypeDocAdopt ∧ action = .keep then db' = db
      else
        (getDoc db d.id).map DocRecord.currentVersion = some d.currentVersion ∧
          ∃ d', getDoc db' d.id = some d' ∧ Decided c diff action d d' := by
  have hversion : ∀ {content author trigger : Bytes} {rev : ℕ},
      updateDocWithVersion db d.id content (some d.currentVersion) author trigger now =
        .ok (db', rev) →
      (getDoc db d.id).map DocRecord.currentVersion = some d.currentVersion := by
    intro content author trigger rev hw
    obtain ⟨db₁, h₁, -⟩ := updateDocWithVersion_eq_ok.1 hw
    obtain ⟨d₀, hd₀, -, hexp, -⟩ := updateDocContent_getDoc hu h₁
    rcases hexp with hexp | hexp
    · cases hexp
    · rw [hd₀, hexp]
      rfl
  unfold resolveWrite at h
  split at h
  · next hadopt =>
      split at h
      · obtain rfl := Except.ok.inj h
        refine ⟨hu, rfl, ?_⟩
        rw [if_pos ⟨hadopt, rfl⟩]
      · obtain ⟨rev, hw⟩ := ofStore_map_eq_ok h
        obtain ⟨d₀, hd₀, hd', -, hu'⟩ := applyGeneratedRender_getDoc hu hw
        refine ⟨hu', applyGeneratedRender_changes hw, ?_⟩
        rw [if_neg (by rintro ⟨-, hk⟩; cases hk)]
        obtain ⟨db₁, db₂, h₁, -, -⟩ := applyGeneratedRender_eq_ok.1 hw
        obtain ⟨d₁, hd₁, -, hexp, -⟩ := updateDocContent_getDoc hu h₁
        refine ⟨?_, _, hd', ?_⟩
        · rcases hexp with hexp | hexp
          · cases hexp
          · have hcv : d.currentVersion = d₁.currentVersion := Option.some.inj hexp
            rw [hd₁, hcv]
            rfl
        · rw [Decided, if_pos hadopt]
          exact ⟨rfl, rfl, rfl⟩
  · next hconflict =>
      dsimp only at h
      rw [if_neg fun h => hconflict h.1]
      split at h
      · cases h
      · next i hi =>
          obtain ⟨rev, hw⟩ := ofStore_map_eq_ok h
          obtain ⟨d₀, hd₀, hd', -, hu'⟩ := updateDocWithVersion_getDoc hu hw
          refine ⟨hu', updateDocWithVersion_changes hw, hversion hw, _, hd', ?_⟩
          rw [Decided, if_neg hconflict]
          exact ⟨i, hi, rfl⟩
      · next i hi =>
          obtain ⟨rev, hw⟩ := ofStore_map_eq_ok h
          obtain ⟨d₀, hd₀, hd', -, hu'⟩ := updateDocWithVersion_getDoc hu hw
          refine ⟨hu', updateDocWithVersion_changes hw, hversion hw, _, hd', ?_⟩
          rw [Decided, if_neg hconflict]
          exact ⟨i, hi, rfl⟩

end Tables

/-! ### The invariant -/

/-- **What the decisions and the tables agree on.**  A decision that has written the doc is the only
one; it is half way, and then the doc holds it, or the change is closed. -/
structure ResolutionOk (id : ℕ) (s : ResolutionState) : Prop where
  unique : UniqueIds s.db
  row : (statusOf s.db id).isSome
  change : ∀ c ∈ s.calls, c.change.id = id
  before : ∀ c ∈ s.calls, (c.place = .called ∨ (∃ diff d, c.place = .fetched diff d) ∨
    c.place = .failed) → c.wrote = false
  wrote : ∀ c ∈ s.calls, ∀ diff d, c.place = .decided diff d → c.wrote = c.writes
  held : ∀ c ∈ s.calls, c.wrote = true → ∀ diff d, c.place = .decided diff d →
    ∃ d', getDoc s.db d.id = some d' ∧ Decided c.change diff c.action d d'
  closed : ∀ c ∈ s.calls, c.wrote = true →
    c.halfWay.isSome ∨ statusOf s.db id ≠ some .new
  one : ∀ (i j : ℕ) (call call' : ResolveCall), s.calls[i]? = some call →
    s.calls[j]? = some call' → call.wrote = true → call'.wrote = true → i = j

section Runs

variable {id : ℕ} {s : ResolutionState}

/-- The change is read, and a decision begins. -/
theorem ResolutionOk.resolve (h : ResolutionOk id s) {c : ChangeRecord}
    (hc : s.db.changes.find? (fun c => c.id = id) = some c) (action : ResolveAction)
    (userId : Bytes) :
    ResolutionOk id { s with calls := s.calls ++ [⟨c, action, userId, .called, false⟩] } := by
  have hid : c.id = id := by simpa using List.find?_some hc
  have hcases : ∀ {P : ResolveCall → Prop}, (∀ c ∈ s.calls, P c) →
      P ⟨c, action, userId, .called, false⟩ →
      ∀ c' ∈ s.calls ++ [⟨c, action, userId, .called, false⟩], P c' := by
    intro P hall hnew c' hc'
    rcases List.mem_append.1 hc' with hc' | hc'
    · exact hall c' hc'
    · exact List.mem_singleton.1 hc' ▸ hnew
  have hindex : ∀ {i : ℕ} {call : ResolveCall},
      (s.calls ++ [⟨c, action, userId, .called, false⟩])[i]? = some call → call.wrote = true →
      s.calls[i]? = some call := by
    intro i call hcall hwrote
    rw [List.getElem?_append] at hcall
    split at hcall
    · exact hcall
    · rw [List.getElem?_singleton] at hcall
      split at hcall
      · obtain rfl := Option.some.inj hcall
        cases hwrote
      · cases hcall
  exact
    { unique := h.unique
      row := h.row
      change := hcases h.change hid
      before := hcases h.before fun _ => rfl
      wrote := hcases h.wrote fun diff d hp => by cases hp
      held := hcases h.held fun hw => by cases hw
      closed := hcases h.closed fun hw => by cases hw
      one := fun i j call call' hi hj hw hw' =>
        h.one i j call call' (hindex hi hw) (hindex hj hw') hw hw' }

theorem halfWay_eq_some {call : ResolveCall} {docId : Bytes} :
    call.halfWay = some docId ↔
      call.wrote = true ∧ ∃ diff d, call.place = .decided diff d ∧ d.id = docId := by
  unfold ResolveCall.halfWay
  split
  · next diff d hp =>
      constructor
      · intro h
        split at h
        · next hw => exact ⟨hw, diff, d, hp, Option.some.inj h⟩
        · cases h
      · rintro ⟨hw, diff', d', hp', hd'⟩
        obtain ⟨rfl, rfl⟩ := ResolvePlace.decided.inj (hp.symm.trans hp')
        rw [if_pos hw, hd']
  · next hp =>
      refine iff_of_false (by simp) ?_
      rintro ⟨-, diff, d, hp', -⟩
      exact hp diff d hp'

/-- Another call of the store. -/
theorem ResolutionOk.other (h : ResolutionOk id s) {call : StoreCall}
    (hallowed : call.allowed s.db = true)
    (hc : resolutionOrderly id s (.other call) = true) :
    ResolutionOk id { s with db := call.run s.db } := by
  obtain ⟨hrow, hnew⟩ := StoreCall.statusOf_run hallowed h.row
  refine ⟨call.unique_run h.unique, hrow, h.change, h.before, h.wrote, ?_, ?_, h.one⟩
  · intro c hmem hwrote diff d hp
    have hkept := List.all_eq_true.1 hc c hmem
    rw [halfWay_eq_some.2 ⟨hwrote, diff, d, hp, rfl⟩, decide_eq_true_iff] at hkept
    dsimp only
    rw [hkept]
    exact h.held c hmem hwrote diff d hp
  · intro c hmem hwrote
    exact (h.closed c hmem hwrote).imp_right (mt hnew)

/-- What a call of a decision leaves, if it is not one that has written the doc: the tables, or the
status of the change. -/
theorem ResolutionOk.set (h : ResolutionOk id s) {i : ℕ} {call : ResolveCall}
    (hcall : s.calls[i]? = some call) (call' : ResolveCall) (hchange : call'.change = call.change)
    (hbefore : (call'.place = .called ∨ (∃ diff d, call'.place = .fetched diff d) ∨
      call'.place = .failed) → call'.wrote = false)
    (hwrote : ∀ diff d, call'.place = .decided diff d → call'.wrote = false ∧ call'.writes = false)
    (hresolved : call'.wrote = true → call.wrote = true ∧ statusOf s.db id ≠ some .new) :
    ResolutionOk id { s with calls := s.calls.set i call' } := by
  have hcases : ∀ {P : ResolveCall → Prop}, (∀ c ∈ s.calls, P c) → P call' →
      ∀ c ∈ s.calls.set i call', P c := by
    intro P hall hnew c hc
    rcases List.mem_or_eq_of_mem_set hc with hc | rfl
    · exact hall c hc
    · exact hnew
  have hmem := List.mem_of_getElem? hcall
  have hindex : ∀ {j : ℕ} {c : ResolveCall}, (s.calls.set i call')[j]? = some c →
      c.wrote = true → ∃ c', s.calls[j]? = some c' ∧ c'.wrote = true := by
    intro j c hc hw
    rw [List.getElem?_set] at hc
    split at hc
    · next hij =>
        split at hc
        · obtain rfl := Option.some.inj hc
          exact ⟨call, hij ▸ hcall, (hresolved hw).1⟩
        · cases hc
    · exact ⟨c, hc, hw⟩
  exact
    { unique := h.unique
      row := h.row
      change := hcases h.change (hchange ▸ h.change call hmem)
      before := hcases h.before hbefore
      wrote := hcases h.wrote fun diff d hp => (hwrote diff d hp).1.trans (hwrote diff d hp).2.symm
      held := hcases h.held fun hw diff d hp => by
        rw [(hwrote diff d hp).1] at hw
        cases hw
      closed := hcases h.closed fun hw => .inr (hresolved hw).2
      one := fun j k c c' hj hk hw hw' => by
        obtain ⟨d, hd, hwd⟩ := hindex hj hw
        obtain ⟨d', hd', hwd'⟩ := hindex hk hw'
        exact h.one j k d d' hd hd' hwd hwd' }

/-- **What a call of a decision does.** -/
inductive ResolveStep (db : Db) (call : ResolveCall) (io : Bool) (now : ℕ) :
    Db × ResolveCall → Prop
  | failed
      (hplace : call.place = .called ∨ (∃ diff d, call.place = .fetched diff d) ∨
        ∃ diff d, call.place = .decided diff d ∧
          (io = false ∨ statusOf db call.change.id = none)) :
      ResolveStep db call io now (db, { call with place := .failed })
  | fetched {diff : ChangeDiff} {d : DocRecord} (hplace : call.place = .called) :
      ResolveStep db call io now (db, { call with place := .fetched diff d })
  | decided {diff : ChangeDiff} {d : DocRecord} {db' : Db} (hplace : call.place = .fetched diff d)
      (hio : io = true ∨ call.writes = false)
      (hwrite : resolveWrite db d call.change diff call.action call.userId now = .ok db') :
      ResolveStep db call io now
        (db', { call with place := .decided diff d, wrote := call.writes })
  | resolved {diff : ChangeDiff} {d : DocRecord} (hplace : call.place = .decided diff d)
      (hio : io = true) :
      ResolveStep db call io now
        (updateChangeStatus db call.change.id .acknowledged, { call with place := .resolved })
  | returned (hplace : call.place = .failed ∨ call.place = .resolved) :
      ResolveStep db call io now (db, call)

theorem ResolveCall.step_cases (db : Db) (call : ResolveCall) (io : Bool) (now : ℕ) :
    ResolveStep db call io now (call.step db io now) := by
  unfold ResolveCall.step
  dsimp only
  split
  · next hplace =>
      split
      · exact .failed (.inl hplace)
      · split
        · split
          · exact .failed (.inl hplace)
          · exact .fetched hplace
        · exact .failed (.inl hplace)
  · next diff d hplace =>
      split
      · next hio =>
          rw [Bool.or_eq_true, Bool.not_eq_true'] at hio
          split
          · exact .failed (.inr (.inl ⟨diff, d, hplace⟩))
          · next db' hwrite => exact .decided hplace hio hwrite
      · exact .failed (.inr (.inl ⟨diff, d, hplace⟩))
  · next diff d hplace =>
      split
      · next hio =>
          rw [Bool.and_eq_true] at hio
          exact .resolved hplace hio.1
      · next hio =>
          rw [Bool.and_eq_true, not_and_or, Bool.not_eq_true, Bool.not_eq_true,
            Option.isSome_eq_false_iff, Option.isNone_iff_eq_none] at hio
          exact .failed (.inr (.inr ⟨diff, d, hplace, hio⟩))
  · next hplace => exact .returned (.inl hplace)
  · next hplace => exact .returned (.inr hplace)

/-- The write of a decision, when the change is open and no other decision is half way. -/
theorem ResolutionOk.write (h : ResolutionOk id s) {i : ℕ} {call : ResolveCall}
    (hcall : s.calls[i]? = some call) {diff : ChangeDiff} {d : DocRecord} {db' : Db}
    (hwrites : call.writes = true) (hopen : statusOf s.db id = some .new)
    (hall : ∀ c ∈ s.calls, c.halfWay = none) (hu : UniqueIds db')
    (hchanges : db'.changes = s.db.changes)
    (hdecided : ∃ d', getDoc db' d.id = some d' ∧ Decided call.change diff call.action d d') :
    ResolutionOk id ⟨db', s.calls.set i { call with place := .decided diff d, wrote := true }⟩ := by
  have hstatus : statusOf db' id = statusOf s.db id := by rw [statusOf, hchanges, statusOf]
  -- no other decision has written
  have hnone : ∀ c ∈ s.calls, c.wrote = false := by
    intro c hc
    by_contra hw
    rcases h.closed c hc (Bool.not_eq_false _ ▸ hw) with hhalf | hclosed
    · rw [hall c hc] at hhalf
      cases hhalf
    · exact hclosed hopen
  have hcases : ∀ {P : ResolveCall → Prop}, (∀ c ∈ s.calls, P c) →
      P { call with place := .decided diff d, wrote := true } →
      ∀ c ∈ s.calls.set i { call with place := .decided diff d, wrote := true }, P c := by
    intro P hold hnew c hc
    rcases List.mem_or_eq_of_mem_set hc with hc | rfl
    · exact hold c hc
    · exact hnew
  have hfalse : ∀ {c : ResolveCall} {P : Prop}, c ∈ s.calls → c.wrote = true → P := by
    intro c P hc hw
    rw [hnone c hc] at hw
    cases hw
  have hindex : ∀ {j : ℕ} {c : ResolveCall},
      (s.calls.set i { call with place := .decided diff d, wrote := true })[j]? = some c →
      c.wrote = true → i = j := by
    intro j c hc hw
    rw [List.getElem?_set] at hc
    split at hc
    · assumption
    · exact hfalse (List.mem_of_getElem? hc) hw
  exact
    { unique := hu
      row := hstatus ▸ h.row
      change := hcases h.change (h.change call (List.mem_of_getElem? hcall))
      before := hcases h.before fun hp => by
        rcases hp with hp | ⟨_, _, hp⟩ | hp <;> cases hp
      wrote := hcases h.wrote fun _ _ _ => hwrites.symm
      held := hcases (fun c hc hw => hfalse hc hw) fun _ diff' d₀ hp => by
        obtain ⟨rfl, rfl⟩ := ResolvePlace.decided.inj hp
        exact hdecided
      closed := hcases (fun c hc hw => hfalse hc hw) fun _ => .inl rfl
      one := fun j k c c' hj hk hw hw' => (hindex hj hw).symm.trans (hindex hk hw') }

/-- The acknowledgement of a change. -/
theorem ResolutionOk.acknowledge (h : ResolutionOk id s) :
    ResolutionOk id { s with db := updateChangeStatus s.db id .acknowledged } ∧
      statusOf (updateChangeStatus s.db id .acknowledged) id = some .acknowledged := by
  obtain ⟨st, hst⟩ := Option.isSome_iff_exists.1 h.row
  have hstatus : statusOf (updateChangeStatus s.db id .acknowledged) id = some .acknowledged := by
    rw [statusOf_updateChangeStatus, if_pos rfl, hst]
    rfl
  refine ⟨⟨h.unique, ?_, h.change, h.before, h.wrote, h.held, fun c hc hw => .inr ?_, h.one⟩,
    hstatus⟩
  · dsimp only
    rw [hstatus]
    rfl
  · dsimp only
    rw [hstatus]
    simp

/-- A decision that is not half way has not written the doc, or has closed the change. -/
theorem ResolutionOk.returned (h : ResolutionOk id s) {call : ResolveCall} (hmem : call ∈ s.calls)
    (hplace : ∀ diff d, call.place ≠ .decided diff d) (hw : call.wrote = true) :
    statusOf s.db id ≠ some .new := by
  rcases h.closed call hmem hw with hhalf | hclosed
  · obtain ⟨docId, hdoc⟩ := Option.isSome_iff_exists.1 hhalf
    obtain ⟨-, diff, d, hp, -⟩ := halfWay_eq_some.1 hdoc
    exact absurd hp (hplace diff d)
  · exact hclosed

/-- **An orderly step of a decision** is good, and keeps the agreement. -/
theorem ResolutionOk.step (h : ResolutionOk id s) {i : ℕ} {call : ResolveCall} {io : Bool} {now : ℕ}
    (hcall : s.calls[i]? = some call) (hc : resolutionOrderly id s (.step i io now) = true) :
    ResolutionOk id ⟨(call.step s.db io now).1, s.calls.set i (call.step s.db io now).2⟩ ∧
      ResolutionGood id s (.step i io now)
        ⟨(call.step s.db io now).1, s.calls.set i (call.step s.db io now).2⟩ := by
  have hmem := List.mem_of_getElem? hcall
  have hset : ∀ call', (s.calls.set i call')[i]? = some call' := fun call' => by
    rw [List.getElem?_set_self]
    exact (List.getElem?_eq_some_iff.1 hcall).1
  -- what a step should do, of the one decision that takes it
  have hgood : ∀ {db' : Db} {call' : ResolveCall}, ResolutionOk id ⟨db', s.calls.set i call'⟩ →
      (call'.wrote = false → call'.place ≠ .resolved → db' = s.db) →
      (call'.place = .failed → call'.wrote = false) →
      (call.wrote = false → call.place ≠ .resolved →
        call'.wrote = true ∨ call'.place = .resolved → statusOf s.db id = some .new) →
      (∀ diff d, call.place = .decided diff d → call'.place = .resolved →
        statusOf db' id = some .acknowledged ∧
          ∃ d', getDoc db' d.id = some d' ∧ Decided call.change diff call.action d d') →
      ResolutionGood id s (.step i io now) ⟨db', s.calls.set i call'⟩ := by
    intro db' call' hok h₁ h₂ h₃ h₄
    refine ⟨hok.one, fun c c' hci hci' => ?_⟩
    obtain rfl := Option.some.inj (hcall.symm.trans hci)
    obtain rfl := Option.some.inj ((hset call').symm.trans hci')
    exact ⟨h₁, h₂, h₃, h₄⟩
  rw [resolutionOrderly, hcall] at hc
  have hcases := call.step_cases s.db io now
  generalize call.step s.db io now = result at hcases ⊢
  cases hcases with
  | failed hplace =>
      have hwrote : call.wrote = false := by
        rcases hplace with hp | hp | ⟨diff, d, hp, hfail⟩
        · exact h.before call hmem (.inl hp)
        · exact h.before call hmem (.inr (.inl hp))
        · dsimp only at hc
          rw [hp] at hc
          rcases hfail with rfl | hrow
          · by_contra hw
            dsimp only at hc
            rw [if_pos (Bool.not_eq_false _ ▸ hw)] at hc
            cases hc
          · rw [h.change call hmem] at hrow
            exact absurd h.row (by rw [hrow]; simp)
      have hok := h.set hcall { call with place := .failed } rfl (fun _ => hwrote)
        (fun _ _ hp => by cases hp) fun hw => absurd hw (by rw [hwrote]; simp)
      refine ⟨hok, hgood hok (fun _ _ => rfl) (fun _ => hwrote) (fun hw _ hw' => ?_) ?_⟩
      · rcases hw' with hw' | hw'
        · exact absurd hw' (by rw [hw]; simp)
        · cases hw'
      · intro _ _ _ hp
        cases hp
  | @fetched diff d hplace =>
      have hwrote := h.before call hmem (.inl hplace)
      have hok := h.set hcall { call with place := .fetched diff d } rfl (fun _ => hwrote)
        (fun _ _ hp => by cases hp) fun hw => absurd hw (by rw [hwrote]; simp)
      refine ⟨hok, hgood hok (fun _ _ => rfl) (fun hp => by cases hp) (fun hw _ hw' => ?_) ?_⟩
      · rcases hw' with hw' | hw'
        · exact absurd hw' (by rw [hw]; simp)
        · cases hw'
      · intro _ _ _ hp
        cases hp
  | @decided diff d db' hplace hio hwrite =>
      obtain ⟨hu, hchanges, hdecided⟩ := resolveWrite_decided h.unique hwrite
      have hwrote := h.before call hmem (.inr (.inl ⟨diff, d, hplace⟩))
      cases hwrites : call.writes with
      | false =>
          have hkeep : call.change.changeType = changeTypeDocAdopt ∧ call.action = .keep := by
            simpa [ResolveCall.writes] using hwrites
          rw [if_pos hkeep] at hdecided
          subst hdecided
          have hok := h.set hcall { call with place := .decided diff d, wrote := false }
            rfl (fun _ => rfl) (fun _ _ _ => ⟨rfl, hwrites⟩) fun hw => by cases hw
          refine ⟨hok, hgood hok (fun _ _ => rfl) (fun hp => by cases hp)
            (fun _ _ hw' => by rcases hw' with hw' | hw' <;> cases hw') ?_⟩
          intro _ _ _ hp
          cases hp
      | true =>
          have hkeep : ¬ (call.change.changeType = changeTypeDocAdopt ∧ call.action = .keep) := by
            rintro ⟨h₁, h₂⟩
            simp [ResolveCall.writes, h₁, h₂] at hwrites
          rw [if_neg hkeep] at hdecided
          dsimp only at hc
          rw [hplace] at hc
          dsimp only at hc
          have hio' : io = true := hio.resolve_right (by rw [hwrites]; simp)
          rw [hio', hwrites, decide_eq_true hdecided.1] at hc
          simp only [Bool.and_self, Bool.not_true, Bool.false_or, Bool.and_eq_true,
            decide_eq_true_iff, List.all_eq_true, Option.isNone_iff_eq_none] at hc
          have hok := h.write hcall hwrites hc.1 hc.2 hu hchanges hdecided.2
          refine ⟨hok, hgood hok (fun hw => by cases hw) (fun hp => by cases hp)
            (fun _ _ _ => hc.1) ?_⟩
          intro _ _ _ hp
          cases hp
  | @resolved diff d hplace hio =>
      rw [h.change call hmem]
      have hwrote := h.wrote call hmem diff d hplace
      -- a decision without a write, or one that the doc holds since its write
      have hholds : (call.wrote = false → statusOf s.db id = some .new) ∧
          ∃ d', getDoc s.db d.id = some d' ∧ Decided call.change diff call.action d d' := by
        cases hw : call.wrote with
        | true =>
            exact ⟨fun hw' => Bool.noConfusion hw', h.held call hmem hw diff d hplace⟩
        | false =>
            rw [hw] at hwrote
            have hkeep : call.change.changeType = changeTypeDocAdopt ∧ call.action = .keep := by
              simpa [ResolveCall.writes] using hwrote.symm
            dsimp only at hc
            rw [hplace] at hc
            dsimp only at hc
            rw [hw, if_neg Bool.false_ne_true, hio, Bool.not_true, Bool.false_or, Bool.and_eq_true,
              decide_eq_true_iff, decide_eq_true_iff] at hc
            obtain ⟨hopen, horigin⟩ := hc
            obtain ⟨d', hd', horigin⟩ := Option.map_eq_some_iff.1 horigin
            refine ⟨fun _ => hopen, d', hd', ?_⟩
            rw [hkeep.2, Decided, if_pos hkeep.1]
            exact horigin
      obtain ⟨hack, hstatus⟩ := h.acknowledge
      have hclosed : statusOf (updateChangeStatus s.db id .acknowledged) id ≠ some .new := by
        rw [hstatus]
        simp
      have hok := hack.set hcall { call with place := .resolved } rfl
        (fun hp => by rcases hp with hp | ⟨_, _, hp⟩ | hp <;> cases hp)
        (fun _ _ hp => by cases hp) fun hw => ⟨hw, hclosed⟩
      refine ⟨hok, hgood hok (fun _ hp => absurd rfl hp) (fun hp => by cases hp)
        (fun hw _ _ => hholds.1 hw) fun diff' d' hp _ => ⟨hstatus, ?_⟩⟩
      obtain ⟨rfl, rfl⟩ := ResolvePlace.decided.inj (hplace.symm.trans hp)
      exact hholds.2
  | returned hplace =>
      have hnot : ∀ diff d, call.place ≠ .decided diff d := by
        intro diff d hp
        rw [hp] at hplace
        rcases hplace with hp | hp <;> cases hp
      have hbefore : (call.place = .called ∨ (∃ diff d, call.place = .fetched diff d) ∨
          call.place = .failed) → call.wrote = false := h.before call hmem
      have hok := h.set hcall call rfl hbefore (fun diff d hp => absurd hp (hnot diff d))
        fun hw => ⟨hw, h.returned hmem hnot hw⟩
      refine ⟨hok, hgood hok (fun _ _ => rfl) (fun hp => hbefore (.inr (.inr hp)))
        (fun hw hp hw' => ?_) ?_⟩
      · rcases hw' with hw' | hw'
        · exact absurd hw' (by rw [hw]; simp)
        · exact absurd hw' hp
      · intro diff d hp
        exact absurd hp (hnot diff d)

/-- **Orderly steps keep the agreement**, and are good. -/
theorem ResolutionOk.next {t : ResolutionState} {ev : ResolutionEvent} (h : ResolutionOk id s)
    (hc : resolutionOrderly id s ev = true) (hnext : s.next id ev = some t) :
    ResolutionOk id t ∧ ResolutionGood id s ev t := by
  cases ev with
  | resolve action userId =>
      rw [ResolutionState.next] at hnext
      split at hnext
      · cases hnext
      · next c hfind =>
          obtain rfl := Option.some.inj hnext
          have hok := h.resolve hfind action userId
          exact ⟨hok, hok.one, trivial⟩
  | step i io now =>
      rw [ResolutionState.next] at hnext
      split at hnext
      · cases hnext
      · next call hcall =>
          obtain rfl := Option.some.inj hnext
          exact h.step hcall hc
  | other call =>
      rw [ResolutionState.next] at hnext
      split at hnext
      · next hallowed =>
          obtain rfl := Option.some.inj hnext
          have hok := h.other hallowed hc
          exact ⟨hok, hok.one, trivial⟩
      · cases hnext

end Runs

/-- **In orderly runs a change is resolved once and completely.** -/
theorem resolutions_whole (id : ℕ) {s : ResolutionState} (evs : List ResolutionEvent)
    (hinit : (resolutions id).init s)
    (h : (resolutions id).Along s evs fun s ev _ => resolutionOrderly id s ev = true) :
    (resolutions id).Along s evs (ResolutionGood id) := by
  obtain ⟨hu, hrow, hcalls⟩ := hinit
  have hnil : ∀ {P : ResolveCall → Prop}, ∀ c ∈ s.calls, P c := by
    rw [hcalls]
    exact fun c hc => absurd hc List.not_mem_nil
  have hok : ResolutionOk id s := by
    refine ⟨hu, hrow, hnil, hnil, hnil, hnil, hnil, fun i j call call' hi => ?_⟩
    rw [hcalls] at hi
    cases hi
  intro pre ev post t u hsplit hrun hstep
  have ht : ResolutionOk id t :=
    h.invariant (fun t ev u hI ha hC => (hI.next hC ha).1) hok hsplit hrun
  exact (ht.next (h pre ev post t u hsplit hrun hstep) hstep).2

/-- A change that offers a layout for a doc. -/
def layoutOffer : ChangeRecord :=
  ⟨1, [], changeTypeDocAdopt, some ⟨bytes "t", [], bytes "v1", bytes "v2", []⟩, .new, 0, [], []⟩

def offered : ResolutionState :=
  ⟨⟨[{ drawnDoc with origin := .human }], [], [], [layoutOffer]⟩, []⟩

theorem offered_init : (resolutions 1).init offered :=
  ⟨List.nodup_singleton _, by decide, rfl⟩

/-- The layout is taken, while another user saves a doc of which the version is not the stored one;
a later decision finds the change closed. -/
def taken : List ResolutionEvent :=
  [.resolve .accept (bytes "u"), .resolve .keep (bytes "w"), .step 0 true 1,
    .other (.save (bytes "t") (bytes "v3") (some 7) (bytes "w") (bytes "manual") 2),
    .step 0 true 3, .step 0 true 4, .resolve .accept (bytes "w"), .step 2 true 5]

theorem resolutions_whole_taken : (resolutions 1).Along offered taken (ResolutionGood 1) :=
  resolutions_whole 1 taken offered_init
    (Machine.along_of_check (fun _ _ _ => Iff.rfl) (by decide))

/-- The change is dismissed after the doc has been read. -/
def dismissedMeanwhile : List ResolutionEvent :=
  [.resolve .accept (bytes "u"), .step 0 true 1, .other (.close 1 .dismissed)]

/-- The doc is written, and the change cannot be acknowledged. -/
def writtenOnly : List ResolutionEvent :=
  [.resolve .accept (bytes "u"), .step 0 true 1, .step 0 true 2]

/-- A doc is kept, and taken by a decision that comes between. -/
def keptAndTaken : List ResolutionEvent :=
  [.resolve .keep (bytes "u"), .resolve .accept (bytes "w"), .step 0 true 1, .step 0 true 2,
    .step 1 true 3, .step 1 true 4]

/-- **A resolution can be torn**: a dismissed change is applied, a decision that returns an error
has written the doc, and a doc that was kept is a generated one. -/
theorem resolution_torn :
    (¬ ∀ (id : ℕ) (s : ResolutionState) (evs : List ResolutionEvent), (resolutions id).init s →
      (resolutions id).Along s evs (ResolutionGood id)) ∧
    ¬ (resolutions 1).Along offered (writtenOnly ++ [.step 0 false 3]) (ResolutionGood 1) ∧
    ¬ (resolutions 1).Along offered (keptAndTaken ++ [.step 0 true 5]) (ResolutionGood 1) := by
  have hstep : ∀ s ev t, ResolutionState.next 1 s ev = some t → (resolutions 1).step s ev t :=
    fun _ _ _ h => h
  refine ⟨?_, ?_, ?_⟩
  · intro h
    have hall := h 1 offered (dismissedMeanwhile ++ [.step 0 true 2]) offered_init
    have hgood := hall.last (Machine.Run.foldlM hstep rfl) rfl
    obtain ⟨-, -, hopen, -⟩ := hgood.2 _ _ rfl rfl
    exact absurd (hopen rfl nofun (.inl rfl)) (by decide)
  · intro h
    have hgood := h.last (Machine.Run.foldlM hstep rfl) rfl
    obtain ⟨-, hwrote, -⟩ := hgood.2 _ _ rfl rfl
    cases hwrote rfl
  · intro h
    have hgood := h.last (Machine.Run.foldlM hstep rfl) rfl
    obtain ⟨-, -, -, hdecided⟩ := hgood.2 _ _ rfl rfl
    obtain ⟨-, d', hd', hkept⟩ := hdecided _ _ rfl rfl
    obtain rfl := Option.some.inj hd'
    cases hkept

end WiseLabz.Doc
