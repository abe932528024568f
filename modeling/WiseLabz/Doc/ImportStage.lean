/-
**Staged imports.**

An uploaded vault is staged in a directory until a user commits it.  A commit claims it by renaming
its directory, so that nobody else finds it, reads its plan and creates its docs; when it fails, the
directory is put back.  A sweep removes old directories, claimed ones too, and a process may end at
any time.

Main definitions:

* `ImportStage.Stage` — the directories, the commits that are under way, and what was imported;
* `ImportStage.Step`, `ImportStage.machine` — **what commits and sweeps do**, in any order.

Main results:

* `ImportStage.imported_once` — **no import creates its docs twice**, one commit at most has it at a
  time, and once it was imported it is staged no more.
-/

import WiseLabz.Lib.Bytes
import WiseLabz.Lib.Machine
import WiseLabz.Lib.Threads

set_option relaxedAutoImplicit false
set_option autoImplicit false

namespace WiseLabz.ImportStage

open Lib

/-! ### Data -/

/-- How far a commit is. -/
inductive Pc
  | start
  /-- `Claim` has renamed the directory. -/
  | claimed
  /-- `Claim` has returned the plan. -/
  | planned
  /-- Before `release`. -/
  | failed
  /-- The docs are created; before `done`. -/
  | committed
  | returned
  deriving DecidableEq, Repr

/-- The commit has the import. -/
def Pc.holds : Pc → Bool
  | .claimed | .planned | .failed | .committed => true
  | .start | .returned => false

/-- The commit has the import, and has not created its docs. -/
def Pc.isOpen : Pc → Bool
  | .claimed | .planned | .failed => true
  | .start | .committed | .returned => false

/-- A request to commit an import. -/
structure Call where
  id : Bytes
  pc : Pc
  deriving DecidableEq, Repr

/-- The ids that were made, the directories under their names and with `claimSuffix`, and the
imports whose docs were created, one entry each time. -/
structure Stage where
  made : List Bytes
  staged : List Bytes
  claimed : List Bytes
  imported : List Bytes
  calls : List Call

def Stage.setPc (s : Stage) (i : ℕ) (k : Call) (pc : Pc) : Stage :=
  { s with calls := s.calls.set i ⟨k.id, pc⟩ }

/-- The claimed directory is no more under its name. -/
def Stage.unclaim (s : Stage) (id : Bytes) : Stage :=
  { s with claimed := s.claimed.filter (· != id) }

/-! ### The machine -/

inductive Event
  | create
  | begin
  | call (i : ℕ)
  | crash (i : ℕ)
  | remove

/-- **What commits and sweeps do**, one step after the other. -/
inductive Step (s : Stage) : Event → Stage → Prop
  /-- `Create`, with an id that `uuid.NewString` makes. -/
  | create {id : Bytes} : id ∉ s.made →
      Step s .create { s with made := id :: s.made, staged := id :: s.staged }
  | begin {id : Bytes} : Step s .begin { s with calls := s.calls ++ [⟨id, .start⟩] }
  /-- The rename of `Claim`. -/
  | claim {i : ℕ} {k : Call} : s.calls[i]? = some k → k.pc = .start → k.id ∈ s.staged →
      Step s (.call i) (Stage.setPc
        { s with staged := s.staged.filter (· != k.id), claimed := k.id :: s.claimed } i k .claimed)
  | notStaged {i : ℕ} {k : Call} : s.calls[i]? = some k → k.pc = .start → k.id ∉ s.staged →
      Step s (.call i) (s.setPc i k .returned)
  | readPlan {i : ℕ} {k : Call} : s.calls[i]? = some k → k.pc = .claimed → k.id ∈ s.claimed →
      Step s (.call i) (s.setPc i k .planned)
  /-- There is no plan, or it is too old. -/
  | discard {i : ℕ} {k : Call} : s.calls[i]? = some k → k.pc = .claimed →
      Step s (.call i) ((s.unclaim k.id).setPc i k .returned)
  | fail {i : ℕ} {k : Call} : s.calls[i]? = some k → k.pc = .planned →
      Step s (.call i) (s.setPc i k .failed)
  /-- The transaction of `ImportDocs`. -/
  | commit {i : ℕ} {k : Call} : s.calls[i]? = some k → k.pc = .planned →
      Step s (.call i) (Stage.setPc { s with imported := k.id :: s.imported } i k .committed)
  | done {i : ℕ} {k : Call} : s.calls[i]? = some k → k.pc = .committed →
      Step s (.call i) ((s.unclaim k.id).setPc i k .returned)
  | release {i : ℕ} {k : Call} : s.calls[i]? = some k → k.pc = .failed → k.id ∈ s.claimed →
      Step s (.call i)
        (Stage.setPc { s.unclaim k.id with staged := k.id :: s.staged } i k .returned)
  /-- There is nothing left to be put back. -/
  | notReleased {i : ℕ} {k : Call} : s.calls[i]? = some k → k.pc = .failed → k.id ∉ s.claimed →
      Step s (.call i) (s.setPc i k .returned)
  /-- The process of a commit ends. -/
  | crash {i : ℕ} {k : Call} : s.calls[i]? = some k → Step s (.crash i) (s.setPc i k .returned)
  /-- `Sweep`, and an upload that fails, remove a directory. -/
  | removeStaged {id : Bytes} : Step s .remove { s with staged := s.staged.filter (· != id) }
  | removeClaimed {id : Bytes} : Step s .remove (s.unclaim id)

/-- **Staged imports**, from an empty directory. -/
def machine : Machine Stage Event where
  init s := s.staged = [] ∧ s.imported = [] ∧ s.calls = []
  step := Step

/-! ### One commit at a time -/

/-- What holds of one commit: what it has is staged no more, and was not imported before it creates
the docs. -/
structure Call.Ok (s : Stage) (k : Call) : Prop where
  made : k.pc.holds = true → k.id ∈ s.made
  claimed : k.pc.holds = true → k.id ∉ s.staged
  fresh : k.pc.isOpen = true → k.id ∉ s.imported

structure Inv (s : Stage) : Prop where
  made : ∀ id, id ∈ s.staged ∨ id ∈ s.imported → id ∈ s.made
  calls : ∀ k ∈ s.calls, k.Ok s
  apart : Apart (fun k k' => k.pc.holds = true → k'.pc.holds = true → k.id ≠ k'.id) s.calls
  staged : ∀ id ∈ s.staged, id ∉ s.imported
  imported : s.imported.Nodup

theorem Pc.holds_of_isOpen {pc : Pc} (h : pc.isOpen = true) : pc.holds = true := by
  cases pc <;> first | rfl | cases h

/-- What a commit that has nothing keeps. -/
theorem Call.ok_of_not_holds {s : Stage} {k : Call} (h : k.pc.holds = false) : k.Ok s := by
  have hnot : ¬ k.pc.holds = true := fun hc => Bool.noConfusion (h.symm.trans hc)
  exact ⟨fun hc => absurd hc hnot, fun hc => absurd hc hnot,
    fun hc => absurd (Pc.holds_of_isOpen hc) hnot⟩

theorem Call.Ok.of_stage {s s' : Stage} {k : Call} (h : k.Ok s)
    (hmade : ∀ id ∈ s.made, id ∈ s'.made) (hstaged : k.id ∈ s'.staged → k.id ∈ s.staged)
    (himported : k.id ∈ s'.imported → k.id ∈ s.imported) : k.Ok s' where
  made hc := hmade _ (h.made hc)
  claimed hc hmem := h.claimed hc (hstaged hmem)
  fresh hc hmem := h.fresh hc (himported hmem)

/-- **What a step of one commit keeps**, next to the others. -/
theorem Inv.setPc {s s' : Stage} (h : Inv s) {i : ℕ} {k : Call} {pc : Pc}
    (hi : s.calls[i]? = some k) (hcalls : s'.calls = s.calls.set i ⟨k.id, pc⟩)
    (hok : Call.Ok s' ⟨k.id, pc⟩)
    (hothers : ∀ j q, j ≠ i → s.calls[j]? = some q →
      q.Ok s' ∧ (pc.holds = true → q.pc.holds = true → q.id ≠ k.id))
    (hmade : ∀ id, id ∈ s'.staged ∨ id ∈ s'.imported → id ∈ s'.made)
    (hstaged : ∀ id ∈ s'.staged, id ∉ s'.imported) (himported : s'.imported.Nodup) : Inv s' := by
  refine ⟨hmade, fun q hq => ?_, ?_, hstaged, himported⟩
  · rw [hcalls] at hq
    obtain ⟨j, hj⟩ := List.mem_iff_getElem?.1 hq
    rw [getElem?_set_of_some hi] at hj
    split at hj
    · exact Option.some.inj hj ▸ hok
    · next hne => exact (hothers j q hne hj).1
  · rw [hcalls]
    refine h.apart.set hi fun j q hne hj => ⟨fun hk hq => ?_, fun hq hk => ?_⟩
    · exact ((hothers j q hne hj).2 hk hq).symm
    · exact (hothers j q hne hj).2 hk hq

/-- **A commit that goes on** with what it has, or without it. -/
theorem Inv.goOn {s s' : Stage} (h : Inv s) {i : ℕ} {k : Call} {pc : Pc}
    (hi : s.calls[i]? = some k) (hcalls : s'.calls = s.calls.set i ⟨k.id, pc⟩)
    (hmade : s'.made = s.made) (hstaged : s'.staged = s.staged)
    (himported : s'.imported = s.imported) (hholds : pc.holds = true → k.pc.holds = true)
    (hopen : pc.isOpen = true → k.pc.isOpen = true) : Inv s' := by
  have hstage : ∀ q : Call, q.Ok s → q.Ok s' := fun q hq =>
    hq.of_stage (fun _ => hmade ▸ id) (fun hc => hstaged ▸ hc) fun hc => himported ▸ hc
  have hk := hstage k (h.calls k (List.mem_of_getElem? hi))
  refine h.setPc hi hcalls
    ⟨fun hc => hk.made (hholds hc), fun hc => hk.claimed (hholds hc), fun hc => hk.fresh (hopen hc)⟩
    (fun j q hne hj => ⟨hstage q (h.calls q (List.mem_of_getElem? hj)), fun hc hq => ?_⟩) ?_ ?_ ?_
  · exact h.apart j i q k hj hi hne hq (hholds hc)
  · rw [hmade, hstaged, himported]
    exact h.made
  · rw [hstaged, himported]
    exact h.staged
  · rw [himported]
    exact h.imported

/-- Directories may go at any time. -/
theorem Inv.remove {s : Stage} (h : Inv s) (id : Bytes) :
    Inv { s with staged := s.staged.filter (· != id) } where
  made id' hid := h.made id' (hid.imp_left fun hmem => (List.mem_filter.1 hmem).1)
  calls k hk := (h.calls k hk).of_stage (fun _ hmem => hmem)
    (fun hmem => (List.mem_filter.1 hmem).1) fun hmem => hmem
  apart := h.apart
  staged id' hid := h.staged id' (List.mem_filter.1 hid).1
  imported := h.imported

theorem inv_step {s s' : Stage} {a : Event} (h : Inv s) (hstep : Step s a s') : Inv s' := by
  have hcall : ∀ {j : ℕ} {q : Call}, s.calls[j]? = some q → q.Ok s := fun hj =>
    h.calls _ (List.mem_of_getElem? hj)
  cases hstep with
  | @create id hnew =>
      refine ⟨?_, fun q hq => ?_, h.apart, ?_, h.imported⟩
      · rintro id' (hid | hid)
        · rcases List.mem_cons.1 hid with rfl | hid
          · exact List.mem_cons_self
          · exact List.mem_cons_of_mem _ (h.made id' (.inl hid))
        · exact List.mem_cons_of_mem _ (h.made id' (.inr hid))
      · have hok := h.calls q hq
        refine ⟨fun hc => List.mem_cons_of_mem _ (hok.made hc), fun hc hmem => ?_, hok.fresh⟩
        rcases List.mem_cons.1 hmem with heq | hmem
        · exact hnew (heq ▸ hok.made hc)
        · exact hok.claimed hc hmem
      · intro id' hid
        rcases List.mem_cons.1 hid with rfl | hid
        · exact fun hmem => hnew (h.made _ (.inr hmem))
        · exact h.staged id' hid
  | begin =>
      refine ⟨h.made, forall_mem_append_singleton (fun q hq => ?_) (Call.ok_of_not_holds rfl),
        h.apart.append_singleton fun q _ => ⟨fun hc => ?_, fun _ hc => ?_⟩, h.staged, h.imported⟩
      · exact (h.calls q hq).of_stage (fun _ hmem => hmem) id id
      · cases hc
      · cases hc
  | @claim i k hi hpc hmem =>
      refine h.setPc hi rfl
        ⟨fun _ => h.made k.id (.inl hmem), fun _ hc => ?_, fun _ => h.staged k.id hmem⟩
        (fun j q hne hj => ⟨?_, fun _ hq heq => ?_⟩) (h.remove k.id).made (h.remove k.id).staged
        h.imported
      · exact absurd rfl (bne_iff_ne.1 (List.mem_filter.1 hc).2)
      · exact (hcall hj).of_stage (fun _ hmem => hmem) (fun hc => (List.mem_filter.1 hc).1) id
      · exact (hcall hj).claimed hq (heq ▸ hmem)
  | @commit i k hi hpc =>
      have hok := hcall hi
      have hholds : k.pc.holds = true := by rw [hpc]; rfl
      have hopen : k.pc.isOpen = true := by rw [hpc]; rfl
      refine h.setPc hi rfl
        ⟨fun _ => hok.made hholds, fun _ => hok.claimed hholds, fun hc => by cases hc⟩
        (fun j q hne hj => ⟨⟨(hcall hj).made, (hcall hj).claimed, fun hc hmem => ?_⟩,
          fun _ hq => h.apart j i q k hj hi hne hq hholds⟩) ?_ (fun id hid hmem => ?_)
        (List.nodup_cons.2 ⟨hok.fresh hopen, h.imported⟩)
      · rcases List.mem_cons.1 hmem with heq | hmem
        · exact h.apart j i q k hj hi hne (Pc.holds_of_isOpen hc) hholds heq
        · exact (hcall hj).fresh hc hmem
      · rintro id (hid | hid)
        · exact h.made id (.inl hid)
        · rcases List.mem_cons.1 hid with rfl | hid
          · exact hok.made hholds
          · exact h.made id (.inr hid)
      · rcases List.mem_cons.1 hmem with rfl | hmem
        · exact hok.claimed hholds hid
        · exact h.staged id hid hmem
  | @release i k hi hpc hmem =>
      have hok := hcall hi
      have hholds : k.pc.holds = true := by rw [hpc]; rfl
      have hopen : k.pc.isOpen = true := by rw [hpc]; rfl
      refine h.setPc hi rfl (Call.ok_of_not_holds rfl)
        (fun j q hne hj => ⟨⟨(hcall hj).made, fun hc hmem => ?_, (hcall hj).fresh⟩,
          fun hc => by cases hc⟩) ?_ (fun id hid => ?_) h.imported
      · rcases List.mem_cons.1 hmem with heq | hmem
        · exact h.apart j i q k hj hi hne hc hholds heq
        · exact (hcall hj).claimed hc hmem
      · rintro id (hid | hid)
        · rcases List.mem_cons.1 hid with rfl | hid
          · exact hok.made hholds
          · exact h.made id (.inl hid)
        · exact h.made id (.inr hid)
      · rcases List.mem_cons.1 hid with rfl | hid
        · exact hok.fresh hopen
        · exact h.staged id hid
  | @readPlan i k hi hpc _ =>
      exact h.goOn hi rfl rfl rfl rfl (fun _ => hpc ▸ rfl) fun _ => hpc ▸ rfl
  | @fail i k hi hpc => exact h.goOn hi rfl rfl rfl rfl (fun _ => hpc ▸ rfl) fun _ => hpc ▸ rfl
  | notStaged hi | discard hi | done hi | notReleased hi | crash hi =>
      refine h.goOn hi rfl rfl rfl rfl (fun hc => ?_) fun hc => ?_
      · cases hc
      · cases hc
  | removeStaged => exact h.remove _
  | removeClaimed => exact ⟨h.made, fun k hk => ⟨(h.calls k hk).made, (h.calls k hk).claimed,
      (h.calls k hk).fresh⟩, h.apart, h.staged, h.imported⟩

theorem inv_reachable {s : Stage} (h : machine.Reachable s) : Inv s :=
  h.invariant
    (fun s ⟨hstaged, himported, hcalls⟩ =>
      ⟨by simp [hstaged, himported], by simp [hcalls], hcalls ▸ apart_nil _, by simp [hstaged],
        by simp [himported]⟩)
    fun _ _ _ => inv_step

/-- **No import creates its docs twice**; no two commits have it at the same time, and once it was
imported it is staged no more. -/
theorem imported_once {s : Stage} (h : machine.Reachable s) :
    s.imported.Nodup ∧ (∀ id ∈ s.imported, id ∉ s.staged) ∧
      ∀ (i j : ℕ) (k k' : Call), s.calls[i]? = some k → s.calls[j]? = some k' → i ≠ j →
        k.pc.holds = true → k'.pc.holds = true → k.id ≠ k'.id := by
  have hinv := inv_reachable h
  exact ⟨hinv.imported, fun id hid hmem => hinv.staged id hmem hid, hinv.apart⟩

/-! ### Two commits of one import -/

/-- Two commits of one import: the first one fails and puts it back, the second one imports it. -/
theorem reachable_two : ∃ s, machine.Reachable s ∧ s.imported = [[1]] ∧
    s.calls = [⟨[1], .returned⟩, ⟨[1], .committed⟩] := by
  have h₀ : machine.Reachable ⟨[], [], [], [], []⟩ := .of_init ⟨rfl, rfl, rfl⟩
  have h₁ := h₀.step (@Step.create _ [1] (by decide))
  have h₂ := (h₁.step (@Step.begin _ [1])).step (@Step.begin _ [1])
  have h₃ := h₂.step (@Step.claim _ 0 _ rfl rfl (by decide))
  have h₄ := h₃.step (@Step.readPlan _ 0 _ rfl rfl (by decide))
  have h₅ := h₄.step (@Step.fail _ 0 _ rfl rfl)
  have h₆ := h₅.step (@Step.release _ 0 _ rfl rfl (by decide))
  have h₇ := h₆.step (@Step.claim _ 1 _ rfl rfl (by decide))
  have h₈ := h₇.step (@Step.readPlan _ 1 _ rfl rfl (by decide))
  have h₉ := h₈.step (@Step.commit _ 1 _ rfl rfl)
  exact ⟨_, h₉, rfl, rfl⟩

theorem imported_once_two : ∃ s, machine.Reachable s ∧ s.imported = [[1]] ∧ [1] ∉ s.staged := by
  obtain ⟨s, hs, himported, -⟩ := reachable_two
  exact ⟨s, hs, himported, (imported_once hs).2.1 [1] (himported ▸ List.mem_cons_self)⟩

end WiseLabz.ImportStage
