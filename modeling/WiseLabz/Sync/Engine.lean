/-
**The runs of the sync engine.**

A sync of a connector claims the connector's slot before it waits for a place among the runs that
may go on at once; on every way out it gives its place back, deletes its claim and closes the
channel of the claim.  A second sync of the connector is refused meanwhile, or waits for that
channel and tries again.  Work that is detached from its request is registered, and a shutdown
waits for it.

Main definitions:

* `SyncEngine.Pc`, `SyncEngine.Engine` — how far a call is, and the engine;
* `SyncEngine.Step`, `SyncEngine.machine` — **what the calls do**, in any order.

Main results:

* `SyncEngine.one_run` — **one run of a connector at a time**, and no more runs than places;
* `SyncEngine.never_stuck` — **no claim is left behind**: while a call has not returned, one of them
  can go on;
* `SyncEngine.drained` — after a shutdown has waited, no detached work runs.
-/

import WiseLabz.Lib.Bytes
import WiseLabz.Lib.Dict
import WiseLabz.Lib.Machine
import WiseLabz.Lib.Threads

set_option relaxedAutoImplicit false
set_option autoImplicit false

namespace WiseLabz.SyncEngine

open Lib

/-! ### Data -/

/-- How far a call is; a claim is known by the number of its channel. -/
inductive Pc
  /-- Before `LoadOrStore`; with `whenFree` the call waits for another run. -/
  | start (whenFree : Bool)
  | waiting (channel : ℕ)
  /-- `runClaimed`, before it has a place of the semaphore. -/
  | claimed (channel : ℕ)
  | running (channel : ℕ)
  /-- Before `inFlight.Delete`. -/
  | finished (channel : ℕ)
  /-- Before `close(done)`. -/
  | deleted (channel : ℕ)
  | returned
  deriving DecidableEq, Repr

/-- The claim that is in the map. -/
def Pc.slot? : Pc → Option ℕ
  | .claimed ch | .running ch | .finished ch => some ch
  | _ => none

/-- The channel that is to be closed. -/
def Pc.own? : Pc → Option ℕ
  | .claimed ch | .running ch | .finished ch | .deleted ch => some ch
  | _ => none

def Pc.isRunning : Pc → Bool
  | .running _ => true
  | _ => false

/-- A call of `RunSyncFields` or `RunSyncFieldsWhenFree`, from detached work if it has a worker. -/
structure Call where
  connectorID : Bytes
  worker : Option ℕ
  pc : Pc
  deriving DecidableEq, Repr

/-- The engine: `made` and `closed` tell its channels, `sem` the places that are taken, and
`workers` the detached work that has not returned. -/
structure Engine where
  maxConcurrency : ℕ
  made : ℕ
  closed : List ℕ
  inFlight : Dict Bytes ℕ
  sem : ℕ
  stopping : Bool
  waited : Bool
  workers : List Bool
  calls : List Call

def Engine.setPc (e : Engine) (i : ℕ) (k : Call) (pc : Pc) : Engine :=
  { e with calls := e.calls.set i { k with pc := pc } }

/-! ### The machine -/

inductive Event
  | go
  | begin
  | call (i : ℕ)
  /-- The context of a call ends. -/
  | cancel (i : ℕ)
  | leave (worker : ℕ)
  | stop
  | wait

/-- **What the calls do**, one step after the other. -/
inductive Step (e : Engine) : Event → Engine → Prop
  /-- `TryGo`, before the shutdown. -/
  | tryGo : e.stopping = false → Step e .go { e with workers := e.workers ++ [true] }
  | begin {connectorID : Bytes} {worker : Option ℕ} {whenFree : Bool} :
      (∀ w ∈ worker, e.workers[w]? = some true) →
        Step e .begin { e with calls := e.calls ++ [⟨connectorID, worker, .start whenFree⟩] }
  | claim {i : ℕ} {k : Call} {whenFree : Bool} : e.calls[i]? = some k → k.pc = .start whenFree →
      e.inFlight.get k.connectorID = none →
        Step e (.call i) (Engine.setPc
          { e with made := e.made + 1, inFlight := e.inFlight.set k.connectorID e.made } i k
          (.claimed e.made))
  /-- `ErrAlreadyRunning`. -/
  | refuse {i ch : ℕ} {k : Call} : e.calls[i]? = some k → k.pc = .start false →
      e.inFlight.get k.connectorID = some ch →
        Step e (.call i) (Engine.setPc { e with made := e.made + 1 } i k .returned)
  | await {i ch : ℕ} {k : Call} : e.calls[i]? = some k → k.pc = .start true →
      e.inFlight.get k.connectorID = some ch →
        Step e (.call i) (Engine.setPc { e with made := e.made + 1 } i k (.waiting ch))
  | wake {i ch : ℕ} {k : Call} : e.calls[i]? = some k → k.pc = .waiting ch → ch ∈ e.closed →
      Step e (.call i) (e.setPc i k (.start true))
  | giveUp {i ch : ℕ} {k : Call} : e.calls[i]? = some k → k.pc = .waiting ch →
      Step e (.cancel i) (e.setPc i k .returned)
  | acquire {i ch : ℕ} {k : Call} : e.calls[i]? = some k → k.pc = .claimed ch →
      e.sem < e.maxConcurrency →
        Step e (.call i) (Engine.setPc { e with sem := e.sem + 1 } i k (.running ch))
  | abandon {i ch : ℕ} {k : Call} : e.calls[i]? = some k → k.pc = .claimed ch →
      Step e (.cancel i) (e.setPc i k (.finished ch))
  /-- The run ends, one way or the other, and gives its place back. -/
  | finish {i ch : ℕ} {k : Call} : e.calls[i]? = some k → k.pc = .running ch →
      Step e (.call i) (Engine.setPc { e with sem := e.sem - 1 } i k (.finished ch))
  | delete {i ch : ℕ} {k : Call} : e.calls[i]? = some k → k.pc = .finished ch →
      Step e (.call i) (Engine.setPc { e with inFlight := e.inFlight.erase k.connectorID } i k
        (.deleted ch))
  | close {i ch : ℕ} {k : Call} : e.calls[i]? = some k → k.pc = .deleted ch →
      Step e (.call i) (Engine.setPc { e with closed := ch :: e.closed } i k .returned)
  /-- Detached work returns, after the calls that it makes. -/
  | leave {w : ℕ} : e.workers[w]? = some true →
      (∀ k ∈ e.calls, k.worker = some w → k.pc = .returned) →
        Step e (.leave w) { e with workers := e.workers.set w false }
  | stop : Step e .stop { e with stopping := true }
  /-- `Wait` returns without an error. -/
  | wait : e.stopping = true → (∀ b ∈ e.workers, b = false) →
      Step e .wait { e with waited := true }

/-- **The engine**, from its start. -/
def machine : Machine Engine Event where
  init e := e.inFlight = .empty ∧ e.sem = 0 ∧ e.waited = false ∧ e.calls = []
  step := Step

/-! ### What the calls keep -/

/-- What holds of one call. -/
structure CallOk (e : Engine) (k : Call) : Prop where
  known : ∀ ch ∈ k.pc.own?, ch < e.made
  slot : ∀ ch ∈ k.pc.slot?, e.inFlight.get k.connectorID = some ch
  wakes : ∀ ch, k.pc = .waiting ch → ch ∈ e.closed ∨ ∃ k' ∈ e.calls, ch ∈ k'.pc.own?
  worker : k.pc ≠ .returned → ∀ w ∈ k.worker, e.workers[w]? = some true

/-- What holds of the engine: every claim in the map is that of one call, and every place is taken
by one. -/
structure Inv (e : Engine) : Prop where
  calls : ∀ k ∈ e.calls, CallOk e k
  apart : Apart (fun k k' => ∀ ch ∈ k.pc.own?, ch ∉ k'.pc.own?) e.calls
  slots : ∀ c ch, e.inFlight.get c = some ch → ∃ k ∈ e.calls, k.connectorID = c ∧ ch ∈ k.pc.slot?
  tokens : e.sem = e.calls.countP fun k => k.pc.isRunning
  bounded : e.sem ≤ e.maxConcurrency
  waited : e.waited = true → e.stopping = true ∧ ∀ b ∈ e.workers, b = false

/-- The flags of the shutdown are nothing to a call. -/
theorem CallOk.of_flags {e : Engine} {k : Call} {stopping waited : Bool} (h : CallOk e k) :
    CallOk { e with stopping := stopping, waited := waited } k :=
  ⟨h.known, h.slot, h.wakes, h.worker⟩

theorem Pc.own?_of_slot? {pc : Pc} {ch : ℕ} (h : ch ∈ pc.slot?) : ch ∈ pc.own? := by
  cases pc <;> first | exact h | cases h

theorem countP_set {α : Type} {p : α → Bool} {l : List α} {i : ℕ} {a b : α} (h : l[i]? = some a) :
    (l.set i b).countP p + (p a).toNat = l.countP p + (p b).toNat := by
  induction l generalizing i with
  | nil => simp at h
  | cons x l ih =>
      cases i with
      | zero =>
          obtain rfl := Option.some.inj h
          simp only [List.set_cons_zero, List.countP_cons]
          cases p x <;> cases p b <;> simp
      | succ i =>
          have := ih h
          simp only [List.set_cons_succ, List.countP_cons]
          omega

/-- **What a step of one call keeps**, by what it does to its own claim and to the map. -/
theorem Inv.setPc {e e' : Engine} (h : Inv e) {i : ℕ} {k : Call} {pc : Pc}
    (hi : e.calls[i]? = some k) (hcalls : e'.calls = e.calls.set i { k with pc := pc })
    (hworkers : e'.workers = e.workers) (hstopping : e'.stopping = e.stopping)
    (hwaited : e'.waited = e.waited) (hreturned : k.pc ≠ .returned)
    (hmade : e.made ≤ e'.made) (hclosed : ∀ ch ∈ e.closed, ch ∈ e'.closed)
    (hown : ∀ ch ∈ pc.own?, ch ∈ k.pc.own? ∨ ch = e.made ∧ e.made < e'.made)
    (hkept : ∀ ch ∈ k.pc.own?, ch ∈ pc.own? ∨ ch ∈ e'.closed)
    (hslot : ∀ ch ∈ pc.slot?, e'.inFlight.get k.connectorID = some ch)
    (hframe : ∀ c ch, e.inFlight.get c = some ch → ch ∉ k.pc.own? → e'.inFlight.get c = some ch)
    (hslots : ∀ c ch, e'.inFlight.get c = some ch →
      c = k.connectorID ∧ ch ∈ pc.slot? ∨ e.inFlight.get c = some ch ∧ ch ∉ k.pc.slot?)
    (hwaits : ∀ ch, pc = .waiting ch → ch ∈ e'.closed ∨
      ∃ k' ∈ e.calls, k' ≠ k ∧ ch ∈ k'.pc.own?)
    (htokens : e'.sem + k.pc.isRunning.toNat = e.sem + pc.isRunning.toNat)
    (hbounded : e'.sem ≤ e'.maxConcurrency) : Inv e' := by
  have hk := h.calls k (List.mem_of_getElem? hi)
  -- A channel that somebody is to close is closed, or somebody still is.
  have hwakes : ∀ ch, (∃ k' ∈ e.calls, ch ∈ k'.pc.own?) →
      ch ∈ e'.closed ∨ ∃ k' ∈ e'.calls, ch ∈ k'.pc.own? := by
    rintro ch ⟨q, hq, hch⟩
    rw [hcalls]
    by_cases hqk : q = k
    · rcases hkept ch (hqk ▸ hch) with hpc | hdone
      · exact .inr ⟨_, mem_set_self hi, hpc⟩
      · exact .inl hdone
    · exact .inr ⟨q, mem_set_of_ne hi hq hqk, hch⟩
  refine ⟨?_, ?_, ?_, ?_, hbounded, ?_⟩
  · rw [hcalls]
    intro q hq
    obtain ⟨j, hj⟩ := List.mem_iff_getElem?.1 hq
    rw [getElem?_set_of_some hi] at hj
    split at hj
    · obtain rfl := Option.some.inj hj
      refine ⟨fun ch hch => ?_, hslot, fun ch hch => ?_, fun _ w hw => ?_⟩
      · rcases hown ch hch with hch | ⟨rfl, hlt⟩
        · exact Nat.lt_of_lt_of_le (hk.known ch hch) hmade
        · exact hlt
      · rcases hwaits ch hch with hdone | ⟨k', hk', hne, hch'⟩
        · exact .inl hdone
        · exact hwakes ch ⟨k', hk', hch'⟩
      · exact hworkers ▸ hk.worker hreturned w hw
    · next hji =>
        have hqe := List.mem_of_getElem? hj
        have hok := h.calls q hqe
        refine ⟨fun ch hch => ?_, fun ch hch => ?_, fun ch hch => ?_, fun hne w hw => ?_⟩
        · exact Nat.lt_of_lt_of_le (hok.known ch hch) hmade
        · refine hframe _ _ (hok.slot ch hch) ?_
          exact h.apart j i q k hj hi hji ch (Pc.own?_of_slot? hch)
        · rcases hok.wakes ch hch with hdone | hsome
          · exact .inl (hclosed ch hdone)
          · exact hwakes ch hsome
        · exact hworkers ▸ hok.worker hne w hw
  · rw [hcalls]
    refine h.apart.set hi fun j q hne hj => ⟨fun ch hch hq => ?_, fun ch hq hch => ?_⟩
    · rcases hown ch hch with hch | ⟨rfl, -⟩
      · exact h.apart i j k q hi hj hne.symm ch hch hq
      · exact absurd ((h.calls q (List.mem_of_getElem? hj)).known _ hq) (Nat.lt_irrefl _)
    · rcases hown ch hch with hch | ⟨rfl, -⟩
      · exact h.apart j i q k hj hi hne ch hq hch
      · exact absurd ((h.calls q (List.mem_of_getElem? hj)).known _ hq) (Nat.lt_irrefl _)
  · intro c ch hget
    rw [hcalls]
    rcases hslots c ch hget with ⟨rfl, hch⟩ | ⟨hget, hch⟩
    · exact ⟨_, mem_set_self hi, rfl, hch⟩
    · obtain ⟨q, hq, hconn, hqch⟩ := h.slots c ch hget
      exact ⟨q, mem_set_of_ne hi hq fun heq => hch (heq ▸ hqch), hconn, hqch⟩
  · have hcount := countP_set (p := fun q : Call => q.pc.isRunning) (b := { k with pc := pc }) hi
    have := h.tokens
    rw [hcalls]
    dsimp only at hcount
    omega
  · rw [hwaited, hstopping, hworkers]
    exact h.waited

/-- A step of a call that has no claim, neither before nor after. -/
theorem Inv.unclaimed {e : Engine} (h : Inv e) {i : ℕ} {k : Call} {pc : Pc} {made : ℕ}
    (hi : e.calls[i]? = some k) (hreturned : k.pc ≠ .returned) (hmade : e.made ≤ made)
    (hbefore : k.pc.own? = none) (hafter : pc.own? = none)
    (hwaits : ∀ ch, pc = .waiting ch → ∃ k' ∈ e.calls, ch ∈ k'.pc.own?) :
    Inv (Engine.setPc { e with made := made } i k pc) := by
  have hslot : ∀ {pc : Pc} {ch : ℕ}, pc.own? = none → ch ∉ pc.slot? := fun hnone hch => by
    have hown := Pc.own?_of_slot? hch
    rw [hnone] at hown
    cases hown
  have hidle : ∀ {pc : Pc}, pc.own? = none → pc.isRunning = false := fun {pc} hnone => by
    cases pc <;> first | rfl | cases hnone
  refine h.setPc hi rfl rfl rfl rfl hreturned hmade (fun _ hch => hch) (fun ch hch => ?_)
    (fun ch hch => ?_) (fun ch hch => absurd hch (hslot hafter)) (fun _ _ hget _ => hget)
    (fun _ _ hget => .inr ⟨hget, hslot hbefore⟩) (fun ch hch => .inr ?_)
    (by rw [hidle hbefore, hidle hafter]; rfl) h.bounded
  · rw [hafter] at hch
    cases hch
  · rw [hbefore] at hch
    cases hch
  · obtain ⟨k', hk', hown⟩ := hwaits ch hch
    refine ⟨k', hk', ?_, hown⟩
    rintro rfl
    rw [hbefore] at hown
    cases hown

/-- The entries of the map are claims of one call each. -/
theorem Inv.slot_unique {e : Engine} (h : Inv e) {i ch : ℕ} {k : Call} (hi : e.calls[i]? = some k)
    (hown : ch ∈ k.pc.own?) {c : Bytes} (hget : e.inFlight.get c = some ch) :
    c = k.connectorID ∧ ch ∈ k.pc.slot? := by
  obtain ⟨q, hq, hconn, hslot⟩ := h.slots c ch hget
  obtain ⟨j, hj⟩ := List.mem_iff_getElem?.1 hq
  by_cases hji : j = i
  · obtain rfl := Option.some.inj ((hji ▸ hj).symm.trans hi)
    exact ⟨hconn.symm, hslot⟩
  · exact absurd hown (h.apart j i q k hj hi hji ch (Pc.own?_of_slot? hslot))

/-- A step of a call that keeps its claim. -/
theorem Inv.holding {e : Engine} (h : Inv e) {i ch sem : ℕ} {k : Call} {pc : Pc}
    (hi : e.calls[i]? = some k) (hbefore : k.pc.slot? = some ch) (hafter : pc.slot? = some ch)
    (htokens : sem + k.pc.isRunning.toNat = e.sem + pc.isRunning.toNat)
    (hbounded : sem ≤ e.maxConcurrency) :
    Inv (Engine.setPc { e with sem := sem } i k pc) := by
  have hown : ∀ {pc : Pc}, pc.slot? = some ch → pc.own? = some ch := fun hslot =>
    Pc.own?_of_slot? hslot
  have hslot := (h.calls k (List.mem_of_getElem? hi)).slot ch hbefore
  refine h.setPc hi rfl rfl rfl rfl ?_ (Nat.le_refl _) (fun _ hch => hch) (fun ch' hch => .inl ?_)
    (fun ch' hch => .inl ?_) (fun ch' hch => ?_) (fun _ _ hget _ => hget) (fun c ch' hget => ?_)
    (fun ch' hch => ?_) htokens hbounded
  · intro hreturned
    rw [hreturned] at hbefore
    cases hbefore
  · rwa [hown hbefore, ← hown hafter]
  · rwa [hown hafter, ← hown hbefore]
  · rw [hafter] at hch
    exact Option.some.inj hch ▸ hslot
  · by_cases hc : ch' = ch
    · exact .inl ⟨(h.slot_unique hi (hown hbefore) (hc ▸ hget)).1, hc ▸ hafter⟩
    · refine .inr ⟨hget, fun hk => hc ?_⟩
      exact (Option.some.inj (hbefore.symm.trans hk)).symm
  · rw [hch] at hafter
    cases hafter

theorem inv_step {e e' : Engine} {a : Event} (h : Inv e) (hstep : Step e a e') : Inv e' := by
  have hone : ∀ {i : ℕ} {k : Call}, e.calls[i]? = some k → CallOk e k := fun hi =>
    h.calls _ (List.mem_of_getElem? hi)
  cases hstep with
  | tryGo hstopping =>
      refine ⟨fun k hk => ?_, h.apart, h.slots, h.tokens, h.bounded, fun hwaited => ?_⟩
      · have hok := h.calls k hk
        exact ⟨hok.known, hok.slot, hok.wakes, fun hne w hw =>
          List.getElem?_append_left (List.getElem?_eq_some_iff.1 (hok.worker hne w hw)).1 ▸
            hok.worker hne w hw⟩
      · exact absurd (hstopping.symm.trans (h.waited hwaited).1) (by decide)
  | @begin connectorID worker whenFree hworker =>
      refine ⟨forall_mem_append_singleton (fun k hk => ?_) ?_, h.apart.append_singleton fun k _ =>
        ⟨fun _ hn => (by cases hn), fun _ _ hn => (by cases hn)⟩, ?_, ?_, h.bounded, h.waited⟩
      · have hok := h.calls k hk
        refine ⟨hok.known, hok.slot, fun ch hch => (hok.wakes ch hch).imp_right ?_, hok.worker⟩
        exact fun ⟨k', hk', hown⟩ => ⟨k', List.mem_append_left _ hk', hown⟩
      · exact ⟨fun _ hn => (by cases hn), fun _ hn => (by cases hn), fun _ hn => (by cases hn),
          fun _ => hworker⟩
      · intro c ch hget
        obtain ⟨k, hk, hslot⟩ := h.slots c ch hget
        exact ⟨k, List.mem_append_left _ hk, hslot⟩
      · rw [List.countP_append]
        exact h.tokens
  | @claim i k whenFree hi hpc hfree =>
      refine h.setPc hi rfl rfl rfl rfl (by rw [hpc]; rintro ⟨⟩) (Nat.le_succ _) (fun _ hch => hch)
        (fun ch hch => .inr ⟨(Option.some.inj hch).symm, Nat.lt_succ_self _⟩)
        (fun ch hch => by rw [hpc] at hch; cases hch) ?_ ?_ ?_ (fun _ hch => by cases hch)
        (by rw [hpc]; rfl) h.bounded
      · rintro ch ⟨⟩
        exact (Dict.get_set ..).trans (if_pos rfl)
      · intro c ch hget _
        refine (Dict.get_set ..).trans ((if_neg ?_).trans hget)
        rintro rfl
        rw [hfree] at hget
        cases hget
      · intro c ch hget
        have hget := (Dict.get_set ..).symm.trans hget
        split at hget
        · next hc => exact .inl ⟨hc, hget⟩
        · exact .inr ⟨hget, by rw [hpc]; rintro ⟨⟩⟩
  | @refuse i ch k hi hpc _ =>
      exact h.unclaimed hi (by rw [hpc]; decide) (Nat.le_succ _) (by rw [hpc]; rfl) rfl
        fun _ hch => by cases hch
  | @await i ch k hi hpc hget =>
      refine h.unclaimed hi (by rw [hpc]; decide) (Nat.le_succ _) (by rw [hpc]; rfl) rfl
        fun ch' hch => ?_
      obtain rfl := Pc.waiting.inj hch
      obtain ⟨q, hq, -, hslot⟩ := h.slots _ _ hget
      exact ⟨q, hq, Pc.own?_of_slot? hslot⟩
  | @wake i ch k hi hpc _ =>
      exact h.unclaimed hi (by rw [hpc]; rintro ⟨⟩) (Nat.le_refl _) (by rw [hpc]; rfl) rfl
        fun _ hch => by cases hch
  | @giveUp i ch k hi hpc =>
      exact h.unclaimed hi (by rw [hpc]; rintro ⟨⟩) (Nat.le_refl _) (by rw [hpc]; rfl) rfl
        fun _ hch => by cases hch
  | @acquire i ch k hi hpc hplace =>
      exact h.holding hi (by rw [hpc]; rfl) rfl (by rw [hpc]; rfl) hplace
  | @abandon i ch k hi hpc =>
      exact h.holding hi (by rw [hpc]; rfl) rfl (by rw [hpc]; rfl) h.bounded
  | @finish i ch k hi hpc =>
      have hpos : 0 < e.sem := by
        rw [h.tokens]
        exact List.countP_pos_iff.2 ⟨k, List.mem_of_getElem? hi, by rw [hpc]; rfl⟩
      refine h.holding hi (by rw [hpc]; rfl) rfl ?_ ((Nat.sub_le _ _).trans h.bounded)
      rw [hpc]
      exact Nat.sub_add_cancel hpos
  | @delete i ch k hi hpc =>
      have hslot := (hone hi).slot ch (by rw [hpc]; rfl)
      refine h.setPc hi rfl rfl rfl rfl (by rw [hpc]; rintro ⟨⟩) (Nat.le_refl _) (fun _ hch => hch)
        (fun _ hch => .inl (by rw [hpc]; exact hch))
        (fun _ hch => .inl (by rw [hpc] at hch; exact hch))
        (fun _ hch => by cases hch)
        (fun c ch' hget hne => ?_) (fun c ch' hget => .inr ?_) (fun _ hch => by cases hch)
        (by rw [hpc]; rfl) h.bounded
      · refine (Dict.get_erase ..).trans ((if_neg ?_).trans hget)
        rintro rfl
        exact hne (hpc ▸ hslot.symm.trans hget)
      · have hget := (Dict.get_erase ..).symm.trans hget
        split at hget
        · cases hget
        · next hc =>
            refine ⟨hget, fun hch => hc ?_⟩
            exact (h.slot_unique hi (Pc.own?_of_slot? hch) hget).1
  | @close i ch k hi hpc =>
      refine h.setPc hi rfl rfl rfl rfl (by rw [hpc]; rintro ⟨⟩) (Nat.le_refl _)
        (fun _ hch => List.mem_cons_of_mem _ hch) (fun _ hch => by cases hch)
        (fun ch' hch => .inr ?_) (fun _ hch => by cases hch) (fun _ _ hget _ => hget)
        (fun _ _ hget => .inr ⟨hget, by rw [hpc]; rintro ⟨⟩⟩) (fun _ hch => by cases hch)
        (by rw [hpc]; rfl) h.bounded
      rw [hpc] at hch
      exact Option.some.inj hch ▸ List.mem_cons_self
  | @leave w hw hreturned =>
      refine ⟨fun k hk => ?_, h.apart, h.slots, h.tokens, h.bounded, fun hwaited => ?_⟩
      · have hok := h.calls k hk
        refine ⟨hok.known, hok.slot, hok.wakes, fun hne w' hw' => ?_⟩
        rw [getElem?_set_of_some hw, if_neg]
        · exact hok.worker hne w' hw'
        · rintro rfl
          exact hne (hreturned k hk hw')
      · have hfalse := (h.waited hwaited).2 true (List.mem_of_getElem? hw)
        cases hfalse
  | stop =>
      exact ⟨fun k hk => (h.calls k hk).of_flags, h.apart, h.slots, h.tokens, h.bounded,
        fun hw => ⟨rfl, (h.waited hw).2⟩⟩
  | wait hstopping hall =>
      exact ⟨fun k hk => (h.calls k hk).of_flags, h.apart, h.slots, h.tokens, h.bounded,
        fun _ => ⟨hstopping, hall⟩⟩

theorem inv_reachable {e : Engine} (h : machine.Reachable e) : Inv e :=
  h.invariant
    (fun e ⟨hinFlight, hsem, hwaited, hcalls⟩ =>
      ⟨by simp [hcalls], hcalls ▸ apart_nil _, by simp [hinFlight], by simp [hsem, hcalls],
        by simp [hsem], by simp [hwaited]⟩)
    fun _ _ _ => inv_step

/-! ### What holds of every engine -/

/-- **One run of a connector at a time**, and no more runs at once than there are places. -/
theorem one_run {e : Engine} (h : machine.Reachable e) :
    (∀ (i j : ℕ) (k k' : Call), e.calls[i]? = some k → e.calls[j]? = some k' → i ≠ j →
      k.pc.slot?.isSome = true → k'.pc.slot?.isSome = true → k.connectorID ≠ k'.connectorID) ∧
    (e.calls.countP fun k => k.pc.isRunning) ≤ e.maxConcurrency := by
  have hinv := inv_reachable h
  refine ⟨fun i j k k' hi hj hij hslot hslot' heq => ?_, hinv.tokens ▸ hinv.bounded⟩
  obtain ⟨ch, hch⟩ := Option.isSome_iff_exists.1 hslot
  obtain ⟨ch', hch'⟩ := Option.isSome_iff_exists.1 hslot'
  have hget := (hinv.calls k (List.mem_of_getElem? hi)).slot ch hch
  have hget' := (hinv.calls k' (List.mem_of_getElem? hj)).slot ch' hch'
  obtain rfl : ch = ch' := Option.some.inj (hget.symm.trans (heq ▸ hget'))
  exact hinv.apart i j k k' hi hj hij ch (Pc.own?_of_slot? hch) (Pc.own?_of_slot? hch')

/-- A call that has a channel to close can go on, or waits for a place, which another one has. -/
theorem Inv.owner_goes {e : Engine} (h : Inv e) (hmax : 0 < e.maxConcurrency) {k : Call} {ch : ℕ}
    (hk : k ∈ e.calls) (hown : ch ∈ k.pc.own?) : ∃ i e', Step e (.call i) e' := by
  obtain ⟨i, hi⟩ := List.mem_iff_getElem?.1 hk
  cases hpc : k.pc with
  | claimed ch' =>
      by_cases hplace : e.sem < e.maxConcurrency
      · exact ⟨i, _, .acquire hi hpc hplace⟩
      · have hpos : 0 < e.calls.countP fun q => q.pc.isRunning := by
          rw [← h.tokens]
          omega
        obtain ⟨q, hq, hrunning⟩ := List.countP_pos_iff.1 hpos
        obtain ⟨j, hj⟩ := List.mem_iff_getElem?.1 hq
        cases hqpc : q.pc with
        | running ch'' => exact ⟨j, _, .finish hj hqpc⟩
        | _ => rw [hqpc] at hrunning; cases hrunning
  | running ch' => exact ⟨i, _, .finish hi hpc⟩
  | finished ch' => exact ⟨i, _, .delete hi hpc⟩
  | deleted ch' => exact ⟨i, _, .close hi hpc⟩
  | start | waiting | returned => rw [hpc] at hown; cases hown

/-- **No claim is left behind**: as long as a call has not returned, one of the calls can go on
without the end of its context; when all have, nothing is in flight and all places are free. -/
theorem never_stuck {e : Engine} (h : machine.Reachable e) (hmax : 0 < e.maxConcurrency) :
    (∃ i e', Step e (.call i) e') ∨
      (∀ k ∈ e.calls, k.pc = .returned) ∧ (∀ c, e.inFlight.get c = none) ∧ e.sem = 0 := by
  have hinv := inv_reachable h
  by_cases hall : ∀ k ∈ e.calls, k.pc = .returned
  · refine .inr ⟨hall, fun c => ?_, ?_⟩
    · cases hget : e.inFlight.get c with
      | none => rfl
      | some ch =>
          obtain ⟨k, hk, -, hslot⟩ := hinv.slots c ch hget
          rw [hall k hk] at hslot
          cases hslot
    · rw [hinv.tokens]
      refine List.countP_eq_zero.2 fun k hk => ?_
      rw [hall k hk]
      exact Bool.false_ne_true
  · simp only [not_forall] at hall
    obtain ⟨k, hk, hpc⟩ := hall
    refine .inl ?_
    obtain ⟨i, hi⟩ := List.mem_iff_getElem?.1 hk
    cases hcase : k.pc with
    | start whenFree =>
        cases hget : e.inFlight.get k.connectorID with
        | none => exact ⟨i, _, .claim hi hcase hget⟩
        | some ch =>
            cases whenFree with
            | false => exact ⟨i, _, .refuse hi hcase hget⟩
            | true => exact ⟨i, _, .await hi hcase hget⟩
    | waiting ch =>
        rcases (hinv.calls k hk).wakes ch hcase with hclosed | ⟨q, hq, hown⟩
        · exact ⟨i, _, .wake hi hcase hclosed⟩
        · exact hinv.owner_goes hmax hq hown
    | claimed ch | running ch | finished ch | deleted ch =>
        exact hinv.owner_goes hmax hk (by rw [hcase]; rfl)
    | returned => exact absurd hcase hpc

/-- **After a shutdown has waited, no detached work runs**, and none of its calls. -/
theorem drained {e : Engine} (h : machine.Reachable e) (hwaited : e.waited = true) :
    (∀ b ∈ e.workers, b = false) ∧ ∀ k ∈ e.calls, k.worker.isSome = true → k.pc = .returned := by
  have hinv := inv_reachable h
  have hall := (hinv.waited hwaited).2
  refine ⟨hall, fun k hk hworker => ?_⟩
  obtain ⟨w, hw⟩ := Option.isSome_iff_exists.1 hworker
  by_contra hpc
  have htrue := (hinv.calls k hk).worker hpc w hw
  cases hall true (List.mem_of_getElem? htrue)

/-! ### A run that is waited for -/

/-- One call has the slot of a connector and a second one waits for it; a third one, of detached
work, has returned before the shutdown. -/
theorem reachable_waiting : ∃ e, machine.Reachable e ∧ e.maxConcurrency = 1 ∧ e.waited = true ∧
    e.calls = [⟨[1], some 0, .returned⟩, ⟨[1], none, .running 1⟩, ⟨[2], none, .claimed 2⟩,
      ⟨[1], none, .waiting 1⟩] := by
  have h₀ : machine.Reachable ⟨1, 0, [], .empty, 0, false, false, [], []⟩ :=
    .of_init ⟨rfl, rfl, rfl, rfl⟩
  have h₁ := h₀.step (.tryGo rfl)
  have h₂ := h₁.step (@Step.begin _ [1] (some 0) false (by rintro w ⟨⟩; rfl))
  have h₃ := h₂.step (@Step.claim _ 0 _ _ rfl rfl rfl)
  have h₄ := h₃.step (@Step.abandon _ 0 _ _ rfl rfl)
  have h₅ := (h₄.step (@Step.delete _ 0 _ _ rfl rfl)).step (@Step.close _ 0 _ _ rfl rfl)
  have h₆ := h₅.step (@Step.leave _ 0 rfl (by decide))
  have h₇ := (h₆.step .stop).step (.wait rfl (by decide))
  have h₈ := h₇.step (@Step.begin _ [1] none false (by rintro w ⟨⟩))
  have h₉ := h₈.step (@Step.claim _ 1 _ _ rfl rfl rfl)
  have h₁₀ := h₉.step (@Step.acquire _ 1 _ _ rfl rfl (by decide))
  have h₁₁ := h₁₀.step (@Step.begin _ [2] none false (by rintro w ⟨⟩))
  have h₁₂ := h₁₁.step (@Step.claim _ 2 _ _ rfl rfl rfl)
  have h₁₃ := h₁₂.step (@Step.begin _ [1] none true (by rintro w ⟨⟩))
  have h₁₄ := h₁₃.step (@Step.await _ 3 1 _ rfl rfl rfl)
  exact ⟨_, h₁₄, rfl, rfl, rfl⟩

theorem one_run_waiting : ∃ e, machine.Reachable e ∧ ([1] : Bytes) ≠ [2] ∧
    (e.calls.countP fun k => k.pc.isRunning) ≤ 1 := by
  obtain ⟨e, he, hmax, -, hcalls⟩ := reachable_waiting
  obtain ⟨hone, hbounded⟩ := one_run he
  refine ⟨e, he, ?_, hmax ▸ hbounded⟩
  exact hone 1 2 ⟨[1], none, .running 1⟩ ⟨[2], none, .claimed 2⟩ (by rw [hcalls]; rfl)
    (by rw [hcalls]; rfl) (by decide) rfl rfl

theorem never_stuck_waiting : ∃ e, machine.Reachable e ∧ ∃ i e', Step e (.call i) e' := by
  obtain ⟨e, he, hmax, -, hcalls⟩ := reachable_waiting
  refine ⟨e, he, (never_stuck he (hmax ▸ Nat.one_pos)).resolve_right fun hall => ?_⟩
  have hpc := hall.1 ⟨[1], none, .waiting 1⟩ (by rw [hcalls]; decide)
  cases hpc

theorem drained_waiting : ∃ e, machine.Reachable e ∧ e.waited = true ∧
    ∀ b ∈ e.workers, b = false := by
  obtain ⟨e, he, -, hwaited, -⟩ := reachable_waiting
  exact ⟨e, he, hwaited, (drained he hwaited).1⟩

end WiseLabz.SyncEngine
