/-
**One leader among the replicas.**

The replicas of the server share a database, and a lock of it on one session says which of them runs
the background jobs.  A replica that has the lock starts its workers and watches its session; when
it shuts down it waits for its workers before it gives the lock back.  A session may end at any
time, and the lock with it, before its replica sees that.

Main definitions:

* `Leader.Cluster`, `Leader.Replica` — the database and the replicas;
* `Leader.Step`, `Leader.machine` — **what they do**, in any order.

Main results:

* `Leader.one_leader` — **a leader has the lock as long as its session lasts, and two replicas whose
  workers run do not both have their sessions**, in every reachable state.
-/

import WiseLabz.Lib.Machine
import WiseLabz.Lib.Threads

set_option relaxedAutoImplicit false
set_option autoImplicit false

namespace WiseLabz.Leader

open Lib

/-! ### Data -/

/-- How far the election of a replica is. -/
inductive Election
  /-- `Campaign` tries for the lock. -/
  | campaign
  /-- `Campaign` has the lock. -/
  | acquired
  /-- The workers are started, and `Watch` checks the session. -/
  | watch
  | returned
  deriving DecidableEq, Repr

/-- How far `Shutdown` is. -/
inductive Stop
  | running
  /-- `stopping` is set. -/
  | stopping
  /-- The scheduler is stopped and the work context is cancelled. -/
  | cancelled
  /-- All that `Start` has started has returned. -/
  | waited
  | closed
  deriving DecidableEq, Repr

/-- A process; `conns` are the sessions of its pool, and `conn` is the one that its elector has
pinned. -/
structure Replica where
  election : Election
  stop : Stop
  workers : Bool
  conns : List ℕ
  conn : Option ℕ
  deriving DecidableEq, Repr

/-- The database and the replicas; sessions are numbered, and `holder` is the one that has the
lock. -/
structure Cluster where
  sessions : ℕ
  ended : List ℕ
  holder : Option ℕ
  replicas : List Replica

def Cluster.setReplica (c : Cluster) (i : ℕ) (r : Replica) : Cluster :=
  { c with replicas := c.replicas.set i r }

/-- `Close` gives the session back to the pool. -/
def Replica.closed (r : Replica) : Replica :=
  { r with stop := .closed, conn := none }

/-- What a session that ends, or unlocks, leaves of the lock. -/
def Cluster.unlocked (c : Cluster) (session : Option ℕ) : Option ℕ :=
  if c.holder = session then none else c.holder

/-! ### The machine -/

inductive Event
  | connect (i : ℕ)
  | elect (i : ℕ)
  | stop (i : ℕ)
  | crash (i : ℕ)
  | terminate (session : ℕ)
  | join

/-- **What happens**, one thing after the other. -/
inductive Step (c : Cluster) : Event → Cluster → Prop
  /-- A new session in the pool of a replica. -/
  | connect {i : ℕ} {r : Replica} : c.replicas[i]? = some r →
      Step c (.connect i) (Cluster.setReplica { c with sessions := c.sessions + 1 } i
        { r with conns := c.sessions :: r.conns })
  /-- `Campaign`, when its session gets the lock; a session that has it gets it again. -/
  | acquire {i session : ℕ} {r : Replica} : c.replicas[i]? = some r → r.election = .campaign →
      session ∈ r.conns → session ∉ c.ended → (c.holder = none ∨ c.holder = some session) →
        Step c (.elect i) (Cluster.setReplica { c with holder := some session } i
          { r with election := .acquired, conn := some session })
  /-- The answer to `Campaign` is lost, and its session goes back to the pool with the lock. -/
  | unanswered {i session : ℕ} {r : Replica} : c.replicas[i]? = some r →
      r.election = .campaign → session ∈ r.conns → session ∉ c.ended → c.holder = none →
        Step c (.elect i) { c with holder := some session }
  /-- The work context ends the election. -/
  | giveUp {i : ℕ} {r : Replica} : c.replicas[i]? = some r →
      (r.election = .campaign ∨ r.election = .watch) → r.stop = .cancelled →
        Step c (.elect i) (c.setReplica i { r with election := .returned })
  /-- The workers start, unless the replica is stopping. -/
  | lead {i : ℕ} {r : Replica} : c.replicas[i]? = some r → r.election = .acquired →
      r.stop = .running →
        Step c (.elect i) (c.setReplica i { r with election := .watch, workers := true })
  | decline {i : ℕ} {r : Replica} : c.replicas[i]? = some r → r.election = .acquired →
      r.stop ≠ .running → Step c (.elect i) (c.setReplica i { r with election := .returned })
  /-- A ping of `Watch` fails, for whatever reason. -/
  | lost {i : ℕ} {r : Replica} : c.replicas[i]? = some r → r.election = .watch →
      Step c (.elect i) (c.setReplica i { r with election := .returned })
  | stopping {i : ℕ} {r : Replica} : c.replicas[i]? = some r → r.stop = .running →
      Step c (.stop i) (c.setReplica i { r with stop := .stopping })
  | cancel {i : ℕ} {r : Replica} : c.replicas[i]? = some r → r.stop = .stopping →
      Step c (.stop i) (c.setReplica i { r with stop := .cancelled })
  /-- The election has returned, and the workers return. -/
  | wait {i : ℕ} {r : Replica} : c.replicas[i]? = some r → r.stop = .cancelled →
      r.election = .returned →
        Step c (.stop i) (c.setReplica i { r with stop := .waited, workers := false })
  /-- `Close` gives the lock back. -/
  | close {i : ℕ} {r : Replica} : c.replicas[i]? = some r → r.stop = .waited →
      Step c (.stop i)
        { c.setReplica i r.closed with
          holder := c.unlocked r.conn }
  /-- `Close` does not: it has no answer in time, or the session has the lock twice. -/
  | notReleased {i : ℕ} {r : Replica} : c.replicas[i]? = some r → r.stop = .waited →
      Step c (.stop i) (c.setReplica i r.closed)
  /-- A process ends; its sessions last until the database sees that. -/
  | crash {i : ℕ} {r : Replica} : c.replicas[i]? = some r →
      Step c (.crash i) (c.setReplica i ⟨.returned, .closed, false, [], none⟩)
  /-- A session ends, and its lock with it. -/
  | terminate {session : ℕ} : session < c.sessions →
      Step c (.terminate session)
        { c with ended := session :: c.ended, holder := c.unlocked (some session) }
  | join : Step c .join
      { c with replicas := c.replicas ++ [⟨.campaign, .running, false, [], none⟩] }

/-- **A cluster**, from the start without a replica. -/
def machine : Machine Cluster Event where
  init c := c.replicas = [] ∧ c.holder = none ∧ c.ended = []
  step := Step

/-! ### One leader -/

/-- What holds of one replica: its session has the lock or has ended, and its workers run only while
it has a session that it has not given back. -/
structure Replica.Ok (c : Cluster) (r : Replica) : Prop where
  known : ∀ n ∈ r.conns, n < c.sessions
  own : ∀ n ∈ r.conn, n ∈ r.conns
  holds : ∀ n ∈ r.conn, n ∈ c.ended ∨ c.holder = some n
  workers : r.workers = true → r.conn.isSome = true
  campaign : r.election = .campaign → r.conn = none ∧ r.workers = false
  acquired : r.election = .acquired → r.conn.isSome = true ∧ r.workers = false
  waited : r.stop = .waited ∨ r.stop = .closed → r.election = .returned ∧ r.workers = false

/-- What holds of the cluster. -/
structure Inv (c : Cluster) : Prop where
  replicas : ∀ r ∈ c.replicas, r.Ok c
  apart : Apart (fun r r' => ∀ n ∈ r.conns, n ∉ r'.conns) c.replicas

/-- What a replica keeps, when the database changes and its session does not lose the lock. -/
theorem Replica.Ok.of_cluster {c c' : Cluster} {r : Replica} (h : r.Ok c)
    (hsessions : c.sessions ≤ c'.sessions)
    (hholds : ∀ n ∈ r.conn, n ∈ c.ended ∨ c.holder = some n → n ∈ c'.ended ∨ c'.holder = some n) :
    r.Ok c' where
  known n hn := Nat.lt_of_lt_of_le (h.known n hn) hsessions
  own := h.own
  holds n hn := hholds n hn (h.holds n hn)
  workers := h.workers
  campaign := h.campaign
  acquired := h.acquired
  waited := h.waited

/-- **What a step of one replica keeps** that leaves the database as it is. -/
theorem Inv.setReplica {c : Cluster} (h : Inv c) {i : ℕ} {r r' : Replica}
    (hi : c.replicas[i]? = some r) (hconns : ∀ n ∈ r'.conns, n ∈ r.conns) (hok : r'.Ok c) :
    Inv (c.setReplica i r') := by
  refine ⟨forall_mem_set (fun q hq => ?_) (hok.of_cluster (Nat.le_refl _) fun _ _ hn => hn), ?_⟩
  · exact (h.replicas q hq).of_cluster (Nat.le_refl _) fun _ _ hn => hn
  · refine h.apart.set hi fun j q hne hj => ⟨fun n hn => ?_, fun n hn hmem => ?_⟩
    · exact h.apart i j r q hi hj hne.symm n (hconns n hn)
    · exact h.apart j i q r hj hi hne n hn (hconns n hmem)

/-- What a step of the database keeps. -/
theorem Inv.of_cluster {c c' : Cluster} (h : Inv c) (hreplicas : c'.replicas = c.replicas)
    (hsessions : c.sessions ≤ c'.sessions)
    (hholds : ∀ r ∈ c.replicas, ∀ n ∈ r.conn,
      n ∈ c.ended ∨ c.holder = some n → n ∈ c'.ended ∨ c'.holder = some n) :
    Inv c' := by
  refine ⟨fun r hr => ?_, hreplicas ▸ h.apart⟩
  rw [hreplicas] at hr
  exact (h.replicas r hr).of_cluster hsessions (hholds r hr)

/-- A session of the pool of one replica is pinned by no other. -/
theorem Inv.not_conn {c : Cluster} (h : Inv c) {i : ℕ} {r : Replica} (hi : c.replicas[i]? = some r)
    {n : ℕ} (hn : n ∈ r.conns) (hconn : n ∉ r.conn) {q : Replica} (hq : q ∈ c.replicas) :
    n ∉ q.conn := by
  obtain ⟨j, hj⟩ := List.mem_iff_getElem?.1 hq
  intro hmem
  by_cases hij : i = j
  · subst hij
    obtain rfl := Option.some.inj (hi.symm.trans hj)
    exact hconn hmem
  · exact h.apart i j r q hi hj hij n hn ((h.replicas q hq).own n hmem)

/-- **The lock goes to a session** that nobody else has pinned. -/
theorem Inv.setHolder {c : Cluster} (h : Inv c) {session : ℕ}
    (hholder : c.holder = none ∨ c.holder = some session) :
    Inv { c with holder := some session } := by
  refine h.of_cluster rfl (Nat.le_refl _) fun r _ n _ hn => hn.imp_right fun hn => ?_
  rcases hholder with hnone | hsome
  · rw [hnone] at hn
    cases hn
  · exact hsome.symm.trans hn

/-- The lock goes from a session that no replica has pinned. -/
theorem Inv.unlocked {c : Cluster} (h : Inv c) {session : Option ℕ}
    (hfree : ∀ n ∈ session, ∀ r ∈ c.replicas, n ∉ r.conn) :
    Inv { c with holder := c.unlocked session } := by
  refine h.of_cluster rfl (Nat.le_refl _) fun r hr n hn hheld => hheld.imp_right fun hholder => ?_
  refine (if_neg fun hsession => ?_).trans hholder
  exact hfree n (hsession.symm.trans hholder) r hr hn

/-- What the end of a session keeps. -/
theorem Inv.terminate {c : Cluster} (h : Inv c) (session : ℕ) :
    Inv { c with ended := session :: c.ended, holder := c.unlocked (some session) } := by
  refine h.of_cluster rfl (Nat.le_refl _) fun r _ n _ hheld => ?_
  by_cases hn : n = session
  · exact .inl (hn ▸ List.mem_cons_self)
  · refine hheld.imp (List.mem_cons_of_mem _) fun hholder => ?_
    refine (if_neg fun hsession => ?_).trans hholder
    exact hn (Option.some.inj (hholder.symm.trans hsession))

/-- A replica without a session, whose workers do not run. -/
theorem Replica.Ok.idle {c : Cluster} {election : Election} {stop : Stop}
    (hacquired : election ≠ .acquired)
    (hwaited : stop = .waited ∨ stop = .closed → election = .returned) :
    Replica.Ok c ⟨election, stop, false, [], none⟩ where
  known _ hn := by cases hn
  own _ hn := by cases hn
  holds _ hn := by cases hn
  workers hc := by cases hc
  campaign _ := ⟨rfl, rfl⟩
  acquired hc := absurd hc hacquired
  waited hc := ⟨hwaited hc, rfl⟩

/-- A replica that has given its session back. -/
theorem Replica.Ok.closed {c : Cluster} {r : Replica} (h : r.Ok c) (hstop : r.stop = .waited) :
    Replica.Ok c r.closed := by
  obtain ⟨helection, hworkers⟩ := h.waited (.inl hstop)
  refine ⟨h.known, fun _ hn => (by cases hn), fun _ hn => (by cases hn), ?_, ?_, ?_, ?_⟩
  · exact fun hc => absurd (hworkers.symm.trans hc) (by decide)
  · exact fun hc => absurd (helection.symm.trans hc) (by decide)
  · exact fun hc => absurd (helection.symm.trans hc) (by decide)
  · exact fun _ => ⟨helection, hworkers⟩

theorem inv_step {c c' : Cluster} {a : Event} (h : Inv c) (hstep : Step c a c') : Inv c' := by
  have hrep : ∀ {i : ℕ} {r : Replica}, c.replicas[i]? = some r → r.Ok c := fun hi =>
    h.replicas _ (List.mem_of_getElem? hi)
  cases hstep with
  | @connect i r hi =>
      have hok := hrep hi
      have hdb : Inv { c with sessions := c.sessions + 1 } :=
        h.of_cluster rfl (Nat.le_succ _) fun _ _ _ _ hn => hn
      refine ⟨forall_mem_set (fun q hq => ?_) ⟨?_, ?_, hok.holds, hok.workers, hok.campaign,
        hok.acquired, hok.waited⟩, h.apart.set hi fun j q hne hj => ⟨fun n hn hq => ?_,
          fun n hq hn => ?_⟩⟩
      · exact (hdb.replicas q hq).of_cluster (Nat.le_refl _) fun _ _ hn => hn
      · rintro n (_ | ⟨_, hn⟩)
        · exact Nat.lt_succ_self _
        · exact Nat.lt_succ_of_lt (hok.known n hn)
      · exact fun n hn => List.mem_cons_of_mem _ (hok.own n hn)
      -- The new session is in no other pool.
      · rcases List.mem_cons.1 hn with rfl | hn
        · exact absurd ((hrep hj).known _ hq) (Nat.lt_irrefl _)
        · exact h.apart i j r q hi hj hne.symm n hn hq
      · rcases List.mem_cons.1 hn with rfl | hn
        · exact absurd ((hrep hj).known _ hq) (Nat.lt_irrefl _)
        · exact h.apart j i q r hj hi hne n hq hn
  | @acquire i session r hi helection hsession _ hholder =>
      have hok := hrep hi
      obtain ⟨-, hworkers⟩ := hok.campaign helection
      refine (h.setHolder hholder).setReplica hi (fun _ hn => hn)
        ⟨hok.known, ?_, ?_, fun _ => rfl, fun hc => (by cases hc), fun _ => ⟨rfl, hworkers⟩, ?_⟩
      · rintro n ⟨⟩
        exact hsession
      · rintro n ⟨⟩
        exact .inr rfl
      · exact fun hw => absurd (helection.symm.trans (hok.waited hw).1) (by decide)
  | unanswered _ _ _ _ hfree => exact h.setHolder (.inl hfree)
  | @giveUp i r hi helection hstop =>
      have hok := hrep hi
      refine h.setReplica hi (fun _ hn => hn)
        ⟨hok.known, hok.own, hok.holds, hok.workers, ?_, ?_, ?_⟩
      · exact fun hc => by cases hc
      · exact fun hc => by cases hc
      · rintro (hc | hc) <;> exact absurd (hstop.symm.trans hc) (by decide)
  | @lead i r hi helection hstop =>
      have hok := hrep hi
      refine h.setReplica hi (fun _ hn => hn) ⟨hok.known, hok.own, hok.holds, ?_, ?_, ?_, ?_⟩
      · exact fun _ => (hok.acquired helection).1
      · exact fun hc => by cases hc
      · exact fun hc => by cases hc
      · rintro (hc | hc) <;> exact absurd (hstop.symm.trans hc) (by decide)
  | @decline i r hi helection hstop =>
      have hok := hrep hi
      refine h.setReplica hi (fun _ hn => hn)
        ⟨hok.known, hok.own, hok.holds, hok.workers, ?_, ?_, ?_⟩
      · exact fun hc => by cases hc
      · exact fun hc => by cases hc
      · exact fun _ => ⟨rfl, (hok.acquired helection).2⟩
  | @lost i r hi helection =>
      have hok := hrep hi
      refine h.setReplica hi (fun _ hn => hn)
        ⟨hok.known, hok.own, hok.holds, hok.workers, ?_, ?_, ?_⟩
      · exact fun hc => by cases hc
      · exact fun hc => by cases hc
      · exact fun hw => absurd (helection.symm.trans (hok.waited hw).1) (by decide)
  | @stopping i r hi hstop =>
      have hok := hrep hi
      refine h.setReplica hi (fun _ hn => hn)
        ⟨hok.known, hok.own, hok.holds, hok.workers, hok.campaign, hok.acquired, ?_⟩
      rintro (hc | hc) <;> cases hc
  | @cancel i r hi hstop =>
      have hok := hrep hi
      refine h.setReplica hi (fun _ hn => hn)
        ⟨hok.known, hok.own, hok.holds, hok.workers, hok.campaign, hok.acquired, ?_⟩
      rintro (hc | hc) <;> cases hc
  | @wait i r hi hstop helection =>
      have hok := hrep hi
      refine h.setReplica hi (fun _ hn => hn)
        ⟨hok.known, hok.own, hok.holds, fun hc => (by cases hc),
        fun hc => ⟨(hok.campaign hc).1, rfl⟩, fun hc => ⟨(hok.acquired hc).1, rfl⟩, ?_⟩
      exact fun _ => ⟨helection, rfl⟩
  | @close i r hi hstop =>
      have hclosed : Inv (c.setReplica i r.closed) :=
        h.setReplica hi (fun _ hn => hn) ((hrep hi).closed hstop)
      refine hclosed.unlocked fun n hn q hq => ?_
      have hi' : (c.setReplica i r.closed).replicas[i]? = some r.closed :=
        (getElem?_set_of_some hi).trans (if_pos rfl)
      exact hclosed.not_conn hi' ((hrep hi).own n hn) (by rintro ⟨⟩) hq
  | @notReleased i r hi hstop =>
      show Inv (c.setReplica i r.closed)
      exact h.setReplica hi (fun _ hn => hn) ((hrep hi).closed hstop)
  | @crash i r hi =>
      refine h.setReplica hi (fun _ hn => by cases hn) (.idle ?_ fun _ => rfl)
      exact Election.noConfusion
  | terminate => exact h.terminate _
  | join =>
      refine ⟨forall_mem_append_singleton (fun q hq => ?_) (.idle ?_ ?_),
        h.apart.append_singleton fun q _ => ?_⟩
      · exact (h.replicas q hq).of_cluster (Nat.le_refl _) fun _ _ hn => hn
      · exact Election.noConfusion
      · rintro (hc | hc) <;> cases hc
      · exact ⟨fun _ hn => (by cases hn), fun _ _ hn => (by cases hn)⟩

theorem inv_reachable {c : Cluster} (h : machine.Reachable c) : Inv c :=
  h.invariant
    (fun c ⟨hreplicas, _⟩ =>
      ⟨by simp [hreplicas], hreplicas ▸ apart_nil _⟩)
    fun _ _ _ => inv_step

/-- While the workers of a replica run, its session has the lock or has ended. -/
theorem Inv.workers {c : Cluster} (h : Inv c) {r : Replica} (hr : r ∈ c.replicas)
    (hworkers : r.workers = true) :
    ∃ n, r.conn = some n ∧ (n ∈ c.ended ∨ c.holder = some n) := by
  obtain ⟨n, hn⟩ := Option.isSome_iff_exists.1 ((h.replicas r hr).workers hworkers)
  exact ⟨n, hn, (h.replicas r hr).holds n hn⟩

/-- The lock is held while the workers run: as long as the session of a leader lasts, no other
session has the lock. -/
theorem lock_is_held {c : Cluster} (h : machine.Reachable c) {r : Replica} (hr : r ∈ c.replicas)
    (hworkers : r.workers = true) :
    ∃ n, r.conn = some n ∧ (n ∉ c.ended → c.holder = some n) := by
  obtain ⟨n, hn, hheld⟩ := (inv_reachable h).workers hr hworkers
  exact ⟨n, hn, hheld.resolve_left⟩

/-- **One leader**: a replica whose workers run has the lock as long as its session lasts, and when
the workers of two replicas run, the session of one of them has ended. -/
theorem one_leader {c : Cluster} (h : machine.Reachable c) :
    (∀ r ∈ c.replicas, r.workers = true →
      ∃ n, r.conn = some n ∧ (n ∉ c.ended → c.holder = some n)) ∧
    ∀ (i j : ℕ) (r r' : Replica), c.replicas[i]? = some r → c.replicas[j]? = some r' → i ≠ j →
      r.workers = true → r'.workers = true → ∃ n ∈ c.ended, r.conn = some n ∨ r'.conn = some n := by
  refine ⟨fun r hr hworkers => lock_is_held h hr hworkers, ?_⟩
  intro i j r r' hi hj hne hworkers hworkers'
  have hinv := inv_reachable h
  obtain ⟨n, hn, hheld⟩ := lock_is_held h (List.mem_of_getElem? hi) hworkers
  obtain ⟨n', hn', hheld'⟩ := lock_is_held h (List.mem_of_getElem? hj) hworkers'
  by_cases hended : n ∈ c.ended
  · exact ⟨n, hended, .inl hn⟩
  by_cases hended' : n' ∈ c.ended
  · exact ⟨n', hended', .inr hn'⟩
  -- two sessions that last would be one, of two replicas
  have heq : n = n' := Option.some.inj ((hheld hended).symm.trans (hheld' hended'))
  have hconns := (hinv.replicas r (List.mem_of_getElem? hi)).own n hn
  have hconns' := (hinv.replicas r' (List.mem_of_getElem? hj)).own n (heq ▸ hn')
  exact absurd hconns' (hinv.apart i j r r' hi hj hne n hconns)

/-! ### A session that ends -/

/-- The session of a leader ends, and another replica leads before the first one sees it. -/
theorem reachable_two : ∃ c, machine.Reachable c ∧
    c.replicas =
      [⟨.watch, .running, true, [0], some 0⟩, ⟨.watch, .running, true, [1], some 1⟩] ∧
    c.ended = [0] := by
  have h₀ : machine.Reachable ⟨0, [], none, []⟩ := .of_init ⟨rfl, rfl, rfl⟩
  have h₁ := (h₀.step .join).step .join
  have h₂ := (h₁.step (@Step.connect _ 0 _ rfl)).step (@Step.connect _ 1 _ rfl)
  have h₃ := h₂.step (@Step.acquire _ 0 0 _ rfl rfl (by decide) (by decide) (.inl rfl))
  have h₄ := h₃.step (@Step.lead _ 0 _ rfl rfl rfl)
  have h₅ := h₄.step (@Step.terminate _ 0 (by decide))
  have h₆ := h₅.step (@Step.acquire _ 1 1 _ rfl rfl (by decide) (by decide) (.inl rfl))
  have h₇ := h₆.step (@Step.lead _ 1 _ rfl rfl rfl)
  exact ⟨_, h₇, rfl, rfl⟩

theorem one_leader_two : ∃ c, machine.Reachable c ∧ c.holder = some 1 ∧
    ∃ n ∈ c.ended, n = 0 ∨ n = 1 := by
  obtain ⟨c, hc, hreplicas, hended⟩ := reachable_two
  obtain ⟨hheld, hone⟩ := one_leader hc
  obtain ⟨n, hn, hlast⟩ := hheld ⟨.watch, .running, true, [1], some 1⟩ (by rw [hreplicas]; simp) rfl
  obtain rfl : 1 = n := Option.some.inj hn
  refine ⟨c, hc, hlast (by rw [hended]; decide), ?_⟩
  obtain ⟨n, hn, hconn⟩ := hone 0 1 ⟨.watch, .running, true, [0], some 0⟩
    ⟨.watch, .running, true, [1], some 1⟩ (by rw [hreplicas]; rfl) (by rw [hreplicas]; rfl)
    (by decide) rfl rfl
  exact ⟨n, hn, hconn.imp (fun h => (Option.some.inj h).symm) fun h => (Option.some.inj h).symm⟩

end WiseLabz.Leader
