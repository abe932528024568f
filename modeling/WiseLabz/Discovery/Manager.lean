/-
**Network scans, one at a time.**

The manager runs at most one scan at a time and keeps its result in memory.  The goroutine of a
scan, its runner's callbacks and the passive answers all work on the state of the scan, each step
under the manager's lock; a cancellation only sets a flag, and the scan leaves its running state
when its goroutine comes to its end.

Main definitions:

* `Discovery.ScanState` — one scan; `Discovery.State` — the manager and all scans it accepted;
* `Discovery.start`, `Discovery.onProgress`, `Discovery.admitPassive`, … — the steps under the lock;
* `Discovery.next` — **one step of any goroutine**;
* `Discovery.ScanOk`, `Discovery.Later` — what holds of a scan, and how it changes.

Main results:

* `Discovery.ManagerInv.step` — every step keeps the invariant;
* `Discovery.later_step` — how a step changes a scan;
* `Discovery.manager_properties` — **the properties of the manager**, over every run.
-/

import WiseLabz.Lib.Machine
import WiseLabz.Discovery.Targets

set_option relaxedAutoImplicit false
set_option autoImplicit false

namespace WiseLabz.Discovery

open Lib

/-! ### States -/

/-- A product found on a host. -/
structure Candidate where
  type : Bytes
  address : Bytes
  port : ℤ
  source : Option Source
  connectorID : Bytes
  deriving DecidableEq, Repr

/-- A certificate found on a host. -/
structure TLSTarget where
  address : Bytes
  port : ℤ
  source : Option Source
  deriving DecidableEq, Repr

inductive ScanStatus
  | running | completed | cancelled | failed
  deriving DecidableEq, Repr

/-- The state of the context of a scan. -/
inductive CtxErr
  | canceled | deadlineExceeded
  deriving DecidableEq, Repr

/-- Where the goroutine of a scan stands. -/
inductive RunPc
  /-- The runner has not returned. -/
  | running
  /-- The runner has returned or panicked, but the passive source may go on. -/
  | returned
  /-- The scan has ended, before its audit entry. -/
  | ended
  | audited
  deriving DecidableEq, Repr

def RunPc.rank : RunPc → ℕ
  | .running => 0
  | .returned => 1
  | .ended => 2
  | .audited => 3

structure Progress where
  done : ℤ
  total : ℤ
  answered : ℤ
  deriving DecidableEq, Repr

/-- One scan. -/
structure ScanState where
  status : ScanStatus
  startedAt : ℤ
  endedAt : Option ℤ
  done : ℤ
  total : ℤ
  answered : ℤ
  isPartial : Bool
  candidates : List Candidate
  askNetwork : Bool
  sources : SourceCounts
  skipped : SkippedCounts
  passiveAnswered : ℕ
  tlsTargets : List TLSTarget
  cancelled : Bool
  cancelledBy : Bytes
  /-- `CancelReasonShutdown`, or empty. -/
  cancelReason : Bytes
  ctxErr : Option CtxErr
  lastProgress : Option ℤ
  candidateKeys : List Bytes
  tlsKeys : List Bytes
  passiveSeen : List Addr
  targets : TargetSet
  /-- `failed` of `run`: the runner has panicked. -/
  failed : Bool
  pc : RunPc

/-- The action of an audit entry at the end of a scan. -/
inductive AuditAction
  | complete | cancel
  deriving DecidableEq, Repr

structure State where
  /-- Every accepted scan; a goroutine refers to its scan by the index. -/
  scans : List ScanState
  /-- The scan that the manager keeps. -/
  scan : Option ℕ
  /-- The starts inside the rolling window. -/
  starts : List ℤ
  audits : List (ℕ × AuditAction)
  /-- The last reading of the clock. -/
  clock : ℤ

/-- The configuration, after the defaults. -/
structure Config where
  maxStarts : ℕ
  window : ℤ
  resultTTL : ℤ
  progressEvery : ℤ
  parseAddr : Bytes → Option Addr

/-! ### Steps under the lock -/

structure StartRequest where
  ranges : List Range
  includeInventory : Bool
  askNetwork : Bool
  inventory : List Addr

/-- `ReasonNoTargets` and `ReasonTooManyAddresses`. -/
inductive RangeReason
  | noTargets | tooManyAddresses
  deriving DecidableEq, Repr

inductive StartResult
  | started (i : ℕ)
  | rangeError (reason : RangeReason)
  | scanRunning (i : ℕ)
  | rateLimit (retryAfter : ℤ)
  deriving DecidableEq, Repr

/-- `pruneStarts`: without the starts at the front that are out of the window. -/
def pruneStarts (cfg : Config) (now : ℤ) (starts : List ℤ) : List ℤ :=
  starts.dropWhile fun t => t ≤ now - cfg.window

/-- A scan with its plan. -/
def newScan (req : StartRequest) (plan : Plan) (now : ℤ) : ScanState where
  status := .running
  startedAt := now
  endedAt := none
  done := 0
  total := plan.static.length
  answered := 0
  isPartial := false
  candidates := []
  askNetwork := req.askNetwork
  sources := plan.sources
  skipped := plan.skipped
  passiveAnswered := 0
  tlsTargets := []
  cancelled := false
  cancelledBy := []
  cancelReason := []
  ctxErr := none
  lastProgress := none
  candidateKeys := []
  tlsKeys := []
  passiveSeen := []
  targets := plan.targets
  failed := false
  pc := .running

/-- The scan that the manager keeps, if it is running. -/
def runningScan (s : State) : Option ℕ :=
  s.scan.filter fun i => (s.scans[i]?).any fun scan => scan.status = .running

/-- `Start`. -/
def start (cfg : Config) (s : State) (req : StartRequest) (now : ℤ) : StartResult × State :=
  let refused : State := { s with clock := now }
  if req.ranges = [] ∧ req.includeInventory = false then (.rangeError .noTargets, s)
  else if maxAddresses < (hosts req.ranges).length then (.rangeError .tooManyAddresses, s)
  else
    let plan := planTargets req.ranges req.includeInventory req.inventory
    match runningScan s with
    | some i => (.scanRunning i, refused)
    | none =>
        let starts := pruneStarts cfg now s.starts
        if cfg.maxStarts ≤ starts.length then
          (.rateLimit (starts.headD 0 + cfg.window - now), { refused with starts := starts })
        else
          (.started s.scans.length,
            { refused with
              starts := starts ++ [now]
              scans := s.scans ++ [newScan req plan now]
              scan := some s.scans.length })

/-- `Current`: the manager forgets a scan that ended too long ago. -/
def current (cfg : Config) (s : State) (now : ℤ) : State :=
  let expired := s.scan.any fun i => (s.scans[i]?).any fun scan =>
    scan.status ≠ .running && scan.endedAt.any fun ended => cfg.resultTTL ≤ now - ended
  { s with scan := if expired then none else s.scan, clock := now }

/-- The context of a scan, once it is done. -/
def ScanState.setCtxErr (scan : ScanState) (err : CtxErr) : ScanState :=
  { scan with ctxErr := scan.ctxErr.or (some err) }

/-- `Cancel`, on the scan that the manager keeps. -/
def cancelScan (by_ : Bytes) (scan : ScanState) : ScanState :=
  if scan.status = .running then
    { scan.setCtxErr .canceled with
      cancelled := true
      cancelledBy := if scan.cancelled then scan.cancelledBy else by_ }
  else scan

/-- `Shutdown`, on the scan that the manager keeps. -/
def shutdownScan (scan : ScanState) : ScanState :=
  let scan' := scan.setCtxErr .canceled
  if scan.status = .running ∧ scan.cancelled = false then
    { scan' with cancelled := true, cancelReason := bytes "shutdown" }
  else scan'

/-- `onProgress`. -/
def onProgress (cfg : Config) (p : Progress) (now : ℤ) (scan : ScanState) : ScanState :=
  if scan.status ≠ .running then scan
  else
    let done := max scan.done p.done
    let total := max scan.total p.total
    let emit := total ≤ done || scan.lastProgress.all fun last => cfg.progressEvery ≤ now - last
    { scan with
      done := done
      answered := max scan.answered p.answered
      total := total
      lastProgress := if emit then some now else scan.lastProgress }

/-- The key of a candidate. -/
def Candidate.key (c : Candidate) : Bytes :=
  c.type ++ bytes "|" ++ c.address ++ bytes "|" ++ bytes (toString c.port)

/-- `onCandidate`, after the lookups of the candidate's source and connector. -/
def onCandidate (c : Candidate) (scan : ScanState) : ScanState :=
  if scan.status ≠ .running ∨ scan.cancelled = true then scan
  else if c.key ∈ scan.candidateKeys then scan
  else
    { scan with
      candidateKeys := c.key :: scan.candidateKeys
      candidates := scan.candidates ++ [c] }

/-- `net.JoinHostPort`. -/
def joinHostPort (host : Bytes) (port : ℤ) : Bytes :=
  if 58 ∈ host ∨ 37 ∈ host then bytes "[" ++ host ++ bytes "]:" ++ bytes (toString port)
  else host ++ bytes ":" ++ bytes (toString port)

/-- `onTLSTarget`. -/
def onTLSTarget (cfg : Config) (target : TLSTarget) (scan : ScanState) : ScanState :=
  if scan.ctxErr ≠ none ∨ scan.cancelled = true ∨ scan.status ≠ .running then scan
  else if joinHostPort target.address target.port ∈ scan.tlsKeys then scan
  else
    let source := match cfg.parseAddr target.address with
      | some addr => scan.targets.source addr
      | none => target.source
    { scan with
      tlsKeys := joinHostPort target.address target.port :: scan.tlsKeys
      tlsTargets := scan.tlsTargets ++ [{ target with source := source }] }

/-- `admitPassive`. -/
def admitPassive (addr : Addr) (scan : ScanState) : ScanState :=
  let a := addr.unmap
  if scan.ctxErr ≠ none ∨ scan.cancelled = true ∨ scan.status ≠ .running ∨ allowed a = false ∨
      a ∈ scan.passiveSeen then scan
  else
    let scan := { scan with
      passiveSeen := a :: scan.passiveSeen
      passiveAnswered := scan.passiveAnswered + 1 }
    if scan.targets.contains a then scan
    else
      match scan.targets.admitAddr a .passive with
      | none => { scan with skipped := { scan.skipped with passive := scan.skipped.passive + 1 } }
      | some targets =>
          { scan with
            targets := targets
            sources := { scan.sources with passive := scan.sources.passive + 1 }
            total := targets.entries.length }

/-- The runner has returned, or it has panicked, which cancels the context. -/
def runnerReturned (failed : Bool) (scan : ScanState) : ScanState :=
  { (if failed then scan.setCtxErr .canceled else scan) with
    failed := failed
    pc := .returned }

/-- The end of `run`. -/
def endScan (now : ℤ) (scan : ScanState) : ScanState :=
  { scan with
    endedAt := some now
    pc := .ended
    status := if scan.failed then .failed else if scan.cancelled then .cancelled else .completed
    isPartial :=
      if scan.failed = true ∨ scan.cancelled = true then scan.isPartial
      else scan.ctxErr = some .deadlineExceeded && scan.done < scan.total }

/-- The action of the audit entry. -/
def auditAction (status : ScanStatus) : AuditAction :=
  if status = .cancelled then .cancel else .complete

/-! ### The machine -/

/-- The steps of all goroutines; those of a scan name it by its index. -/
inductive Event
  | start (req : StartRequest) (now : ℤ)
  | current (now : ℤ)
  | cancel (by_ : Bytes)
  | shutdown
  /-- The deadline of the scan's context passes. -/
  | deadline (i : ℕ)
  | passive (i : ℕ) (addr : Addr)
  | progress (i : ℕ) (p : Progress) (now : ℤ)
  | candidate (i : ℕ) (c : Candidate)
  | tlsTarget (i : ℕ) (target : TLSTarget)
  /-- The runner returns or panics. -/
  | returned (i : ℕ) (failed : Bool)
  /-- The passive source is done too. -/
  | ended (i : ℕ) (now : ℤ)
  | audited (i : ℕ)

/-- The state with one scan changed. -/
def State.modifyScan (s : State) (i : ℕ) (f : ScanState → ScanState) : State :=
  { s with scans := s.scans.modify i f }

/-- **One step of any goroutine**; the clock does not go back. -/
def next (cfg : Config) (s : State) : Event → Option State
  | .start req now => if s.clock ≤ now then some (start cfg s req now).2 else none
  | .current now => if s.clock ≤ now then some (current cfg s now) else none
  | .cancel by_ =>
      match s.scan with
      | some i => some (s.modifyScan i (cancelScan by_))
      | none => some s
  | .shutdown =>
      match s.scan with
      | some i => some (s.modifyScan i shutdownScan)
      | none => some s
  | .deadline i => some (s.modifyScan i fun scan => scan.setCtxErr .deadlineExceeded)
  | .passive i addr => some (s.modifyScan i (admitPassive addr))
  | .progress i p now =>
      if s.clock ≤ now then some { s.modifyScan i (onProgress cfg p now) with clock := now }
      else none
  | .candidate i c => some (s.modifyScan i (onCandidate c))
  | .tlsTarget i target => some (s.modifyScan i (onTLSTarget cfg target))
  | .returned i failed =>
      match s.scans[i]? with
      | some scan =>
          if scan.pc = .running then some (s.modifyScan i (runnerReturned failed)) else none
      | none => none
  | .ended i now =>
      match s.scans[i]? with
      | some scan =>
          if scan.pc = .returned ∧ s.clock ≤ now then
            some { s.modifyScan i (endScan now) with clock := now }
          else none
      | none => none
  | .audited i =>
      match s.scans[i]? with
      | some scan =>
          if scan.pc = .ended then
            some { s.modifyScan i (fun scan => { scan.setCtxErr .canceled with pc := .audited }) with
              audits := s.audits ++ [(i, auditAction scan.status)] }
          else none
      | none => none

/-- The manager with all goroutines, in any interleaving of their steps. -/
def managerMachine (cfg : Config) : Machine State Event where
  init s := s.scans = [] ∧ s.scan = none ∧ s.starts = [] ∧ s.audits = []
  step s ev t := next cfg s ev = some t

/-! ### One scan -/

/-- **What holds of a scan**: its counts agree with its targets, nothing is found twice, it is
running until its goroutine comes to its end, and how it ended is what its flags say. -/
structure ScanOk (scan : ScanState) : Prop where
  counts : scan.sources.total = scan.targets.entries.length
  total : (scan.targets.entries.length : ℤ) ≤ scan.total
  candidates : (scan.candidates.map fun c => (c.type, c.address, c.port)).Nodup
  candidateKeys : ∀ c ∈ scan.candidates, c.key ∈ scan.candidateKeys
  tlsTargets : (scan.tlsTargets.map fun t => (t.address, t.port)).Nodup
  tlsKeys : ∀ t ∈ scan.tlsTargets, joinHostPort t.address t.port ∈ scan.tlsKeys
  running : scan.status = .running ↔ scan.pc.rank ≤ 1
  ended : scan.status ≠ .running → scan.status =
    if scan.failed then .failed else if scan.cancelled then .cancelled else .completed

/-- **How a scan changes**: its admitted addresses and its finds only grow, its counters do not go
back, it is closed once it is cancelled or has ended, and then its status stays.  Whether its runner
has failed is settled when that returns. -/
structure Later (a b : ScanState) : Prop where
  startedAt : b.startedAt = a.startedAt
  targets : a.targets.entries <+: b.targets.entries
  candidates : a.candidates <+: b.candidates
  tlsTargets : a.tlsTargets <+: b.tlsTargets
  done : a.done ≤ b.done
  answered : a.answered ≤ b.answered
  status : a.status ≠ .running → b.status = a.status
  cancelled : a.cancelled = true → b.cancelled = true
  closed : a.cancelled = true ∨ a.status ≠ .running → b.targets = a.targets ∧
    b.candidates = a.candidates ∧ b.tlsTargets = a.tlsTargets
  failed : 1 ≤ a.pc.rank → b.failed = a.failed
  pc : a.pc.rank ≤ b.pc.rank

/-- A scan with the same targets and finds. -/
theorem Later.of_same {a b : ScanState} (startedAt : b.startedAt = a.startedAt)
    (targets : b.targets = a.targets) (candidates : b.candidates = a.candidates)
    (tlsTargets : b.tlsTargets = a.tlsTargets) (done : a.done ≤ b.done)
    (answered : a.answered ≤ b.answered) (status : a.status ≠ .running → b.status = a.status)
    (cancelled : a.cancelled = true → b.cancelled = true) (failed : b.failed = a.failed)
    (pc : a.pc.rank ≤ b.pc.rank) : Later a b :=
  ⟨startedAt, targets ▸ List.prefix_rfl, candidates ▸ List.prefix_rfl, tlsTargets ▸ List.prefix_rfl,
    done, answered, status, cancelled, fun _ => ⟨targets, candidates, tlsTargets⟩, fun _ => failed, pc⟩

theorem Later.refl (a : ScanState) : Later a a :=
  .of_same rfl rfl rfl rfl le_rfl le_rfl (fun _ => rfl) id rfl le_rfl

theorem Later.trans {a b c : ScanState} (h : Later a b) (h' : Later b c) : Later a c where
  startedAt := h'.startedAt.trans h.startedAt
  targets := h.targets.trans h'.targets
  candidates := h.candidates.trans h'.candidates
  tlsTargets := h.tlsTargets.trans h'.tlsTargets
  done := h.done.trans h'.done
  answered := h.answered.trans h'.answered
  status hs := (h'.status ((h.status hs).symm ▸ hs)).trans (h.status hs)
  cancelled hc := h'.cancelled (h.cancelled hc)
  closed hclosed := by
    have hb : b.cancelled = true ∨ b.status ≠ .running :=
      hclosed.imp h.cancelled fun hs => (h.status hs).symm ▸ hs
    obtain ⟨ht, hc, htls⟩ := h.closed hclosed
    obtain ⟨ht', hc', htls'⟩ := h'.closed hb
    exact ⟨ht'.trans ht, hc'.trans hc, htls'.trans htls⟩
  failed hpc := (h'.failed (hpc.trans h.pc)).trans (h.failed hpc)
  pc := h.pc.trans h'.pc

/-- What a step of a scan keeps: the scan stays good, it only goes on, and its goroutine does not
reach its last step. -/
structure Keeps (f : ScanState → ScanState) (scan : ScanState) : Prop where
  ok : ScanOk scan → ScanOk (f scan)
  later : Later scan (f scan)
  audited : (f scan).pc = .audited ↔ scan.pc = .audited

/-- A step that leaves the scan as it is keeps everything. -/
theorem Keeps.of_eq {f : ScanState → ScanState} {scan : ScanState} (h : f scan = scan) :
    Keeps f scan :=
  ⟨fun hok => h.symm ▸ hok, h.symm ▸ .refl scan, by rw [h]⟩

theorem keeps_setCtxErr (err : CtxErr) (scan : ScanState) :
    Keeps (fun scan => scan.setCtxErr err) scan where
  ok h := ⟨h.counts, h.total, h.candidates, h.candidateKeys, h.tlsTargets, h.tlsKeys, h.running,
    h.ended⟩
  later := .of_same rfl rfl rfl rfl le_rfl le_rfl (fun _ => rfl) id rfl le_rfl
  audited := Iff.rfl

theorem keeps_cancelScan (by_ : Bytes) (scan : ScanState) : Keeps (cancelScan by_) scan := by
  have hcases : cancelScan by_ scan = scan ∨ (scan.status = .running ∧ cancelScan by_ scan =
      { scan.setCtxErr .canceled with
        cancelled := true
        cancelledBy := if scan.cancelled then scan.cancelledBy else by_ }) := by
    unfold cancelScan
    split
    · next hrunning => exact .inr ⟨hrunning, rfl⟩
    · exact .inl rfl
  rcases hcases with heq | ⟨hrunning, heq⟩
  · exact .of_eq heq
  · refine ⟨fun h => ?_, ?_, by rw [heq]; rfl⟩
    · rw [heq]
      exact ⟨h.counts, h.total, h.candidates, h.candidateKeys, h.tlsTargets, h.tlsKeys, h.running,
        fun hended => absurd hrunning hended⟩
    · rw [heq]
      exact .of_same rfl rfl rfl rfl le_rfl le_rfl (fun _ => rfl) (fun _ => rfl) rfl le_rfl

theorem keeps_shutdownScan (scan : ScanState) : Keeps shutdownScan scan := by
  have hcases : shutdownScan scan = scan.setCtxErr .canceled ∨ (scan.status = .running ∧
      shutdownScan scan =
        { scan.setCtxErr .canceled with cancelled := true, cancelReason := bytes "shutdown" }) := by
    unfold shutdownScan
    dsimp only
    split
    · next hrunning => exact .inr ⟨hrunning.1, rfl⟩
    · exact .inl rfl
  rcases hcases with heq | ⟨hrunning, heq⟩
  · have hkeeps := keeps_setCtxErr .canceled scan
    exact ⟨fun h => heq ▸ hkeeps.ok h, heq ▸ hkeeps.later, by rw [heq]; rfl⟩
  · refine ⟨fun h => ?_, ?_, by rw [heq]; rfl⟩
    · rw [heq]
      exact ⟨h.counts, h.total, h.candidates, h.candidateKeys, h.tlsTargets, h.tlsKeys, h.running,
        fun hended => absurd hrunning hended⟩
    · rw [heq]
      exact .of_same rfl rfl rfl rfl le_rfl le_rfl (fun _ => rfl) (fun _ => rfl) rfl le_rfl

theorem keeps_onProgress (cfg : Config) (p : Progress) (now : ℤ) (scan : ScanState) :
    Keeps (onProgress cfg p now) scan := by
  by_cases hrunning : scan.status ≠ .running
  · exact .of_eq (by rw [onProgress, if_pos hrunning])
  · refine ⟨fun h => ?_, ?_, by rw [onProgress, if_neg hrunning]⟩
    · rw [onProgress, if_neg hrunning]
      exact ⟨h.counts, h.total.trans (le_max_left _ _), h.candidates, h.candidateKeys, h.tlsTargets,
        h.tlsKeys, h.running, h.ended⟩
    · rw [onProgress, if_neg hrunning]
      exact .of_same rfl rfl rfl rfl (le_max_left _ _) (le_max_left _ _) (fun _ => rfl) id rfl le_rfl

theorem keeps_onCandidate (c : Candidate) (scan : ScanState) : Keeps (onCandidate c) scan := by
  by_cases hclosed : scan.status ≠ .running ∨ scan.cancelled = true
  · exact .of_eq (by rw [onCandidate, if_pos hclosed])
  · by_cases hkey : c.key ∈ scan.candidateKeys
    · exact .of_eq (by rw [onCandidate, if_neg hclosed, if_pos hkey])
    · refine ⟨fun h => ?_, ?_, by rw [onCandidate, if_neg hclosed, if_neg hkey]⟩
      · rw [onCandidate, if_neg hclosed, if_neg hkey]
        refine ⟨h.counts, h.total, ?_, ?_, h.tlsTargets, h.tlsKeys, h.running, h.ended⟩
        · rw [List.map_append, List.nodup_append]
          refine ⟨h.candidates, List.nodup_singleton _, fun x hx y hy heq => hkey ?_⟩
          obtain ⟨c', hc', rfl⟩ := List.mem_map.1 hx
          have hy : y = (c.type, c.address, c.port) := List.mem_singleton.1 hy
          rw [hy] at heq
          obtain ⟨htype, haddress, hport⟩ :
              c'.type = c.type ∧ c'.address = c.address ∧ c'.port = c.port := by
            simpa using heq
          have hsame : c'.key = c.key := by
            rw [Candidate.key, Candidate.key, htype, haddress, hport]
          exact hsame ▸ h.candidateKeys c' hc'
        · intro c' hc'
          rcases List.mem_append.1 hc' with hc' | hc'
          · exact List.mem_cons_of_mem _ (h.candidateKeys c' hc')
          · rw [List.mem_singleton.1 hc']
            exact List.mem_cons_self
      · rw [onCandidate, if_neg hclosed, if_neg hkey]
        exact ⟨rfl, List.prefix_rfl, List.prefix_append _ _, List.prefix_rfl, le_rfl, le_rfl,
          fun _ => rfl, id, fun h => absurd h.symm hclosed, fun _ => rfl, le_rfl⟩

theorem keeps_onTLSTarget (cfg : Config) (target : TLSTarget) (scan : ScanState) :
    Keeps (onTLSTarget cfg target) scan := by
  by_cases hclosed : scan.ctxErr ≠ none ∨ scan.cancelled = true ∨ scan.status ≠ .running
  · exact .of_eq (by rw [onTLSTarget, if_pos hclosed])
  · by_cases hkey : joinHostPort target.address target.port ∈ scan.tlsKeys
    · exact .of_eq (by rw [onTLSTarget, if_neg hclosed, if_pos hkey])
    · refine ⟨fun h => ?_, ?_, by rw [onTLSTarget, if_neg hclosed, if_neg hkey]⟩
      · rw [onTLSTarget, if_neg hclosed, if_neg hkey]
        refine ⟨h.counts, h.total, h.candidates, h.candidateKeys, ?_, ?_, h.running, h.ended⟩
        · rw [List.map_append, List.nodup_append]
          refine ⟨h.tlsTargets, List.nodup_singleton _, fun x hx y hy heq => hkey ?_⟩
          obtain ⟨t, ht, rfl⟩ := List.mem_map.1 hx
          have hy : y = (target.address, target.port) := List.mem_singleton.1 hy
          rw [hy] at heq
          obtain ⟨haddress, hport⟩ : t.address = target.address ∧ t.port = target.port := by
            simpa using heq
          exact haddress ▸ hport ▸ h.tlsKeys t ht
        · intro t ht
          rcases List.mem_append.1 ht with ht | ht
          · exact List.mem_cons_of_mem _ (h.tlsKeys t ht)
          · rw [List.mem_singleton.1 ht]
            exact List.mem_cons_self
      · rw [onTLSTarget, if_neg hclosed, if_neg hkey]
        exact ⟨rfl, List.prefix_rfl, List.prefix_rfl, List.prefix_append _ _, le_rfl, le_rfl,
          fun _ => rfl, id, fun h => absurd (.inr h) hclosed, fun _ => rfl, le_rfl⟩

theorem keeps_admitPassive (addr : Addr) (scan : ScanState) : Keeps (admitPassive addr) scan := by
  by_cases hclosed : scan.ctxErr ≠ none ∨ scan.cancelled = true ∨ scan.status ≠ .running ∨
      allowed addr.unmap = false ∨ addr.unmap ∈ scan.passiveSeen
  · exact .of_eq (by rw [admitPassive]; exact if_pos hclosed)
  · have hopen : ¬ (scan.cancelled = true ∨ scan.status ≠ .running) := fun h =>
      hclosed (.inr (h.elim .inl fun h => .inr (.inl h)))
    by_cases hknown : scan.targets.contains addr.unmap = true
    · have heq : admitPassive addr scan =
          { scan with
            passiveSeen := addr.unmap :: scan.passiveSeen
            passiveAnswered := scan.passiveAnswered + 1 } := by
        rw [admitPassive]
        exact (if_neg hclosed).trans (if_pos hknown)
      refine ⟨fun h => ?_, ?_, by rw [heq]⟩
      · rw [heq]
        exact ⟨h.counts, h.total, h.candidates, h.candidateKeys, h.tlsTargets, h.tlsKeys, h.running,
          h.ended⟩
      · rw [heq]
        exact .of_same rfl rfl rfl rfl le_rfl le_rfl (fun _ => rfl) id rfl le_rfl
    · cases hadded : scan.targets.admitAddr addr.unmap .passive with
      | none =>
          have heq : admitPassive addr scan =
              { scan with
                passiveSeen := addr.unmap :: scan.passiveSeen
                passiveAnswered := scan.passiveAnswered + 1
                skipped := { scan.skipped with passive := scan.skipped.passive + 1 } } := by
            rw [admitPassive]
            refine (if_neg hclosed).trans ((if_neg hknown).trans ?_)
            rw [hadded]
          refine ⟨fun h => ?_, ?_, by rw [heq]⟩
          · rw [heq]
            exact ⟨h.counts, h.total, h.candidates, h.candidateKeys, h.tlsTargets, h.tlsKeys,
              h.running, h.ended⟩
          · rw [heq]
            exact .of_same rfl rfl rfl rfl le_rfl le_rfl (fun _ => rfl) id rfl le_rfl
      | some targets =>
          have hentries := TargetSet.admitAddr_entries hadded
          have heq : admitPassive addr scan =
              { scan with
                passiveSeen := addr.unmap :: scan.passiveSeen
                passiveAnswered := scan.passiveAnswered + 1
                targets := targets
                sources := { scan.sources with passive := scan.sources.passive + 1 }
                total := targets.entries.length } := by
            rw [admitPassive]
            refine (if_neg hclosed).trans ((if_neg hknown).trans ?_)
            rw [hadded]
          refine ⟨fun h => ?_, ?_, by rw [heq]⟩
          · rw [heq]
            refine ⟨?_, le_rfl, h.candidates, h.candidateKeys, h.tlsTargets, h.tlsKeys, h.running,
              h.ended⟩
            have hcounts := h.counts
            rw [SourceCounts.total] at hcounts
            show scan.sources.range + scan.sources.inventory + (scan.sources.passive + 1) =
              targets.entries.length
            rw [hentries, List.length_append, List.length_singleton]
            omega
          · rw [heq]
            exact ⟨rfl, hentries ▸ List.prefix_append _ _, List.prefix_rfl, List.prefix_rfl, le_rfl,
              le_rfl, fun _ => rfl, id, fun h => absurd h hopen, fun _ => rfl, le_rfl⟩

theorem keeps_runnerReturned (failed : Bool) {scan : ScanState} (hpc : scan.pc = .running) :
    Keeps (runnerReturned failed) scan := by
  have hkeeps : Keeps (fun scan => if failed then scan.setCtxErr .canceled else scan) scan := by
    cases failed with
    | true => exact keeps_setCtxErr .canceled scan
    | false => exact .of_eq rfl
  refine ⟨fun h => ?_, ?_, ?_⟩
  · have hok := hkeeps.ok h
    have hstatus : (runnerReturned failed scan).status = .running := by
      have hrunning := h.running.2 (by rw [hpc]; exact Nat.zero_le _)
      cases failed <;> exact hrunning
    exact ⟨hok.counts, hok.total, hok.candidates, hok.candidateKeys, hok.tlsTargets, hok.tlsKeys,
      ⟨fun _ => le_rfl, fun _ => hstatus⟩, fun hended => absurd hstatus hended⟩
  · have hlater := hkeeps.later
    exact ⟨hlater.startedAt, hlater.targets, hlater.candidates, hlater.tlsTargets, hlater.done,
      hlater.answered, hlater.status, hlater.cancelled, hlater.closed, fun h => by
        rw [hpc] at h
        exact absurd h (Nat.not_succ_le_zero 0), by
        rw [hpc]
        exact Nat.zero_le _⟩
  · rw [hpc]
    exact ⟨nofun, nofun⟩

theorem keeps_endScan (now : ℤ) {scan : ScanState} (hpc : scan.pc = .returned) (hok : ScanOk scan) :
    Keeps (endScan now) scan := by
  have hrunning : scan.status = .running := hok.running.2 (by rw [hpc]; exact le_rfl)
  refine ⟨fun h => ?_, ?_, ?_⟩
  · refine ⟨h.counts, h.total, h.candidates, h.candidateKeys, h.tlsTargets, h.tlsKeys, ?_,
      fun _ => rfl⟩
    constructor
    · intro hstatus
      have hstatus : (if scan.failed then ScanStatus.failed else
        if scan.cancelled then .cancelled else .completed) = .running := hstatus
      split at hstatus
      · cases hstatus
      · split at hstatus <;> cases hstatus
    · intro hrank
      have hrank : (2 : ℕ) ≤ 1 := hrank
      omega
  · exact .of_same rfl rfl rfl rfl le_rfl le_rfl (fun h => absurd hrunning h) id rfl (by
      rw [hpc]
      exact Nat.le_succ _)
  · rw [hpc]
    exact ⟨nofun, nofun⟩

/-! ### The manager -/

/-- The audit entries of a scan. -/
def auditEntries (i : ℕ) : Option ScanState → List (ℕ × AuditAction)
  | some scan => if scan.pc = .audited then [(i, auditAction scan.status)] else []
  | none => []

/-- **The invariant**: only the scan that the manager keeps can be running; the starts that it
remembers are those that still count, and of the times that lie within one window at most
`maxStarts` are starts; a scan has its audit entry when its goroutine is done. -/
structure ManagerInv (cfg : Config) (s : State) : Prop where
  scans : ∀ (i : ℕ) scan, s.scans[i]? = some scan → ScanOk scan
  oneRunning : ∀ (i : ℕ) scan, s.scans[i]? = some scan → scan.status = .running → s.scan = some i
  starts : ∃ dropped, s.scans.map ScanState.startedAt = dropped ++ s.starts ∧
    ∀ t ∈ dropped, t ≤ s.clock - cfg.window
  startsLength : s.starts.length ≤ cfg.maxStarts
  window : ∀ p : ℤ → Bool, (∀ a b, p a = true → p b = true → a - b < cfg.window) →
    ((s.scans.map ScanState.startedAt).filter p).length ≤ cfg.maxStarts
  audits : ∀ i, s.audits.filter (fun entry => entry.1 = i) = auditEntries i s.scans[i]?

/-- Every scan of a state is still there, and has only gone on. -/
def Evolves (s t : State) : Prop :=
  ∀ (i : ℕ) scan, s.scans[i]? = some scan → ∃ scan', t.scans[i]? = some scan' ∧ Later scan scan'

theorem Evolves.of_scans {s t : State} (h : t.scans = s.scans) : Evolves s t :=
  fun _ scan hscan => ⟨scan, h ▸ hscan, .refl scan⟩

theorem Evolves.trans {s t u : State} (h : Evolves s t) (h' : Evolves t u) : Evolves s u := by
  intro i scan hscan
  obtain ⟨scan', hscan', hlater⟩ := h i scan hscan
  obtain ⟨scan'', hscan'', hlater'⟩ := h' i scan' hscan'
  exact ⟨scan'', hscan'', hlater.trans hlater'⟩

section Steps

variable {cfg : Config} {s t : State}

/-- The scans after one of them is changed. -/
theorem getElem?_modifyScan {i j : ℕ} {f : ScanState → ScanState} {scan' : ScanState}
    (h : (s.modifyScan i f).scans[j]? = some scan') :
    ∃ scan, s.scans[j]? = some scan ∧ scan' = if i = j then f scan else scan := by
  rw [State.modifyScan, List.getElem?_modify] at h
  obtain ⟨scan, hscan, rfl⟩ := Option.map_eq_some_iff.1 h
  exact ⟨scan, hscan, rfl⟩

theorem modifyScan_evolves {i : ℕ} {f : ScanState → ScanState}
    (hf : ∀ scan, s.scans[i]? = some scan → Later scan (f scan)) :
    Evolves s (s.modifyScan i f) := by
  intro j scan hscan
  refine ⟨if i = j then f scan else scan, ?_, ?_⟩
  · rw [State.modifyScan, List.getElem?_modify, hscan]
    rfl
  · split
    · next hij => exact hf scan (hij ▸ hscan)
    · exact .refl scan

/-- Changing a scan leaves the starting times. -/
theorem startedAt_modifyScan {i : ℕ} {f : ScanState → ScanState}
    (hf : ∀ scan, s.scans[i]? = some scan → Later scan (f scan)) :
    (s.modifyScan i f).scans.map ScanState.startedAt = s.scans.map ScanState.startedAt := by
  refine List.ext_getElem? fun j => ?_
  rw [State.modifyScan, List.getElem?_map, List.getElem?_map, List.getElem?_modify]
  cases hscan : s.scans[j]? with
  | none => rfl
  | some scan =>
      show some (if i = j then f scan else scan).startedAt = some scan.startedAt
      split
      · next hij => rw [(hf scan (hij ▸ hscan)).startedAt]
      · rfl

/-- **A step of one scan keeps the invariant.** -/
theorem ManagerInv.modify (h : ManagerInv cfg s) {i : ℕ} {f : ScanState → ScanState} {clock : ℤ}
    (hclock : s.clock ≤ clock) (hf : ∀ scan, s.scans[i]? = some scan → Keeps f scan) :
    ManagerInv cfg { s.modifyScan i f with clock := clock } := by
  have hlater : ∀ scan, s.scans[i]? = some scan → Later scan (f scan) :=
    fun scan hscan => (hf scan hscan).later
  have hstarted := startedAt_modifyScan hlater
  refine ⟨fun j scan' hscan' => ?_, fun j scan' hscan' hrunning => ?_, ?_, h.startsLength,
    fun p hp => ?_, fun j => ?_⟩
  · obtain ⟨scan, hscan, rfl⟩ := getElem?_modifyScan hscan'
    split
    · next hij => exact (hf scan (hij ▸ hscan)).ok (h.scans j scan hscan)
    · exact h.scans j scan hscan
  · obtain ⟨scan, hscan, rfl⟩ := getElem?_modifyScan hscan'
    refine h.oneRunning j scan hscan ?_
    split at hrunning
    · next hij =>
        by_contra hne
        exact hne ((hlater scan (hij ▸ hscan)).status hne ▸ hrunning)
    · exact hrunning
  · obtain ⟨dropped, hsplit, hdropped⟩ := h.starts
    exact ⟨dropped, hstarted.trans hsplit,
      fun t ht => (hdropped t ht).trans (sub_le_sub_right hclock cfg.window)⟩
  · show (((s.modifyScan i f).scans.map ScanState.startedAt).filter p).length ≤ _
    rw [hstarted]
    exact h.window p hp
  · have haudits := h.audits j
    show s.audits.filter _ = auditEntries j (s.modifyScan i f).scans[j]?
    rw [haudits, State.modifyScan, List.getElem?_modify]
    cases hscan : s.scans[j]? with
    | none => rfl
    | some scan =>
        show auditEntries j (some scan) = auditEntries j (some (if i = j then f scan else scan))
        split
        · next hij =>
            have hkeeps := hf scan (hij ▸ hscan)
            by_cases hpc : scan.pc = .audited
            · -- the status of a scan that has ended stays
              have hstatus : scan.status ≠ .running := by
                intro hrunning
                have hrank := (h.scans j scan hscan).running.1 hrunning
                rw [hpc] at hrank
                exact absurd hrank (by decide)
              rw [auditEntries, auditEntries, if_pos hpc, if_pos (hkeeps.audited.2 hpc),
                hkeeps.later.status hstatus]
            · rw [auditEntries, auditEntries, if_neg hpc, if_neg (mt hkeeps.audited.1 hpc)]
        · rfl

/-- What a start may do: it is refused and forgets at most starts that no longer count, or it is
accepted when no scan is running and the window has room. -/
theorem start_cases (cfg : Config) (s : State) (req : StartRequest) (now : ℤ) :
    ((∀ i, (start cfg s req now).1 ≠ .started i) ∧
      ((start cfg s req now).2 = s ∨ (start cfg s req now).2 = { s with clock := now } ∨
        (cfg.maxStarts ≤ (pruneStarts cfg now s.starts).length ∧ (start cfg s req now).2 =
          { s with clock := now, starts := pruneStarts cfg now s.starts }))) ∨
      (runningScan s = none ∧ (pruneStarts cfg now s.starts).length < cfg.maxStarts ∧
        (hosts req.ranges).length ≤ maxAddresses ∧
        start cfg s req now = (.started s.scans.length,
          { s with
            clock := now
            starts := pruneStarts cfg now s.starts ++ [now]
            scans := s.scans ++
              [newScan req (planTargets req.ranges req.includeInventory req.inventory) now]
            scan := some s.scans.length })) := by
  unfold start
  dsimp only
  split
  · exact .inl ⟨nofun, .inl rfl⟩
  · split
    · exact .inl ⟨nofun, .inl rfl⟩
    · next hhosts =>
        cases hrunning : runningScan s with
        | some i => exact .inl ⟨nofun, .inr (.inl rfl)⟩
        | none =>
            dsimp only
            split
            · next hfull => exact .inl ⟨nofun, .inr (.inr ⟨hfull, rfl⟩)⟩
            · next hroom => exact .inr ⟨rfl, not_le.1 hroom, not_lt.1 hhosts, rfl⟩

/-- **A refused start changes nothing.** -/
theorem start_refused (h : ManagerInv cfg s) {req : StartRequest} {now : ℤ}
    (hrefused : ∀ i, (start cfg s req now).1 ≠ .started i) :
    (start cfg s req now).2 = s ∨ (start cfg s req now).2 = { s with clock := now } := by
  rcases start_cases cfg s req now with ⟨-, heq | heq | ⟨hfull, heq⟩⟩ | ⟨-, -, -, heq⟩
  · exact .inl heq
  · exact .inr heq
  · -- the starts were no more than the limit, so none was forgotten
    have hprune : pruneStarts cfg now s.starts = s.starts :=
      (List.dropWhile_sublist _).eq_of_length_le (h.startsLength.trans hfull)
    rw [hprune] at heq
    exact .inr heq
  · rw [heq] at hrefused
    exact absurd rfl (hrefused _)

/-- A new scan is good. -/
theorem scanOk_newScan {req : StartRequest} (now : ℤ)
    (h : (hosts req.ranges).length ≤ maxAddresses) :
    ScanOk (newScan req (planTargets req.ranges req.includeInventory req.inventory) now) := by
  have hcounted := planTargets_counts req.includeInventory req.inventory h
  refine ⟨hcounted.sources, ?_, List.nodup_nil, nofun, List.nodup_nil, nofun, ?_, fun h => absurd rfl h⟩
  · show (_ : ℤ) ≤ ((planTargets req.ranges req.includeInventory req.inventory).static.length : ℤ)
    rw [hcounted.static]
    rfl
  · exact ⟨fun _ => Nat.zero_le _, fun _ => rfl⟩

/-- No scan is running when the manager keeps no running one. -/
theorem not_running_of_runningScan (h : ManagerInv cfg s) (hnone : runningScan s = none) {i : ℕ}
    {scan : ScanState} (hscan : s.scans[i]? = some scan) : scan.status ≠ .running := by
  intro hrunning
  have hkept := h.oneRunning i scan hscan hrunning
  rw [runningScan, hkept, Option.filter_eq_none_iff] at hnone
  exact hnone i rfl (by rw [hscan]; exact decide_eq_true hrunning)

/-- **An accepted start keeps the invariant.** -/
theorem ManagerInv.accept (h : ManagerInv cfg s) {req : StartRequest} {now : ℤ}
    (hclock : s.clock ≤ now) (hrunning : runningScan s = none)
    (hroom : (pruneStarts cfg now s.starts).length < cfg.maxStarts)
    (hhosts : (hosts req.ranges).length ≤ maxAddresses) :
    ManagerInv cfg { s with
      clock := now
      starts := pruneStarts cfg now s.starts ++ [now]
      scans := s.scans ++
        [newScan req (planTargets req.ranges req.includeInventory req.inventory) now]
      scan := some s.scans.length } := by
  obtain ⟨dropped, hsplit, hdropped⟩ := h.starts
  -- the starts that do not count any more, with those that are forgotten now
  have hforgotten : ∀ t ∈ dropped ++ s.starts.takeWhile (fun t => t ≤ now - cfg.window),
      t ≤ now - cfg.window := by
    intro t ht
    rcases List.mem_append.1 ht with ht | ht
    · exact (hdropped t ht).trans (by omega)
    · exact of_decide_eq_true (List.mem_takeWhile_imp (p := fun t => t ≤ now - cfg.window) ht)
  have hstarted : (s.scans ++ [newScan req
      (planTargets req.ranges req.includeInventory req.inventory) now]).map ScanState.startedAt =
        (dropped ++ s.starts.takeWhile (fun t => t ≤ now - cfg.window)) ++
          (pruneStarts cfg now s.starts ++ [now]) := by
    rw [List.map_append, hsplit, pruneStarts, List.append_assoc, List.append_assoc,
      ← List.append_assoc (List.takeWhile _ _), List.takeWhile_append_dropWhile]
    rfl
  refine ⟨fun i scan hscan => ?_, fun i scan hscan hstatus => ?_, ⟨_, hstarted, hforgotten⟩, ?_,
    fun p hp => ?_, fun i => ?_⟩
  · rcases List.mem_append.1 (List.mem_of_getElem? hscan) with hmem | hmem
    · obtain ⟨j, hj⟩ := List.getElem?_of_mem hmem
      exact h.scans j scan hj
    · rw [List.mem_singleton.1 hmem]
      exact scanOk_newScan now hhosts
  · by_cases hi : i < s.scans.length
    · have hscan : (s.scans ++ [_])[i]? = some scan := hscan
      rw [List.getElem?_append_left hi] at hscan
      exact absurd hstatus (not_running_of_runningScan h hrunning hscan)
    · obtain ⟨hlt, -⟩ := List.getElem?_eq_some_iff.1 hscan
      have hlt : i < (s.scans ++ [_]).length := hlt
      rw [List.length_append, List.length_singleton] at hlt
      exact congrArg some (by omega)
  · rw [List.length_append, List.length_singleton]
    exact hroom
  · show ((List.map ScanState.startedAt (s.scans ++ [_])).filter p).length ≤ _
    by_cases hnow : p now = true
    · -- what lies in one window with the new start is remembered
      rw [hstarted, List.filter_append, List.filter_eq_nil_iff.2, List.nil_append]
      · refine (List.length_filter_le _ _).trans ?_
        rw [List.length_append, List.length_singleton]
        exact hroom
      · intro t ht hpt
        have hlt := hp now t hnow hpt
        have hle := hforgotten t ht
        omega
    · rw [List.map_append, List.filter_append, List.length_append]
      have hnew : (List.filter p (List.map ScanState.startedAt [newScan req
          (planTargets req.ranges req.includeInventory req.inventory) now])) = [] :=
        List.filter_eq_nil_iff.2 fun t ht => by
          rw [List.mem_singleton.1 ht]
          exact hnow
      rw [hnew, List.length_nil, Nat.add_zero]
      exact h.window p hp
  · show s.audits.filter _ = auditEntries i (s.scans ++ [_])[i]?
    rw [h.audits i]
    by_cases hi : i < s.scans.length
    · rw [List.getElem?_append_left hi]
    · rw [List.getElem?_append_right (not_lt.1 hi), List.getElem?_eq_none (not_lt.1 hi)]
      cases hindex : i - s.scans.length with
      | zero => rfl
      | succ n => rfl

/-- Reading the clock keeps the invariant, and so does forgetting a scan that has ended. -/
theorem ManagerInv.forget (h : ManagerInv cfg s) {now : ℤ} (hclock : s.clock ≤ now)
    {kept : Option ℕ}
    (hkept : ∀ (i : ℕ) scan, s.scans[i]? = some scan → scan.status = .running → kept = s.scan) :
    ManagerInv cfg { s with scan := kept, clock := now } where
  scans := h.scans
  oneRunning i scan hscan hrunning :=
    (hkept i scan hscan hrunning).trans (h.oneRunning i scan hscan hrunning)
  starts := by
    obtain ⟨dropped, hsplit, hdropped⟩ := h.starts
    exact ⟨dropped, hsplit, fun t ht => (hdropped t ht).trans (sub_le_sub_right hclock cfg.window)⟩
  startsLength := h.startsLength
  window := h.window
  audits := h.audits

/-- **The audit entry of a scan that has ended.** -/
theorem ManagerInv.audit (h : ManagerInv cfg s) {i : ℕ} {scan : ScanState}
    (hscan : s.scans[i]? = some scan) (hpc : scan.pc = .ended) :
    ManagerInv cfg { s.modifyScan i (fun scan => { scan.setCtxErr .canceled with pc := .audited })
      with audits := s.audits ++ [(i, auditAction scan.status)] } := by
  have hlater : ∀ scan', s.scans[i]? = some scan' →
      Later scan' { scan'.setCtxErr .canceled with pc := .audited } := by
    intro scan' hscan'
    obtain rfl := Option.some.inj (hscan.symm.trans hscan')
    exact .of_same rfl rfl rfl rfl le_rfl le_rfl (fun _ => rfl) id rfl (by
      rw [hpc]
      exact Nat.le_succ _)
  have hstarted := startedAt_modifyScan hlater
  refine ⟨fun j scan' hscan' => ?_, fun j scan' hscan' hrunning => ?_, ?_, h.startsLength,
    fun p hp => ?_, fun j => ?_⟩
  · obtain ⟨scan'', hscan'', rfl⟩ := getElem?_modifyScan hscan'
    have hok := h.scans j scan'' hscan''
    split
    · next hij =>
        obtain rfl := Option.some.inj (hscan.symm.trans (hij ▸ hscan''))
        refine ⟨hok.counts, hok.total, hok.candidates, hok.candidateKeys, hok.tlsTargets,
          hok.tlsKeys, ?_, hok.ended⟩
        have hended : ¬ scan.status = .running := by
          rw [hok.running, hpc]
          exact Nat.not_succ_le_self 1
        exact ⟨fun hrunning => absurd hrunning hended,
          fun hrank => absurd (show (3 : ℕ) ≤ 1 from hrank) (by omega)⟩
    · exact hok
  · obtain ⟨scan'', hscan'', rfl⟩ := getElem?_modifyScan hscan'
    refine h.oneRunning j scan'' hscan'' ?_
    split at hrunning
    · exact hrunning
    · exact hrunning
  · obtain ⟨dropped, hsplit, hdropped⟩ := h.starts
    exact ⟨dropped, hstarted.trans hsplit, hdropped⟩
  · show (((s.modifyScan i _).scans.map ScanState.startedAt).filter p).length ≤ _
    rw [hstarted]
    exact h.window p hp
  · show (s.audits ++ [(i, auditAction scan.status)]).filter _ =
      auditEntries j (s.modifyScan i _).scans[j]?
    rw [List.filter_append, h.audits j, State.modifyScan, List.getElem?_modify]
    by_cases hij : i = j
    · subst hij
      rw [hscan]
      simp [auditEntries, hpc, ScanState.setCtxErr]
    · cases hscan' : s.scans[j]? with
      | none => simp [auditEntries, hij]
      | some scan' => simp [auditEntries, hij]

/-- **What a step can do**: read the clock and perhaps forget a scan that has ended, accept a new
scan, change one scan, or write the audit entry of one. -/
theorem next_cases (h : ManagerInv cfg s) {ev : Event} (hstep : next cfg s ev = some t) :
    (∃ kept now, s.clock ≤ now ∧
      (∀ (i : ℕ) scan, s.scans[i]? = some scan → scan.status = .running → kept = s.scan) ∧
        t = { s with scan := kept, clock := now }) ∨
      (∃ req now, s.clock ≤ now ∧ runningScan s = none ∧
        (pruneStarts cfg now s.starts).length < cfg.maxStarts ∧
          (hosts req.ranges).length ≤ maxAddresses ∧ t = { s with
            clock := now
            starts := pruneStarts cfg now s.starts ++ [now]
            scans := s.scans ++
              [newScan req (planTargets req.ranges req.includeInventory req.inventory) now]
            scan := some s.scans.length }) ∨
      (∃ i f now, s.clock ≤ now ∧ (∀ scan, s.scans[i]? = some scan → Keeps f scan) ∧
        t = { s.modifyScan i f with clock := now }) ∨
      ∃ i scan, s.scans[i]? = some scan ∧ scan.pc = .ended ∧
        t = { s.modifyScan i (fun scan => { scan.setCtxErr .canceled with pc := .audited }) with
          audits := s.audits ++ [(i, auditAction scan.status)] } := by
  have hnothing : t = s → ∃ kept now, s.clock ≤ now ∧
      (∀ (i : ℕ) scan, s.scans[i]? = some scan → scan.status = .running → kept = s.scan) ∧
        t = { s with scan := kept, clock := now } :=
    fun heq => ⟨s.scan, s.clock, le_rfl, fun _ _ _ _ => rfl, heq⟩
  cases ev with
  | start req now =>
      rw [next] at hstep
      split at hstep
      · next hclock =>
          obtain rfl := Option.some.inj hstep
          by_cases hrefused : ∀ i, (start cfg s req now).1 ≠ .started i
          · rcases start_refused h hrefused with heq | heq
            · exact .inl (hnothing heq)
            · exact .inl ⟨s.scan, now, hclock, fun _ _ _ _ => rfl, heq⟩
          · rcases start_cases cfg s req now with ⟨hnot, -⟩ | ⟨hrunning, hroom, hhosts, heq⟩
            · exact absurd hnot hrefused
            · exact .inr (.inl ⟨req, now, hclock, hrunning, hroom, hhosts, congrArg Prod.snd heq⟩)
      · cases hstep
  | current now =>
      rw [next] at hstep
      split at hstep
      · next hclock =>
          refine .inl ⟨_, now, hclock, fun i scan hscan hrunning => ?_, (Option.some.inj hstep).symm⟩
          have hkept := h.oneRunning i scan hscan hrunning
          rw [hkept]
          exact if_neg (by simp [hscan, hrunning])
      · cases hstep
  | cancel by_ =>
      rw [next] at hstep
      split at hstep
      · exact .inr (.inr (.inl ⟨_, _, s.clock, le_rfl, fun scan _ => keeps_cancelScan by_ scan,
          (Option.some.inj hstep).symm⟩))
      · exact .inl (hnothing (Option.some.inj hstep).symm)
  | shutdown =>
      rw [next] at hstep
      split at hstep
      · exact .inr (.inr (.inl ⟨_, _, s.clock, le_rfl, fun scan _ => keeps_shutdownScan scan,
          (Option.some.inj hstep).symm⟩))
      · exact .inl (hnothing (Option.some.inj hstep).symm)
  | deadline i =>
      exact .inr (.inr (.inl ⟨i, _, s.clock, le_rfl, fun scan _ => keeps_setCtxErr _ scan,
        (Option.some.inj hstep).symm⟩))
  | passive i addr =>
      exact .inr (.inr (.inl ⟨i, _, s.clock, le_rfl, fun scan _ => keeps_admitPassive addr scan,
        (Option.some.inj hstep).symm⟩))
  | progress i p now =>
      rw [next] at hstep
      split at hstep
      · next hclock =>
          exact .inr (.inr (.inl ⟨i, _, now, hclock, fun scan _ => keeps_onProgress cfg p now scan,
            (Option.some.inj hstep).symm⟩))
      · cases hstep
  | candidate i c =>
      exact .inr (.inr (.inl ⟨i, _, s.clock, le_rfl, fun scan _ => keeps_onCandidate c scan,
        (Option.some.inj hstep).symm⟩))
  | tlsTarget i target =>
      exact .inr (.inr (.inl ⟨i, _, s.clock, le_rfl, fun scan _ => keeps_onTLSTarget cfg target scan,
        (Option.some.inj hstep).symm⟩))
  | returned i failed =>
      rw [next] at hstep
      split at hstep
      · next scan hscan =>
          split at hstep
          · next hpc =>
              refine .inr (.inr (.inl ⟨i, runnerReturned failed, s.clock, le_rfl,
                fun scan' hscan' => ?_, (Option.some.inj hstep).symm⟩))
              obtain rfl := Option.some.inj (hscan.symm.trans hscan')
              exact keeps_runnerReturned failed hpc
          · cases hstep
      · cases hstep
  | ended i now =>
      rw [next] at hstep
      split at hstep
      · next scan hscan =>
          split at hstep
          · next hready =>
              obtain ⟨hpc, hclock⟩ := hready
              refine .inr (.inr (.inl ⟨i, endScan now, now, hclock, fun scan' hscan' => ?_,
                (Option.some.inj hstep).symm⟩))
              obtain rfl := Option.some.inj (hscan.symm.trans hscan')
              exact keeps_endScan now hpc (h.scans i scan hscan)
          · cases hstep
      · cases hstep
  | audited i =>
      rw [next] at hstep
      split at hstep
      · next scan hscan =>
          split at hstep
          · next hpc => exact .inr (.inr (.inr ⟨i, scan, hscan, hpc, (Option.some.inj hstep).symm⟩))
          · cases hstep
      · cases hstep

/-- **Every step keeps the invariant.** -/
theorem ManagerInv.step (h : ManagerInv cfg s) {ev : Event} (hstep : next cfg s ev = some t) :
    ManagerInv cfg t := by
  rcases next_cases h hstep with ⟨kept, now, hclock, hkept, rfl⟩ |
    ⟨req, now, hclock, hrunning, hroom, hhosts, rfl⟩ | ⟨i, f, now, hclock, hf, rfl⟩ |
    ⟨i, scan, hscan, hpc, rfl⟩
  · exact h.forget hclock hkept
  · exact h.accept hclock hrunning hroom hhosts
  · exact h.modify hclock hf
  · exact h.audit hscan hpc

/-- The audit entry leaves the scan as it is. -/
theorem later_audited {scan : ScanState} (hpc : scan.pc = .ended) :
    Later scan { scan.setCtxErr .canceled with pc := .audited } :=
  .of_same rfl rfl rfl rfl le_rfl le_rfl (fun _ => rfl) id rfl (by
    rw [hpc]
    exact Nat.le_succ _)

/-- **How a step changes the scans.** -/
theorem later_step (h : ManagerInv cfg s) {ev : Event} (hstep : next cfg s ev = some t) :
    Evolves s t := by
  rcases next_cases h hstep with ⟨kept, now, -, -, rfl⟩ | ⟨req, now, -, -, -, -, rfl⟩ |
    ⟨i, f, now, -, hf, rfl⟩ | ⟨i, scan, hscan, hpc, rfl⟩
  · exact .of_scans rfl
  · intro i scan hscan
    obtain ⟨hlt, -⟩ := List.getElem?_eq_some_iff.1 hscan
    exact ⟨scan, (List.getElem?_append_left hlt).trans hscan, .refl scan⟩
  · exact modifyScan_evolves fun scan hscan => (hf scan hscan).later
  · refine modifyScan_evolves fun scan' hscan' => ?_
    obtain rfl := Option.some.inj (hscan.symm.trans hscan')
    exact later_audited hpc

theorem managerInv_init (h : (managerMachine cfg).init s) : ManagerInv cfg s := by
  obtain ⟨hscans, hscan, hstarts, haudits⟩ := h
  refine ⟨?_, ?_, ⟨[], ?_, nofun⟩, ?_, ?_, ?_⟩
  · simp [hscans]
  · simp [hscans]
  · simp [hscans, hstarts]
  · simp [hstarts]
  · simp [hscans]
  · simp [hscans, haudits, auditEntries]

end Steps

/-! ### The properties of the manager -/

/-- What holds of a scan in every state. -/
structure ScanProperties (s : State) (i : ℕ) (scan : ScanState) : Prop where
  /-- The admitted addresses. -/
  distinct : scan.targets.addresses.Nodup
  budget : scan.targets.addresses.length ≤ maxAddresses
  allowed : ∀ a ∈ scan.targets.addresses, allowed a = true
  counts : scan.sources.range + scan.sources.inventory + scan.sources.passive =
    scan.targets.addresses.length
  total : (scan.targets.addresses.length : ℤ) ≤ scan.total
  candidates : (scan.candidates.map fun c => (c.type, c.address, c.port)).Nodup
  tlsTargets : (scan.tlsTargets.map fun t => (t.address, t.port)).Nodup
  /-- A scan is running until its goroutine comes to its end. -/
  running : scan.status = .running ↔ scan.pc = .running ∨ scan.pc = .returned
  /-- It ends as failed if its runner has panicked, else as cancelled if it was cancelled. -/
  ended : scan.status ≠ .running → scan.status =
    if scan.failed then .failed else if scan.cancelled then .cancelled else .completed
  /-- It has one entry once its goroutine is done, and none before. -/
  audits : s.audits.filter (fun entry => entry.1 = i) = if scan.pc = .audited then
    [(i, if scan.status = .cancelled then .cancel else .complete)] else []

/-- What holds of the manager in every state. -/
structure Properties (cfg : Config) (s : State) : Prop where
  oneRunning : ∀ (i j : ℕ) scan scan', s.scans[i]? = some scan → s.scans[j]? = some scan' →
    scan.status = .running → scan'.status = .running → i = j
  /-- Of each half-open window, closed at its start or at its end. -/
  window : ∀ t, ((s.scans.map ScanState.startedAt).filter fun a =>
    t ≤ a && a < t + cfg.window).length ≤ cfg.maxStarts
  window' : ∀ t, ((s.scans.map ScanState.startedAt).filter fun a =>
    t < a && a ≤ t + cfg.window).length ≤ cfg.maxStarts
  refused : ∀ req now, (∀ i, (start cfg s req now).1 ≠ .started i) →
    (start cfg s req now).2 = s ∨ (start cfg s req now).2 = { s with clock := now }
  scans : ∀ (i : ℕ) scan, s.scans[i]? = some scan → ScanProperties s i scan

theorem rank_le_one {pc : RunPc} : pc.rank ≤ 1 ↔ pc = .running ∨ pc = .returned := by
  cases pc with
  | running => exact ⟨fun _ => .inl rfl, fun _ => Nat.zero_le _⟩
  | returned => exact ⟨fun _ => .inr rfl, fun _ => le_rfl⟩
  | ended => exact ⟨fun h => absurd (show (2 : ℕ) ≤ 1 from h) (by omega), fun h => by simp at h⟩
  | audited => exact ⟨fun h => absurd (show (3 : ℕ) ≤ 1 from h) (by omega), fun h => by simp at h⟩

theorem ManagerInv.properties {cfg : Config} {s : State} (h : ManagerInv cfg s) :
    Properties cfg s where
  oneRunning i j scan scan' hi hj hrunning hrunning' :=
    Option.some.inj ((h.oneRunning i scan hi hrunning).symm.trans
      (h.oneRunning j scan' hj hrunning'))
  window t := by
    refine h.window _ fun a b ha hb => ?_
    rw [Bool.and_eq_true, decide_eq_true_eq, decide_eq_true_eq] at ha hb
    omega
  window' t := by
    refine h.window _ fun a b ha hb => ?_
    rw [Bool.and_eq_true, decide_eq_true_eq, decide_eq_true_eq] at ha hb
    omega
  refused _ _ hrefused := start_refused h hrefused
  scans i scan hscan := by
    have hok := h.scans i scan hscan
    have hlength : scan.targets.addresses.length = scan.targets.entries.length := List.length_map _
    refine ⟨scan.targets.nodup, hlength ▸ scan.targets.size, scan.targets.safe,
      hok.counts.trans hlength.symm, ?_, hok.candidates, hok.tlsTargets,
      hok.running.trans rank_le_one, hok.ended, ?_⟩
    · rw [hlength]
      exact hok.total
    · rw [h.audits i, hscan, auditEntries, auditAction]

/-- **The properties of the manager**: they hold in every state that any interleaving of the
goroutines reaches, whatever happens after it only moves each scan on, and the goroutine of a scan
can always take its next step until the scan is audited. -/
theorem manager_properties (cfg : Config) (s : State) (h : (managerMachine cfg).Reachable s) :
    Properties cfg s ∧
      (∀ as t, (managerMachine cfg).Run s as t → Evolves s t) ∧
        ∀ (i : ℕ) scan, s.scans[i]? = some scan → scan.pc ≠ .audited →
          ∃ ev t scan', (ev = .returned i false ∨ ev = .ended i s.clock ∨ ev = .audited i) ∧
            (managerMachine cfg).step s ev t ∧ t.scans[i]? = some scan' ∧
              scan'.pc.rank = scan.pc.rank + 1 := by
  have hinit : ∀ s, (managerMachine cfg).init s → ManagerInv cfg s := fun s hs => managerInv_init hs
  have hstep : ∀ s ev t, ManagerInv cfg s → (managerMachine cfg).step s ev t → ManagerInv cfg t :=
    fun s ev t hs hstep => hs.step hstep
  have hinv : ManagerInv cfg s := h.invariant hinit hstep
  refine ⟨hinv.properties, fun as t hrun => ?_, fun i scan hscan hpc => ?_⟩
  · have hboth : ManagerInv cfg t ∧ Evolves s t := by
      refine hrun.invariant (I := fun u => ManagerInv cfg u ∧ Evolves s u) ?_
        ⟨hinv, .of_scans rfl⟩
      intro u ev v hu hstep
      exact ⟨hu.1.step hstep, hu.2.trans (later_step hu.1 hstep)⟩
    exact hboth.2
  · have hmodified : ∀ f : ScanState → ScanState,
        (s.modifyScan i f).scans[i]? = some (f scan) := by
      intro f
      rw [State.modifyScan, List.getElem?_modify_eq, hscan]
      rfl
    cases hpc' : scan.pc with
    | running =>
        refine ⟨.returned i false, _, _, .inl rfl, ?_, hmodified (runnerReturned false), rfl⟩
        show next cfg s _ = _
        rw [next, hscan]
        exact if_pos hpc'
    | returned =>
        refine ⟨.ended i s.clock, { s.modifyScan i (endScan s.clock) with clock := s.clock },
          _, .inr (.inl rfl), ?_, hmodified (endScan s.clock), rfl⟩
        show next cfg s _ = _
        rw [next, hscan]
        exact if_pos ⟨hpc', le_rfl⟩
    | ended =>
        refine ⟨.audited i,
          { s.modifyScan i (fun scan => { scan.setCtxErr .canceled with pc := .audited }) with
            audits := s.audits ++ [(i, auditAction scan.status)] }, _, .inr (.inr rfl), ?_,
          hmodified (fun scan => { scan.setCtxErr .canceled with pc := .audited }), rfl⟩
        show next cfg s _ = _
        rw [next, hscan]
        exact if_pos hpc'
    | audited => exact absurd hpc' hpc

def sampleConfig : Config := ⟨6, 3600, 900, 0, fun _ => none⟩

def idleState : State := ⟨[], none, [], [], 0⟩

/-- A scan of a range with two usable addresses. -/
def sampleRequest : StartRequest :=
  ⟨[⟨0xC0A80100, 30, by decide, by decide, by decide, by decide⟩], false, true, []⟩

/-- The scan finds a host and is cancelled. -/
def sampleRun : List Event :=
  [.start sampleRequest 10, .candidate 0 ⟨bytes "proxmox", bytes "192.168.1.1", 8006, none, []⟩,
    .cancel (bytes "admin"), .returned 0 false, .ended 0 12, .audited 0]

theorem manager_properties_sample :
    ∃ s, Properties sampleConfig s ∧ s.audits = [(0, .cancel)] ∧
      s.scans.map (fun scan => scan.candidates.length) = [1] := by
  cases hrun : sampleRun.foldlM (next sampleConfig) idleState with
  | none =>
      have hsome : (sampleRun.foldlM (next sampleConfig) idleState).isSome = true := by
        decide
      rw [hrun] at hsome
      cases hsome
  | some s =>
      have hreachable : (managerMachine sampleConfig).Reachable s :=
        Machine.Reachable.foldlM (fun _ _ _ h => h)
          (Machine.Reachable.of_init ⟨rfl, rfl, rfl, rfl⟩) hrun
      have hends : (sampleRun.foldlM (next sampleConfig) idleState).map
          (fun s => (s.audits, s.scans.map fun scan => scan.candidates.length)) =
            some ([(0, .cancel)], [1]) := by
        decide
      rw [hrun] at hends
      obtain ⟨haudits, hcandidates⟩ := Prod.mk.inj (Option.some.inj hends)
      exact ⟨s, (manager_properties sampleConfig s hreachable).1, haudits, hcandidates⟩

end WiseLabz.Discovery
