/-
**The timeline.**

The timeline tells what happened, from six tables: changes, sync runs, alerts, versions of docs,
journal entries and audited actions.  Each source shows a user the rows in the scope of the user's
grants, narrowed by the API key of the request; the rows are filtered, ordered by the padded texts
of their times, and told by pages.  A page names its last row in a cursor, and the next request
gives it back.

Main definitions:

* `Timeline.timelineTimestamp` — the padded text of a time;
* `Timeline.Tables`, `Timeline.Tables.Timed` — the tables that are read, and their times as they
  are written;
* `Timeline.timelineUnion`, `Timeline.listTimeline` — **what a user is shown**, and one page of it;
* `Timeline.list`, `Timeline.browse` — a request, and a client that follows the cursors.

Main results:

* `Timeline.timelineTimestamp_lt_iff` — **the padded texts compare as the instants do**;
* `Timeline.restricted_sees` — a restricted key sees what its owner sees, on its connectors only;
* `Timeline.browse_spec`, `Timeline.browse_ends` — **in order of time, nothing twice, and nothing
  missed**, while the tables change.
-/

import WiseLabz.Lib.Calendar
import WiseLabz.Lib.Split
import WiseLabz.Lib.Keyset
import WiseLabz.Store.Visibility

set_option relaxedAutoImplicit false
set_option autoImplicit false

namespace WiseLabz.Timeline

open Lib Store

/-! ### Texts of instants -/

/-- The text of an instant up to its seconds: `2006-01-02T15:04:05`. -/
def wholeText (t : ℕ) : Bytes :=
  dateText (t / nsPerSecond / 86400) ++ (bytes "T" ++ timeOfDayText (t / nsPerSecond % 86400))

/-- The digits without the zeros at their end. -/
def trimmed (ds : Bytes) : Bytes := (ds.reverse.dropWhile (· == 48)).reverse

/-- The layout `RFC3339Nano`: the fraction of a second without the zeros at its end. -/
def rfc3339Nano (t : ℕ) : Bytes :=
  let fraction := trimmed (digits 9 (t % nsPerSecond))
  wholeText t ++ ((if fraction = [] then [] else 46 :: fraction) ++ bytes "Z")

/-- **`timelineTimestamp`**: the fraction of a second is padded to nanoseconds. -/
def timelineTimestamp (column : Bytes) : Bytes :=
  column.take 19 ++ (46 :: (((if column[19]? = some 46 then
    (column.drop 20).take (column.length - 21) else []) ++ List.replicate 9 48).take 9 ++ [90]))

/-- An instant of the years 0 to 9999, and its text in one of the three layouts that are written. -/
structure TimeText where
  text : Bytes
  instant : ℕ
  inYears : instant < endOfYears
  layout : text = rfc3339 instant ∧ instant % nsPerSecond = 0 ∨
    text = rfc3339Nano instant ∨ text = timestamp instant

/-- What a time column should hold. -/
def StoredTime (column : Bytes) : Prop := ∃ time : TimeText, time.text = column

theorem timestamp_eq (t : ℕ) :
    timestamp t = wholeText t ++ (46 :: (digits 9 (t % nsPerSecond) ++ [90])) := by
  have hday : t / nsPerDay = t / nsPerSecond / 86400 := by
    rw [Nat.div_div_eq_div_mul, show nsPerSecond * 86400 = nsPerDay from rfl]
  have hhour : t % nsPerDay / nsPerHour = t / nsPerSecond % 86400 / 3600 := by
    simp only [nsPerDay, nsPerHour, nsPerMinute, nsPerSecond]
    omega
  have hminute : t % nsPerDay % nsPerHour / nsPerMinute = t / nsPerSecond % 86400 % 3600 / 60 := by
    simp only [nsPerDay, nsPerHour, nsPerMinute, nsPerSecond]
    omega
  have hsecond : t % nsPerDay % nsPerHour % nsPerMinute / nsPerSecond =
      t / nsPerSecond % 86400 % 3600 % 60 := by
    simp only [nsPerDay, nsPerHour, nsPerMinute, nsPerSecond]
    omega
  have hrest : t % nsPerDay % nsPerHour % nsPerMinute % nsPerSecond = t % nsPerSecond := by
    simp only [nsPerDay, nsPerHour, nsPerMinute, nsPerSecond]
    omega
  simp only [timestamp, clockText, minuteText, secondText, wholeText, timeOfDayText, hday, hhour,
    hminute, hsecond, hrest, List.append_assoc]
  rfl

theorem wholeText_length {t : ℕ} (h : t < endOfYears) : (wholeText t).length = 19 := by
  have := ordered_timestamp.length t h
  rw [timestamp_eq, List.length_append, List.length_cons, List.length_append, digits_length] at this
  simpa using this

/-- The zeros at the end are put back. -/
theorem trimmed_append (ds : Bytes) : ∃ n, ds = trimmed ds ++ List.replicate n 48 := by
  have hzeros : ∀ b ∈ ds.reverse.takeWhile (· == 48), b = 48 := fun b hb => by
    simpa using List.mem_takeWhile_imp hb
  refine ⟨(ds.reverse.takeWhile (· == 48)).length, ?_⟩
  rw [← List.eq_replicate_of_mem hzeros, trimmed]
  have h := congrArg List.reverse
    (List.takeWhile_append_dropWhile (p := (· == 48)) (l := ds.reverse))
  rw [List.reverse_append, List.reverse_reverse] at h
  rw [List.eq_replicate_of_mem hzeros] at h ⊢
  rw [List.reverse_replicate] at h
  exact h.symm

theorem trimmed_padded {ds : Bytes} (h : ds.length = 9) :
    (trimmed ds ++ List.replicate 9 48).take 9 = ds := by
  obtain ⟨n, hn⟩ := trimmed_append ds
  have hlength : (trimmed ds).length + n = 9 := by
    rw [← h]
    nth_rewrite 2 [hn]
    rw [List.length_append, List.length_replicate]
  have hpad : (List.replicate 9 (48 : UInt8)).take n = List.replicate n 48 := by
    rw [List.take_replicate, Nat.min_eq_left (by omega)]
  have hrest : 9 - (trimmed ds).length = n := by omega
  rw [List.take_append, List.take_of_length_le (by omega), hrest, hpad, ← hn]

/-- What is padded, of a text with a fraction. -/
theorem timelineTimestamp_fraction {t : ℕ} (h : t < endOfYears) (fraction : Bytes) :
    timelineTimestamp (wholeText t ++ (46 :: (fraction ++ [90]))) =
      wholeText t ++ (46 :: ((fraction ++ List.replicate 9 48).take 9 ++ [90])) := by
  have hlength := wholeText_length h
  have htake : (wholeText t ++ (46 :: (fraction ++ [90]))).take 19 = wholeText t :=
    List.take_left' hlength
  have hpoint : (wholeText t ++ (46 :: (fraction ++ [90])))[19]? = some 46 := by
    rw [List.getElem?_append_right (by omega), hlength]
    rfl
  have hdrop : (wholeText t ++ (46 :: (fraction ++ [90]))).drop 20 = fraction ++ [90] := by
    rw [List.drop_append, hlength, List.drop_of_length_le (by omega)]
    rfl
  have hcount : (wholeText t ++ (46 :: (fraction ++ [90]))).length - 21 = fraction.length := by
    simp only [List.length_append, List.length_cons, List.length_nil, hlength]
    omega
  rw [timelineTimestamp, htake, if_pos hpoint, hdrop, hcount, List.take_left]

/-- What is padded, of a text in whole seconds. -/
theorem timelineTimestamp_seconds {t : ℕ} (h : t < endOfYears) :
    timelineTimestamp (wholeText t ++ [90]) =
      wholeText t ++ (46 :: (List.replicate 9 48 ++ [90])) := by
  have hlength := wholeText_length h
  have hpoint : (wholeText t ++ [90])[19]? ≠ some 46 := by
    rw [List.getElem?_append_right (by omega), hlength]
    decide
  rw [timelineTimestamp, List.take_left' hlength, if_neg hpoint]
  rfl

theorem digits_zero : digits 9 0 = List.replicate 9 48 := by decide

/-- **All texts of one instant are padded to one.** -/
theorem timelineTimestamp_timeText (time : TimeText) :
    timelineTimestamp time.text = timestamp time.instant := by
  have h := time.inYears
  rcases time.layout with ⟨htext, hwhole⟩ | htext | htext
  · have hseconds : rfc3339 time.instant = wholeText time.instant ++ [90] := by
      simp only [rfc3339, secondsText, wholeText, List.append_assoc]
      rfl
    rw [htext, hseconds, timelineTimestamp_seconds h, timestamp_eq, hwhole, digits_zero]
  · rw [htext, rfc3339Nano, timestamp_eq]
    split
    · next hzero =>
        have hpadded := trimmed_padded (digits_length 9 (time.instant % nsPerSecond))
        rw [hzero] at hpadded
        rw [← hpadded]
        exact timelineTimestamp_seconds h
    · rw [List.cons_append]
      refine (timelineTimestamp_fraction h _).trans ?_
      rw [trimmed_padded (digits_length _ _)]
  · rw [htext, timestamp_eq, timelineTimestamp_fraction h,
      List.take_left' (digits_length _ _)]

/-- **The padded texts compare as the instants do**, in whatever layouts they are stored. -/
theorem timelineTimestamp_lt_iff (a b : TimeText) :
    timelineTimestamp a.text < timelineTimestamp b.text ↔ a.instant < b.instant := by
  rw [timelineTimestamp_timeText, timelineTimestamp_timeText]
  exact ordered_timestamp.lt_iff a.inYears b.inYears

/-! ### Tables -/

structure ChangeRow where
  id : Bytes
  detectedAt : Bytes
  summary : Bytes
  serviceID : Bytes
  status : Bytes

structure SyncRunRow where
  id : Bytes
  startedAt : Bytes
  status : Bytes
  error : Bytes
  connectorID : Bytes
  changesCount : ℕ
  alertsCount : ℕ

structure AlertRow where
  id : Bytes
  createdAt : Bytes
  title : Bytes
  description : Bytes
  serviceID : Bytes
  status : Bytes

structure DocRow where
  id : Bytes
  title : Bytes
  serviceID : Bytes
  human : Bool
  deleted : Bool

structure DocVersionRow where
  id : Bytes
  docID : Bytes
  createdAt : Bytes
  author : Bytes
  trigger : Bytes

structure JournalRow where
  id : Bytes
  occurredAt : Bytes
  body : Bytes
  connectorID : Bytes
  docID : Bytes
  createdBy : Bytes
  entityKind : Bytes
  entityName : Bytes
  entityRef : Bytes

/-- `connectorIDs` are the rows of `audit_log_connectors` for the entry. -/
structure AuditRow where
  id : Bytes
  createdAt : Bytes
  action : Bytes
  targetType : Bytes
  targetID : Bytes
  actorUserID : Bytes
  connectorIDs : List Bytes

/-- **The tables that the timeline reads**, with their primary keys; `NULL` is the empty text. -/
structure Tables where
  changes : List ChangeRow
  syncRuns : List SyncRunRow
  alerts : List AlertRow
  docs : List DocRow
  docVersions : List DocVersionRow
  journal : List JournalRow
  audit : List AuditRow
  connectors : List Bytes
  grants : List ConnectorGrant
  changeIDs : (changes.map ChangeRow.id).Nodup
  syncRunIDs : (syncRuns.map SyncRunRow.id).Nodup
  alertIDs : (alerts.map AlertRow.id).Nodup
  docIDs : (docs.map DocRow.id).Nodup
  docVersionIDs : (docVersions.map DocVersionRow.id).Nodup
  journalIDs : (journal.map JournalRow.id).Nodup
  auditIDs : (audit.map AuditRow.id).Nodup
  named : ∀ id ∈ changes.map ChangeRow.id ++ syncRuns.map SyncRunRow.id ++ alerts.map AlertRow.id ++
    docVersions.map DocVersionRow.id ++ journal.map JournalRow.id ++ audit.map AuditRow.id, id ≠ []

/-- **All times are stored in the layouts that are written.**  An imported row or a journal entry
may hold another one, such as a time with an offset. -/
structure Tables.Timed (t : Tables) : Prop where
  changes : ∀ r ∈ t.changes, StoredTime r.detectedAt
  syncRuns : ∀ r ∈ t.syncRuns, StoredTime r.startedAt
  alerts : ∀ r ∈ t.alerts, StoredTime r.createdAt
  docVersions : ∀ r ∈ t.docVersions, StoredTime r.createdAt
  journal : ∀ r ∈ t.journal, StoredTime r.occurredAt
  audit : ∀ r ∈ t.audit, StoredTime r.createdAt

/-! ### What a user is shown -/

structure TimelineItem where
  id : Bytes
  kind : Bytes
  timestamp : Bytes
  title : Bytes
  body : Bytes
  connectorID : Bytes
  docID : Bytes
  createdBy : Bytes
  entityKind : Bytes
  entityName : Bytes
  entityRef : Bytes
  status : Bytes
  deriving DecidableEq, Repr

structure TimelineCursor where
  timestamp : Bytes
  kind : Bytes
  id : Bytes
  deriving DecidableEq, Repr

/-- What a request selects; the cursor is kept apart. -/
structure TimelineFilter where
  userID : Bytes
  admin : Bool
  connectorID : Bytes
  after : Bytes
  before : Bytes
  kinds : List Bytes
  allSyncRuns : Bool

def timelineLabActions : List Bytes :=
  ["connector.create", "connector.update", "connector.delete", "connector.toggle_enabled",
    "connector.sync", "connector.sync_all", "connector.restart", "connector.start",
    "connector.stop", "connector.configPush", "connector.action", "backup.import",
    "runbook.run.step_resent", "runbook.run.step_marked_done",
    "connector.maintenanceWindow.open", "connector.maintenanceWindow.close",
    "connector.bulk_sync", "connector.bulk_reauth", "connector.bulk_restart",
    "change.ack", "change.dismiss", "change.bulk_ack", "change.bulk_dismiss",
    "alert.resolve", "alert.dismiss", "alert.snooze",
    "doc.restore", "doc.edit_proposed", "doc.edit_approved", "doc.edit_rejected",
    "runbook.create", "runbook.update", "runbook.delete"].map bytes

/-- The user holds a role on the connector that shows its rows. -/
def holdsRole (t : Tables) (userID connectorID : Bytes) : Bool :=
  t.grants.any fun g => g.connectorId == connectorID && g.userId == userID &&
    timelineRoles.contains g.role

/-- **`timelineScope`**: the rows of a connector, and with `labWide` those of none. -/
def timelineScope (t : Tables) (c : Caller) (userID : Bytes) (labWide : Bool) (column : Bytes) :
    Bool :=
  ((labWide && column == []) || (column != [] && holdsRole t userID column)) && c.passes column

/-- **`timelineAuditScope`**: all connectors of the entry are in the scope; only an instance admin
reads entries without any, and those of connectors that are gone. -/
def timelineAuditScope (t : Tables) (c : Caller) (f : TimelineFilter) (a : AuditRow) : Bool :=
  let admin := f.admin && c.instanceAdmin
  let ids := c.keyConnectors
  (admin || a.connectorIDs != []) && (ids.isEmpty || !admin || a.connectorIDs != []) &&
    !a.connectorIDs.any fun sc =>
      (!(admin && ids.isEmpty) || t.connectors.contains sc) &&
        (!holdsRole t f.userID sc || (!ids.isEmpty && !ids.contains sc))

/-- The connector of an audited action: the one that is asked for, or the only one. -/
def auditConnector (f : TimelineFilter) (a : AuditRow) : Bytes :=
  if f.connectorID ≠ [] then if a.connectorIDs.contains f.connectorID then f.connectorID else []
  else match a.connectorIDs with
    | [sc] => sc
    | _ => []

/-- The doc of an audited action; members get it while it is live and in the entry's scope. -/
def auditDoc (t : Tables) (admin : Bool) (a : AuditRow) : Bytes :=
  if a.targetType = bytes "doc" ∧ (admin = true ∨ ∃ d ∈ t.docs, d.id = a.targetID ∧
    d.deleted = false ∧ d.serviceID ≠ [] ∧ d.serviceID ∈ a.connectorIDs) then a.targetID else []

def changeItem (c : ChangeRow) : TimelineItem :=
  ⟨c.id, bytes "change", timelineTimestamp c.detectedAt, c.summary, [], c.serviceID, [], [],
    [], [], [], c.status⟩

def syncItem (r : SyncRunRow) : TimelineItem :=
  ⟨r.id, bytes "sync", timelineTimestamp r.startedAt, r.status, r.error, r.connectorID, [], [],
    [], [], [], r.status⟩

def alertItem (a : AlertRow) : TimelineItem :=
  ⟨a.id, bytes "alert", timelineTimestamp a.createdAt, a.title, a.description, a.serviceID, [],
    [], [], [], [], a.status⟩

def docItem (v : DocVersionRow) (d : DocRow) : TimelineItem :=
  ⟨v.id, bytes "doc", timelineTimestamp v.createdAt, d.title, [], d.serviceID, d.id, v.author,
    [], [], [], v.trigger⟩

def journalItem (j : JournalRow) : TimelineItem :=
  ⟨j.id, bytes "journal", timelineTimestamp j.occurredAt, [], j.body, j.connectorID, j.docID,
    j.createdBy, j.entityKind, j.entityName, j.entityRef, []⟩

def auditItem (t : Tables) (admin : Bool) (f : TimelineFilter) (a : AuditRow) : TimelineItem :=
  ⟨a.id, bytes "audit", timelineTimestamp a.createdAt, a.action, [], auditConnector f a,
    auditDoc t admin a, a.actorUserID, [], [], [], a.targetType⟩

/-- Whether a sync run is told: by default only if something came of it. -/
def toldRun (f : TimelineFilter) (r : SyncRunRow) : Bool :=
  f.allSyncRuns || r.status == bytes "error" || decide (0 < r.changesCount) ||
    decide (0 < r.alertsCount)

/-- The live doc of a version, if the caller is told of it. -/
def toldDoc (t : Tables) (c : Caller) (f : TimelineFilter) (v : DocVersionRow) : Option DocRow :=
  (t.docs.find? fun d => d.id == v.docID).filter fun d =>
    !d.deleted && (f.admin || d.serviceID != [] || d.human) &&
      timelineScope t c f.userID true d.serviceID

/-- **`timelineUnion`**: the rows of all sources in the caller's scope. -/
def timelineUnion (t : Tables) (c : Caller) (f : TimelineFilter) : List TimelineItem :=
  (t.changes.filter fun r => timelineScope t c f.userID false r.serviceID).map changeItem ++
  ((t.syncRuns.filter fun r => toldRun f r && timelineScope t c f.userID false r.connectorID).map
    syncItem ++
  ((t.alerts.filter fun r => timelineScope t c f.userID false r.serviceID).map alertItem ++
  (t.docVersions.filterMap (fun v => (toldDoc t c f v).map (docItem v)) ++
  ((t.journal.filter fun r => timelineScope t c f.userID true r.connectorID).map journalItem ++
  (t.audit.filter fun a => timelineLabActions.contains a.action && timelineAuditScope t c f a).map
    (auditItem t (f.admin && c.instanceAdmin) f)))))

/-- The conditions of `ListTimeline` on the rows of all sources. -/
def selected (f : TimelineFilter) (it : TimelineItem) : Bool :=
  (f.connectorID == [] || it.connectorID == f.connectorID) &&
    (f.after == [] || decide (f.after ≤ it.timestamp)) &&
    (f.before == [] || decide (it.timestamp ≤ f.before)) &&
    (f.kinds.isEmpty || f.kinds.contains it.kind)

def timelineRows (t : Tables) (c : Caller) (f : TimelineFilter) : List TimelineItem :=
  (timelineUnion t c f).filter (selected f)

def TimelineItem.cursor (it : TimelineItem) : TimelineCursor := ⟨it.timestamp, it.kind, it.id⟩

/-- `(timestamp, kind, id) < (?, ?, ?)`, texts by their bytes. -/
def TimelineCursor.Less (a b : TimelineCursor) : Prop :=
  a.timestamp < b.timestamp ∨ a.timestamp = b.timestamp ∧
    (a.kind < b.kind ∨ a.kind = b.kind ∧ a.id < b.id)

instance : DecidableRel TimelineCursor.Less := fun _ _ => inferInstanceAs (Decidable (_ ∨ _))

/-- **`ListTimeline`**: a page, the number of all rows, and whether there is more. -/
def listTimeline (t : Tables) (c : Caller) (f : TimelineFilter) (cursor : Option TimelineCursor)
    (limit : ℕ) : List TimelineItem × ℕ × Bool :=
  let rows := timelineRows t c f
  let (items, more) := Keyset.page TimelineCursor.Less TimelineItem.cursor rows cursor limit
  (items, rows.length, more)

/-! ### Requests -/

def sourceKinds : List Bytes := ["change", "sync", "alert", "doc", "journal", "audit"].map bytes

/-- **`normalizedTime`.** -/
def normalizedTime (raw : Bytes) : Option Bytes :=
  if raw = [] then some [] else (parseTime raw).map timestamp

/-- The parameters of a request that select rows. -/
structure Query where
  connectorID : Bytes
  allSyncRuns : Bytes
  after : Bytes
  before : Bytes
  kinds : Bytes

/-- **`parseFilter`**; an invalid parameter is refused. -/
def parseFilter (c : Caller) (q : Query) : Option TimelineFilter := do
  let after ← normalizedTime q.after
  let before ← normalizedTime q.before
  if after ≠ [] ∧ before ≠ [] ∧ before < after then none
  else
    let kinds := if q.kinds = [] then [] else q.kinds.splitOn 44
    if kinds.all sourceKinds.contains then
      some ⟨c.userId, c.instanceAdmin, q.connectorID, after, before, kinds,
        q.allSyncRuns == bytes "true"⟩
    else none

/-- `EncodeCursor` of the last row of a page; the Base64 around it is left out. -/
def encodeCursor (k : TimelineCursor) : Bytes := k.timestamp ++ 0 :: (k.kind ++ 58 :: k.id)

/-- **`DecodeCursor`.** -/
def decodeCursor (raw : Bytes) : Option (Bytes × Bytes) :=
  match cut 0 raw with
  | (sortKey, some id) => if sortKey = [] ∨ id = [] then none else some (sortKey, id)
  | (_, none) => none

/-- The position that a cursor names, if it is one that the server has issued. -/
def readCursor (raw : Bytes) : Option TimelineCursor :=
  match decodeCursor raw with
  | none => none
  | some (ts, key) =>
      match cut 58 key with
      | (kind, some id) =>
          if normalizedTime ts = some ts ∧ id ≠ [] ∧ kind ∈ sourceKinds then some ⟨ts, kind, id⟩
          else none
      | (_, none) => none

/-- The position of a request; without a cursor it is the start. -/
def positionOf (cursor : Bytes) : Option (Option TimelineCursor) :=
  if cursor = [] then some none else (readCursor cursor).map some

structure Answer where
  items : List TimelineItem
  total : ℕ
  nextCursor : Bytes

/-- **`List`**: a request for one page; `none` is a refusal. -/
def list (t : Tables) (c : Caller) (q : Query) (size : ℕ) (cursor : Bytes) : Option Answer := do
  let f ← parseFilter c q
  let position ← positionOf cursor
  let (items, total, more) := listTimeline t c f position size
  some ⟨items, total,
    if more then items.getLast?.elim [] fun last => encodeCursor last.cursor else []⟩

/-- **A client that follows the cursors**: each request finds the tables and the caller as they are
by then.  It is told whether it came to an end; `none` is a refusal. -/
def browse (q : Query) (size : ℕ) : Bytes → List (Tables × Caller) →
    Option (List TimelineItem × Bool)
  | _, [] => some ([], false)
  | cursor, (t, c) :: later => do
      let answer ← list t c q size cursor
      if answer.nextCursor = [] then some (answer.items, true)
      else
        let (rest, ended) ← browse q size answer.nextCursor later
        some (answer.items ++ rest, ended)

/-- The rows that a request selects. -/
def rowsOf (q : Query) (request : Tables × Caller) : List TimelineItem :=
  (parseFilter request.2 q).elim [] (timelineRows request.1 request.2)

/-! ### The keys of the rows -/

instance : IsStrictTotalOrder TimelineCursor TimelineCursor.Less where
  trichotomous a b hab hba := by
    have htotal : ∀ s s' : Bytes, ¬ s < s' → ¬ s' < s → s = s' := fun s s' h h' =>
      List.le_antisymm h' h
    simp only [TimelineCursor.Less, not_or, not_and] at hab hba
    have htimestamp := htotal _ _ hab.1 hba.1
    have hab' := hab.2 htimestamp
    have hba' := hba.2 htimestamp.symm
    have hkind := htotal _ _ hab'.1 hba'.1
    have hid := htotal _ _ (hab'.2 hkind) (hba'.2 hkind.symm)
    cases a
    cases b
    exact TimelineCursor.mk.injEq .. ▸ ⟨htimestamp, hkind, hid⟩
  irrefl a h := by
    rcases h with h | ⟨-, h | ⟨-, h⟩⟩ <;> exact List.lt_irrefl _ h
  trans a b c hab hbc := by
    rcases hab with hab | ⟨hab, hab'⟩
    · rcases hbc with hbc | ⟨hbc, -⟩
      · exact .inl (List.lt_trans hab hbc)
      · exact .inl (hbc ▸ hab)
    rcases hbc with hbc | ⟨hbc, hbc'⟩
    · exact .inl (hab ▸ hbc)
    refine .inr ⟨hab.trans hbc, ?_⟩
    rcases hab' with hab' | ⟨hab', hab''⟩
    · rcases hbc' with hbc' | ⟨hbc', -⟩
      · exact .inl (List.lt_trans hab' hbc')
      · exact .inl (hbc' ▸ hab')
    rcases hbc' with hbc' | ⟨hbc', hbc''⟩
    · exact .inl (hab' ▸ hbc')
    · exact .inr ⟨hab'.trans hbc', List.lt_trans hab'' hbc''⟩

/-- Rows of some kinds, with distinct keys that a cursor can name. -/
structure Keyed (kinds : List Bytes) (items : List TimelineItem) : Prop where
  kinds : ∀ it ∈ items, it.kind ∈ kinds
  ids : ∀ it ∈ items, it.id ≠ []
  times : ∀ it ∈ items, ∃ i < endOfYears, it.timestamp = timestamp i
  distinct : (items.map TimelineItem.cursor).Nodup

theorem Keyed.append {kinds kinds' : List Bytes} {items items' : List TimelineItem}
    (h : Keyed kinds items) (h' : Keyed kinds' items') (hkinds : ∀ k ∈ kinds, k ∉ kinds') :
    Keyed (kinds ++ kinds') (items ++ items') where
  kinds it hit := by
    rcases List.mem_append.1 hit with hit | hit
    · exact List.mem_append_left _ (h.kinds it hit)
    · exact List.mem_append_right _ (h'.kinds it hit)
  ids it hit := (List.mem_append.1 hit).elim (h.ids it) (h'.ids it)
  times it hit := (List.mem_append.1 hit).elim (h.times it) (h'.times it)
  distinct := by
    rw [List.map_append]
    refine List.nodup_append.2 ⟨h.distinct, h'.distinct, fun k hk k' hk' heq => ?_⟩
    obtain ⟨it, hit, rfl⟩ := List.mem_map.1 hk
    obtain ⟨it', hit', rfl⟩ := List.mem_map.1 hk'
    have hkind : it.kind = it'.kind := congrArg TimelineCursor.kind heq
    exact hkinds _ (h.kinds it hit) (hkind ▸ h'.kinds it' hit')

theorem Keyed.filter {kinds : List Bytes} {items : List TimelineItem} (h : Keyed kinds items)
    (p : TimelineItem → Bool) : Keyed kinds (items.filter p) where
  kinds it hit := h.kinds it (List.mem_filter.1 hit).1
  ids it hit := h.ids it (List.mem_filter.1 hit).1
  times it hit := h.times it (List.mem_filter.1 hit).1
  distinct := h.distinct.sublist (List.filter_sublist.map _)

/-- One source: each row is told once at most, under its own key. -/
theorem keyed_filterMap {β : Type} {rows : List β} {kind : Bytes} {id : β → Bytes}
    {item : β → Option TimelineItem} {time : β → Bytes} (hids : (rows.map id).Nodup)
    (hnamed : ∀ r ∈ rows, id r ≠ []) (htimes : ∀ r ∈ rows, StoredTime (time r))
    (hitem : ∀ r, ∀ it ∈ item r, it.kind = kind ∧ it.id = id r ∧
      it.timestamp = timelineTimestamp (time r)) :
    Keyed [kind] (rows.filterMap item) where
  kinds it hit := by
    obtain ⟨r, -, hr⟩ := List.mem_filterMap.1 hit
    exact List.mem_singleton.2 (hitem r it hr).1
  ids it hit := by
    obtain ⟨r, hmem, hr⟩ := List.mem_filterMap.1 hit
    exact (hitem r it hr).2.1 ▸ hnamed r hmem
  times it hit := by
    obtain ⟨r, hmem, hr⟩ := List.mem_filterMap.1 hit
    obtain ⟨stored, htext⟩ := htimes r hmem
    refine ⟨stored.instant, stored.inYears, (hitem r it hr).2.2.trans ?_⟩
    rw [← htext, timelineTimestamp_timeText]
  distinct := by
    have hsub : ((rows.filterMap item).map TimelineItem.id).Sublist (rows.map id) := by
      clear hids hnamed htimes
      induction rows with
      | nil => exact List.Sublist.slnil
      | cons r rows ih =>
          rw [List.filterMap_cons, List.map_cons]
          cases hr : item r with
          | none => exact ih.cons _
          | some it => exact (hitem r it hr).2.1 ▸ ih.cons_cons it.id
    refine List.Nodup.of_map TimelineCursor.id ?_
    rw [List.map_map]
    exact hids.sublist hsub

theorem keyed_filter_map {β : Type} {rows : List β} {kind : Bytes} {id : β → Bytes}
    {item : β → TimelineItem} {time : β → Bytes} (p : β → Bool) (hids : (rows.map id).Nodup)
    (hnamed : ∀ r ∈ rows, id r ≠ []) (htimes : ∀ r ∈ rows, StoredTime (time r))
    (hitem : ∀ r, (item r).kind = kind ∧ (item r).id = id r ∧
      (item r).timestamp = timelineTimestamp (time r)) :
    Keyed [kind] ((rows.filter p).map item) := by
  have heq : (rows.filter p).map item =
      rows.filterMap fun r => if p r = true then some (item r) else none := by
    induction rows with
    | nil => rfl
    | cons r rows ih =>
        have ih := ih (List.nodup_cons.1 hids).2 (fun r hr => hnamed r (List.mem_cons_of_mem _ hr))
          fun r hr => htimes r (List.mem_cons_of_mem _ hr)
        rw [List.filter_cons, List.filterMap_cons]
        cases hp : p r <;> simp [ih]
  rw [heq]
  refine keyed_filterMap hids hnamed htimes fun r it hit => ?_
  by_cases hp : p r = true
  · rw [if_pos hp] at hit
    exact Option.some.inj hit ▸ hitem r
  · rw [if_neg hp] at hit
    cases hit

/-- **The rows of all sources have distinct keys.** -/
theorem keyed_timelineUnion {t : Tables} (ht : t.Timed) (c : Caller) (f : TimelineFilter) :
    Keyed sourceKinds (timelineUnion t c f) := by
  have hnamed := t.named
  simp only [List.mem_append, List.mem_map, or_imp, forall_and, forall_exists_index, and_imp,
    forall_apply_eq_imp_iff₂] at hnamed
  obtain ⟨⟨⟨⟨⟨hchange, hsync⟩, halert⟩, hdoc⟩, hjournal⟩, haudit⟩ := hnamed
  have h₁ : Keyed [bytes "change"] _ := keyed_filter_map
    (fun r => timelineScope t c f.userID false r.serviceID) t.changeIDs hchange ht.changes fun r =>
      (⟨rfl, rfl, rfl⟩ : (changeItem r).kind = _ ∧ _ ∧ _)
  have h₂ : Keyed [bytes "sync"] _ := keyed_filter_map
    (fun r => toldRun f r && timelineScope t c f.userID false r.connectorID) t.syncRunIDs hsync
      ht.syncRuns fun r => (⟨rfl, rfl, rfl⟩ : (syncItem r).kind = _ ∧ _ ∧ _)
  have h₃ : Keyed [bytes "alert"] _ := keyed_filter_map
    (fun r => timelineScope t c f.userID false r.serviceID) t.alertIDs halert ht.alerts fun r =>
      (⟨rfl, rfl, rfl⟩ : (alertItem r).kind = _ ∧ _ ∧ _)
  have h₄ : Keyed [bytes "doc"] (t.docVersions.filterMap fun v =>
      (toldDoc t c f v).map (docItem v)) :=
    keyed_filterMap t.docVersionIDs hdoc ht.docVersions fun v it hit => by
      obtain ⟨d, -, rfl⟩ := Option.map_eq_some_iff.1 hit
      exact ⟨rfl, rfl, rfl⟩
  have h₅ : Keyed [bytes "journal"] _ := keyed_filter_map
    (fun r => timelineScope t c f.userID true r.connectorID) t.journalIDs hjournal ht.journal fun r =>
      (⟨rfl, rfl, rfl⟩ : (journalItem r).kind = _ ∧ _ ∧ _)
  have h₆ : Keyed [bytes "audit"] _ := keyed_filter_map
    (fun a => timelineLabActions.contains a.action && timelineAuditScope t c f a) t.auditIDs haudit
      ht.audit fun r => (⟨rfl, rfl, rfl⟩ :
        (auditItem t (f.admin && c.instanceAdmin) f r).kind = _ ∧ _ ∧ _)
  exact h₁.append (h₂.append (h₃.append (h₄.append (h₅.append h₆ (by decide)) (by decide))
    (by decide)) (by decide)) (by decide)

theorem keyed_rowsOf (q : Query) {r : Tables × Caller} (ht : r.1.Timed) :
    Keyed sourceKinds (rowsOf q r) := by
  rw [rowsOf]
  cases parseFilter r.2 q with
  | none => exact ⟨by simp, by simp, by simp, .nil⟩
  | some f => exact (keyed_timelineUnion ht r.2 f).filter _

/-! ### Cursors -/

theorem lt_of_mem_timestamp {i : ℕ} (h : i < endOfYears) : (0 : UInt8) ∉ timestamp i := by
  have hdigits : ∀ {width n : ℕ}, (0 : UInt8) ∉ digits width n := fun hmem =>
    absurd (lt_of_mem_digits hmem) (by decide)
  have hyear : yearOf (i / nsPerDay) < 10000 :=
    yearOf_lt_iff.2 (Nat.div_lt_of_lt_mul (by rwa [Nat.mul_comm]))
  simp [timestamp, dateText, monthDayText, yearText, clockText, minuteText, secondText, hyear,
    hdigits, bytes]

/-- **The server takes the cursors that it issues**, for the positions that they name. -/
theorem readCursor_encodeCursor {kinds : List Bytes} {items : List TimelineItem}
    (h : Keyed kinds items) (hkinds : ∀ k ∈ kinds, k ∈ sourceKinds) {it : TimelineItem}
    (hit : it ∈ items) : readCursor (encodeCursor it.cursor) = some it.cursor := by
  obtain ⟨i, hi, htime⟩ := h.times it hit
  have hkind := hkinds _ (h.kinds it hit)
  have hid := h.ids it hit
  have hne : it.timestamp ≠ [] := by
    rw [htime]
    exact List.ne_nil_of_length_pos (by rw [ordered_timestamp.length i hi]; decide)
  have hcolon : (58 : UInt8) ∉ it.kind := by
    have hall : ∀ k ∈ sourceKinds, (58 : UInt8) ∉ k := by decide
    exact hall _ hkind
  have hzero : (0 : UInt8) ∉ it.timestamp := htime ▸ lt_of_mem_timestamp hi
  have hdecode : decodeCursor (encodeCursor it.cursor) =
      some (it.timestamp, it.kind ++ 58 :: it.id) := by
    have hcut : cut 0 (encodeCursor it.cursor) = (it.timestamp, some (it.kind ++ 58 :: it.id)) :=
      cut_append _ hzero
    rw [decodeCursor, hcut]
    exact if_neg (by simp [hne])
  have hnormal : normalizedTime it.timestamp = some it.timestamp := by
    rw [normalizedTime, if_neg hne, htime, parseTime_timestamp hi]
    rfl
  rw [readCursor, hdecode]
  dsimp only
  rw [cut_append _ hcolon]
  exact if_pos ⟨hnormal, hid, hkind⟩

theorem encodeCursor_ne_nil (k : TimelineCursor) : encodeCursor k ≠ [] := by
  simp [encodeCursor]

/-! ### Following the cursors -/

/-- One request. -/
theorem list_eq {r : Tables × Caller} {q : Query} {size : ℕ} {cursor : Bytes}
    {position : Option TimelineCursor} (hq : (parseFilter r.2 q).isSome = true)
    (hcursor : positionOf cursor = some position) :
    ∃ total, list r.1 r.2 q size cursor = some
      ⟨(Keyset.page TimelineCursor.Less TimelineItem.cursor (rowsOf q r) position size).1, total,
        if (Keyset.page TimelineCursor.Less TimelineItem.cursor (rowsOf q r) position size).2 then
          (Keyset.page TimelineCursor.Less TimelineItem.cursor (rowsOf q r) position
            size).1.getLast?.elim [] fun last => encodeCursor last.cursor
        else []⟩ := by
  obtain ⟨f, hf⟩ := Option.isSome_iff_exists.1 hq
  refine ⟨(timelineRows r.1 r.2 f).length, ?_⟩
  simp only [list, hf, rowsOf, Option.elim_some, Option.bind_eq_bind, Option.bind_some, hcursor,
    listTimeline]
  rfl

/-- **What a client is told that follows the cursors** is what the positions lead to. -/
theorem browse_eq {q : Query} {size : ℕ} {requests : List (Tables × Caller)} (hsize : 0 < size)
    (hq : ∀ r ∈ requests, (parseFilter r.2 q).isSome = true) (ht : ∀ r ∈ requests, r.1.Timed)
    {cursor : Bytes}
    {position : Option TimelineCursor} (hcursor : positionOf cursor = some position) :
    browse q size cursor requests = some (Keyset.follow TimelineCursor.Less TimelineItem.cursor size
      position (requests.map (rowsOf q))) := by
  induction requests generalizing cursor position with
  | nil => rfl
  | cons r later ih =>
      obtain ⟨hr, hlater⟩ := List.forall_mem_cons.1 hq
      obtain ⟨htr, htlater⟩ := List.forall_mem_cons.1 ht
      obtain ⟨total, hlist⟩ : ∃ total, list r.1 r.2 q size cursor = some ⟨_, total, _⟩ :=
        list_eq hr hcursor
      have hkeyed := keyed_rowsOf q htr
      rw [List.map_cons, Keyset.follow, browse, hlist]
      simp only [Option.bind_eq_bind, Option.bind_some, Keyset.page_eq]
      by_cases hmore :
        size < (Keyset.found TimelineCursor.Less TimelineItem.cursor (rowsOf q r) position).length
      · obtain ⟨init, last, hlast, -, -⟩ := Keyset.page_last hsize hkeyed.distinct hmore
        have hmem : last ∈ rowsOf q r := (Keyset.mem_found.1 (List.mem_of_mem_take
          (hlast ▸ List.mem_append_right init (List.mem_singleton_self last)))).1
        have hread := readCursor_encodeCursor hkeyed (fun _ hk => hk) hmem
        have hne := encodeCursor_ne_nil last.cursor
        have hnext : positionOf (encodeCursor last.cursor) = some (some last.cursor) := by
          rw [positionOf, if_neg hne, hread]
          rfl
        simp only [hlast, decide_eq_true hmore, if_true, List.getLast?_append_cons,
          List.getLast?_singleton, Option.elim_some, Option.map_some, if_neg hne,
          ih hlater htlater hnext, Option.bind_some]
      · simp only [decide_eq_false hmore, Bool.false_eq_true, if_false, if_true]

/-- **In order, nothing twice, and nothing missed**: a client that follows the cursors is never
refused, whatever is written between its requests in the layouts of times. -/
theorem browse_spec {q : Query} {size : ℕ} {requests : List (Tables × Caller)} (hsize : 0 < size)
    (hq : ∀ r ∈ requests, (parseFilter r.2 q).isSome = true) (ht : ∀ r ∈ requests, r.1.Timed) :
    ∃ items ended, browse q size [] requests = some (items, ended) ∧
      Keyset.Told TimelineCursor.Less TimelineItem.cursor none (requests.map (rowsOf q)) items
        ended := by
  refine ⟨_, _, browse_eq hsize hq ht (if_pos rfl), Keyset.follow_spec hsize ?_ none⟩
  intro rows hrows
  obtain ⟨r, hr, rfl⟩ := List.mem_map.1 hrows
  exact (keyed_rowsOf q (ht r hr)).distinct

-- a stored time with an offset is no time in the cursor that names it
example : normalizedTime (timelineTimestamp (bytes "2026-01-01T12:00:00.5+05:00")) = none := by
  decide

/-- **It comes to an end**: over tables that stay, a client is told exactly the rows that its
request selects. -/
theorem browse_ends {q : Query} {size n : ℕ} {r : Tables × Caller} (hsize : 0 < size)
    (hq : (parseFilter r.2 q).isSome = true) (ht : r.1.Timed) (hn : 0 < n)
    (hpages : (rowsOf q r).length ≤ size * n) :
    ∃ items, browse q size [] (List.replicate n r) = some (items, true) ∧
      items.Perm (rowsOf q r) ∧
      items.Pairwise fun a b => b.cursor.Less a.cursor := by
  have hkeys := (keyed_rowsOf q ht).distinct
  have hperm : (Keyset.found TimelineCursor.Less TimelineItem.cursor (rowsOf q r) none).Perm
      (rowsOf q r) := by
    have hall : (rowsOf q r).filter (Keyset.behind TimelineCursor.Less TimelineItem.cursor none) =
        rowsOf q r := List.filter_eq_self.2 fun _ _ => rfl
    rw [Keyset.found, hall]
    exact List.perm_insertionSort _ _
  refine ⟨_, ?_, hperm, Keyset.found_sorted hkeys none⟩
  rw [browse_eq hsize (fun r' hr' => (List.mem_replicate.1 hr').2 ▸ hq)
    (fun r' hr' => (List.mem_replicate.1 hr').2 ▸ ht) (if_pos rfl),
    List.map_replicate, Keyset.follow_ends hsize hkeys hn (hperm.length_eq ▸ hpages)]

/-! ### Restricted keys -/

/-- The owner of a key without the key, and with a key that is restricted to connectors. -/
def withKey (c : Caller) (ids : List Bytes) : Caller := { c with keyConnectors := ids }

section Restricted

variable {t : Tables} {c : Caller} {ids : List Bytes} {f : TimelineFilter}

/-- What the request of an unrestricted owner selects with the same parameters. -/
def TimelineFilter.owner (f : TimelineFilter) (c : Caller) : TimelineFilter :=
  { f with admin := c.admin }

theorem timelineScope_withKey (hids : ids ≠ []) {labWide : Bool} {column : Bytes}
    (h : timelineScope t (withKey c ids) f.userID labWide column = true) :
    column ∈ ids ∧ timelineScope t (withKey c []) f.userID labWide column = true := by
  simp only [timelineScope, Caller.passes, withKey, Bool.and_eq_true, Bool.or_eq_true,
    List.isEmpty_iff, hids, false_or, List.contains_iff_mem] at h ⊢
  exact ⟨h.2.2, h.1, .inl trivial⟩

/-- What a restricted key is shown of the audited actions. -/
theorem timelineAuditScope_restricted {c : Caller} (hids : c.keyConnectors ≠ []) {a : AuditRow} :
    timelineAuditScope t c f a = true ↔ a.connectorIDs ≠ [] ∧
      ∀ sc ∈ a.connectorIDs, holdsRole t f.userID sc = true ∧ sc ∈ c.keyConnectors := by
  have hempty : c.keyConnectors.isEmpty = false := by simpa using hids
  simp [timelineAuditScope, Caller.instanceAdmin, hempty]

/-- What nobody who holds roles on all connectors of the action is denied. -/
theorem timelineAuditScope_of_roles {c : Caller} (hnone : c.keyConnectors = []) {a : AuditRow}
    (hscope : a.connectorIDs ≠ [])
    (hroles : ∀ sc ∈ a.connectorIDs, holdsRole t f.userID sc = true) :
    timelineAuditScope t c f a = true := by
  have hany : (a.connectorIDs.any fun sc =>
      (!(f.admin && c.instanceAdmin && true) || t.connectors.contains sc) &&
        (!holdsRole t f.userID sc || (!true && !c.keyConnectors.contains sc))) = false := by
    refine List.any_eq_false.2 fun sc hsc => ?_
    simp [hroles sc hsc]
  have hempty : c.keyConnectors.isEmpty = true := by simp [hnone]
  rw [timelineAuditScope, hempty, hany]
  simp [hscope]

/-- What a doc tells a restricted key, it tells its owner. -/
theorem toldDoc_withKey (hids : ids ≠ []) {v : DocVersionRow} {d : DocRow}
    (hadmin : f.admin = false) (h : toldDoc t (withKey c ids) f v = some d) :
    d.serviceID ∈ ids ∧ toldDoc t (withKey c []) (f.owner c) v = some d := by
  obtain ⟨hfind, hshown⟩ := Option.filter_eq_some_iff.1 h
  simp only [Bool.and_eq_true, hadmin, Bool.false_or] at hshown
  obtain ⟨hmem, hscope⟩ := timelineScope_withKey hids hshown.2
  refine ⟨hmem, Option.filter_eq_some_iff.2 ⟨hfind, ?_⟩⟩
  simp only [Bool.and_eq_true, TimelineFilter.owner, hscope, hshown.1.1, true_and, and_true]
  rw [Bool.or_assoc, hshown.1.2, Bool.or_true]

/-- **What a restricted key is shown, its owner is shown**, and it is of the key's connectors. -/
theorem mem_timelineUnion_withKey (hids : ids ≠ []) (hadmin : f.admin = false) {it : TimelineItem}
    (h : it ∈ timelineUnion t (withKey c ids) f) :
    (∃ it' ∈ timelineUnion t (withKey c []) (f.owner c),
      it'.cursor = it.cursor ∧ it'.connectorID = it.connectorID) ∧
      (it.connectorID ∈ ids ∨ it.kind = bytes "audit" ∧ ∃ a ∈ t.audit, a.id = it.id ∧
        a.connectorIDs ≠ [] ∧ ∀ sc ∈ a.connectorIDs, sc ∈ ids) := by
  simp only [timelineUnion, List.mem_append, List.mem_map, List.mem_filter, List.mem_filterMap,
    Option.map_eq_some_iff, Bool.and_eq_true] at h ⊢
  rcases h with ⟨r, ⟨hr, hscope⟩, rfl⟩ | ⟨r, ⟨hr, htold, hscope⟩, rfl⟩ | ⟨r, ⟨hr, hscope⟩, rfl⟩ |
    ⟨v, hv, d, hd, rfl⟩ | ⟨r, ⟨hr, hscope⟩, rfl⟩ | ⟨a, ⟨ha, haction, hscope⟩, rfl⟩
  · obtain ⟨hmem, hscope⟩ := timelineScope_withKey hids hscope
    exact ⟨⟨_, .inl ⟨r, ⟨hr, hscope⟩, rfl⟩, rfl, rfl⟩, .inl hmem⟩
  · obtain ⟨hmem, hscope⟩ := timelineScope_withKey hids hscope
    exact ⟨⟨_, .inr (.inl ⟨r, ⟨hr, htold, hscope⟩, rfl⟩), rfl, rfl⟩, .inl hmem⟩
  · obtain ⟨hmem, hscope⟩ := timelineScope_withKey hids hscope
    exact ⟨⟨_, .inr (.inr (.inl ⟨r, ⟨hr, hscope⟩, rfl⟩)), rfl, rfl⟩, .inl hmem⟩
  · obtain ⟨hmem, hd⟩ := toldDoc_withKey hids hadmin hd
    exact ⟨⟨_, .inr (.inr (.inr (.inl ⟨v, hv, d, hd, rfl⟩))), rfl, rfl⟩, .inl hmem⟩
  · obtain ⟨hmem, hscope⟩ := timelineScope_withKey hids hscope
    exact ⟨⟨_, .inr (.inr (.inr (.inr (.inl ⟨r, ⟨hr, hscope⟩, rfl⟩)))), rfl, rfl⟩, .inl hmem⟩
  · obtain ⟨hne, hall⟩ := (timelineAuditScope_restricted hids).1 hscope
    have howner : timelineAuditScope t (withKey c []) (f.owner c) a = true :=
      timelineAuditScope_of_roles rfl hne fun sc hsc => (hall sc hsc).1
    exact ⟨⟨_, .inr (.inr (.inr (.inr (.inr ⟨a, ⟨ha, haction, howner⟩, rfl⟩)))), rfl, rfl⟩,
      .inr ⟨rfl, a, ha, rfl, hne, fun sc hsc => (hall sc hsc).2⟩⟩

/-- The same parameters select the same for the owner. -/
theorem parseFilter_withKey {q : Query} (hids : ids ≠ [])
    (h : parseFilter (withKey c ids) q = some f) :
    f.admin = false ∧ parseFilter (withKey c []) q = some (f.owner c) := by
  have hkey : (withKey c ids).instanceAdmin = false := by
    have hempty : ids.isEmpty = false := by simpa using hids
    simp [Caller.instanceAdmin, withKey, hempty]
  have hnone : (withKey c []).instanceAdmin = c.admin := Bool.and_true c.admin
  simp only [parseFilter, hkey, hnone, Option.bind_eq_bind, Option.bind_eq_some_iff] at h ⊢
  obtain ⟨after, hafter, before, hbefore, h⟩ := h
  generalize (if q.kinds = [] then [] else q.kinds.splitOn 44) = kinds at h ⊢
  by_cases hrange : after ≠ [] ∧ before ≠ [] ∧ before < after
  · rw [if_pos hrange] at h
    cases h
  rw [if_neg hrange] at h
  by_cases hkinds : kinds.all sourceKinds.contains = true
  · rw [if_pos hkinds] at h
    obtain rfl := Option.some.inj h
    refine ⟨rfl, after, hafter, before, hbefore, ?_⟩
    rw [if_neg hrange, if_pos hkinds]
    rfl
  · rw [if_neg hkinds] at h
    cases h

/-- **A restricted key sees what its owner sees, on its connectors only**: with the same parameters
each of its rows is one of its owner's, and is of one of its connectors, or an audited action all
of whose connectors are among them. -/
theorem restricted_sees {q : Query} (hids : ids ≠ []) {it : TimelineItem}
    (h : it ∈ rowsOf q (t, withKey c ids)) :
    (∃ it' ∈ rowsOf q (t, withKey c []), it'.cursor = it.cursor) ∧
      (it.connectorID ∈ ids ∨ it.kind = bytes "audit" ∧ ∃ a ∈ t.audit, a.id = it.id ∧
        a.connectorIDs ≠ [] ∧ ∀ sc ∈ a.connectorIDs, sc ∈ ids) := by
  cases hf : parseFilter (withKey c ids) q with
  | none => simp [rowsOf, hf] at h
  | some f =>
      obtain ⟨hadmin, howner⟩ := parseFilter_withKey hids hf
      simp only [rowsOf, hf, Option.elim_some, timelineRows, List.mem_filter] at h
      obtain ⟨⟨it', hit', hcursor, hconnector⟩, hshown⟩ :=
        mem_timelineUnion_withKey hids hadmin h.1
      refine ⟨⟨it', ?_, hcursor⟩, hshown⟩
      simp only [rowsOf, howner, Option.elim_some, timelineRows, List.mem_filter]
      refine ⟨hit', ?_⟩
      have htime : it'.timestamp = it.timestamp := congrArg TimelineCursor.timestamp hcursor
      have hkind : it'.kind = it.kind := congrArg TimelineCursor.kind hcursor
      rw [← h.2, selected, selected, htime, hkind, hconnector]
      rfl

end Restricted

/-! ### Two notes -/

def twoNotes : Tables where
  changes := []
  syncRuns := []
  alerts := []
  docs := []
  docVersions := []
  journal := [⟨[1], timestamp 0, [], [7], [], [], [], [], []⟩,
    ⟨[2], rfc3339Nano 5, [], [7], [], [], [], [], []⟩]
  audit := []
  connectors := [[7]]
  grants := [⟨[9], [7], bytes "viewer", []⟩]
  changeIDs := by decide
  syncRunIDs := by decide
  alertIDs := by decide
  docIDs := by decide
  docVersionIDs := by decide
  journalIDs := by decide
  auditIDs := by decide
  named := by decide

theorem twoNotes_timed : twoNotes.Timed where
  changes := nofun
  syncRuns := nofun
  alerts := nofun
  docVersions := nofun
  journal r hr := by
    rcases List.mem_cons.1 hr with rfl | hr
    · exact ⟨⟨timestamp 0, 0, by decide, .inr (.inr rfl)⟩, rfl⟩
    · rw [List.mem_singleton.1 hr]
      exact ⟨⟨rfc3339Nano 5, 5, by decide, .inr (.inl rfl)⟩, rfl⟩
  audit := nofun

def reader : Caller := ⟨[9], false, []⟩

/-- A request without parameters. -/
def everything : Query := ⟨[], [], [], [], []⟩

theorem browse_spec_two_notes :
    ∃ items ended, browse everything 1 [] [(twoNotes, reader), (twoNotes, reader)] =
      some (items, ended) ∧ items.Pairwise fun a b => b.cursor.Less a.cursor := by
  have hq : ∀ r ∈ [(twoNotes, reader), (twoNotes, reader)],
      (parseFilter r.2 everything).isSome = true := by
    intro r hr
    rcases List.mem_cons.1 hr with rfl | hr
    · rfl
    · rw [List.mem_singleton.1 hr]
      rfl
  have ht : ∀ r ∈ [(twoNotes, reader), (twoNotes, reader)], r.1.Timed := by
    intro r hr
    rcases List.mem_cons.1 hr with rfl | hr
    · exact twoNotes_timed
    · rw [List.mem_singleton.1 hr]
      exact twoNotes_timed
  obtain ⟨items, ended, hbrowse, htold⟩ := browse_spec (Nat.lt_succ_self 0) hq ht
  exact ⟨items, ended, hbrowse, htold.sorted⟩

theorem browse_ends_two_notes : ∃ items,
    browse everything 1 [] (List.replicate 2 (twoNotes, reader)) = some (items, true) ∧
      items.length = 2 := by
  have hcount : (rowsOf everything (twoNotes, reader)).length = 2 := by decide
  obtain ⟨items, hbrowse, hperm, -⟩ := browse_ends (r := (twoNotes, reader)) (q := everything)
    (n := 2) (Nat.lt_succ_self 0) rfl twoNotes_timed (by decide) (Nat.le_of_eq hcount)
  exact ⟨items, hbrowse, hperm.length_eq.trans hcount⟩

theorem restricted_sees_two_notes :
    ∃ it ∈ rowsOf everything (twoNotes, withKey reader [[7]]),
      ∃ it' ∈ rowsOf everything (twoNotes, withKey reader []), it'.cursor = it.cursor := by
  have hcount : 0 < (rowsOf everything (twoNotes, withKey reader [[7]])).length := by decide
  obtain ⟨it, hit⟩ := List.exists_mem_of_length_pos hcount
  exact ⟨it, hit, (restricted_sees (by decide) hit).1⟩

end WiseLabz.Timeline
