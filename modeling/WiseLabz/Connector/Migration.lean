/-
**The migration of the secrets of connectors.**

A secret is stored as it is, or encrypted in an older form, or in the form that is bound to its type
and field.  The migration reads the connectors page by page, in an order that does not say which of
two connectors of one time comes first, and rewrites every connector that has a secret in an older
form.  It may be stopped by an error, and run again.

Main definitions:

* `Migration.Table`, `Migration.Run` — the connectors, and what a run meets;
* `Migration.migrateConnectorSecrets` — **a run of the migration**;
* `Migration.Preserved` — every connector is read as before;
* `Migration.Ready` — every connector that has to be rewritten is read by the run, and can be.

Main results:

* `Migration.run_preserved` — **a run preserves the configurations**, wherever it stops;
* `Migration.migration_iff` — **when a run ends with every secret in the new form**;
* `Migration.tied_connector_left` — a connector of the same time as others may be left out.
-/

import WiseLabz.Lib.Joined
import WiseLabz.Lib.Split
import WiseLabz.Lib.Table
import WiseLabz.Connector.Config

set_option relaxedAutoImplicit false
set_option autoImplicit false

namespace WiseLabz.Migration

open Lib Connector

variable {ω K : Type}

/-! ### Connectors -/

/-- A row of `connectors`; `configData` is what its text decodes to. -/
structure ConnectorRecord (ω : Type) where
  id : Bytes
  type : Bytes
  configData : Option (Config ω)
  createdAt : ℕ

abbrev Table (ω : Type) := List (ConnectorRecord ω)

/-- The field holds a secret in an older form. -/
def fieldNeedsMigration (raw : Config ω) (f : SchemaField) : Bool :=
  isSecretFieldType f.type && raw.textAt f.key ≠ [] && !isV2 (raw.textAt f.key)

/-- `connectorSecretsNeedMigration` -/
def connectorSecretsNeedMigration (schemas : List (TypeSchema ω)) (type : Bytes)
    (data : Option (Config ω)) : Bool :=
  match getTypeSchema schemas type, data with
  | some s, some raw => s.fields.any (fieldNeedsMigration raw)
  | _, _ => false

/-- `ORDER BY created_at DESC`: the ids in an order that a query may return them in. -/
def ListOrder (rows : Table ω) (ids : List Bytes) : Prop :=
  ∃ sorted : Table ω, sorted.Perm rows ∧ (sorted.Pairwise fun r r' => r'.createdAt ≤ r.createdAt) ∧
    ids = sorted.map ConnectorRecord.id

/-! ### A run -/

/-- Encryption at one time: it may differ from that of another, but what decrypts does not.  What is
encrypted decrypts with no other additional data, and it is longer than the plaintext. -/
structure Sealing (cipher : Cipher K) where
  now : Cipher K
  decrypt_eq : now.decrypt = cipher.decrypt
  legacy_eq : now.decryptLegacy = cipher.decryptLegacy
  unbound : ∀ k aad aad' plaintext, aad' ≠ aad →
    cipher.decrypt k aad' (now.encrypt k aad plaintext) = none
  longer : ∀ k aad plaintext, plaintext.length < (now.encrypt k aad plaintext).length

/-- What a run meets: the order of each page query, the encryption of each connector, and the calls
of the store that fail. -/
structure Run (cipher : Cipher K) where
  order : ℕ → List Bytes
  sealing : Bytes → Sealing cipher
  listFails : ℕ → Bool
  updateFails : Bytes → Bool

section Code

variable {cipher : Cipher K} (schemas : List (TypeSchema ω)) (key : Option K) (run : Run cipher)

/-- `UpdateConnector`, of `config_data`. -/
def updateConnector (rows : Table ω) (id : Bytes) (data : Config ω) : Table ω :=
  rows.map fun r => if r.id = id then { r with configData := some data } else r

/-- The body of the loop over a page: the connectors, how many are rewritten, and whether the run
goes on. -/
def migrateRecord (rows : Table ω) (rec : ConnectorRecord ω) : Table ω × ℕ × Bool :=
  if connectorSecretsNeedMigration schemas rec.type rec.configData then
    match parseConnectorConfig cipher schemas key rec.type rec.configData with
    | none => (rows, 0, false)
    | some cfg =>
        match marshalConnectorConfig (run.sealing rec.id).now schemas key rec.type cfg with
        | none => (rows, 0, false)
        | some data =>
            if run.updateFails rec.id then (rows, 0, false)
            else (updateConnector rows rec.id data, 1, true)
  else (rows, 0, true)

def migratePage (rows : Table ω) : List (ConnectorRecord ω) → Table ω × ℕ × Bool
  | [] => (rows, 0, true)
  | rec :: recs =>
      match migrateRecord schemas key run rows rec with
      | (rows, n, false) => (rows, n, false)
      | (rows, n, true) =>
          let (rows, m, ok) := migratePage rows recs
          (rows, n + m, ok)

/-- `ListConnectors` -/
def listConnectors (rows : Table ω) (i size : ℕ) : List (ConnectorRecord ω) :=
  (((run.order i).drop (i * size)).take size).filterMap (lookup ConnectorRecord.id rows)

/-- `MigrateConnectorSecrets`, from a page on: the connectors, how many are rewritten, and whether
the run is complete. -/
def migrateFrom (size : ℕ) : ℕ → ℕ → Table ω → Table ω × ℕ × Bool
  | 0, _, rows => (rows, 0, false)
  | fuel + 1, i, rows =>
      if run.listFails i then (rows, 0, false)
      else
        let recs := listConnectors run rows i size
        match migratePage schemas key run rows recs with
        | (rows, n, false) => (rows, n, false)
        | (rows, n, true) =>
            if recs.length < size then (rows, n, true)
            else
              let (rows, m, ok) := migrateFrom size fuel (i + 1) rows
              (rows, n + m, ok)

/-- **`MigrateConnectorSecrets`**: a page that is not full is the last. -/
def migrateConnectorSecrets (size : ℕ) (rows : Table ω) : Table ω × ℕ × Bool :=
  migrateFrom schemas key run size (rows.length + 1) 0 rows

/-! ### What a run does to a connector -/

/-- A connector is left, or had a secret in an older form and is read as before from its new one. -/
def Rewritten (cipher : Cipher K) (r r' : ConnectorRecord ω) : Prop :=
  r' = r ∨
    r'.id = r.id ∧ r'.type = r.type ∧ r'.createdAt = r.createdAt ∧
      connectorSecretsNeedMigration schemas r.type r.configData = true ∧
      connectorSecretsNeedMigration schemas r'.type r'.configData = false ∧
      ∃ cfg, parseConnectorConfig cipher schemas key r.type r.configData = some cfg ∧
        parseConnectorConfig cipher schemas key r'.type r'.configData = some cfg

/-- **Every connector is left or rewritten.** -/
abbrev Preserved (cipher : Cipher K) (rows rows' : Table ω) : Prop :=
  List.Forall₂ (Rewritten schemas key cipher) rows rows'

variable {schemas key run}

theorem Rewritten.id_eq {r r' : ConnectorRecord ω} (h : Rewritten schemas key cipher r r') :
    r'.id = r.id := by
  rcases h with rfl | h
  · rfl
  · exact h.1

theorem Rewritten.trans {r r' r'' : ConnectorRecord ω} (h : Rewritten schemas key cipher r r')
    (h' : Rewritten schemas key cipher r' r'') : Rewritten schemas key cipher r r'' := by
  rcases h with rfl | h
  · exact h'
  · rcases h' with rfl | h'
    · exact .inr h
    · have hneeds := h.2.2.2.2.1.symm.trans h'.2.2.2.1
      cases hneeds

theorem Preserved.refl (rows : Table ω) : Preserved schemas key cipher rows rows :=
  List.forall₂_same.2 fun _ _ => .inl rfl

theorem Preserved.trans {rows rows' rows'' : Table ω} (h : Preserved schemas key cipher rows rows')
    (h' : Preserved schemas key cipher rows' rows'') :
    Preserved schemas key cipher rows rows'' := by
  induction h generalizing rows'' with
  | nil => exact h'
  | cons hr _ ih =>
      cases h' with
      | cons hr' hrest => exact .cons (hr.trans hr') (ih hrest)

theorem Preserved.ids {rows rows' : Table ω} (h : Preserved schemas key cipher rows rows') :
    rows'.map ConnectorRecord.id = rows.map ConnectorRecord.id := by
  induction h with
  | nil => rfl
  | cons hr _ ih => rw [List.map_cons, List.map_cons, hr.id_eq, ih]

theorem Preserved.nodup {rows rows' : Table ω} (h : Preserved schemas key cipher rows rows')
    (hrows : KeyNodup ConnectorRecord.id rows) : KeyNodup ConnectorRecord.id rows' := by
  rw [KeyNodup, h.ids]
  exact hrows

/-- A connector after a run comes from one before it. -/
theorem Preserved.exists_left {rows rows' : Table ω} (h : Preserved schemas key cipher rows rows')
    {r' : ConnectorRecord ω} (hr' : r' ∈ rows') :
    ∃ r ∈ rows, Rewritten schemas key cipher r r' := by
  induction h with
  | nil => cases hr'
  | cons hr _ ih =>
      rcases List.mem_cons.1 hr' with rfl | hr'
      · exact ⟨_, List.mem_cons_self, hr⟩
      · obtain ⟨r, hmem, hrw⟩ := ih hr'
        exact ⟨r, List.mem_cons_of_mem _ hmem, hrw⟩

theorem Preserved.exists_right {rows rows' : Table ω} (h : Preserved schemas key cipher rows rows')
    {r : ConnectorRecord ω} (hr : r ∈ rows) :
    ∃ r' ∈ rows', Rewritten schemas key cipher r r' := by
  induction h with
  | nil => cases hr
  | cons hr' _ ih =>
      rcases List.mem_cons.1 hr with rfl | hr
      · exact ⟨_, List.mem_cons_self, hr'⟩
      · obtain ⟨r', hmem, hrw⟩ := ih hr
        exact ⟨r', List.mem_cons_of_mem _ hmem, hrw⟩

/-- What is encrypted at any time is read again. -/
theorem parse_of_sealing (sealing : Sealing cipher) {type : Bytes} {cfg data : Config ω}
    (h : marshalConnectorConfig sealing.now schemas key type cfg = some data) :
    parseConnectorConfig cipher schemas key type (some data) = some cfg := by
  have hfield : ∀ f, decryptField (ω := ω) sealing.now key type f =
      decryptField cipher key type f := by
    intro f
    funext v
    simp only [decryptField.eq_def, decryptFor, sealing.decrypt_eq, sealing.legacy_eq]
  have hparse := parse_marshal h
  rw [parseConnectorConfig] at hparse ⊢
  rw [show decryptField (ω := ω) sealing.now key type = decryptField cipher key type from
    funext hfield] at hparse
  exact hparse

theorem isV2_encryptFor (cipher : Cipher K) (k : K) (aad plaintext : Bytes) :
    isV2 (encryptFor cipher k aad plaintext) = true := by
  rw [isV2, encryptFor, stripPrefix_eq_some.2 rfl]
  rfl

/-- No secret is in an older form after it was encrypted. -/
theorem needs_of_marshal {cipher : Cipher K} {type : Bytes} {cfg data : Config ω}
    (h : marshalConnectorConfig cipher schemas key type cfg = some data) :
    connectorSecretsNeedMigration schemas type (some data) = false := by
  rw [connectorSecretsNeedMigration.eq_def]
  rw [marshalConnectorConfig] at h
  split
  · next s raw hs hraw =>
      obtain rfl := Option.some.inj hraw
      rw [hs] at h
      dsimp only at h
      have hfields := ((rewrite_eq_some s.keys_nodup).1 h).1
      rw [List.any_eq_false]
      intro f hf hneeds
      have hf' := hfields f hf
      rw [fieldNeedsMigration, Bool.and_eq_true, Bool.and_eq_true, Bool.not_eq_true',
        decide_eq_true_iff, Config.textAt.eq_def] at hneeds
      obtain ⟨⟨hsecret, hne⟩, hold⟩ := hneeds
      rw [encryptField.eq_def] at hf'
      split at hf'
      · next plaintext hcfg =>
          split at hf'
          · next hempty =>
              rw [← Option.some.inj hf'] at hne
              rw [hsecret, Bool.not_true, Bool.false_or, decide_eq_true_iff] at hempty
              exact hne hempty
          · obtain ⟨k, -, hk⟩ := Option.map_eq_some_iff.1 hf'
            rw [← hk] at hold
            exact Bool.false_ne_true (hold.symm.trans (isV2_encryptFor cipher k _ _))
      · next hcfg =>
          rw [← Option.some.inj hf'] at hne
          split at hne
          · next plaintext heq => exact hcfg plaintext heq
          · exact hne rfl
  · rfl

/-- With a key every configuration can be encrypted. -/
theorem exists_marshal (cipher : Cipher K) (k : K) (type : Bytes) (cfg : Config ω) :
    ∃ data, marshalConnectorConfig cipher schemas (some k) type cfg = some data := by
  rw [marshalConnectorConfig]
  split
  · exact ⟨cfg, rfl⟩
  · next s hs =>
      have htotal : encryptField cipher (some k) type =
          fun f v => some ((encryptField (ω := ω) cipher (some k) type f v).getD none) := by
        funext f v
        rw [encryptField.eq_def]
        split
        · split <;> rfl
        · rfl
      rw [htotal, rewrite_some]
      exact ⟨_, rfl⟩

/-- A secret in an older form is not read without a key. -/
theorem exists_key {type : Bytes} {data : Option (Config ω)} {cfg : Config ω}
    (hneeds : connectorSecretsNeedMigration schemas type data = true)
    (h : parseConnectorConfig cipher schemas key type data = some cfg) : ∃ k, key = some k := by
  cases key with
  | some k => exact ⟨k, rfl⟩
  | none =>
      rw [connectorSecretsNeedMigration.eq_def] at hneeds
      split at hneeds
      · next s raw hs =>
          obtain ⟨raw', hraw', hfields, -⟩ := parse_spec hs h
          obtain rfl := Option.some.inj hraw'
          obtain ⟨f, hf, hfield⟩ := List.any_eq_true.1 hneeds
          rw [fieldNeedsMigration, Bool.and_eq_true, Bool.and_eq_true, decide_eq_true_iff,
            Config.textAt.eq_def] at hfield
          obtain ⟨⟨hsecret, hne⟩, -⟩ := hfield
          have hdec := hfields f hf
          split at hne
          · next text htext =>
              rw [htext, decryptField, if_neg (by simp [hsecret, hne])] at hdec
              cases hdec
          · exact absurd rfl hne
      · cases hneeds

/-! ### What a run does to the connectors -/

section Table

variable {rows rows' : Table ω} {n size : ℕ} {ok : Bool}

theorem updateConnector_preserved {rec : ConnectorRecord ω} {cfg data : Config ω}
    (hrows : KeyNodup ConnectorRecord.id rows) (hrec : rec ∈ rows)
    (hneeds : connectorSecretsNeedMigration schemas rec.type rec.configData = true)
    (hparse : parseConnectorConfig cipher schemas key rec.type rec.configData = some cfg)
    (hdata : marshalConnectorConfig (run.sealing rec.id).now schemas key rec.type cfg =
      some data) :
    Preserved schemas key cipher rows (updateConnector rows rec.id data) := by
  refine List.forall₂_map_right_iff.2 (List.forall₂_same.2 fun r hr => ?_)
  split
  · next hid =>
      obtain rfl := hrows.eq_of_key hr hrec hid
      exact .inr ⟨rfl, rfl, rfl, hneeds, needs_of_marshal hdata, cfg, hparse,
        parse_of_sealing _ hdata⟩
  · exact .inl rfl

/-- **One connector of a page.** -/
theorem migrateRecord_spec {rec : ConnectorRecord ω} (hrows : KeyNodup ConnectorRecord.id rows)
    (hrec : rec ∈ rows) (h : migrateRecord schemas key run rows rec = (rows', n, ok)) :
    Preserved schemas key cipher rows rows' ∧ (∀ r ∈ rows, r.id ≠ rec.id → r ∈ rows') ∧
      (ok = true → ∀ r' ∈ rows', r'.id = rec.id →
        connectorSecretsNeedMigration schemas r'.type r'.configData = false) := by
  have hstop : ∀ {n : ℕ}, (rows, n, false) = (rows', n, ok) →
      Preserved schemas key cipher rows rows' ∧ (∀ r ∈ rows, r.id ≠ rec.id → r ∈ rows') ∧
        (ok = true → ∀ r' ∈ rows', r'.id = rec.id →
          connectorSecretsNeedMigration schemas r'.type r'.configData = false) := by
    rintro n heq
    cases heq
    exact ⟨.refl _, fun r hr _ => hr, fun hok => by cases hok⟩
  rw [migrateRecord] at h
  split at h
  · next hneeds =>
      split at h
      · cases h
        exact hstop (n := 0) rfl
      · next cfg hparse =>
          split at h
          · cases h
            exact hstop (n := 0) rfl
          · next data hdata =>
              split at h
              · cases h
                exact hstop (n := 0) rfl
              · cases h
                refine ⟨updateConnector_preserved hrows hrec hneeds hparse hdata,
                  fun r hr hid => List.mem_map.2 ⟨r, hr, if_neg hid⟩, fun _ r' hr' hid => ?_⟩
                obtain ⟨r, hr, rfl⟩ := List.mem_map.1 hr'
                have hrid : r.id = rec.id := by
                  split at hid
                  · next heq => exact heq
                  · exact hid
                obtain rfl := hrows.eq_of_key hr hrec hrid
                rw [if_pos rfl]
                exact needs_of_marshal hdata
  · next hneeds =>
      cases h
      refine ⟨.refl _, fun r hr _ => hr, fun _ r' hr' hid => ?_⟩
      obtain rfl := hrows.eq_of_key hr' hrec hid
      exact Bool.eq_false_of_not_eq_true hneeds

/-- **The connectors of a page.** -/
theorem migratePage_spec {recs : List (ConnectorRecord ω)}
    (hrows : KeyNodup ConnectorRecord.id rows) (hrecs : ∀ rec ∈ recs, rec ∈ rows)
    (hnodup : KeyNodup ConnectorRecord.id recs)
    (h : migratePage schemas key run rows recs = (rows', n, ok)) :
    Preserved schemas key cipher rows rows' ∧
      (∀ r ∈ rows, r.id ∉ recs.map ConnectorRecord.id → r ∈ rows') ∧
      (ok = true → ∀ r' ∈ rows', r'.id ∈ recs.map ConnectorRecord.id →
        connectorSecretsNeedMigration schemas r'.type r'.configData = false) := by
  induction recs generalizing rows n with
  | nil =>
      cases h
      exact ⟨.refl _, fun r hr _ => hr, fun _ _ _ hid => by cases hid⟩
  | cons rec recs ih =>
      obtain ⟨hfresh, hnodup'⟩ := List.nodup_cons.1 hnodup
      rw [migratePage] at h
      split at h
      · next rows₁ n₁ hstep =>
          cases h
          obtain ⟨hpres, hother, -⟩ := migrateRecord_spec hrows
            (hrecs rec List.mem_cons_self) hstep
          exact ⟨hpres, fun r hr hid => hother r hr fun heq => hid (by simp [heq]),
            fun hok => by cases hok⟩
      · next rows₁ n₁ hstep =>
          obtain ⟨hpres, hother, hdone⟩ := migrateRecord_spec hrows
            (hrecs rec List.mem_cons_self) hstep
          have hrecs₁ : ∀ rec' ∈ recs, rec' ∈ rows₁ := fun rec' hrec' =>
            hother rec' (hrecs rec' (List.mem_cons_of_mem _ hrec')) fun heq =>
              hfresh (heq ▸ List.mem_map_of_mem hrec')
          obtain ⟨rows₂, m, ok₂, hrest⟩ : ∃ rows₂ m ok₂,
            migratePage schemas key run rows₁ recs = (rows₂, m, ok₂) := ⟨_, _, _, rfl⟩
          rw [hrest] at h
          cases h
          obtain ⟨hpres', hother', hdone'⟩ := ih (hpres.nodup hrows) hrecs₁ hnodup' hrest
          refine ⟨hpres.trans hpres', fun r hr hid => ?_, fun hok r' hr' hid => ?_⟩
          · rw [List.map_cons, List.mem_cons, not_or] at hid
            exact hother' r (hother r hr hid.1) hid.2
          · rcases List.mem_cons.1 hid with hid | hid
            · obtain ⟨r, hr, rfl | hrw⟩ := hpres'.exists_left hr'
              · exact hdone rfl r' hr hid
              · exact hrw.2.2.2.2.1
            · exact hdone' hok r' hr' hid

/-- A page goes through if every connector in it that has to be rewritten can be. -/
theorem migratePage_ok {recs : List (ConnectorRecord ω)}
    (hupdate : ∀ id, run.updateFails id = false)
    (hparse : ∀ rec ∈ recs, connectorSecretsNeedMigration schemas rec.type rec.configData = true →
      (parseConnectorConfig cipher schemas key rec.type rec.configData).isSome)
    (h : migratePage schemas key run rows recs = (rows', n, ok)) : ok = true := by
  have hstep : ∀ rec ∈ recs, ∀ rows : Table ω,
      (migrateRecord schemas key run rows rec).2.2 = true := by
    intro rec hrec rows
    rw [migrateRecord]
    split
    · next hneeds =>
        obtain ⟨cfg, hcfg⟩ := Option.isSome_iff_exists.1 (hparse rec hrec hneeds)
        obtain ⟨k, rfl⟩ := exists_key hneeds hcfg
        obtain ⟨data, hdata⟩ : ∃ data, marshalConnectorConfig (run.sealing rec.id).now schemas
          (some k) rec.type cfg = some data := exists_marshal _ k _ _
        rw [hcfg]
        dsimp only
        rw [hdata]
        dsimp only
        rw [if_neg (by rw [hupdate]; decide)]
    · rfl
  induction recs generalizing rows n with
  | nil =>
      cases h
      rfl
  | cons rec recs ih =>
      have hrec := hstep rec List.mem_cons_self rows
      rw [migratePage] at h
      split at h
      · next rows₁ n₁ hfail =>
          rw [hfail] at hrec
          cases hrec
      · next rows₁ n₁ hok =>
          obtain ⟨rows₂, m, ok₂, hrest⟩ : ∃ rows₂ m ok₂,
            migratePage schemas key run rows₁ recs = (rows₂, m, ok₂) := ⟨_, _, _, rfl⟩
          rw [hrest] at h
          cases h
          exact ih (fun rec' h' => hparse rec' (List.mem_cons_of_mem _ h')) hrest
            fun rec' h' => hstep rec' (List.mem_cons_of_mem _ h')

/-- Where nothing has to be rewritten, nothing is. -/
theorem migratePage_nothing {recs : List (ConnectorRecord ω)}
    (h : ∀ rec ∈ recs, connectorSecretsNeedMigration schemas rec.type rec.configData = false)
    (rows : Table ω) : migratePage schemas key run rows recs = (rows, 0, true) := by
  induction recs with
  | nil => rfl
  | cons rec recs ih =>
      rw [migratePage, migrateRecord, if_neg (by rw [h rec List.mem_cons_self]; decide)]
      dsimp only
      rw [ih fun rec' h' => h rec' (List.mem_cons_of_mem _ h')]
      rfl

/-! ### Pages -/

/-- The ids of a page. -/
def pageIDs (run : Run cipher) (size i : ℕ) : List Bytes :=
  ((run.order i).drop (i * size)).take size

theorem mem_of_mem_listConnectors {i : ℕ} {rec : ConnectorRecord ω}
    (h : rec ∈ listConnectors run rows i size) : rec ∈ rows := by
  obtain ⟨id, -, hid⟩ := List.mem_filterMap.1 h
  exact (lookup_eq_some hid).1

/-- A page has the connectors of its ids. -/
theorem listConnectors_ids {i : ℕ} (horder : (run.order i).Perm (rows.map ConnectorRecord.id)) :
    (listConnectors run rows i size).map ConnectorRecord.id = pageIDs run size i := by
  have hfound : ∀ ids : List Bytes, (∀ id ∈ ids, id ∈ rows.map ConnectorRecord.id) →
      (ids.filterMap (lookup ConnectorRecord.id rows)).map ConnectorRecord.id = ids := by
    intro ids hids
    induction ids with
    | nil => rfl
    | cons id ids ih =>
        obtain ⟨r, hr, hid⟩ := List.mem_map.1 (hids id List.mem_cons_self)
        have hsome : (lookup ConnectorRecord.id rows id).isSome = true :=
          lookup_isSome.2 ⟨r, hr, hid⟩
        obtain ⟨r', hr'⟩ := Option.isSome_iff_exists.1 hsome
        rw [List.filterMap_cons_some hr', List.map_cons, (lookup_eq_some hr').2,
          ih fun id' h' => hids id' (List.mem_cons_of_mem _ h')]
  exact hfound _ fun id hid => horder.mem_iff.1 (List.mem_of_mem_drop (List.mem_of_mem_take hid))

theorem listConnectors_nodup {i : ℕ} (hrows : KeyNodup ConnectorRecord.id rows)
    (horder : (run.order i).Perm (rows.map ConnectorRecord.id)) :
    KeyNodup ConnectorRecord.id (listConnectors run rows i size) := by
  rw [KeyNodup, listConnectors_ids horder]
  exact ((horder.nodup_iff.2 hrows).sublist (List.drop_sublist _ _)).sublist (List.take_sublist _ _)

/-- **A run from a page on** leaves or rewrites every connector, and leaves one that is on no
page. -/
theorem migrateFrom_spec {fuel i : ℕ} (hrows : KeyNodup ConnectorRecord.id rows)
    (horder : ∀ i, (run.order i).Perm (rows.map ConnectorRecord.id))
    (h : migrateFrom schemas key run size fuel i rows = (rows', n, ok)) :
    Preserved schemas key cipher rows rows' ∧
      ∀ r ∈ rows, (∀ j, r.id ∉ pageIDs run size j) → r ∈ rows' := by
  induction fuel generalizing i rows n with
  | zero =>
      cases h
      exact ⟨.refl _, fun r hr _ => hr⟩
  | succ fuel ih =>
      rw [migrateFrom] at h
      split at h
      · cases h
        exact ⟨.refl _, fun r hr _ => hr⟩
      · dsimp only at h
        split at h
        · next rows₁ n₁ hpage =>
            cases h
            obtain ⟨hpres, hother, -⟩ := migratePage_spec hrows
              (fun rec hrec => mem_of_mem_listConnectors hrec)
              (listConnectors_nodup hrows (horder i)) hpage
            rw [listConnectors_ids (horder i)] at hother
            exact ⟨hpres, fun r hr hid => hother r hr (hid i)⟩
        · next rows₁ n₁ hpage =>
            obtain ⟨hpres, hother, -⟩ := migratePage_spec hrows
              (fun rec hrec => mem_of_mem_listConnectors hrec)
              (listConnectors_nodup hrows (horder i)) hpage
            rw [listConnectors_ids (horder i)] at hother
            split at h
            · cases h
              exact ⟨hpres, fun r hr hid => hother r hr (hid i)⟩
            · obtain ⟨rows₂, m, ok₂, hrest⟩ : ∃ rows₂ m ok₂,
                migrateFrom schemas key run size fuel (i + 1) rows₁ = (rows₂, m, ok₂) :=
                  ⟨_, _, _, rfl⟩
              rw [hrest] at h
              cases h
              obtain ⟨hpres', hother'⟩ := ih (hpres.nodup hrows)
                (fun j => hpres.ids ▸ horder j) hrest
              exact ⟨hpres.trans hpres', fun r hr hid => hother' r (hother r hr (hid i)) hid⟩

/-- The pages after one that is not full are empty. -/
theorem pageIDs_eq_nil {i j : ℕ} (horder : ∀ i, (run.order i).Perm (rows.map ConnectorRecord.id))
    (hlt : (pageIDs run size i).length < size) (hij : i < j) : pageIDs run size j = [] := by
  have hlen : ∀ i, (run.order i).length = rows.length := fun i => by
    rw [(horder i).length_eq, List.length_map]
  rw [pageIDs, List.length_take, List.length_drop, hlen] at hlt
  have hmul : (i + 1) * size ≤ j * size := Nat.mul_le_mul_right size hij
  rw [Nat.succ_mul] at hmul
  rw [pageIDs, List.drop_eq_nil_of_le (by rw [hlen]; omega), List.take_nil]

/-- **A run that meets no failure is complete** if every connector that has to be rewritten can be
read. -/
theorem migrateFrom_ok {fuel i : ℕ} (hsize : 0 < size) (hlist : ∀ i, run.listFails i = false)
    (hupdate : ∀ id, run.updateFails id = false) (hrows : KeyNodup ConnectorRecord.id rows)
    (horder : ∀ i, (run.order i).Perm (rows.map ConnectorRecord.id))
    (hfuel : fuel + i = rows.length + 1) (hi : i ≤ rows.length)
    (hparse : ∀ r ∈ rows, connectorSecretsNeedMigration schemas r.type r.configData = true →
      (parseConnectorConfig cipher schemas key r.type r.configData).isSome)
    (h : migrateFrom schemas key run size fuel i rows = (rows', n, ok)) : ok = true := by
  induction fuel generalizing i rows n with
  | zero => omega
  | succ fuel ih =>
      rw [migrateFrom, if_neg (by rw [hlist]; decide)] at h
      dsimp only at h
      split at h
      · next rows₁ n₁ hpage =>
          have hok := migratePage_ok hupdate
            (fun rec hrec hneeds => hparse rec (mem_of_mem_listConnectors hrec) hneeds) hpage
          cases hok
      · next rows₁ n₁ hpage =>
          obtain ⟨hpres, -, -⟩ := migratePage_spec hrows
            (fun rec hrec => mem_of_mem_listConnectors hrec)
            (listConnectors_nodup hrows (horder i)) hpage
          split at h
          · cases h
            rfl
          · next hfull =>
              obtain ⟨rows₂, m, ok₂, hrest⟩ : ∃ rows₂ m ok₂,
                migrateFrom schemas key run size fuel (i + 1) rows₁ = (rows₂, m, ok₂) :=
                  ⟨_, _, _, rfl⟩
              rw [hrest] at h
              cases h
              have hrows₁ : rows₁.length = rows.length := hpres.length_eq.symm
              have hnext : i + 1 ≤ rows.length := by
                rw [← List.length_map (f := ConnectorRecord.id), listConnectors_ids (horder i),
                  pageIDs, List.length_take, List.length_drop, (horder i).length_eq,
                  List.length_map] at hfull
                have hmul : i ≤ i * size := Nat.le_mul_of_pos_right i hsize
                omega
              refine ih (hpres.nodup hrows) (fun j => hpres.ids ▸ horder j) (by omega) (by omega)
                (fun r hr hneeds => ?_) hrest
              obtain ⟨r₀, hr₀, rfl | hrw⟩ := hpres.exists_left hr
              · exact hparse r hr₀ hneeds
              · cases hneeds.symm.trans hrw.2.2.2.2.1

/-- **A run that is complete** leaves no secret in an older form, if every connector that has one is
on a page to come. -/
theorem migrateFrom_complete {fuel i : ℕ} (hrows : KeyNodup ConnectorRecord.id rows)
    (horder : ∀ i, (run.order i).Perm (rows.map ConnectorRecord.id))
    (hlisted : ∀ r ∈ rows, connectorSecretsNeedMigration schemas r.type r.configData = true →
      ∃ j, i ≤ j ∧ r.id ∈ pageIDs run size j)
    (h : migrateFrom schemas key run size fuel i rows = (rows', n, true)) :
    ∀ r' ∈ rows', connectorSecretsNeedMigration schemas r'.type r'.configData = false := by
  induction fuel generalizing i rows n with
  | zero => cases h
  | succ fuel ih =>
      rw [migrateFrom] at h
      split at h
      · cases h
      · dsimp only at h
        split at h
        · cases h
        · next rows₁ n₁ hpage =>
            obtain ⟨hpres, -, hdone⟩ := migratePage_spec hrows
              (fun rec hrec => mem_of_mem_listConnectors hrec)
              (listConnectors_nodup hrows (horder i)) hpage
            rw [listConnectors_ids (horder i)] at hdone
            -- what is left to be rewritten is on a later page
            have hlisted₁ : ∀ r ∈ rows₁,
                connectorSecretsNeedMigration schemas r.type r.configData = true →
                ∃ j, i + 1 ≤ j ∧ r.id ∈ pageIDs run size j := by
              intro r hr hneeds
              obtain ⟨r₀, hr₀, rfl | hrw⟩ := hpres.exists_left hr
              · obtain ⟨j, hj, hmem⟩ := hlisted r hr₀ hneeds
                refine ⟨j, ?_, hmem⟩
                rcases Nat.eq_or_lt_of_le hj with rfl | hlt
                · cases hneeds.symm.trans (hdone rfl r hr hmem)
                · exact hlt
              · cases hneeds.symm.trans hrw.2.2.2.2.1
            split at h
            · next hlt =>
                cases h
                rw [← List.length_map (f := ConnectorRecord.id), listConnectors_ids (horder i)]
                  at hlt
                intro r hr
                by_contra hneeds
                obtain ⟨j, hj, hmem⟩ := hlisted₁ r hr (by simpa using hneeds)
                rw [pageIDs_eq_nil horder hlt hj] at hmem
                cases hmem
            · obtain ⟨rows₂, m, ok₂, hrest⟩ : ∃ rows₂ m ok₂,
                migrateFrom schemas key run size fuel (i + 1) rows₁ = (rows₂, m, ok₂) :=
                  ⟨_, _, _, rfl⟩
              rw [hrest] at h
              cases h
              exact ih (hpres.nodup hrows) (fun j => hpres.ids ▸ horder j) hlisted₁ hrest

/-- **Where nothing has to be rewritten, a run rewrites nothing.** -/
theorem migrateFrom_nothing {fuel i : ℕ}
    (hdone : ∀ r ∈ rows, connectorSecretsNeedMigration schemas r.type r.configData = false) :
    (migrateFrom schemas key run size fuel i rows).1 = rows ∧
      (migrateFrom schemas key run size fuel i rows).2.1 = 0 := by
  induction fuel generalizing i with
  | zero => exact ⟨rfl, rfl⟩
  | succ fuel ih =>
      rw [migrateFrom]
      split
      · exact ⟨rfl, rfl⟩
      · dsimp only
        rw [migratePage_nothing fun rec hrec => hdone rec (mem_of_mem_listConnectors hrec)]
        dsimp only
        split
        · exact ⟨rfl, rfl⟩
        · exact ⟨ih.1, (Nat.zero_add _).trans ih.2⟩

end Table

/-! ### Runs -/

variable (schemas key)

/-- The connectors after runs, each of which may have been stopped. -/
def afterRuns (size : ℕ) (rows : Table ω) (runs : List (Run cipher)) : Table ω :=
  runs.foldl (fun rows run => (migrateConnectorSecrets schemas key run size rows).1) rows

/-- No call of the store fails. -/
def Run.Unfailing (run : Run cipher) : Prop :=
  (∀ i, run.listFails i = false) ∧ ∀ id, run.updateFails id = false

/-- **Every connector that has to be rewritten** is on a page of the run, and can be read. -/
def Ready (size : ℕ) (rows : Table ω) (run : Run cipher) : Prop :=
  ∀ r ∈ rows, connectorSecretsNeedMigration schemas r.type r.configData = true →
    (∃ i, r.id ∈ pageIDs run size i) ∧
      (parseConnectorConfig cipher schemas key r.type r.configData).isSome

/-- A connector is read as before, and none of its secrets is changed. -/
def ReadAsBefore (cipher : Cipher K) (r r' : ConnectorRecord ω) : Prop :=
  r'.id = r.id ∧ r'.type = r.type ∧
    parseConnectorConfig cipher schemas key r'.type r'.configData =
      parseConnectorConfig cipher schemas key r.type r.configData ∧
    ∀ cfg, parseConnectorConfig cipher schemas key r'.type r'.configData = some cfg →
      secretFieldsChanged cipher schemas key r.type r.configData cfg = some false

/-- Every secret is in the new form, and a further run rewrites nothing. -/
def Migrated (cipher : Cipher K) (size : ℕ) (rows : Table ω) : Prop :=
  (∀ r ∈ rows, connectorSecretsNeedMigration schemas r.type r.configData = false) ∧
    ∀ run : Run cipher, (migrateConnectorSecrets schemas key run size rows).1 = rows ∧
      (migrateConnectorSecrets schemas key run size rows).2.1 = 0

variable {schemas key} {rows : Table ω} {size : ℕ}

theorem afterRuns_singleton (rows : Table ω) (run : Run cipher) :
    afterRuns schemas key size rows [run] =
      (migrateConnectorSecrets schemas key run size rows).1 := rfl

theorem ListOrder.perm {ids : List Bytes} (h : ListOrder rows ids) :
    ids.Perm (rows.map ConnectorRecord.id) := by
  obtain ⟨sorted, hperm, -, rfl⟩ := h
  exact hperm.map _

/-- **A run preserves the configurations**, wherever it stops. -/
theorem run_preserved {run : Run cipher} (hrows : KeyNodup ConnectorRecord.id rows)
    (horder : ∀ i, (run.order i).Perm (rows.map ConnectorRecord.id)) :
    Preserved schemas key cipher rows (migrateConnectorSecrets schemas key run size rows).1 :=
  (migrateFrom_spec hrows horder rfl).1

theorem afterRuns_preserved {runs : List (Run cipher)} (hrows : KeyNodup ConnectorRecord.id rows)
    (horder : ∀ run ∈ runs, ∀ i, (run.order i).Perm (rows.map ConnectorRecord.id)) :
    Preserved schemas key cipher rows (afterRuns schemas key size rows runs) := by
  induction runs generalizing rows with
  | nil => exact .refl rows
  | cons run runs ih =>
      have hstep : Preserved schemas key cipher rows
          (migrateConnectorSecrets schemas key run size rows).1 :=
        run_preserved hrows (horder run List.mem_cons_self)
      exact hstep.trans (ih (hstep.nodup hrows) fun run' h' i =>
        hstep.ids ▸ horder run' (List.mem_cons_of_mem _ h') i)

theorem readAsBefore_of_rewritten {r r' : ConnectorRecord ω}
    (h : Rewritten schemas key cipher r r') : ReadAsBefore schemas key cipher r r' := by
  have hparse : r'.id = r.id ∧ r'.type = r.type ∧
      parseConnectorConfig cipher schemas key r'.type r'.configData =
        parseConnectorConfig cipher schemas key r.type r.configData := by
    rcases h with rfl | ⟨hid, htype, -, -, -, cfg, hbefore, hafter⟩
    · exact ⟨rfl, rfl, rfl⟩
    · exact ⟨hid, htype, hafter.trans hbefore.symm⟩
  refine ⟨hparse.1, hparse.2.1, hparse.2.2, fun cfg hcfg => ?_⟩
  rw [hparse.2.2] at hcfg
  rw [secretFieldsChanged, hcfg]
  dsimp only [Option.bind_eq_bind, Option.bind_some]
  split
  · rfl
  · simp

theorem run_ok {run : Run cipher} (hsize : 0 < size) (hcalls : run.Unfailing)
    (hrows : KeyNodup ConnectorRecord.id rows)
    (horder : ∀ i, (run.order i).Perm (rows.map ConnectorRecord.id))
    (hparse : ∀ r ∈ rows, connectorSecretsNeedMigration schemas r.type r.configData = true →
      (parseConnectorConfig cipher schemas key r.type r.configData).isSome) :
    (migrateConnectorSecrets schemas key run size rows).2.2 = true := by
  have hfuel : rows.length + 1 + 0 = rows.length + 1 := rfl
  exact migrateFrom_ok hsize hcalls.1 hcalls.2 hrows horder hfuel (Nat.zero_le _) hparse rfl

theorem run_complete {run : Run cipher} (hrows : KeyNodup ConnectorRecord.id rows)
    (horder : ∀ i, (run.order i).Perm (rows.map ConnectorRecord.id))
    (hlisted : ∀ r ∈ rows, connectorSecretsNeedMigration schemas r.type r.configData = true →
      ∃ i, r.id ∈ pageIDs run size i)
    (hok : (migrateConnectorSecrets schemas key run size rows).2.2 = true) :
    ∀ r' ∈ (migrateConnectorSecrets schemas key run size rows).1,
      connectorSecretsNeedMigration schemas r'.type r'.configData = false := by
  obtain ⟨rows', n, ok, hrun⟩ : ∃ rows' n ok,
    migrateConnectorSecrets schemas key run size rows = (rows', n, ok) := ⟨_, _, _, rfl⟩
  rw [hrun] at hok ⊢
  obtain rfl : ok = true := hok
  exact migrateFrom_complete hrows horder (fun r hr hneeds => by
    obtain ⟨j, hj⟩ := hlisted r hr hneeds
    exact ⟨j, Nat.zero_le j, hj⟩) hrun

/-- A connector that no page has is left. -/
theorem ready_of_migrated {run : Run cipher} (hrows : KeyNodup ConnectorRecord.id rows)
    (horder : ∀ i, (run.order i).Perm (rows.map ConnectorRecord.id))
    (h : ∀ r ∈ (migrateConnectorSecrets schemas key run size rows).1,
      connectorSecretsNeedMigration schemas r.type r.configData = false) :
    Ready schemas key size rows run := by
  intro r hr hneeds
  obtain ⟨hpres, hother⟩ : Preserved schemas key cipher rows
      (migrateConnectorSecrets schemas key run size rows).1 ∧
      ∀ r ∈ rows, (∀ j, r.id ∉ pageIDs run size j) →
        r ∈ (migrateConnectorSecrets schemas key run size rows).1 :=
    migrateFrom_spec hrows horder rfl
  constructor
  · by_contra hno
    have hleft := hother r hr fun j hj => hno ⟨j, hj⟩
    cases hneeds.symm.trans (h r hleft)
  · obtain ⟨r', hr', rfl | ⟨-, -, -, -, -, cfg, hcfg, -⟩⟩ := hpres.exists_right hr
    · cases hneeds.symm.trans (h r' hr')
    · rw [hcfg]
      rfl

/-- The additional data name the type and the key, if no type has a slash. -/
theorem fieldAAD_inj {type type' : Bytes} {f f' : SchemaField} (htype : 47 ∉ type)
    (htype' : 47 ∉ type') (h : fieldAAD type f = fieldAAD type' f') :
    type = type' ∧ f.key = f'.key := by
  rw [fieldAAD, fieldAAD, List.append_assoc, List.append_assoc] at h
  exact append_cons_inj htype htype' h

/-- A value that is encrypted for another field is not read. -/
theorem parse_moved {sealing : Sealing cipher} {k : K} {type aad plaintext : Bytes}
    {s : TypeSchema ω} {raw : Config ω} (hs : getTypeSchema schemas type = some s)
    {f : SchemaField} (hf : f ∈ s.fields) (hsecret : isSecretFieldType f.type = true)
    (hraw : raw f.key = some (.text (encryptFor sealing.now k aad plaintext)))
    (haad : fieldAAD type f ≠ aad) :
    parseConnectorConfig cipher schemas (some k) type (some raw) = none := by
  cases hparse : parseConnectorConfig cipher schemas (some k) type (some raw) with
  | none => rfl
  | some cfg =>
      obtain ⟨raw', hraw', hfields, -⟩ := parse_spec hs hparse
      obtain rfl := Option.some.inj hraw'
      have hdec := hfields f hf
      have hne := encryptFor_ne_nil sealing.now k aad plaintext
      have hnone : decryptFor cipher k (fieldAAD type f)
          (encryptFor sealing.now k aad plaintext) = none := by
        rw [decryptFor, encryptFor, stripPrefix_eq_some.2 rfl]
        exact sealing.unbound k aad (fieldAAD type f) plaintext haad
      rw [hraw, decryptField, if_neg (by simp [hsecret, hne])] at hdec
      dsimp only [Option.bind_eq_bind, Option.bind_some] at hdec
      rw [hnone] at hdec
      dsimp only at hdec
      rw [if_pos (isV2_encryptFor _ _ _ _)] at hdec
      cases hdec

/-- A secret that is not empty is stored encrypted. -/
theorem stored_of_marshal {sealing : Sealing cipher} {type plaintext : Bytes} {s : TypeSchema ω}
    {cfg data : Config ω} (hs : getTypeSchema schemas type = some s)
    (h : marshalConnectorConfig sealing.now schemas key type cfg = some data) {f : SchemaField}
    (hf : f ∈ s.fields) (hsecret : isSecretFieldType f.type = true)
    (hcfg : cfg f.key = some (.text plaintext)) (hne : plaintext ≠ []) :
    ∃ stored, data f.key = some (.text stored) ∧ isV2 stored = true ∧ stored ≠ plaintext := by
  rw [marshalConnectorConfig, hs] at h
  have hfield := ((rewrite_eq_some s.keys_nodup).1 h).1 f hf
  rw [hcfg, encryptField, if_neg (by simp [hsecret, hne])] at hfield
  obtain ⟨k, -, hk⟩ := Option.map_eq_some_iff.1 hfield
  refine ⟨_, hk.symm, isV2_encryptFor _ _ _ _, fun heq => ?_⟩
  have hlen := congrArg List.length heq
  have hlonger := sealing.longer k (fieldAAD type f) plaintext
  rw [encryptFor, List.length_append] at hlen
  omega

/-- **The migration of secrets.**  What is stored is read again, no secret is stored as it is, and
one that is moved to another type or key is not read.  Every connector is read as before after any
runs, wherever they stopped.  A run that meets no failure is complete, with every secret in the new
form, if and only if every connector that has to be rewritten is on one of its pages and can be
read. -/
theorem migration_iff (schemas : List (TypeSchema ω)) (key : Option K) {size : ℕ}
    (hsize : 0 < size) {rows : Table ω} (hrows : KeyNodup ConnectorRecord.id rows)
    {earlier : List (Run cipher)} {last : Run cipher}
    (horder : ∀ run ∈ earlier ++ [last], ∀ i, ListOrder rows (run.order i))
    (hcalls : last.Unfailing) :
    (∀ (sealing : Sealing cipher) type cfg data,
      marshalConnectorConfig sealing.now schemas key type cfg = some data →
        parseConnectorConfig cipher schemas key type (some data) = some cfg ∧
        ∀ s, getTypeSchema schemas type = some s → ∀ f ∈ s.fields,
          isSecretFieldType f.type = true → ∀ plaintext, cfg f.key = some (.text plaintext) →
            plaintext ≠ [] →
              ∃ stored, data f.key = some (.text stored) ∧ isV2 stored = true ∧
                stored ≠ plaintext) ∧
    (∀ (sealing : Sealing cipher) k type aad plaintext s raw,
      getTypeSchema schemas type = some s → ∀ f ∈ s.fields, isSecretFieldType f.type = true →
        raw f.key = some (.text (encryptFor sealing.now k aad plaintext)) →
          fieldAAD type f ≠ aad →
            parseConnectorConfig cipher schemas (some k) type (some raw) = none) ∧
    (∀ type type' (f f' : SchemaField), 47 ∉ type → 47 ∉ type' →
      fieldAAD type f = fieldAAD type' f' → type = type' ∧ f.key = f'.key) ∧
    List.Forall₂ (ReadAsBefore schemas key cipher) rows
      (afterRuns schemas key size rows (earlier ++ [last])) ∧
    ((migrateConnectorSecrets schemas key last size
          (afterRuns schemas key size rows earlier)).2.2 = true ∧
        Migrated schemas key cipher size (afterRuns schemas key size rows (earlier ++ [last])) ↔
      Ready schemas key size (afterRuns schemas key size rows earlier) last) := by
  have hperm : ∀ run ∈ earlier ++ [last], ∀ i,
      (run.order i).Perm (rows.map ConnectorRecord.id) := fun run hrun i => (horder run hrun i).perm
  have hbefore : Preserved schemas key cipher rows (afterRuns schemas key size rows earlier) :=
    afterRuns_preserved hrows fun run hrun => hperm run (List.mem_append_left _ hrun)
  have hlast : ∀ i, (last.order i).Perm
      ((afterRuns schemas key size rows earlier).map ConnectorRecord.id) := fun i =>
    hbefore.ids ▸ hperm last (by simp) i
  have hafter : afterRuns schemas key size rows (earlier ++ [last]) =
      (migrateConnectorSecrets schemas key last size
        (afterRuns schemas key size rows earlier)).1 := by
    rw [afterRuns, List.foldl_append]
    rfl
  refine ⟨fun sealing type cfg data h => ⟨parse_of_sealing sealing h,
      fun s hs f hf hsecret plaintext hcfg hne => stored_of_marshal hs h hf hsecret hcfg hne⟩,
    fun sealing k type aad plaintext s raw hs f hf hsecret hraw haad =>
      parse_moved hs hf hsecret hraw haad,
    fun _ _ _ _ htype htype' h => fieldAAD_inj htype htype' h,
    (afterRuns_preserved hrows hperm).imp fun _ _ h => readAsBefore_of_rewritten h, ?_⟩
  rw [hafter]
  constructor
  · rintro ⟨-, hdone, -⟩
    exact ready_of_migrated (hbefore.nodup hrows) hlast hdone
  · intro hready
    have hok := run_ok hsize hcalls (hbefore.nodup hrows) hlast fun r hr hneeds =>
      (hready r hr hneeds).2
    have hdone := run_complete (hbefore.nodup hrows) hlast
      (fun r hr hneeds => (hready r hr hneeds).1) hok
    exact ⟨hok, hdone, fun run => migrateFrom_nothing hdone⟩

end Code

/-! ### Connectors of one time -/

/-- A text that names its additional data, with a nonce; in the older form it names nothing. -/
def nonceCipher (nonce : UInt8) : Cipher Unit where
  encrypt _ aad plaintext := hexEncode aad ++ 58 :: nonce :: plaintext
  decrypt _ aad encoded := (stripPrefix (hexEncode aad ++ [58]) encoded).bind fun
    | [] => none
    | _ :: plaintext => some plaintext
  decryptLegacy _ encoded := stripPrefix (bytes "b64") encoded
  decrypt_encrypt _ aad plaintext := by
    have hstrip : stripPrefix (hexEncode aad ++ [58]) (hexEncode aad ++ 58 :: nonce :: plaintext) =
        some (nonce :: plaintext) := stripPrefix_eq_some.2 (by simp)
    rw [hstrip]
    rfl

def hexCipher : Cipher Unit := nonceCipher 0

def hexSealing (nonce : UInt8) : Sealing hexCipher where
  now := nonceCipher nonce
  decrypt_eq := rfl
  legacy_eq := rfl
  unbound _ aad aad' plaintext hne := by
    cases h : stripPrefix (hexEncode aad' ++ [58]) (hexEncode aad ++ 58 :: nonce :: plaintext) with
    | none =>
        change (stripPrefix (hexEncode aad' ++ [58])
          (hexEncode aad ++ 58 :: nonce :: plaintext)).bind _ = none
        rw [h]
        rfl
    | some rest =>
        have heq : hexEncode aad ++ 58 :: nonce :: plaintext = hexEncode aad' ++ [58] ++ rest :=
          stripPrefix_eq_some.1 h
        have hfree : ∀ s : Bytes, 58 ∉ hexEncode s := fun s hmem =>
          absurd (isHexChar_of_mem_hexEncode hmem) (by decide)
        have hcut := congrArg (cut 58) heq
        rw [List.append_assoc, List.singleton_append, cut_append _ (hfree aad),
          cut_append _ (hfree aad')] at hcut
        exact absurd (hexEncode_inj (Prod.mk.inj hcut).1).symm hne
  longer _ aad plaintext := by
    change plaintext.length < (hexEncode aad ++ 58 :: nonce :: plaintext).length
    rw [List.length_append, List.length_cons, List.length_cons]
    omega

/-- A type with a secret. -/
def tokenSchema : TypeSchema Unit where
  type := bytes "custom"
  category := bytes "other"
  endpointConfigKeys := []
  fields := [⟨bytes "token", .password, true, none, 0, 0, []⟩]
  noURL := false
  configCheck := none
  categoryForConfig := none
  keys_nodup := List.nodup_singleton _
  endpoint_mem := by simp

def idAt (n : ℕ) : Bytes := [UInt8.ofNat n]

/-- A connector without a secret, or the last one, with a secret that is stored as it is. -/
def connectorAt (last n : ℕ) : ConnectorRecord Unit where
  id := idAt n
  type := bytes "custom"
  configData := some fun k =>
    if n = last ∧ k = bytes "token" then some (.text (bytes "p")) else none
  createdAt := 0

/-- A run in which no call fails. -/
def plainRun (order : ℕ → List Bytes) : Run hexCipher where
  order := order
  sealing id := hexSealing (id.headD 0)
  listFails _ := false
  updateFails _ := false

/-- A connector with a stored token. -/
def connectorWith (n : ℕ) (token : Bytes) (createdAt : ℕ) : ConnectorRecord Unit where
  id := idAt n
  type := bytes "custom"
  configData := some fun k => if k = bytes "token" then some (.text token) else none
  createdAt := createdAt

/-- A token as it is, one in the older form, and one in the new form. -/
def mixedRows : Table Unit :=
  [connectorWith 0 (bytes "p") 2, connectorWith 1 (bytes "b64q") 1,
    connectorWith 2 (encryptFor hexCipher () (bytes "custom/token") (bytes "r")) 0]

def mixedOrder (_ : ℕ) : List Bytes := [idAt 0, idAt 1, idAt 2]

/-- A run that is stopped at the second connector. -/
def stoppedRun : Run hexCipher := { plainRun mixedOrder with updateFails := fun id => id = idAt 1 }

/-- A run is stopped at the second of three connectors on two pages, and the next one migrates what
is left. -/
theorem migration_one :
    (afterRuns [tokenSchema] (some ()) 2 mixedRows [stoppedRun]).map (fun r =>
        connectorSecretsNeedMigration [tokenSchema] r.type r.configData) = [false, true, false] ∧
      List.Forall₂ (ReadAsBefore [tokenSchema] (some ()) hexCipher) mixedRows
        (afterRuns [tokenSchema] (some ()) 2 mixedRows [stoppedRun, plainRun mixedOrder]) ∧
      Migrated [tokenSchema] (some ()) hexCipher 2
        (afterRuns [tokenSchema] (some ()) 2 mixedRows [stoppedRun, plainRun mixedOrder]) := by
  have horder : ∀ run ∈ [stoppedRun] ++ [plainRun mixedOrder], ∀ i,
      ListOrder mixedRows (run.order i) := by
    intro run hrun i
    have heq : run.order i = mixedOrder i := by
      rcases List.mem_pair.1 hrun with rfl | rfl <;> rfl
    rw [heq]
    exact ⟨mixedRows, List.Perm.refl _, by simp [mixedRows, connectorWith], rfl⟩
  have hmigration := (migration_iff [tokenSchema] (some ()) Nat.two_pos (by decide) horder
    ⟨fun _ => rfl, fun _ => rfl⟩).2.2.2
  refine ⟨by decide, hmigration.1, (hmigration.2.2 fun r hr _ => ⟨?_, ?_⟩).2⟩
  · have hids : (afterRuns [tokenSchema] (some ()) 2 mixedRows [stoppedRun]).map
        ConnectorRecord.id = [idAt 0, idAt 1, idAt 2] := by
      decide
    have hid := hids ▸ List.mem_map_of_mem (f := ConnectorRecord.id) hr
    rcases List.mem_cons.1 hid with h | hid
    · exact ⟨0, h ▸ by decide⟩
    · rcases List.mem_pair.1 hid with h | h
      · exact ⟨0, h ▸ by decide⟩
      · exact ⟨1, h ▸ by decide⟩
  · have hread : ∀ r ∈ afterRuns [tokenSchema] (some ()) 2 mixedRows [stoppedRun],
        (parseConnectorConfig hexCipher [tokenSchema] (some ()) r.type r.configData).isSome := by
      decide
    exact hread r hr

/-- One connector more than a page has, all of one time. -/
def tiedRows (size : ℕ) : Table Unit := (List.range (size + 1)).map (connectorAt size)

/-- The last connector comes first in the second query. -/
def tiedOrder (size i : ℕ) : List Bytes :=
  if i = 0 then (List.range (size + 1)).map idAt else (size :: List.range size).map idAt

theorem ids_connectorAt (last : ℕ) (ns : List ℕ) :
    (ns.map (connectorAt last)).map ConnectorRecord.id = ns.map idAt := by
  rw [List.map_map]
  rfl

theorem listOrder_tied (size i : ℕ) : ListOrder (tiedRows size) (tiedOrder size i) := by
  have hsorted : ∀ ns : List ℕ,
      (ns.map (connectorAt size)).Pairwise fun r r' => r'.createdAt ≤ r.createdAt := by
    intro ns
    refine List.pairwise_map.2 ?_
    induction ns with
    | nil => exact List.Pairwise.nil
    | cons n ns ih => exact List.Pairwise.cons (fun _ _ => le_rfl) ih
  rw [tiedOrder]
  split
  · exact ⟨tiedRows size, List.Perm.refl _, hsorted _, (ids_connectorAt size _).symm⟩
  · refine ⟨(size :: List.range size).map (connectorAt size), ?_, hsorted _,
      (ids_connectorAt size _).symm⟩
    rw [tiedRows, List.range_succ]
    exact (List.perm_append_singleton size (List.range size)).symm.map _

theorem idAt_inj {m n : ℕ} (hm : m < 256) (hn : n < 256) (h : idAt m = idAt n) : m = n := by
  have hnat := congrArg UInt8.toNat (List.cons.inj h).1
  rwa [UInt8.toNat_ofNat_of_lt' hm, UInt8.toNat_ofNat_of_lt' hn] at hnat

theorem tiedRows_nodup {size : ℕ} (h : size < 256) :
    KeyNodup ConnectorRecord.id (tiedRows size) := by
  rw [KeyNodup, tiedRows, ids_connectorAt]
  refine List.Nodup.map_on (fun m hm n hn heq => ?_) List.nodup_range
  rw [List.mem_range] at hm hn
  exact idAt_inj (by omega) (by omega) heq

/-- Every connector can be read. -/
theorem parse_tiedRows {size : ℕ} : ∀ r ∈ tiedRows size,
    connectorSecretsNeedMigration [tokenSchema] r.type r.configData = true →
      (parseConnectorConfig hexCipher [tokenSchema] (some ()) r.type r.configData).isSome := by
  intro r hr _
  obtain ⟨n, -, rfl⟩ := List.mem_map.1 hr
  by_cases hn : n = size
  · simp only [connectorAt, hn, true_and]
    decide
  · simp only [connectorAt, hn, false_and, if_false]
    decide

/-- The last connector is on no page. -/
theorem notMem_pageIDs {size : ℕ} (hsize : size < 256) (i : ℕ) :
    idAt size ∉ pageIDs (plainRun (tiedOrder size)) size i := by
  have hother : ∀ ns : List ℕ, (∀ n ∈ ns, n < size) → idAt size ∉ ns.map idAt := by
    intro ns hns hmem
    obtain ⟨n, hn, heq⟩ := List.mem_map.1 hmem
    have hlt := hns n hn
    exact hlt.ne (idAt_inj (hlt.trans hsize) hsize heq)
  change idAt size ∉ ((tiedOrder size i).drop (i * size)).take size
  match i with
  | 0 =>
      rw [tiedOrder, if_pos rfl, ← List.map_drop, ← List.map_take, Nat.zero_mul, List.drop_zero,
        List.take_range]
      exact hother _ fun n hn => (List.mem_range.1 hn).trans_le (Nat.min_le_left _ _)
  | i + 1 =>
      rw [tiedOrder, if_neg (Nat.succ_ne_zero i), ← List.map_drop, ← List.map_take]
      refine hother _ fun n hn => ?_
      cases size with
      | zero => cases hn
      | succ size =>
          have hdrop : (i + 1) * (size + 1) = (i * (size + 1) + size) + 1 := by
            rw [Nat.succ_mul]
            rfl
          rw [hdrop, List.drop_succ_cons] at hn
          exact List.mem_range.1 (List.mem_of_mem_drop (List.mem_of_mem_take hn))

/-- **A connector of the same time as others may be left out**: the second page has one of the
first page again. -/
theorem tied_connector_left :
    ¬ ∀ (rows : Table Unit) (run : Run hexCipher), KeyNodup ConnectorRecord.id rows →
        (∀ i, ListOrder rows (run.order i)) → run.Unfailing →
        (migrateConnectorSecrets [tokenSchema] (some ()) run 200 rows).2.2 = true →
        Migrated [tokenSchema] (some ()) hexCipher 200
          (afterRuns [tokenSchema] (some ()) 200 rows [run]) := by
  intro h
  have hlt : 200 < 256 := by decide
  have hcalls : (plainRun (tiedOrder 200)).Unfailing := ⟨fun _ => rfl, fun _ => rfl⟩
  have hok : (migrateConnectorSecrets [tokenSchema] (some ()) (plainRun (tiedOrder 200)) 200
      (tiedRows 200)).2.2 = true :=
    run_ok (by decide) hcalls (tiedRows_nodup hlt) (fun i => (listOrder_tied 200 i).perm)
      parse_tiedRows
  have hdone := (h (tiedRows 200) (plainRun (tiedOrder 200)) (tiedRows_nodup hlt)
    (listOrder_tied 200) hcalls hok).1
  rw [afterRuns_singleton] at hdone
  have hready := ready_of_migrated (tiedRows_nodup hlt) (fun i => (listOrder_tied 200 i).perm) hdone
  obtain ⟨⟨i, hi⟩, -⟩ := hready (connectorAt 200 200)
    (List.mem_map_of_mem (List.mem_range.2 (Nat.lt_succ_self 200))) (by decide)
  exact notMem_pageIDs hlt i hi

end WiseLabz.Migration
