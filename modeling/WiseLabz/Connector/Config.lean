/-
**The configuration of a connector.**

A connector type has a schema, which names the fields of a configuration.  The values of the secret
fields are encrypted where the configuration is stored, bound to the type and the field; the other
values are stored as they are.

Main definitions:

* `Connector.TypeSchema`, `Connector.Config` — a schema, and a decoded configuration;
* `Connector.validateConfig` — the checks of a schema;
* `Connector.parseConnectorConfig`, `Connector.marshalConnectorConfig` — **a configuration is read
  from its stored form, and put into it**.

Main results:

* `Connector.parse_marshal` — **what is stored is read again**;
* `Connector.parse_of_not_secret` — a value that is not a secret is read as it is stored.
-/

import WiseLabz.Lib.JsonText
import WiseLabz.Lib.Rewrite

set_option relaxedAutoImplicit false
set_option autoImplicit false

namespace WiseLabz.Connector

open Lib

/-! ### Values -/

/-- A decoded value; numbers, lists and objects, which are only compared, are of an arbitrary type. -/
inductive ConfigValue (ω : Type)
  | null
  | text (s : Bytes)
  | bool (b : Bool)
  | other (v : ω)
  deriving DecidableEq, Repr

/-- A decoded configuration, a `map[string]any`. -/
abbrev Config (ω : Type) := Bytes → Option (ConfigValue ω)

variable {ω : Type}

/-- The text under a key, or the empty one: `v, _ := cfg[key].(string)`. -/
def Config.textAt (cfg : Config ω) (key : Bytes) : Bytes :=
  match cfg key with
  | some (.text s) => s
  | _ => []

/-! ### Schemas -/

inductive FieldKind
  | text | password | number | select | toggle | secret | textarea
  deriving DecidableEq, Repr

structure SchemaField where
  key : Bytes
  type : FieldKind
  required : Bool
  /-- Whether a text matches the pattern of the field, if it has one. -/
  pattern : Option (Bytes → Bool)
  minLength : ℕ
  maxLength : ℕ
  options : List Bytes

/-- A `ConfigValidationError`. -/
structure ConfigError where
  field : Bytes
  message : Bytes
  deriving DecidableEq, Repr

/-- No two fields of a schema have one key, and each key that decides where a connector connects is
that of a field: every registered schema is written so. -/
structure TypeSchema (ω : Type) where
  type : Bytes
  category : Bytes
  endpointConfigKeys : List Bytes
  fields : List SchemaField
  noURL : Bool
  /-- The errors of a check across fields; none if it passes. -/
  configCheck : Option (Config ω → List ConfigError)
  categoryForConfig : Option (Config ω → Except (List ConfigError) Bytes)
  keys_nodup : (fields.map SchemaField.key).Nodup
  endpoint_mem : ∀ k ∈ endpointConfigKeys, k ∈ fields.map SchemaField.key

/-- `GetTypeSchema`. -/
def getTypeSchema (schemas : List (TypeSchema ω)) (type : Bytes) : Option (TypeSchema ω) :=
  schemas.find? fun s => s.type = type

/-- `ConfigCategory`: the category derived by the type, or its default. -/
def TypeSchema.configCategory (s : TypeSchema ω) (cfg : Config ω) :
    Except (List ConfigError) Bytes :=
  match s.categoryForConfig with
  | some derive => derive cfg
  | none => .ok s.category

def urlRequired (schemas : List (TypeSchema ω)) (type : Bytes) : Bool :=
  match getTypeSchema schemas type with
  | none => true
  | some s =>
      match s.fields.find? fun f => f.key = bytes "url" with
      | some f => f.required
      | none => !s.noURL

/-! ### The checks of a schema -/

/-- The options as `%v` prints them. -/
def printOptions (options : List Bytes) : Bytes :=
  bytes "[" ++ (bytes " ").intercalate options ++ bytes "]"

def validateField (cfg : Config ω) (f : SchemaField) : Option ConfigError :=
  match cfg f.key with
  | none => none
  | some .null => none
  | some (.text s) =>
      if s = [] then none
      else if 0 < f.minLength ∧ s.length < f.minLength then
        some ⟨f.key, bytes ("must be at least " ++ toString f.minLength ++ " characters")⟩
      else if 0 < f.maxLength ∧ f.maxLength < s.length then
        some ⟨f.key, bytes ("must be at most " ++ toString f.maxLength ++ " characters")⟩
      else if f.pattern.any fun p => !p s then
        some ⟨f.key, bytes "does not match the required format"⟩
      else if f.type = .select ∧ f.options ≠ [] ∧ s ∉ f.options then
        some ⟨f.key, bytes "must be one of " ++ printOptions f.options⟩
      else none
  | some _ =>
      if f.type = .textarea then some ⟨f.key, bytes "must be a string"⟩ else none

/-- `ValidateConfig`: the first field with an error, and then the check across fields. -/
def validateConfig (s : TypeSchema ω) (cfg : Config ω) : List ConfigError :=
  match s.fields.findSome? (validateField cfg) with
  | some e => [e]
  | none => s.configCheck.elim [] fun check => check cfg

/-! ### Secrets -/

/-- `IsSecretFieldType`. -/
def isSecretFieldType (kind : FieldKind) : Bool := kind = .password || kind = .secret

/-- Authenticated encryption under a key of type `K`, bound to additional data, and the older form
without such data. -/
structure Cipher (K : Type) where
  encrypt : K → Bytes → Bytes → Bytes
  decrypt : K → Bytes → Bytes → Option Bytes
  decryptLegacy : K → Bytes → Option Bytes
  decrypt_encrypt : ∀ key aad plaintext, decrypt key aad (encrypt key aad plaintext) = some plaintext

variable {K : Type} (cipher : Cipher K)

def v2Prefix : Bytes := bytes "v2:"

def isV2 (encoded : Bytes) : Bool := (stripPrefix v2Prefix encoded).isSome

def encryptFor (key : K) (aad plaintext : Bytes) : Bytes :=
  v2Prefix ++ cipher.encrypt key aad plaintext

def decryptFor (key : K) (aad encoded : Bytes) : Option Bytes :=
  match stripPrefix v2Prefix encoded with
  | none => cipher.decryptLegacy key encoded
  | some rest => cipher.decrypt key aad rest

theorem decryptFor_encryptFor (key : K) (aad plaintext : Bytes) :
    decryptFor cipher key aad (encryptFor cipher key aad plaintext) = some plaintext := by
  rw [decryptFor, encryptFor, stripPrefix_eq_some.2 rfl]
  exact cipher.decrypt_encrypt key aad plaintext

theorem encryptFor_ne_nil (key : K) (aad plaintext : Bytes) :
    encryptFor cipher key aad plaintext ≠ [] := by
  rw [encryptFor]
  exact List.append_ne_nil_of_left_ne_nil (by decide) _

/-- What the value of a field is bound to. -/
def fieldAAD (type : Bytes) (f : SchemaField) : Bytes := type ++ bytes "/" ++ f.key

/-- The plaintext of a stored value.  A text that is not encrypted was stored before encryption was
added. -/
def decryptField (key : Option K) (type : Bytes) (f : SchemaField) :
    Option (ConfigValue ω) → Option (Option (ConfigValue ω))
  | some (.text raw) =>
      if !isSecretFieldType f.type || raw = [] then some (some (.text raw))
      else do
        let key ← key
        match decryptFor cipher key (fieldAAD type f) raw with
        | some plaintext => some (some (.text plaintext))
        -- tampered with, or moved between fields
        | none => if isV2 raw then none else some (some (.text raw))
  | v => some v

def encryptField (key : Option K) (type : Bytes) (f : SchemaField) :
    Option (ConfigValue ω) → Option (Option (ConfigValue ω))
  | some (.text raw) =>
      if !isSecretFieldType f.type || raw = [] then some (some (.text raw))
      else key.map fun key => some (.text (encryptFor cipher key (fieldAAD type f) raw))
  | v => some v

variable (schemas : List (TypeSchema ω)) (key : Option K)

/-- `ParseConnectorConfig`, of what a stored text decodes to. -/
def parseConnectorConfig (type : Bytes) (data : Option (Config ω)) : Option (Config ω) := do
  let cfg ← data
  match getTypeSchema schemas type with
  | none => some cfg
  | some s => rewrite SchemaField.key (decryptField cipher key type) s.fields cfg

/-- `MarshalConnectorConfig`, up to the encoding of the result. -/
def marshalConnectorConfig (type : Bytes) (cfg : Config ω) : Option (Config ω) :=
  match getTypeSchema schemas type with
  | none => some cfg
  | some s => rewrite SchemaField.key (encryptField cipher key type) s.fields cfg

/-- `SecretFieldsChanged`. -/
def secretFieldsChanged (type : Bytes) (old : Option (Config ω)) (new : Config ω) : Option Bool := do
  let oldConfig ← parseConnectorConfig cipher schemas key type old
  match getTypeSchema schemas type with
  | none => some false
  | some s => some (s.fields.any fun f =>
      isSecretFieldType f.type && oldConfig.textAt f.key ≠ new.textAt f.key)

variable {cipher schemas key}

/-! ### What is read again -/

theorem decryptField_of_not_secret {type : Bytes} {f : SchemaField}
    (hf : isSecretFieldType f.type = false) (v : Option (ConfigValue ω)) :
    decryptField cipher key type f v = some v := by
  rw [decryptField.eq_def]
  split
  · simp [hf]
  · rfl

/-- A value that is encrypted is decrypted again. -/
theorem decryptField_encryptField {type : Bytes} {f : SchemaField} {v v' : Option (ConfigValue ω)}
    (h : encryptField cipher key type f v = some v') : decryptField cipher key type f v' = some v := by
  rw [encryptField.eq_def] at h
  split at h
  · next raw =>
      split at h
      · next hplain =>
          obtain rfl := Option.some.inj h
          rw [decryptField, if_pos hplain]
      · next hsecret =>
          obtain ⟨k, rfl, rfl⟩ := Option.map_eq_some_iff.1 h
          have hne := encryptFor_ne_nil cipher k (fieldAAD type f) raw
          have hsec : isSecretFieldType f.type = true := by
            by_contra hc
            exact hsecret (by simp [hc])
          rw [decryptField, if_neg (by simp [hsec, hne])]
          show (match decryptFor cipher k (fieldAAD type f) (encryptFor cipher k (fieldAAD type f) raw)
            with | some plaintext => _ | none => _) = _
          rw [decryptFor_encryptFor]
  · next hv =>
      obtain rfl := Option.some.inj h
      rw [decryptField.eq_def]
      split
      · next raw => exact absurd rfl (hv raw)
      · rfl

/-- A decoded text or nothing, other than a number, a list or an object. -/
def textOrNull : Option (ConfigValue ω) → Bool
  | some (.bool _) => false
  | some (.other _) => false
  | _ => true

theorem textOrNull_decryptField {type : Bytes} {f : SchemaField} {v v' : Option (ConfigValue ω)}
    (h : decryptField cipher key type f v = some v') : textOrNull v' = textOrNull v := by
  rw [decryptField.eq_def] at h
  split at h
  · next raw =>
      split at h
      · obtain rfl := Option.some.inj h
        rfl
      · obtain ⟨k, -, hk⟩ := Option.bind_eq_some_iff.1 h
        split at hk
        · obtain rfl := Option.some.inj hk
          rfl
        · split at hk
          · cases hk
          · obtain rfl := Option.some.inj hk
            rfl
  · obtain rfl := Option.some.inj h
    rfl

/-- **What is stored is read again.** -/
theorem parse_marshal {type : Bytes} {cfg data : Config ω}
    (h : marshalConnectorConfig cipher schemas key type cfg = some data) :
    parseConnectorConfig cipher schemas key type (some data) = some cfg := by
  rw [marshalConnectorConfig] at h
  rw [parseConnectorConfig, Option.bind_eq_bind, Option.bind_some]
  split at h
  · exact h.symm
  · next s hs =>
      obtain ⟨hfields, hother⟩ := (rewrite_eq_some s.keys_nodup).1 h
      refine (rewrite_eq_some s.keys_nodup).2 ⟨?_, fun k hk => (hother k hk).symm⟩
      exact fun f hf => decryptField_encryptField (hfields f hf)

/-- The values of the fields, and the others, as they are read. -/
theorem parse_spec {type : Bytes} {s : TypeSchema ω} {data : Option (Config ω)} {cfg : Config ω}
    (hs : getTypeSchema schemas type = some s)
    (h : parseConnectorConfig cipher schemas key type data = some cfg) :
    ∃ raw, data = some raw ∧
      (∀ f ∈ s.fields, decryptField cipher key type f (raw f.key) = some (cfg f.key)) ∧
        ∀ k, k ∉ s.fields.map SchemaField.key → cfg k = raw k := by
  obtain ⟨raw, rfl, hraw⟩ := Option.bind_eq_some_iff.1 h
  rw [hs] at hraw
  exact ⟨raw, rfl, (rewrite_eq_some s.keys_nodup).1 hraw⟩

/-- The value of a field that is not a secret is read as it is stored. -/
theorem parse_of_not_secret {type : Bytes} {s : TypeSchema ω} {raw cfg : Config ω}
    (hs : getTypeSchema schemas type = some s)
    (h : parseConnectorConfig cipher schemas key type (some raw) = some cfg) {f : SchemaField}
    (hf : f ∈ s.fields) (hsecret : isSecretFieldType f.type = false) : cfg f.key = raw f.key := by
  obtain ⟨_, heq, hfields, -⟩ := parse_spec hs h
  obtain rfl := Option.some.inj heq
  have hdec := hfields f hf
  rw [decryptField_of_not_secret hsecret] at hdec
  exact (Option.some.inj hdec).symm

end WiseLabz.Connector
