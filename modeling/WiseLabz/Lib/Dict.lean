/-
**Dictionaries.**

A map of the modelled language as the list of its entries, no two under one key.  Two dictionaries
are the same when they have the same value under every key; the order of the entries does not count.

Main definitions:

* `Lib.Dict` — **dictionaries**, with `get`, `set`, `erase` and `keys`.

Main results:

* `Lib.Dict.get_set`, `Lib.Dict.get_erase` — the values after a write.
-/

import WiseLabz.Lib.Table

set_option relaxedAutoImplicit false
set_option autoImplicit false

namespace Lib

universe u v

variable {κ : Type u} {α : Type v}

/-- **A dictionary**: entries under distinct keys. -/
structure Dict (κ : Type u) (α : Type v) where
  entries : List (κ × α)
  nodup : KeyNodup Prod.fst entries
  deriving DecidableEq

namespace Dict

/-- The dictionary without entries. -/
def empty : Dict κ α := ⟨[], List.nodup_nil⟩

def keys (d : Dict κ α) : List κ := d.entries.map Prod.fst

theorem keys_nodup (d : Dict κ α) : d.keys.Nodup := d.nodup

variable [DecidableEq κ]

/-- The value under a key. -/
def get (d : Dict κ α) (k : κ) : Option α := (lookup Prod.fst d.entries k).map Prod.snd

/-- `d[k] = v` -/
def set (d : Dict κ α) (k : κ) (v : α) : Dict κ α := ⟨put Prod.fst d.entries (k, v), d.nodup.put _⟩

/-- `delete(d, k)` -/
def erase (d : Dict κ α) (k : κ) : Dict κ α :=
  ⟨d.entries.filter fun e => e.1 ≠ k, d.nodup.filter _⟩

@[simp] theorem get_empty (k : κ) : (empty : Dict κ α).get k = none := rfl

theorem mem_keys {d : Dict κ α} {k : κ} : k ∈ d.keys ↔ (d.get k).isSome = true := by
  rw [get, Option.isSome_map, lookup_isSome]
  exact List.mem_map

@[simp] theorem get_set (d : Dict κ α) (k k' : κ) (v : α) :
    (d.set k v).get k' = if k' = k then some v else d.get k' := by
  rw [get, set, lookup_put]
  split
  · rfl
  · rfl

@[simp] theorem get_erase (d : Dict κ α) (k k' : κ) :
    (d.erase k).get k' = if k' = k then none else d.get k' := by
  rw [get, erase, d.nodup.lookup_filter]
  split
  · next h =>
      subst h
      cases hl : lookup Prod.fst d.entries k' with
      | none => rfl
      | some e =>
          rw [Option.filter_some_neg]
          · rfl
          · simp [(lookup_eq_some hl).2]
  · next h =>
      rw [get]
      cases hl : lookup Prod.fst d.entries k' with
      | none => rfl
      | some e =>
          rw [Option.filter_some_pos]
          simp [(lookup_eq_some hl).2, h]

end Dict

end Lib
