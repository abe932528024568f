/-
**Rows under keys.**

A table, or a map, is a list of rows, at most one under each key.  Putting a row replaces the one
under its key.  What a sequence of writes leaves is read off key by key.

Main definitions:

* `Lib.lookup` — the row under a key;
* `Lib.put`, `Lib.putAll` — rows are written, each in the place of the one under its key;
* `Lib.KeyNodup` — there is at most one row under each key;
* `Lib.distinctOn` — the first row under each key.

Main results:

* `Lib.lookup_put`, `Lib.lookup_putAll` — what is under a key after writes;
* `Lib.lookup_foldl_put` — **what is under a key after a loop that writes for some rows of a
  table**;
* `Lib.KeyNodup.put`, `Lib.KeyNodup.putAll` — writes keep keys distinct;
* `Lib.distinctOn_spec` — **which rows are the first under their keys**.
-/

import Mathlib.Data.List.Nodup

set_option relaxedAutoImplicit false
set_option autoImplicit false

namespace Lib

universe u v w

variable {α : Type u} {β : Type v} {κ : Type w} [DecidableEq κ] {key : α → κ}

/-- The row under a key. -/
def lookup (key : α → κ) (rows : List α) (k : κ) : Option α := rows.find? fun r => key r = k

/-- A row is written in the place of the one under its key, or added. -/
def put (key : α → κ) (rows : List α) (r : α) : List α :=
  if (lookup key rows (key r)).isSome then rows.map fun r' => if key r' = key r then r else r'
  else rows ++ [r]

/-- Rows are written one after the other. -/
def putAll (key : α → κ) (rows : List α) (rs : List α) : List α := rs.foldl (put key) rows

/-- The rows whose key no earlier row has. -/
def distinctOn (key : α → κ) (rows : List α) : List α :=
  rows.foldl (fun kept r => if (lookup key kept (key r)).isSome then kept else kept ++ [r]) []

/-- There is at most one row under each key. -/
def KeyNodup (key : α → κ) (rows : List α) : Prop := (rows.map key).Nodup

omit [DecidableEq κ] in
theorem keyNodup_nil : KeyNodup key [] := List.nodup_nil

instance (rows : List α) : Decidable (KeyNodup key rows) :=
  inferInstanceAs (Decidable (rows.map key).Nodup)

/-! ### Looking up -/

@[simp] theorem lookup_nil (k : κ) : lookup key [] k = none := rfl

theorem lookup_cons (r : α) (rows : List α) (k : κ) :
    lookup key (r :: rows) k = if key r = k then some r else lookup key rows k := by
  rw [lookup, List.find?_cons]
  by_cases h : key r = k <;> simp [h, lookup]

theorem lookup_append (rows rows' : List α) (k : κ) :
    lookup key (rows ++ rows') k = (lookup key rows k).or (lookup key rows' k) := by
  rw [lookup, List.find?_append]
  rfl

theorem lookup_eq_some {rows : List α} {k : κ} {r : α} (h : lookup key rows k = some r) :
    r ∈ rows ∧ key r = k :=
  ⟨List.mem_of_find?_eq_some h, by simpa using List.find?_some h⟩

theorem lookup_eq_none {rows : List α} {k : κ} :
    lookup key rows k = none ↔ ∀ r ∈ rows, key r ≠ k := by
  simp [lookup, List.find?_eq_none]

theorem lookup_isSome {rows : List α} {k : κ} :
    (lookup key rows k).isSome = true ↔ ∃ r ∈ rows, key r = k := by
  simp [lookup, List.find?_isSome]

omit [DecidableEq κ] in
theorem KeyNodup.eq_of_key {rows : List α} (h : KeyNodup key rows) {r r' : α} (hr : r ∈ rows)
    (hr' : r' ∈ rows) (hkey : key r = key r') : r = r' :=
  List.inj_on_of_nodup_map h hr hr' hkey

/-- A row of the table is found under its key. -/
theorem KeyNodup.lookup_of_mem {rows : List α} (h : KeyNodup key rows) {r : α} (hr : r ∈ rows) :
    lookup key rows (key r) = some r := by
  have hsome : (lookup key rows (key r)).isSome = true := lookup_isSome.2 ⟨r, hr, rfl⟩
  obtain ⟨r', hr'⟩ := Option.isSome_iff_exists.1 hsome
  obtain ⟨hmem, hkey⟩ := lookup_eq_some hr'
  rw [hr', h.eq_of_key hmem hr hkey]

/-- The rows under the key of a row of the table. -/
theorem KeyNodup.filter_key {rows : List α} (h : KeyNodup key rows) {r : α} (hr : r ∈ rows) :
    rows.filter (fun r' => key r' = key r) = [r] := by
  induction rows with
  | nil => cases hr
  | cons s rows ih =>
      obtain ⟨hs, hrows⟩ := List.nodup_cons.1 (show (key s :: rows.map key).Nodup from h)
      rcases List.mem_cons.1 hr with rfl | hr
      · rw [List.filter_cons_of_pos (by simp), List.filter_eq_nil_iff.2]
        intro r' hr' hkey
        exact hs (of_decide_eq_true hkey ▸ List.mem_map_of_mem hr')
      · rw [List.filter_cons_of_neg, ih hrows hr]
        rw [decide_eq_true_eq]
        exact fun hkey => hs (hkey ▸ List.mem_map_of_mem hr)

theorem KeyNodup.mem_iff {rows : List α} (h : KeyNodup key rows) {r : α} :
    r ∈ rows ↔ lookup key rows (key r) = some r :=
  ⟨h.lookup_of_mem, fun hr => (lookup_eq_some hr).1⟩

/-- Making a row of each row, under the same key. -/
theorem lookup_map {key' : β → κ} {f : β → α} (hf : ∀ x, key (f x) = key' x) (xs : List β) (k : κ) :
    lookup key (xs.map f) k = (lookup key' xs k).map f := by
  rw [lookup, List.find?_map]
  congr 2
  funext x
  simp [hf x]

omit [DecidableEq κ] in
theorem KeyNodup.map {f : α → α} (hf : ∀ r, key (f r) = key r) {rows : List α}
    (h : KeyNodup key rows) : KeyNodup key (rows.map f) := by
  rw [KeyNodup, List.map_map]
  have hkeys : rows.map (key ∘ f) = rows.map key := List.map_congr_left fun r _ => hf r
  rw [hkeys]
  exact h

omit [DecidableEq κ] in
theorem KeyNodup.filter {rows : List α} (h : KeyNodup key rows) (p : α → Bool) :
    KeyNodup key (rows.filter p) :=
  h.sublist (List.filter_sublist.map _)

/-- What is left under a key after rows were deleted. -/
theorem KeyNodup.lookup_filter {rows : List α} (h : KeyNodup key rows) (p : α → Bool) (k : κ) :
    lookup key (rows.filter p) k = (lookup key rows k).filter p := by
  cases hr : lookup key rows k with
  | none =>
      rw [lookup_eq_none] at hr
      rw [Option.filter_none, lookup_eq_none]
      exact fun r hmem => hr r (List.mem_of_mem_filter hmem)
  | some r =>
      obtain ⟨hmem, rfl⟩ := lookup_eq_some hr
      by_cases hp : p r = true
      · rw [Option.filter_some_pos hp]
        exact (h.filter p).lookup_of_mem (List.mem_filter.2 ⟨hmem, hp⟩)
      · rw [Option.filter_some_neg (by simpa using hp), lookup_eq_none]
        intro r' hmem' hkey
        obtain ⟨hmem', hp'⟩ := List.mem_filter.1 hmem'
        rw [h.eq_of_key hmem' hmem hkey] at hp'
        exact hp hp'

/-! ### Writing -/

/-- **What is under a key after a write.** -/
theorem lookup_put (rows : List α) (r : α) (k : κ) :
    lookup key (put key rows r) k = if k = key r then some r else lookup key rows k := by
  unfold put
  split
  · next hsome =>
      have hf : ∀ r', key (if key r' = key r then r else r') = key r' := by
        intro r'
        split
        · next h => rw [h]
        · rfl
      rw [lookup_map hf]
      split
      · next hk =>
          subst hk
          obtain ⟨r', hr'⟩ := Option.isSome_iff_exists.1 hsome
          rw [hr', Option.map_some, if_pos (lookup_eq_some hr').2]
      · next hk =>
          cases hr' : lookup key rows k with
          | none => rfl
          | some r' =>
              rw [Option.map_some, if_neg]
              rw [(lookup_eq_some hr').2]
              exact hk
  · next hnone =>
      rw [lookup_append, lookup_cons, lookup_nil]
      by_cases hk : k = key r
      · subst hk
        rw [Option.not_isSome_iff_eq_none.1 hnone]
        simp
      · rw [if_neg (Ne.symm hk), if_neg hk, Option.or_none]

theorem mem_put {rows : List α} {r x : α} (h : x ∈ put key rows r) : x = r ∨ x ∈ rows := by
  unfold put at h
  split at h
  · obtain ⟨y, hy, rfl⟩ := List.mem_map.1 h
    split
    · exact Or.inl rfl
    · exact Or.inr hy
  · rcases List.mem_append.1 h with h | h
    · exact Or.inr h
    · exact Or.inl (List.mem_singleton.1 h)

/-- A write leaves the rows of a kind alone to which no row under its key belongs. -/
theorem filter_put {p : α → Bool} {r : α} (hp : ∀ x, key x = key r → p x = false)
    (rows : List α) : (put key rows r).filter p = rows.filter p := by
  have hmap : ∀ xs : List α,
      (xs.map fun x => if key x = key r then r else x).filter p = xs.filter p := by
    intro xs
    induction xs with
    | nil => rfl
    | cons x xs ih =>
        rw [List.map_cons]
        split
        · next hkey =>
            rw [List.filter_cons_of_neg (by rw [hp r rfl]; exact Bool.false_ne_true), ih,
              List.filter_cons_of_neg (by rw [hp x hkey]; exact Bool.false_ne_true)]
        · rw [List.filter_cons, List.filter_cons, ih]
  unfold put
  split
  · exact hmap rows
  · rw [List.filter_append, List.filter_cons_of_neg (by rw [hp r rfl]; exact Bool.false_ne_true),
      List.filter_nil, List.append_nil]

theorem KeyNodup.append_singleton {rows : List α} (h : KeyNodup key rows) {r : α}
    (hr : lookup key rows (key r) = none) : KeyNodup key (rows ++ [r]) := by
  rw [KeyNodup, List.map_append, List.map_singleton, List.nodup_append]
  refine ⟨h, List.nodup_singleton _, ?_⟩
  rintro k hk k' hk' rfl
  obtain ⟨r', hr', rfl⟩ := List.mem_map.1 hk
  exact lookup_eq_none.1 hr r' hr' (List.mem_singleton.1 hk')

theorem KeyNodup.put {rows : List α} (h : KeyNodup key rows) (r : α) :
    KeyNodup key (put key rows r) := by
  unfold Lib.put
  split
  · refine h.map fun r' => ?_
    split
    · next heq => rw [heq]
    · rfl
  · next hnone => exact h.append_singleton (Option.not_isSome_iff_eq_none.1 hnone)

/-- What is under a key after a write of several rows. -/
theorem lookup_putAll {rows rs : List α} (h : KeyNodup key rs) (k : κ) :
    lookup key (putAll key rows rs) k = (lookup key rs k).or (lookup key rows k) := by
  induction rs generalizing rows with
  | nil => rfl
  | cons r rs ih =>
      obtain ⟨hr, hrs⟩ := List.nodup_cons.1 (show (key r :: rs.map key).Nodup from h)
      rw [putAll, List.foldl_cons, ← putAll, ih hrs, lookup_put, lookup_cons]
      by_cases hk : key r = k
      · subst hk
        have hnone : lookup key rs (key r) = none := by
          rw [lookup_eq_none]
          exact fun r' hr' hkey => hr (hkey ▸ List.mem_map_of_mem hr')
        simp [hnone]
      · rw [if_neg (Ne.symm hk), if_neg hk]

theorem KeyNodup.putAll {rows : List α} (h : KeyNodup key rows) (rs : List α) :
    KeyNodup key (putAll key rows rs) := by
  induction rs generalizing rows with
  | nil => exact h
  | cons r rs ih => exact ih (h.put r)

/-- What is under a key after a write of several rows, some of them under the same key. -/
theorem lookup_putAll_reverse (rows rs : List α) (k : κ) :
    lookup key (putAll key rows rs) k = (lookup key rs.reverse k).or (lookup key rows k) := by
  induction rs generalizing rows with
  | nil => rfl
  | cons r rs ih =>
      rw [putAll, List.foldl_cons, ← putAll, ih, lookup_put, List.reverse_cons, lookup_append,
        lookup_cons, lookup_nil]
      by_cases hk : key r = k
      · subst hk
        simp
      · rw [if_neg (Ne.symm hk), if_neg hk, Option.or_none]

theorem mem_putAll {rows rs : List α} {x : α} (h : x ∈ putAll key rows rs) : x ∈ rs ∨ x ∈ rows := by
  induction rs generalizing rows with
  | nil => exact Or.inr h
  | cons r rs ih =>
      rcases ih h with h | h
      · exact Or.inl (List.mem_cons_of_mem _ h)
      · rcases mem_put h with rfl | h
        · exact Or.inl List.mem_cons_self
        · exact Or.inr h

/-- Writing rows under keys that are there already replaces rows. -/
theorem putAll_eq_map {rows rs : List α} (h : KeyNodup key rs)
    (hknown : ∀ r ∈ rs, (lookup key rows (key r)).isSome = true) :
    putAll key rows rs = rows.map fun r => (lookup key rs (key r)).getD r := by
  induction rs generalizing rows with
  | nil => exact (List.map_id' rows).symm
  | cons r rs ih =>
      obtain ⟨hr, hrs⟩ := List.nodup_cons.1 (show (key r :: rs.map key).Nodup from h)
      have hput : Lib.put key rows r = rows.map fun r' => if key r' = key r then r else r' := by
        rw [Lib.put, if_pos (hknown r List.mem_cons_self)]
      have hkept : ∀ r' ∈ rs, (lookup key (Lib.put key rows r) (key r')).isSome = true := by
        intro r' hr'
        rw [lookup_put]
        split
        · rfl
        · exact hknown r' (List.mem_cons_of_mem _ hr')
      rw [putAll, List.foldl_cons, ← putAll, ih hrs hkept, hput, List.map_map]
      refine List.map_congr_left fun r' _ => ?_
      rw [Function.comp, lookup_cons]
      by_cases hk : key r' = key r
      · have hnone : lookup key rs (key r) = none := by
          rw [lookup_eq_none]
          exact fun r'' hr'' hkey => hr (hkey ▸ List.mem_map_of_mem hr'')
        simp [hk, hnone]
      · simp [hk, Ne.symm hk]

/-- Writing the rows of a table to an empty one. -/
theorem putAll_nil {rows : List α} (h : KeyNodup key rows) : putAll key [] rows = rows := by
  have happend : ∀ rs acc, KeyNodup key (acc ++ rs) → putAll key acc rs = acc ++ rs := by
    intro rs
    induction rs with
    | nil => intro acc _; exact (List.append_nil acc).symm
    | cons r rs ih =>
        intro acc hacc
        have hput : Lib.put key acc r = acc ++ [r] := by
          have hkeys : (acc.map key ++ key r :: rs.map key).Nodup := by
            simpa [KeyNodup] using hacc
          have hnew : lookup key acc (key r) = none := by
            rw [lookup_eq_none]
            intro r' hr' hkey
            exact (List.nodup_append.1 hkeys).2.2 (key r') (List.mem_map_of_mem hr') (key r)
              (List.mem_cons_self ..) hkey
          rw [Lib.put, hnew]
          rfl
        have hsplit : acc ++ r :: rs = acc ++ [r] ++ rs := by simp
        rw [putAll, List.foldl_cons, hput, ← putAll, hsplit]
        exact ih _ (hsplit ▸ hacc)
  exact happend rows [] h

omit [DecidableEq κ] in
/-- Of a loop over keys that makes rows of some of them, the keys of the rows. -/
theorem map_filterMap_sublist {f : κ → Option α} (hf : ∀ k r, f k = some r → key r = k)
    (ks : List κ) : ((ks.filterMap f).map key).Sublist ks := by
  induction ks with
  | nil => exact List.Sublist.refl _
  | cons k ks ih =>
      rw [List.filterMap_cons]
      cases hk : f k with
      | none => exact ih.cons k
      | some r =>
          rw [List.map_cons, hf k r hk]
          exact ih.cons_cons k

/-! ### The first row under each key -/

theorem distinctOn_spec (rows : List α) :
    KeyNodup key (distinctOn key rows) ∧ (∀ r ∈ distinctOn key rows, r ∈ rows) ∧
      ∀ r ∈ rows, ∃ r' ∈ distinctOn key rows, key r' = key r := by
  have hloop : ∀ todo kept done : List α, KeyNodup key kept → (∀ r ∈ kept, r ∈ done) →
      (∀ r ∈ done, ∃ r' ∈ kept, key r' = key r) →
      KeyNodup key (todo.foldl (fun kept r =>
        if (lookup key kept (key r)).isSome then kept else kept ++ [r]) kept) ∧
      (∀ r ∈ todo.foldl (fun kept r =>
        if (lookup key kept (key r)).isSome then kept else kept ++ [r]) kept, r ∈ done ++ todo) ∧
      ∀ r ∈ done ++ todo, ∃ r' ∈ todo.foldl (fun kept r =>
        if (lookup key kept (key r)).isSome then kept else kept ++ [r]) kept, key r' = key r := by
    intro todo
    induction todo with
    | nil =>
        intro kept done hnodup hsub hall
        rw [List.append_nil]
        exact ⟨hnodup, hsub, hall⟩
    | cons r todo ih =>
        intro kept done hnodup hsub hall
        have hsplit : done ++ r :: todo = done ++ [r] ++ todo := by simp
        rw [List.foldl_cons, hsplit]
        split
        · next hsome =>
            obtain ⟨r', hr', hkey⟩ := lookup_isSome.1 hsome
            refine ih kept (done ++ [r]) hnodup (fun s hs => List.mem_append_left _ (hsub s hs)) ?_
            intro s hs
            rcases List.mem_append.1 hs with hs | hs
            · exact hall s hs
            · exact ⟨r', hr', by rw [List.mem_singleton.1 hs, hkey]⟩
        · next hnone =>
            refine ih (kept ++ [r]) (done ++ [r])
              (hnodup.append_singleton (Option.not_isSome_iff_eq_none.1 hnone)) ?_ ?_
            · intro s hs
              rcases List.mem_append.1 hs with hs | hs
              · exact List.mem_append_left _ (hsub s hs)
              · exact List.mem_append_right _ hs
            · intro s hs
              rcases List.mem_append.1 hs with hs | hs
              · obtain ⟨s', hs', hkey⟩ := hall s hs
                exact ⟨s', List.mem_append_left _ hs', hkey⟩
              · exact ⟨r, List.mem_append_right _ (List.mem_singleton.2 rfl),
                  by rw [List.mem_singleton.1 hs]⟩
  have h := hloop rows [] [] List.nodup_nil (fun _ hr => absurd hr List.not_mem_nil)
    (fun _ hr => absurd hr List.not_mem_nil)
  rwa [List.nil_append] at h

theorem distinctOn_nodup (rows : List α) : KeyNodup key (distinctOn key rows) :=
  (distinctOn_spec rows).1

theorem mem_of_mem_distinctOn {rows : List α} {r : α} (h : r ∈ distinctOn key rows) : r ∈ rows :=
  (distinctOn_spec rows).2.1 r h

theorem exists_mem_distinctOn {rows : List α} {r : α} (h : r ∈ rows) :
    ∃ r' ∈ distinctOn key rows, key r' = key r :=
  (distinctOn_spec rows).2.2 r h

/-- A row whose key tells it is kept. -/
theorem mem_distinctOn {rows : List α} {r : α} (h : r ∈ rows)
    (hkey : ∀ r' ∈ rows, key r' = key r → r' = r) : r ∈ distinctOn key rows := by
  obtain ⟨r', hr', heq⟩ : ∃ r' ∈ distinctOn key rows, key r' = key r := exists_mem_distinctOn h
  rwa [← hkey r' (mem_of_mem_distinctOn hr') heq]

/-! ### A loop that writes -/

section Loop

variable {key' : β → κ} (c : β → Bool) (g : β → α)

theorem KeyNodup.foldl_put {rows : List α} (h : KeyNodup key rows) (xs : List β) :
    KeyNodup key (xs.foldl (fun u x => if c x then Lib.put key u (g x) else u) rows) := by
  induction xs generalizing rows with
  | nil => exact h
  | cons x xs ih =>
      rw [List.foldl_cons]
      split
      · exact ih (h.put _)
      · exact ih h

/-- **What is under a key after a loop over a table** that writes a row, under the same key, for
some of its rows. -/
theorem lookup_foldl_put {xs : List β} (h : KeyNodup key' xs) (hg : ∀ x, key (g x) = key' x)
    (rows : List α) (k : κ) :
    lookup key (xs.foldl (fun u x => if c x then put key u (g x) else u) rows) k =
      (((lookup key' xs k).filter c).map g).or (lookup key rows k) := by
  induction xs generalizing rows with
  | nil => rfl
  | cons x xs ih =>
      obtain ⟨hx, hxs⟩ := List.nodup_cons.1 (show (key' x :: xs.map key').Nodup from h)
      rw [List.foldl_cons, ih hxs, lookup_cons]
      by_cases hk : key' x = k
      · subst hk
        have hnone : lookup key' xs (key' x) = none := by
          rw [lookup_eq_none]
          exact fun y hy hkey => hx (hkey ▸ List.mem_map_of_mem hy)
        rw [hnone, if_pos rfl]
        by_cases hc : c x = true
        · rw [if_pos hc, lookup_put, if_pos (hg x).symm, Option.filter_some_pos hc]
          rfl
        · rw [if_neg hc, Option.filter_some_neg (by simpa using hc)]
          rfl
      · rw [if_neg hk]
        by_cases hc : c x = true
        · rw [if_pos hc, lookup_put, if_neg]
          rw [hg x]
          exact Ne.symm hk
        · rw [if_neg hc]

end Loop

end Lib
