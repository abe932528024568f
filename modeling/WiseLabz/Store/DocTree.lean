/-
**The active docs form a forest.**

Whatever the store calls on the tree of docs do, the active docs keep the shape that the checks of a
parent ask for: parents are active docs of the same service, chains have at most five docs, and the
human docs without a service lie under human ones.  What carries it through deletions and
restorations is that the docs of one deletion batch keep their scopes among each other.

Main definitions:

* `Store.parentOf` — the active forest: the parent of each active doc;
* `Store.TreeInv` — **the invariant**;
* `Store.treeMachine` — the calls on the tree, in any order;
* `Store.Forest` — what a reader of the active docs can rely on.

Main results:

* `Store.climb_spec`, `Store.subtreeHeight_spec` — what the two walks of the check find;
* `Store.docs_form_forest` — **the active docs always form a forest**.
-/

import WiseLabz.Store.Hierarchy
import WiseLabz.Lib.Forest
import WiseLabz.Lib.Machine

set_option relaxedAutoImplicit false
set_option autoImplicit false

namespace WiseLabz.Store

open Lib

/-! ### The active forest -/

/-- The parent of an active doc that has one. -/
def parentOf (db : Db) (id : Bytes) : Option Bytes :=
  match getDoc db id with
  | none => none
  | some d => if d.parentId = [] then none else some d.parentId

/-- `p` may be the parent of `d`: it has the same service, and a human doc without a service lies
under a human one. -/
def InScope (d p : DocRecord) : Prop :=
  p.serviceId = d.serviceId ∧ (d.serviceId = [] → d.origin = .human → p.origin = .human)

theorem parentOf_eq_some {db : Db} {id parentId : Bytes} :
    parentOf db id = some parentId ↔
      parentId ≠ [] ∧ ∃ d, getDoc db id = some d ∧ d.parentId = parentId := by
  rw [parentOf]
  cases getDoc db id with
  | none => simp
  | some d =>
      by_cases h : d.parentId = []
      · simp only [h, if_true, reduceCtorEq, Option.some.injEq, exists_eq_left', false_iff, not_and]
        intro hne heq
        exact hne heq.symm
      · simp only [h, if_false, Option.some.injEq, exists_eq_left']
        constructor
        · rintro rfl
          exact ⟨h, rfl⟩
        · rintro ⟨-, heq⟩
          exact heq

theorem parentOf_of_root {db : Db} {id : Bytes} {d : DocRecord} (hd : getDoc db id = some d)
    (hroot : d.parentId = []) : parentOf db id = none := by
  rw [parentOf, hd]
  exact if_pos hroot

theorem parentOf_of_child {db : Db} {id : Bytes} {d : DocRecord} (hd : getDoc db id = some d)
    (hchild : d.parentId ≠ []) : parentOf db id = some d.parentId :=
  parentOf_eq_some.2 ⟨hchild, d, hd, rfl⟩

/-! ### What the walks find -/

/-- What a successful walk up has found: no parent at all, or an active one in the scope of `d`,
whose chain ends at a root and avoids the docs `seen`. -/
theorem climb_spec {db : Db} {d : DocRecord} {depth : ℕ} {seen : List Bytes} {id : Bytes} {D : ℕ}
    (h : climb db d depth seen id = .ok D) :
    (id = [] ∧ D = depth) ∨
      (id ≠ [] ∧ ∃ p n, getDoc db id = some p ∧ InScope d p ∧ Depth (parentOf db) id n ∧
        D = depth + n ∧ ∀ x ∈ seen, ∀ k, ¬ Below (parentOf db) id x k) := by
  fun_induction climb db d depth seen id with
  | case1 depth seen => exact Or.inl ⟨rfl, (Except.ok.inj h).symm⟩
  | case2 => simp at h
  | case3 => simp at h
  | case4 => simp at h
  | case5 => simp at h
  | case6 => simp at h
  | case7 depth seen id hid hseen parent hparent hservice hhuman hdepth ih =>
      right
      have hscope : InScope d parent := by
        refine ⟨not_not.1 hservice, fun hs ho => ?_⟩
        by_contra hne
        exact hhuman ⟨hs, ho, hne⟩
      rcases ih h with ⟨hroot, rfl⟩ | ⟨hchild, p, n, hp, -, hn, rfl, havoid⟩
      · have hup := parentOf_of_root hparent hroot
        refine ⟨hid, parent, 1, hparent, hscope, .root hup, rfl, ?_⟩
        intro x hx k hbelow
        cases hbelow with
        | refl => exact hseen hx
        | step hstep => rw [hup] at hstep; cases hstep
      · have hup := parentOf_of_child hparent hchild
        refine ⟨hid, parent, n + 1, hparent, hscope, .child hup hn, by omega, ?_⟩
        intro x hx k hbelow
        cases hbelow with
        | refl => exact hseen hx
        | step hstep hrest =>
            rw [hup] at hstep
            cases hstep
            exact havoid x (List.mem_cons_of_mem _ hx) _ hrest

/-- The walk down reaches every doc below the given ones, up to its bound. -/
theorem le_heightFrom {db : Db} {fuel k : ℕ} {ids : List Bytes} {a c : Bytes} (hc : c ∈ ids)
    (h : Below (parentOf db) a c k) : min k fuel + 1 ≤ heightFrom db fuel ids := by
  induction fuel generalizing ids k c with
  | zero => simp [heightFrom]
  | succ fuel ih =>
      rw [heightFrom]
      cases k with
      | zero => split <;> omega
      | succ k =>
          obtain ⟨b, hup, hbelow⟩ := h.top
          obtain ⟨hne, d, hd, rfl⟩ := parentOf_eq_some.1 hup
          obtain ⟨hm, rfl, hdel⟩ := getDoc_eq_some hd
          have hb : d.id ∈ activeChildren db ids := by
            refine List.mem_map.2 ⟨d, List.mem_filter.2 ⟨hm, ?_⟩, rfl⟩
            simp [hdel, hne, hc]
          split
          · rename_i hnil
            rw [hnil] at hb
            simp at hb
          · rename_i c' cs hcs
            rw [hcs] at hb
            have := ih hb hbelow
            omega

theorem subtreeHeight_pos (db : Db) (id : Bytes) : 1 ≤ subtreeHeight db id := by
  rw [subtreeHeight]
  split
  · exact (Nat.le_add_left 1 _).trans (le_heightFrom (List.mem_singleton.2 rfl) (.refl id))
  · exact le_rfl

/-- What the walk down finds. -/
theorem subtreeHeight_spec {db : Db} {id a : Bytes} {k : ℕ} (hid : (getDoc db id).isSome)
    (h : Below (parentOf db) a id k) : min k 5 + 1 ≤ subtreeHeight db id := by
  rw [subtreeHeight, if_pos hid]
  exact le_heightFrom (List.mem_singleton.2 rfl) h

/-- **What a successful check of a parent has found.** -/
theorem validateDocParent_spec {db : Db} {d : DocRecord} {parentId : Bytes}
    (h : validateDocParent db d parentId = .ok ()) :
    ∃ D, 1 ≤ D ∧ D + subtreeHeight db d.id - 1 ≤ 5 ∧
      ((parentId = [] ∧ D = 1) ∨
        (parentId ≠ [] ∧ ∃ p n, getDoc db parentId = some p ∧ InScope d p ∧
          Depth (parentOf db) parentId n ∧ D = n + 1 ∧
          ∀ k, ¬ Below (parentOf db) parentId d.id k)) := by
  obtain ⟨D, hclimb, hret⟩ := bind_eq_ok.1 h
  rw [ite_error_eq_ok] at hret
  obtain ⟨hle, -⟩ := hret
  rcases climb_spec hclimb with ⟨hroot, rfl⟩ | ⟨hchild, p, n, hp, hscope, hn, rfl, havoid⟩
  · exact ⟨1, le_rfl, not_lt.1 hle, Or.inl ⟨hroot, rfl⟩⟩
  · exact ⟨1 + n, Nat.le_add_right 1 n, not_lt.1 hle,
      Or.inr ⟨hchild, p, n, hp, hscope, hn, Nat.add_comm 1 n, havoid d.id (by simp)⟩⟩

/-- A doc `k` levels down the checked subtree stays within five levels. -/
theorem depth_le_five {D k height : ℕ} (hpos : 1 ≤ D) (hle : D + height - 1 ≤ 5)
    (hk : min k 5 + 1 ≤ height) : D + k ≤ 5 := by omega

/-! ### The invariant -/

/-- **The invariant of the tree.**  The docs of one deletion batch are in scope of each other as the
active ones are, so that a restored batch fits together again. -/
structure TreeInv (db : Db) : Prop where
  /-- Ids are distinct. -/
  unique : UniqueIds db
  /-- No id is empty. -/
  ids : ∀ d ∈ db.docs, d.id ≠ []
  /-- The lab docs are those without a service. -/
  kinds : ∀ d ∈ db.docs, d.kind = .lab ↔ d.serviceId = []
  /-- The parent of an active doc is active. -/
  active : ∀ d ∈ db.docs, d.deletedAt = none → d.parentId ≠ [] → (getDoc db d.parentId).isSome
  /-- A doc is in scope of its parent, if both are active or share their deletion time. -/
  inScope : ∀ d ∈ db.docs, ∀ p ∈ db.docs, p.id = d.parentId → p.deletedAt = d.deletedAt → InScope d p
  /-- Chains of active docs have at most five docs. -/
  depth : ∀ d ∈ db.docs, d.deletedAt = none → ∃ n ≤ 5, Depth (parentOf db) d.id n

variable {db db' : Db}

/-- The ids of active docs are closed under parents. -/
theorem TreeInv.isSome_parent (h : TreeInv db) {a b : Bytes} (hup : parentOf db a = some b) : (getDoc db b).isSome := by
  obtain ⟨hne, d, hd, rfl⟩ := parentOf_eq_some.1 hup
  obtain ⟨hm, -, hdel⟩ := getDoc_eq_some hd
  exact h.active d hm hdel hne

/-- No active doc lies below a doc that is not active. -/
theorem TreeInv.below_inactive (h : TreeInv db) {a x : Bytes} (hx : (getDoc db x).isSome = false)
    {k : ℕ} (hbelow : Below (parentOf db) a x k) : k = 0 := by
  cases k with
  | zero => rfl
  | succ k =>
      obtain ⟨b, hup, -⟩ := hbelow.top
      have := h.isSome_parent hup
      rw [hx] at this
      simp at this

/-! ### Creating -/

/-- **A checked new row keeps the invariant.** -/
theorem TreeInv.insert (h : TreeInv db) {r x : DocRecord}
    (hvalid : validateDocParent db r r.parentId = .ok ()) (hdocs : db'.docs = db.docs ++ [x])
    (hfresh : ∀ d ∈ db.docs, d.id ≠ x.id) (hid : x.id ≠ []) (hdel : x.deletedAt = none)
    (hkind : x.kind = .lab ↔ x.serviceId = []) (hparent : x.parentId = r.parentId)
    (hservice : x.serviceId = r.serviceId) (horigin : x.origin = r.origin) : TreeInv db' := by
  have hget := getDoc_append hdocs hfresh hdel
  have hgetx : getDoc db' x.id = some x := by rw [hget, if_pos rfl]
  have hnew : (getDoc db x.id).isSome = false := by
    cases hg : getDoc db x.id with
    | none => rfl
    | some d => exact (hfresh d (getDoc_eq_some hg).1 (getDoc_eq_some hg).2.1).elim
  have hup : ∀ a, a ≠ x.id → parentOf db' a = parentOf db a := by
    intro a ha
    rw [parentOf, parentOf, hget, if_neg ha]
  obtain ⟨D, hpos, hle, hD⟩ := validateDocParent_spec hvalid
  have hheight := subtreeHeight_pos db r.id
  -- the depth of the new row is the one that the walk up has found
  have hdepth : Depth (parentOf db') x.id D := by
    rcases hD with ⟨hroot, rfl⟩ | ⟨hchild, p, n, hp, -, hn, rfl, -⟩
    · exact .root (parentOf_of_root hgetx (hparent.trans hroot))
    · refine .child (parentOf_of_child hgetx (hparent ▸ hchild)) ?_
      rw [hparent]
      refine hn.congr (S := fun a => (getDoc db a).isSome) (fun _ _ _ => h.isSome_parent) ?_
        (by simp [hp])
      intro a ha
      refine hup a fun hax => ?_
      rw [hax, hnew] at ha
      simp at ha
  refine ⟨?_, ?_, ?_, ?_, ?_, ?_⟩
  · rw [UniqueIds, hdocs, List.map_append, List.nodup_append]
    refine ⟨h.unique, List.nodup_singleton _, ?_⟩
    simpa using hfresh
  · intro d hd
    rw [hdocs] at hd
    rcases List.mem_append.1 hd with hd | hd
    · exact h.ids d hd
    · rw [List.mem_singleton.1 hd]
      exact hid
  · intro d hd
    rw [hdocs] at hd
    rcases List.mem_append.1 hd with hd | hd
    · exact h.kinds d hd
    · rw [List.mem_singleton.1 hd]
      exact hkind
  · intro d hd hdd hne
    rw [hget]
    split
    · rfl
    · rw [hdocs] at hd
      rcases List.mem_append.1 hd with hd | hd
      · exact h.active d hd hdd hne
      · obtain rfl := List.mem_singleton.1 hd
        rcases hD with ⟨hroot, -⟩ | ⟨-, p, n, hp, -⟩
        · exact (hne (hparent.trans hroot)).elim
        · rw [hparent, hp]
          rfl
  · intro d hd p hp hpar hmark
    rw [hdocs] at hd hp
    rcases List.mem_append.1 hd with hd' | hd
    · rcases List.mem_append.1 hp with hp | hp
      · exact h.inScope d hd' p hp hpar hmark
      · -- no earlier row lies under the new one
        obtain rfl := List.mem_singleton.1 hp
        have := h.active d hd' (hmark.symm.trans hdel) (hpar ▸ hid)
        rw [← hpar, hnew] at this
        simp at this
    · obtain rfl := List.mem_singleton.1 hd
      rcases hD with ⟨hroot, -⟩ | ⟨-, q, n, hq, hscope, -⟩
      · -- a row without a parent
        have hpid : p.id = [] := hpar.trans (hparent.trans hroot)
        rcases List.mem_append.1 hp with hp | hp
        · exact (h.ids p hp hpid).elim
        · exact (hid (List.mem_singleton.1 hp ▸ hpid)).elim
      · obtain ⟨hqm, hqid, hqdel⟩ := getDoc_eq_some hq
        have hpq : p = q := by
          rcases List.mem_append.1 hp with hp | hp
          · exact h.unique.eq_of_id hp hqm (hpar.trans (hparent.trans hqid.symm))
          · refine (hfresh q hqm ?_).elim
            rw [hqid, ← hparent, ← hpar, List.mem_singleton.1 hp]
        rw [hpq]
        refine ⟨hscope.1.trans hservice.symm, fun hs ho => ?_⟩
        exact hscope.2 (hservice ▸ hs) (horigin ▸ ho)
  · intro d hd hdd
    rw [hdocs] at hd
    rcases List.mem_append.1 hd with hd | hd
    · obtain ⟨n, hn, hdn⟩ := h.depth d hd hdd
      rcases hdepth.move hup hdn with hkeep | ⟨k, hbelow, hmoved⟩
      · exact ⟨n, hn, hkeep⟩
      · obtain rfl := h.below_inactive hnew hbelow
        exact ⟨D + 0, by omega, hmoved⟩
    · rw [List.mem_singleton.1 hd]
      exact ⟨D, by omega, hdepth⟩

/-! ### Moving -/

/-- A change of title and parent shows in the doc itself only. -/
theorem getDoc_withMetadata {id : Bytes} {d : DocRecord} (hd : getDoc db id = some d)
    (title parent : Bytes) (now : ℕ) (a : Bytes) :
    getDoc (updateDocs db (DocRecord.isActive id) (DocRecord.withMetadata title parent now)) a =
      if a = id then some (d.withMetadata title parent now) else getDoc db a := by
  rw [getDoc_updateDocs (f := DocRecord.withMetadata title parent now) (fun _ => rfl) (fun _ => rfl)]
  obtain ⟨-, hid, hdel⟩ := getDoc_eq_some hd
  split
  · rename_i ha
    rw [ha, hd]
    simp [DocRecord.isActive, hid, hdel]
  · rename_i ha
    cases hg : getDoc db a with
    | none => rfl
    | some e =>
        have hne : e.id ≠ id := fun he => ha ((getDoc_eq_some hg).2.1.symm.trans he)
        simp [DocRecord.isActive, hne]

/-- **A checked move keeps the invariant.** -/
theorem TreeInv.move (h : TreeInv db) {id title title' parent : Bytes} {now : ℕ} {d : DocRecord}
    (hd : getDoc db id = some d)
    (hvalid : parent = d.parentId ∨
      validateDocParent db { d with title := title' } parent = .ok ()) :
    TreeInv (updateDocs db (DocRecord.isActive id) (DocRecord.withMetadata title parent now)) := by
  have hget := getDoc_withMetadata hd title parent now
  obtain ⟨hdm, hdid, hdel⟩ := getDoc_eq_some hd
  generalize hdb' : updateDocs db (DocRecord.isActive id)
    (DocRecord.withMetadata title parent now) = db' at hget
  have hrows : ∀ d' ∈ db'.docs, ∃ e ∈ db.docs,
      (e = d ∧ d' = d.withMetadata title parent now) ∨ (e.isActive id = false ∧ d' = e) := by
    intro d' hd'
    rw [← hdb'] at hd'
    obtain ⟨e, he, rfl⟩ := mem_updateDocs.1 hd'
    refine ⟨e, he, ?_⟩
    split
    · rename_i hact
      have hid : e.id = id := by
        simp only [DocRecord.isActive, Bool.and_eq_true, beq_iff_eq] at hact
        exact hact.1
      exact Or.inl ⟨h.unique.eq_of_id he hdm (hid.trans hdid.symm),
        by rw [h.unique.eq_of_id he hdm (hid.trans hdid.symm)]⟩
    · rename_i hact
      exact Or.inr ⟨by simpa using hact, rfl⟩
  have hgetid : getDoc db' id = some (d.withMetadata title parent now) := by rw [hget, if_pos rfl]
  have hup : ∀ a, a ≠ id → parentOf db' a = parentOf db a := by
    intro a ha
    rw [parentOf, parentOf, hget, if_neg ha]
  -- what the check has found, or what the invariant says of a parent that stays
  have hscope : ∀ p ∈ db.docs, p.id = parent → p.deletedAt = none → InScope d p := by
    intro p hp hpar hpdel
    rcases hvalid with rfl | hvalid
    · exact h.inScope d hdm p hp hpar (hpdel.trans hdel.symm)
    · obtain ⟨-, -, -, ⟨rfl, -⟩ | ⟨-, q, -, hq, hscope, -⟩⟩ := validateDocParent_spec hvalid
      · exact (h.ids p hp hpar).elim
      · obtain ⟨hqm, hqid, -⟩ := getDoc_eq_some hq
        rw [h.unique.eq_of_id hp hqm (hpar.trans hqid.symm)]
        exact hscope
  have hactive : parent ≠ [] → (getDoc db parent).isSome := by
    intro hne
    rcases hvalid with rfl | hvalid
    · exact h.active d hdm hdel hne
    · obtain ⟨-, -, -, ⟨rfl, -⟩ | ⟨-, q, -, hq, -⟩⟩ := validateDocParent_spec hvalid
      · exact (hne rfl).elim
      · rw [hq]
        rfl
  have hdepth : ∀ e ∈ db.docs, e.deletedAt = none → ∃ n ≤ 5, Depth (parentOf db') e.id n := by
    intro e he hedel
    obtain ⟨n, hn, hen⟩ := h.depth e he hedel
    rcases hvalid with rfl | hvalid
    · -- the parents are those from before
      have hsame : parentOf db' = parentOf db := by
        funext a
        rcases eq_or_ne a id with rfl | ha
        · rw [parentOf, parentOf, hgetid, hd]
          rfl
        · exact hup a ha
      exact ⟨n, hn, hsame ▸ hen⟩
    · obtain ⟨D, hpos, hle, hD⟩ := validateDocParent_spec hvalid
      have hmoved : Depth (parentOf db') id D := by
        rcases hD with ⟨hroot, rfl⟩ | ⟨hchild, p, m, hp, -, hm, rfl, havoid⟩
        · exact .root (parentOf_of_root hgetid hroot)
        · refine .child (parentOf_of_child hgetid hchild) ?_
          -- the chain of the new parent avoids the moved doc
          refine hm.congr (S := fun a => ∃ k, Below (parentOf db) parent a k) ?_ ?_ ⟨0, .refl _⟩
          · rintro a b ⟨k, hk⟩ hab
            exact ⟨k + 1, hk.snoc hab⟩
          · rintro a ⟨k, hk⟩
            refine hup a fun ha => havoid k ?_
            rw [ha, ← hdid] at hk
            exact hk
      rcases hmoved.move hup hen with hkeep | ⟨k, hbelow, hfollow⟩
      · exact ⟨n, hn, hkeep⟩
      · have hheight : min k 5 + 1 ≤ subtreeHeight db d.id :=
          subtreeHeight_spec (by rw [hdid, hd]; rfl) (hdid.symm ▸ hbelow)
        exact ⟨D + k, depth_le_five hpos hle hheight, hfollow⟩
  refine ⟨?_, ?_, ?_, ?_, ?_, ?_⟩
  · rw [← hdb']
    exact h.unique.updateDocs _ fun _ => rfl
  · intro d' hd'
    obtain ⟨e, he, ⟨rfl, rfl⟩ | ⟨-, rfl⟩⟩ := hrows d' hd'
    · exact h.ids e he
    · exact h.ids d' he
  · intro d' hd'
    obtain ⟨e, he, ⟨rfl, rfl⟩ | ⟨-, rfl⟩⟩ := hrows d' hd'
    · exact h.kinds e he
    · exact h.kinds d' he
  · intro d' hd' hdd hne
    rw [hget]
    split
    · rfl
    · obtain ⟨e, he, ⟨rfl, rfl⟩ | ⟨-, rfl⟩⟩ := hrows d' hd'
      · exact hactive hne
      · exact h.active _ he hdd hne
  · intro d' hd' p' hp' hpar hmark
    have hp : ∃ p ∈ db.docs, p.id = p'.id ∧ p.deletedAt = p'.deletedAt ∧
        p.serviceId = p'.serviceId ∧ p.origin = p'.origin := by
      obtain ⟨p, hp, ⟨rfl, rfl⟩ | ⟨-, rfl⟩⟩ := hrows p' hp'
      · exact ⟨p, hp, rfl, rfl, rfl, rfl⟩
      · exact ⟨p', hp, rfl, rfl, rfl, rfl⟩
    obtain ⟨p, hp, hpid, hpdel, hps, hpo⟩ := hp
    obtain ⟨e, he, ⟨rfl, rfl⟩ | ⟨-, rfl⟩⟩ := hrows d' hd'
    · have := hscope p hp (hpid.trans hpar) (hpdel.trans (hmark.trans hdel))
      exact ⟨hps ▸ this.1, hpo ▸ this.2⟩
    · have := h.inScope d' he p hp (hpid.trans hpar) (hpdel.trans hmark)
      exact ⟨hps ▸ this.1, hpo ▸ this.2⟩
  · intro d' hd' hdd
    obtain ⟨e, he, ⟨rfl, rfl⟩ | ⟨-, rfl⟩⟩ := hrows d' hd'
    · exact hdepth e he hdd
    · exact hdepth d' he hdd

/-! ### Marked subtrees -/

theorem isChildOf_iff {t d : DocRecord} :
    isChildOf t d = true ↔ d.parentId ≠ [] ∧ d.parentId = t.id := by
  simp [isChildOf]

/-- A marked subtree has marked rows. -/
theorem mem_markedSubtree {id : Bytes} {mark : Option Bytes} {a : DocRecord}
    (ha : a ∈ markedSubtree db id mark) : a ∈ db.docs ∧ a.deletedAt = mark := by
  obtain ⟨b, hb, hpath⟩ := mem_closure.1 ha
  rcases hpath.cases_tail with rfl | ⟨c, -, hmem, -⟩
  · simp only [List.mem_filter, Bool.and_eq_true, beq_iff_eq] at hb
    exact ⟨hb.1, hb.2.2⟩
  · simpa [List.mem_filter] using hmem

/-- The row with the id is in its marked subtree. -/
theorem mem_markedSubtree_self {id : Bytes} {mark : Option Bytes} {a : DocRecord}
    (ha : a ∈ db.docs) (hid : a.id = id) (hmark : a.deletedAt = mark) :
    a ∈ markedSubtree db id mark :=
  mem_closure.2 ⟨a, List.mem_filter.2 ⟨ha, by simp [hid, hmark]⟩, .refl⟩

/-- A marked subtree has all marked children of its rows. -/
theorem markedSubtree_closed {id : Bytes} {mark : Option Bytes} {t a : DocRecord}
    (ht : t ∈ markedSubtree db id mark) (ha : a ∈ db.docs) (hmark : a.deletedAt = mark)
    (hchild : isChildOf t a = true) : a ∈ markedSubtree db id mark :=
  closure_closed ht (List.mem_filter.2 ⟨ha, by simp [hmark]⟩) hchild

/-- A row of a marked subtree is its root, or lies under one of its rows. -/
theorem markedSubtree_cases {id : Bytes} {mark : Option Bytes} {a : DocRecord}
    (ha : a ∈ markedSubtree db id mark) :
    a.id = id ∨ ∃ t ∈ markedSubtree db id mark, isChildOf t a = true := by
  obtain ⟨b, hb, hpath⟩ := mem_closure.1 ha
  rcases hpath.cases_tail with rfl | ⟨t, hpath, -, hchild⟩
  · simp only [List.mem_filter, Bool.and_eq_true, beq_iff_eq] at hb
    exact Or.inl hb.2.1
  · exact Or.inr ⟨t, mem_closure.2 ⟨b, hb, hpath⟩, hchild⟩

/-- Induction over a marked subtree, from its root down. -/
theorem markedSubtree_induction {id : Bytes} {mark : Option Bytes} {P : DocRecord → Prop}
    (hroot : ∀ a ∈ markedSubtree db id mark, a.id = id → P a)
    (hchild : ∀ t ∈ markedSubtree db id mark, ∀ a ∈ markedSubtree db id mark,
      isChildOf t a = true → P t → P a) {a : DocRecord} (ha : a ∈ markedSubtree db id mark) :
    P a := by
  obtain ⟨b, hb, hpath⟩ := mem_closure.1 ha
  have hbm : b ∈ markedSubtree db id mark := mem_closure.2 ⟨b, hb, .refl⟩
  simp only [List.mem_filter, Bool.and_eq_true, beq_iff_eq] at hb
  have hall : a ∈ markedSubtree db id mark ∧ P a := by
    clear ha
    induction hpath with
    | refl => exact ⟨hbm, hroot b hbm hb.2.1⟩
    | @tail t a _ hstep ih =>
        have ha := closure_closed ih.1 hstep.1 hstep.2
        exact ⟨ha, hchild t ih.1 a ha hstep.2 ih.2⟩
  exact hall.2

/-- Under distinct ids, the rows with an id among some rows are those rows. -/
theorem isIn_iff (hu : UniqueIds db) {rows : List DocRecord} (hrows : ∀ a ∈ rows, a ∈ db.docs)
    {d : DocRecord} (hd : d ∈ db.docs) : d.isIn rows = true ↔ d ∈ rows := by
  simp only [DocRecord.isIn, List.any_eq_true, beq_iff_eq]
  constructor
  · rintro ⟨a, ha, hid⟩
    rwa [← hu.eq_of_id (hrows a ha) hd hid]
  · intro h
    exact ⟨d, h, rfl⟩

/-! ### Deleting -/

/-- **A deletion keeps the invariant**, if its time is not that of an earlier one. -/
theorem TreeInv.softDelete (h : TreeInv db) {id stamp : Bytes}
    (hstamp : ∀ d ∈ db.docs, d.deletedAt ≠ some stamp) :
    TreeInv (updateDocs db (DocRecord.isIn (markedSubtree db id none))
      (DocRecord.withDeletedAt (some stamp))) := by
  have hsub : ∀ a ∈ markedSubtree db id none, a ∈ db.docs := fun a ha => (mem_markedSubtree ha).1
  generalize hdb' : updateDocs db (DocRecord.isIn (markedSubtree db id none))
    (DocRecord.withDeletedAt (some stamp)) = db'
  have hrows : ∀ d' ∈ db'.docs, ∃ e ∈ db.docs,
      (e ∈ markedSubtree db id none ∧ d' = e.withDeletedAt (some stamp)) ∨
        (e ∉ markedSubtree db id none ∧ d' = e) := by
    intro d' hd'
    rw [← hdb'] at hd'
    obtain ⟨e, he, rfl⟩ := mem_updateDocs.1 hd'
    refine ⟨e, he, ?_⟩
    split
    · rename_i hin
      exact Or.inl ⟨(isIn_iff h.unique hsub he).1 hin, rfl⟩
    · rename_i hin
      exact Or.inr ⟨fun hmem => hin ((isIn_iff h.unique hsub he).2 hmem), rfl⟩
  have hkept : ∀ e ∈ db.docs, e ∉ markedSubtree db id none → e ∈ db'.docs := by
    intro e he hnot
    rw [← hdb']
    refine mem_updateDocs.2 ⟨e, he, if_neg ?_⟩
    rwa [isIn_iff h.unique hsub he]
  have hu : UniqueIds db' := by
    rw [← hdb']
    exact h.unique.updateDocs _ fun _ => rfl
  have hget : ∀ a, getDoc db' a = getDoc db a ∨ getDoc db' a = none := by
    intro a
    cases hg : getDoc db' a with
    | none => exact Or.inr rfl
    | some d' =>
        left
        obtain ⟨hm, hid, hdel⟩ := getDoc_eq_some hg
        obtain ⟨e, he, ⟨-, rfl⟩ | ⟨-, rfl⟩⟩ := hrows d' hm
        · simp [DocRecord.withDeletedAt] at hdel
        · exact (h.unique.getDoc_iff.2 ⟨he, hid, hdel⟩).symm
  have hup : ∀ a, parentOf db' a = parentOf db a ∨ parentOf db' a = none := by
    intro a
    rcases hget a with heq | hnone
    · exact Or.inl (by rw [parentOf, parentOf, heq])
    · exact Or.inr (by rw [parentOf, hnone])
  refine ⟨hu, ?_, ?_, ?_, ?_, ?_⟩
  · intro d' hd'
    obtain ⟨e, he, ⟨-, rfl⟩ | ⟨-, rfl⟩⟩ := hrows d' hd'
    · exact h.ids e he
    · exact h.ids d' he
  · intro d' hd'
    obtain ⟨e, he, ⟨-, rfl⟩ | ⟨-, rfl⟩⟩ := hrows d' hd'
    · exact h.kinds e he
    · exact h.kinds d' he
  · intro d' hd' hdd hne
    obtain ⟨e, he, ⟨-, rfl⟩ | ⟨hnot, rfl⟩⟩ := hrows d' hd'
    · simp [DocRecord.withDeletedAt] at hdd
    · -- its parent stays, as otherwise the doc would have been deleted with it
      obtain ⟨p, hp⟩ := Option.isSome_iff_exists.1 (h.active d' he hdd hne)
      obtain ⟨hpm, hpid, hpdel⟩ := getDoc_eq_some hp
      have hpnot : p ∉ markedSubtree db id none := fun hpin =>
        hnot (markedSubtree_closed hpin he hdd (isChildOf_iff.2 ⟨hne, hpid.symm⟩))
      rw [hu.getDoc_iff.2 ⟨hkept p hpm hpnot, hpid, hpdel⟩]
      rfl
  · intro d' hd' p' hp' hpar hmark
    obtain ⟨e, he, ⟨hein, rfl⟩ | ⟨-, rfl⟩⟩ := hrows d' hd'
    · obtain ⟨p, hp, ⟨hpin, rfl⟩ | ⟨-, rfl⟩⟩ := hrows p' hp'
      · have hboth : p.deletedAt = e.deletedAt :=
          (mem_markedSubtree hpin).2.trans (mem_markedSubtree hein).2.symm
        exact h.inScope e he p hp hpar hboth
      · exact (hstamp p' hp hmark).elim
    · obtain ⟨p, hp, ⟨hpin, rfl⟩ | ⟨-, rfl⟩⟩ := hrows p' hp'
      · exact (hstamp d' he hmark.symm).elim
      · exact h.inScope d' he p' hp hpar hmark
  · intro d' hd' hdd
    obtain ⟨e, he, ⟨-, rfl⟩ | ⟨-, rfl⟩⟩ := hrows d' hd'
    · simp [DocRecord.withDeletedAt] at hdd
    · obtain ⟨n, hn, hdn⟩ := h.depth d' he hdd
      obtain ⟨m, hm, hdm⟩ := hdn.prune hup
      exact ⟨m, hm.trans hn, hdm⟩

/-! ### Restoring -/

/-- Detaching a deleted doc keeps the invariant. -/
theorem TreeInv.detach (h : TreeInv db) {d : DocRecord} (hd : d ∈ db.docs)
    (hdel : d.deletedAt.isSome) :
    TreeInv (updateDocs db (fun d' => d'.id == d.id) (DocRecord.withParent [])) := by
  generalize hdb' : updateDocs db (fun d' => d'.id == d.id) (DocRecord.withParent []) = db'
  have hrows : ∀ d' ∈ db'.docs, d' = d.withParent [] ∨ d' ∈ db.docs := by
    intro d' hd'
    rw [← hdb'] at hd'
    obtain ⟨e, he, rfl⟩ := mem_updateDocs.1 hd'
    split
    · rename_i hid
      rw [h.unique.eq_of_id he hd (by simpa using hid)]
      exact Or.inl rfl
    · exact Or.inr he
  have hget : ∀ a, getDoc db' a = getDoc db a := by
    intro a
    rw [← hdb', getDoc_updateDocs (f := DocRecord.withParent []) (fun _ => rfl) (fun _ => rfl)]
    cases hg : getDoc db a with
    | none => rfl
    | some e =>
        obtain ⟨hem, -, hedel⟩ := getDoc_eq_some hg
        have hne : e.id ≠ d.id := by
          intro heq
          rw [← h.unique.eq_of_id hem hd heq, hedel] at hdel
          simp at hdel
        simp [hne]
  have hup : parentOf db' = parentOf db := by
    funext a
    rw [parentOf, parentOf, hget]
  refine ⟨?_, ?_, ?_, ?_, ?_, ?_⟩
  · rw [← hdb']
    exact h.unique.updateDocs _ fun _ => rfl
  · intro d' hd'
    rcases hrows d' hd' with rfl | hd'
    · exact h.ids d hd
    · exact h.ids d' hd'
  · intro d' hd'
    rcases hrows d' hd' with rfl | hd'
    · exact h.kinds d hd
    · exact h.kinds d' hd'
  · intro d' hd' hdd hne
    rw [hget]
    rcases hrows d' hd' with rfl | hd'
    · exact (hne rfl).elim
    · exact h.active d' hd' hdd hne
  · intro d' hd' p' hp' hpar hmark
    rcases hrows d' hd' with rfl | hd'
    · -- the detached doc has no parent
      have hpid : p'.id ≠ [] := by
        rcases hrows p' hp' with rfl | hp'
        · exact h.ids d hd
        · exact h.ids p' hp'
      exact (hpid hpar).elim
    · rcases hrows p' hp' with rfl | hp'
      · exact h.inScope d' hd' d hd hpar hmark
      · exact h.inScope d' hd' p' hp' hpar hmark
  · intro d' hd' hdd
    rw [hup]
    rcases hrows d' hd' with rfl | hd'
    · rw [show (d.withParent []).deletedAt = d.deletedAt from rfl] at hdd
      rw [hdd] at hdel
      simp at hdel
    · exact h.depth d' hd' hdd

/-- **A checked restoration keeps the invariant.** -/
theorem TreeInv.restore (h : TreeInv db) {id stamp : Bytes} {restored : DocRecord}
    (hrestored : getDoc (updateDocs db (DocRecord.isIn (markedSubtree db id (some stamp)))
      (DocRecord.withDeletedAt none)) id = some restored)
    (hvalid : validateDocParent (updateDocs db
      (DocRecord.isIn (markedSubtree db id (some stamp))) (DocRecord.withDeletedAt none)) restored
        restored.parentId = .ok ()) :
    TreeInv (updateDocs db (DocRecord.isIn (markedSubtree db id (some stamp)))
      (DocRecord.withDeletedAt none)) := by
  have hsub : ∀ a ∈ markedSubtree db id (some stamp), a ∈ db.docs :=
    fun a ha => (mem_markedSubtree ha).1
  generalize hbatch : markedSubtree db id (some stamp) = batch at *
  generalize hdb' : updateDocs db (DocRecord.isIn batch) (DocRecord.withDeletedAt none) = db' at *
  have hmark : ∀ a ∈ batch, a.deletedAt = some stamp := by
    intro a ha
    rw [← hbatch] at ha
    exact (mem_markedSubtree ha).2
  have hrows : ∀ d' ∈ db'.docs, ∃ e ∈ db.docs,
      (e ∈ batch ∧ d' = e.withDeletedAt none) ∨ (e ∉ batch ∧ d' = e) := by
    intro d' hd'
    rw [← hdb'] at hd'
    obtain ⟨e, he, rfl⟩ := mem_updateDocs.1 hd'
    refine ⟨e, he, ?_⟩
    split
    · rename_i hin
      exact Or.inl ⟨(isIn_iff h.unique hsub he).1 hin, rfl⟩
    · rename_i hin
      exact Or.inr ⟨fun hmem => hin ((isIn_iff h.unique hsub he).2 hmem), rfl⟩
  have hu : UniqueIds db' := by
    rw [← hdb']
    exact h.unique.updateDocs _ fun _ => rfl
  have hgetIn : ∀ a ∈ batch, getDoc db' a.id = some (a.withDeletedAt none) := by
    intro a ha
    refine hu.getDoc_iff.2 ⟨?_, rfl, rfl⟩
    rw [← hdb']
    exact mem_updateDocs.2 ⟨a, hsub a ha, if_pos ((isIn_iff h.unique hsub (hsub a ha)).2 ha)⟩
  have hgetOld : ∀ {a d}, getDoc db a = some d → getDoc db' a = some d := by
    intro a d hd
    obtain ⟨hm, hid, hdel⟩ := getDoc_eq_some hd
    refine hu.getDoc_iff.2 ⟨?_, hid, hdel⟩
    rw [← hdb']
    refine mem_updateDocs.2 ⟨d, hm, if_neg ?_⟩
    rw [isIn_iff h.unique hsub hm]
    intro hin
    have := hmark d hin
    rw [hdel] at this
    simp at this
  obtain ⟨hrm, hrid, hrdel⟩ := getDoc_eq_some hrestored
  obtain ⟨D, hpos, hle, hD⟩ := validateDocParent_spec hvalid
  -- the restored root has the depth that the walk up has found, and the batch lies below it
  have hroot : Depth (parentOf db') id D := by
    rcases hD with ⟨hnone, rfl⟩ | ⟨hchild, p, n, hp, -, hn, rfl, -⟩
    · exact .root (parentOf_of_root hrestored hnone)
    · exact .child (parentOf_of_child hrestored hchild) hn
  have hbelow : ∀ a ∈ batch, ∃ k, Below (parentOf db') a.id id k := by
    intro a ha
    rw [← hbatch] at ha hgetIn
    refine markedSubtree_induction (P := fun a => ∃ k, Below (parentOf db') a.id id k) ?_ ?_ ha
    · rintro a - rfl
      exact ⟨0, .refl _⟩
    · rintro t - a ha hchild ⟨k, hk⟩
      obtain ⟨hne, hpar⟩ := isChildOf_iff.1 hchild
      have hstep := parentOf_of_child (hgetIn a ha) hne
      rw [show (a.withDeletedAt none).parentId = a.parentId from rfl, hpar] at hstep
      exact ⟨k + 1, .step hstep hk⟩
  -- the parent of a restored doc other than the root is one of the batch
  have hparent : ∀ a ∈ batch, a.id = id ∨ ∃ t ∈ batch, isChildOf t a = true := by
    intro a ha
    rw [← hbatch] at ha ⊢
    exact markedSubtree_cases ha
  have hrootEq : ∀ a ∈ batch, a.id = id → a.withDeletedAt none = restored := by
    intro a ha hid
    have := hgetIn a ha
    rw [hid, hrestored] at this
    exact (Option.some.inj this).symm
  refine ⟨hu, ?_, ?_, ?_, ?_, ?_⟩
  · intro d' hd'
    obtain ⟨e, he, ⟨-, rfl⟩ | ⟨-, rfl⟩⟩ := hrows d' hd'
    · exact h.ids e he
    · exact h.ids d' he
  · intro d' hd'
    obtain ⟨e, he, ⟨-, rfl⟩ | ⟨-, rfl⟩⟩ := hrows d' hd'
    · exact h.kinds e he
    · exact h.kinds d' he
  · intro d' hd' hdd hne
    obtain ⟨e, he, ⟨hin, rfl⟩ | ⟨-, rfl⟩⟩ := hrows d' hd'
    · rcases hparent e hin with hid | ⟨t, ht, hchild⟩
      · rw [hrootEq e hin hid] at hne ⊢
        rcases hD with ⟨hnone, -⟩ | ⟨-, p, -, hp, -⟩
        · exact (hne hnone).elim
        · rw [hp]
          rfl
      · obtain ⟨-, hpar⟩ := isChildOf_iff.1 hchild
        rw [show (e.withDeletedAt none).parentId = e.parentId from rfl, hpar, hgetIn t ht]
        rfl
    · obtain ⟨p, hp⟩ := Option.isSome_iff_exists.1 (h.active d' he hdd hne)
      rw [hgetOld hp]
      rfl
  · intro d' hd' p' hp' hpar hsame
    obtain ⟨e, he, ⟨hein, rfl⟩ | ⟨henot, rfl⟩⟩ := hrows d' hd'
    · rcases hparent e hein with hid | ⟨t, ht, hchild⟩
      · -- the root, whose parent has been checked
        rw [hrootEq e hein hid] at hpar hsame ⊢
        rcases hD with ⟨hnone, -⟩ | ⟨-, q, -, hq, hscope, -⟩
        · obtain ⟨p, hp, ⟨-, rfl⟩ | ⟨-, rfl⟩⟩ := hrows p' hp'
          · exact (h.ids p hp (hpar.trans hnone)).elim
          · exact (h.ids p' hp (hpar.trans hnone)).elim
        · obtain ⟨hqm, hqid, -⟩ := getDoc_eq_some hq
          rw [hu.eq_of_id hp' hqm (hpar.trans hqid.symm)]
          exact hscope
      · obtain ⟨-, hepar⟩ := isChildOf_iff.1 hchild
        have hpt : p' = t.withDeletedAt none := by
          obtain ⟨hm, hid, hdel⟩ := getDoc_eq_some (hgetIn t ht)
          exact hu.eq_of_id hp' hm (hpar.trans (hepar.trans hid.symm))
        rw [hpt]
        have := h.inScope e he t (hsub t ht) hepar.symm ((hmark t ht).trans (hmark e hein).symm)
        exact ⟨this.1, this.2⟩
    · obtain ⟨p, hp, ⟨hpin, rfl⟩ | ⟨-, rfl⟩⟩ := hrows p' hp'
      · -- an active doc has no parent in the trash
        have hne : d'.parentId ≠ [] := hpar ▸ h.ids p hp
        obtain ⟨q, hq⟩ := Option.isSome_iff_exists.1 (h.active d' he hsame.symm hne)
        obtain ⟨hqm, hqid, hqdel⟩ := getDoc_eq_some hq
        have hpq : p = q := h.unique.eq_of_id hp hqm (hpar.trans hqid.symm)
        have := hmark p hpin
        rw [hpq, hqdel] at this
        simp at this
      · exact h.inScope d' he p' hp hpar hsame
  · intro d' hd' hdd
    obtain ⟨e, he, ⟨hein, rfl⟩ | ⟨-, rfl⟩⟩ := hrows d' hd'
    · obtain ⟨k, hk⟩ := hbelow e hein
      have hheight : min k 5 + 1 ≤ subtreeHeight db' restored.id :=
        subtreeHeight_spec (by rw [hrid, hrestored]; rfl) (hrid.symm ▸ hk)
      exact ⟨D + k, depth_le_five hpos hle hheight, hroot.of_below hk⟩
    · obtain ⟨n, hn, hdn⟩ := h.depth d' he hdd
      refine ⟨n, hn, hdn.congr (S := fun a => (getDoc db a).isSome)
        (fun _ _ _ => h.isSome_parent) ?_ ?_⟩
      · intro a ha
        obtain ⟨d, hd⟩ := Option.isSome_iff_exists.1 ha
        rw [parentOf, parentOf, hgetOld hd, hd]
      · rw [h.unique.getDoc_of_mem he hdd]
        rfl

/-! ### Purging -/

/-- **A purge keeps the invariant**, whichever deleted docs it removes. -/
theorem TreeInv.removeDocs (h : TreeInv db) {gone : DocRecord → Bool}
    (hgone : ∀ d, d.deletedAt = none → gone d = false) : TreeInv (removeDocs db gone) := by
  generalize hkept : db.docs.filter (fun d => !gone d) = kept
  generalize hdb' : Store.removeDocs db gone = db'
  have hdocs : db'.docs = kept.map (DocRecord.orphanedIn kept) := by
    rw [← hdb', Store.removeDocs, hkept]
  have hsub : kept.Sublist db.docs := by
    rw [← hkept]
    exact List.filter_sublist
  have horphan : ∀ e : DocRecord, e.orphanedIn kept = e ∨ e.orphanedIn kept = e.withParent [] := by
    intro e
    rw [DocRecord.orphanedIn]
    split
    · exact Or.inl rfl
    · exact Or.inr rfl
  have hrows : ∀ d' ∈ db'.docs, ∃ e ∈ db.docs, d' = e ∨ d' = e.withParent [] := by
    intro d' hd'
    rw [hdocs] at hd'
    obtain ⟨e, he, rfl⟩ := List.mem_map.1 hd'
    exact ⟨e, hsub.subset he, horphan e⟩
  have hu : UniqueIds db' := by
    have hids : (kept.map (DocRecord.orphanedIn kept)).map (·.id) = kept.map (·.id) := by
      rw [List.map_map]
      refine List.map_congr_left fun e _ => ?_
      show (e.orphanedIn kept).id = e.id
      rcases horphan e with heq | heq
      · rw [heq]
      · rw [heq, DocRecord.withParent]
    rw [UniqueIds, hdocs, hids]
    exact h.unique.sublist (hsub.map _)
  -- an active doc stays as it is: neither it nor its parent is purged
  have hactive : ∀ e ∈ db.docs, e.deletedAt = none → e ∈ kept := by
    intro e he hdel
    rw [← hkept]
    exact List.mem_filter.2 ⟨he, by rw [hgone e hdel]; rfl⟩
  have hget : ∀ {a d}, getDoc db a = some d → getDoc db' a = some d := by
    intro a d hd
    obtain ⟨hm, hid, hdel⟩ := getDoc_eq_some hd
    refine hu.getDoc_iff.2 ⟨?_, hid, hdel⟩
    rw [hdocs]
    refine List.mem_map.2 ⟨d, hactive d hm hdel, ?_⟩
    rw [DocRecord.orphanedIn]
    split
    · rfl
    · rename_i hgone
      rcases eq_or_ne d.parentId [] with hroot | hne
      · rw [DocRecord.withParent, ← hroot]
      · obtain ⟨p, hp⟩ := Option.isSome_iff_exists.1 (h.active d hm hdel hne)
        obtain ⟨hpm, hpid, hpdel⟩ := getDoc_eq_some hp
        refine (hgone ?_).elim
        exact List.any_eq_true.2 ⟨p, hactive p hpm hpdel, by simpa using hpid⟩
  have hold : ∀ d' ∈ db'.docs, d'.deletedAt = none → getDoc db d'.id = some d' := by
    intro d' hd' hdd
    obtain ⟨e, he, heq⟩ := hrows d' hd'
    have hids : e.id = d'.id ∧ e.deletedAt = none := by
      rcases heq with rfl | rfl
      · exact ⟨rfl, hdd⟩
      · exact ⟨rfl, hdd⟩
    have hg : getDoc db d'.id = some e := h.unique.getDoc_iff.2 ⟨he, hids.1, hids.2⟩
    rw [hg]
    have := hget hg
    rw [hu.getDoc_of_mem hd' hdd] at this
    exact this.symm
  refine ⟨hu, ?_, ?_, ?_, ?_, ?_⟩
  · intro d' hd'
    obtain ⟨e, he, rfl | rfl⟩ := hrows d' hd'
    · exact h.ids d' he
    · exact h.ids e he
  · intro d' hd'
    obtain ⟨e, he, rfl | rfl⟩ := hrows d' hd'
    · exact h.kinds d' he
    · exact h.kinds e he
  · intro d' hd' hdd hne
    obtain ⟨hm, -, -⟩ := getDoc_eq_some (hold d' hd' hdd)
    obtain ⟨p, hp⟩ := Option.isSome_iff_exists.1 (h.active d' hm hdd hne)
    rw [hget hp]
    rfl
  · intro d' hd' p' hp' hpar hsame
    obtain ⟨p, hp, hpcase⟩ := hrows p' hp'
    have hpid : p.id = p'.id ∧ p.deletedAt = p'.deletedAt ∧ p.serviceId = p'.serviceId ∧
        p.origin = p'.origin := by
      rcases hpcase with rfl | rfl
      · exact ⟨rfl, rfl, rfl, rfl⟩
      · exact ⟨rfl, rfl, rfl, rfl⟩
    obtain ⟨hpid, hpdel, hps, hpo⟩ := hpid
    obtain ⟨e, he, rfl | rfl⟩ := hrows d' hd'
    · have := h.inScope d' he p hp (hpid.trans hpar) (hpdel.trans hsame)
      exact ⟨hps ▸ this.1, hpo ▸ this.2⟩
    · exact (h.ids p hp (hpid.trans hpar)).elim
  · intro d' hd' hdd
    obtain ⟨hm, -, -⟩ := getDoc_eq_some (hold d' hd' hdd)
    obtain ⟨n, hn, hdn⟩ := h.depth d' hm hdd
    refine ⟨n, hn, hdn.congr (S := fun a => (getDoc db a).isSome)
      (fun _ _ _ => h.isSome_parent) ?_ ?_⟩
    · intro a ha
      obtain ⟨d, hd⟩ := Option.isSome_iff_exists.1 ha
      rw [parentOf, parentOf, hget hd, hd]
    · rw [hold d' hd' hdd]
      rfl

/-! ### Runs of calls -/

/-- The calls on the tree. -/
inductive TreeEvent
  | create (d : HumanDoc) (newId : Bytes) (now : ℕ)
  | importDocs (docs : List (HumanDoc × Bytes)) (now : ℕ)
  | updateMetadata (id : Bytes) (title parentId : Option Bytes) (now : ℕ)
  | softDelete (id stamp : Bytes)
  | restore (id : Bytes)
  /-- A statement of a purge. -/
  | purge (cutoff : Bytes) (batch : List Bytes)

/-- What a call returns. -/
def TreeEvent.run (db : Db) : TreeEvent → Except LifecycleError Db
  | .create d newId now => createHumanDoc db d newId now
  | .importDocs docs now => Store.importDocs db docs now
  | .updateMetadata id title parentId now => updateDocMetadata db id title parentId now
  | .softDelete id stamp => softDeleteDoc db id stamp
  | .restore id => restoreDeletedDoc db id
  | .purge cutoff batch => .ok (purgeDeletedDocs db cutoff batch)

/-- What the calls are given: new ids are not empty, and no two deletions share their time. -/
def TreeEvent.WellGiven (db : Db) : TreeEvent → Prop
  | .create _ newId _ => newId ≠ []
  | .importDocs docs _ => ∀ d ∈ docs, d.2 ≠ []
  | .softDelete _ stamp => ∀ d ∈ db.docs, d.deletedAt ≠ some stamp
  | _ => True

/-- **The calls on the tree, in any order.**  At first no doc has a parent.  Each call is one
transaction, which may also fail for reasons of its own and then leaves the tables; of a purge each
statement is one, and a purge that stops has run only some of them. -/
def treeMachine : Machine Db TreeEvent where
  init db := UniqueIds db ∧ (∀ d ∈ db.docs, d.id ≠ []) ∧
    (∀ d ∈ db.docs, d.kind = .lab ↔ d.serviceId = []) ∧ ∀ d ∈ db.docs, d.parentId = []
  step db ev db' := ev.WellGiven db ∧ (ev.run db = .ok db' ∨ db' = db)

/-- The invariant holds initially. -/
theorem TreeInv.init (h : treeMachine.init db) : TreeInv db := by
  obtain ⟨hu, hids, hkinds, hroots⟩ := h
  refine ⟨hu, hids, hkinds, ?_, ?_, ?_⟩
  · intro d hd _ hne
    exact (hne (hroots d hd)).elim
  · intro d hd p hp hpar _
    exact (hids p hp (hpar.trans (hroots d hd))).elim
  · intro d hd hdel
    exact ⟨1, by omega, .root (parentOf_of_root (hu.getDoc_of_mem hd hdel) (hroots d hd))⟩

/-- A created or imported doc keeps the invariant, under whichever title. -/
theorem TreeInv.insertHumanDoc (h : TreeInv db) {d : HumanDoc} {newId title trigger : Bytes}
    {now : ℕ} (hnew : newId ≠ [])
    (hvalid : validateDocParent db (d.toRecord now) d.parentId = .ok ())
    (hinsert : insertHumanDoc db { d.toRecord now with title := title } newId trigger = .ok db') :
    TreeInv db' := by
  obtain ⟨hfresh, -, rfl⟩ := insertHumanDoc_eq_ok hinsert
  refine h.insert (r := d.toRecord now) hvalid rfl hfresh ?_ rfl ?_ rfl rfl rfl
  · show (if d.id = [] then newId else d.id) ≠ []
    split
    · exact hnew
    · rename_i hne
      exact hne
  · show (if d.serviceId = [] then DocKind.lab else .service) = .lab ↔ d.serviceId = []
    split
    · rename_i hs
      simp [hs]
    · rename_i hs
      simp [hs]

/-- **Every call keeps the invariant.** -/
theorem TreeInv.step {ev : TreeEvent} (h : TreeInv db) (hs : treeMachine.step db ev db') :
    TreeInv db' := by
  obtain ⟨hgiven, hrun | rfl⟩ := hs
  swap
  · exact h
  cases ev with
  | create d newId now =>
      obtain ⟨hvalid, hinsert⟩ := createHumanDoc_eq_ok.1 hrun
      exact h.insertHumanDoc hgiven hvalid hinsert
  | importDocs docs now =>
      -- the docs are inserted one after the other, each after its own check
      have hrun : docs.foldlM (importDoc now) db = .ok db' := hrun
      induction docs generalizing db with
      | nil =>
          rw [List.foldlM_nil, pure_eq_ok] at hrun
          exact hrun ▸ h
      | cons d docs ih =>
          rw [List.foldlM_cons] at hrun
          obtain ⟨db₁, hdoc, hrest⟩ := bind_eq_ok.1 hrun
          rw [importDoc, check_bind_eq_ok, mapError_eq_ok] at hdoc
          have h₁ : TreeInv db₁ := h.insertHumanDoc (hgiven d (by simp)) hdoc.1 hdoc.2
          exact ih h₁ (fun e he => hgiven e (List.mem_cons_of_mem _ he)) hrest hrest
  | updateMetadata id title parentId now =>
      obtain ⟨d, parent, hd, rfl, hvalid⟩ := updateDocMetadata_eq_ok hrun
      exact h.move hd hvalid
  | softDelete id stamp =>
      obtain ⟨-, rfl⟩ := softDeleteDoc_eq_ok.1 hrun
      exact h.softDelete hgiven
  | restore id =>
      obtain ⟨d, hd, rfl, restored, hrestored, hvalid⟩ := restoreDeletedDoc_eq_ok hrun
      have hm := List.mem_of_find?_eq_some hd
      have hp := List.find?_some hd
      simp only [Bool.and_eq_true, beq_iff_eq] at hp
      have hdetached : TreeInv (detachFromInactive db d) := by
        rw [detachFromInactive]
        split
        · exact h.detach hm hp.2
        · exact h
      obtain ⟨stamp, hstamp⟩ := Option.isSome_iff_exists.1 hp.2
      rw [hstamp] at hrestored hvalid ⊢
      exact hdetached.restore hrestored hvalid
  | purge cutoff batch =>
      obtain rfl := Except.ok.inj hrun
      exact h.removeDocs fun d hdel => by simp [DocRecord.isPurged, hdel]

/-- **What a reader of the active docs can rely on.** -/
structure Forest (db : Db) : Prop where
  /-- A parent is an active doc of the same service. -/
  parent : ∀ d ∈ db.docs, d.deletedAt = none → d.parentId ≠ [] →
    ∃ p ∈ db.docs, p.id = d.parentId ∧ p.deletedAt = none ∧ p.serviceId = d.serviceId
  /-- No doc lies under itself. -/
  acyclic : ∀ d ∈ db.docs, d.deletedAt = none → ∀ k, ¬ Below (parentOf db) d.id d.id (k + 1)
  /-- The chain of parents ends at a root after at most five docs. -/
  depth : ∀ d ∈ db.docs, d.deletedAt = none → ∃ n ≤ 5, Depth (parentOf db) d.id n
  /-- The parent of a human lab doc is human. -/
  human : ∀ d ∈ db.docs, d.deletedAt = none → d.kind = .lab → d.origin = .human →
    ∀ p ∈ db.docs, p.id = d.parentId → p.origin = .human

/-- The invariant gives the forest. -/
theorem TreeInv.forest (h : TreeInv db) : Forest db := by
  have hparent : ∀ d ∈ db.docs, d.deletedAt = none → d.parentId ≠ [] →
      ∃ p ∈ db.docs, p.id = d.parentId ∧ p.deletedAt = none ∧ InScope d p := by
    intro d hd hdel hne
    obtain ⟨p, hp⟩ := Option.isSome_iff_exists.1 (h.active d hd hdel hne)
    obtain ⟨hm, hid, hpdel⟩ := getDoc_eq_some hp
    exact ⟨p, hm, hid, hpdel, h.inScope d hd p hm hid (hpdel.trans hdel.symm)⟩
  refine ⟨?_, ?_, h.depth, ?_⟩
  · intro d hd hdel hne
    obtain ⟨p, hp, hid, hpdel, hscope⟩ := hparent d hd hdel hne
    exact ⟨p, hp, hid, hpdel, hscope.1⟩
  · intro d hd hdel k
    obtain ⟨n, -, hn⟩ := h.depth d hd hdel
    exact hn.not_below
  · intro d hd hdel hkind horigin p hp hpar
    have hne : d.parentId ≠ [] := hpar ▸ h.ids p hp
    obtain ⟨q, hq, hqid, -, hscope⟩ := hparent d hd hdel hne
    rw [h.unique.eq_of_id hp hq (hpar.trans hqid.symm)]
    exact hscope.2 ((h.kinds d hd).1 hkind) horigin

/-- **The active docs always form a forest**, and a failed call leaves all docs unchanged. -/
theorem docs_form_forest (h : treeMachine.Reachable db) :
    Forest db ∧ ∀ ev e db', ev.run db = .error e → treeMachine.step db ev db' → db' = db := by
  have hinv : TreeInv db :=
    h.invariant (fun _ hi => TreeInv.init hi) (fun _ _ _ hi hs => hi.step hs)
  refine ⟨hinv.forest, ?_⟩
  rintro ev e db' herr ⟨-, hok | rfl⟩
  · rw [herr] at hok
    cases hok
  · rfl

/-- A note without a parent. -/
def rootNote : HumanDoc := ⟨bytes "p", bytes "Notes", [], [], bytes "one", bytes "u"⟩

/-- A note under it. -/
def childNote : HumanDoc := ⟨bytes "c", bytes "Detail", [], bytes "p", bytes "two", bytes "u"⟩

/-- The tables with the first note. -/
def rootNoteDb : Db :=
  ⟨[rootNote.toRecord 0], [⟨bytes "p", 1, bytes "one", bytes "u", bytes "create"⟩], [], []⟩

/-- The tables with both notes. -/
def notesDb : Db :=
  ⟨[rootNote.toRecord 0, childNote.toRecord 1],
    [⟨bytes "p", 1, bytes "one", bytes "u", bytes "create"⟩,
      ⟨bytes "c", 1, bytes "two", bytes "u", bytes "create"⟩], [], []⟩

/-- Two notes, created one under the other. -/
theorem notesDb_reachable : treeMachine.Reachable notesDb := by
  have hroot : createHumanDoc ⟨[], [], [], []⟩ rootNote (bytes "n") 0 = .ok rootNoteDb := by
    refine createHumanDoc_eq_ok.2 ⟨?_, rfl⟩
    show climb _ (rootNote.toRecord 0) 1 [bytes "p"] [] >>= _ = _
    rw [climb_nil]
    rfl
  have hchild : createHumanDoc rootNoteDb childNote (bytes "n") 1 = .ok notesDb := by
    have hparent : getDoc rootNoteDb (bytes "p") = some (rootNote.toRecord 0) := rfl
    have hclimb : climb rootNoteDb (childNote.toRecord 1) 1 [bytes "c"] (bytes "p") = .ok 2 := by
      rw [climb, hparent]
      exact climb_nil _ _ _ _
    refine createHumanDoc_eq_ok.2 ⟨?_, rfl⟩
    show climb rootNoteDb (childNote.toRecord 1) 1 [bytes "c"] (bytes "p") >>= _ = _
    rw [hclimb]
    rfl
  have hinit : treeMachine.init ⟨[], [], [], []⟩ := by
    refine ⟨List.nodup_nil, ?_, ?_, ?_⟩
    · intro d hd
      simp at hd
    · intro d hd
      simp at hd
    · intro d hd
      simp at hd
  have hnew : bytes "n" ≠ [] := by decide
  have h₁ : treeMachine.Reachable rootNoteDb := (Machine.Reachable.of_init hinit).step
    (a := TreeEvent.create rootNote (bytes "n") 0) ⟨hnew, Or.inl hroot⟩
  exact h₁.step (a := TreeEvent.create childNote (bytes "n") 1) ⟨hnew, Or.inl hchild⟩

/-- The two notes form a forest. -/
theorem docs_form_forest_sample : Forest notesDb := (docs_form_forest notesDb_reachable).1

end WiseLabz.Store
