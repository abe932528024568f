/-
**The hosts of a Traefik rule.**

The hosts are found by a pattern in the text of a rule, which is not parsed: whether a matcher is
negated is told by counting the brackets before it.  The arguments of a matcher are quoted, and a
bracket, or what looks like a matcher, may be in them.  What is taken from the text is compared,
with the places it is taken from, with the arguments of the host matchers; this comes down to what
the pattern does in the text of each matcher.

Main definitions:

* `HostRule.hostsFromRule`, `HostRule.standaloneMatcher` — **what is found in a text**;
* `HostRule.taken` — the quoted texts that are taken for hosts, with their places;
* `HostRule.Rule`, `HostRule.Rule.render` — a rule, and its text;
* `HostRule.Rule.hosts`, `HostRule.Rule.arguments` — the hosts of the matchers that are not negated,
  and the arguments they come from;
* `HostRule.Rule.Read` — the pattern does what it should in each matcher.

Main results:

* `HostRule.taken_append` — what is taken from a text that begins with a rule;
* `HostRule.taken_eq_nil_iff` — **when nothing is taken from a text**;
* `HostRule.taken_rule` — **what is taken from a rule**;
* `HostRule.hosts_found_iff` — **when the hosts of a rule are found**;
* `HostRule.quoted_matcher_found` — so is one that is quoted.
-/

import WiseLabz.Lib.Bytes
import Mathlib.Data.List.Infix
import Mathlib.Tactic.Common

set_option relaxedAutoImplicit false
set_option autoImplicit false

namespace WiseLabz.HostRule

open Lib

/-! ### What is found in a text -/

def isSpace (b : UInt8) : Bool := b = 0x20 || b = 0x09

def isWordByte (b : UInt8) : Bool :=
  b = 0x5F || (0x61 ≤ b && b ≤ 0x7A) || (0x41 ≤ b && b ≤ 0x5A) || (0x30 ≤ b && b ≤ 0x39)

def lparen : UInt8 := 0x28
def rparen : UInt8 := 0x29
def bang : UInt8 := 0x21
def backtick : UInt8 := 0x60
def doubleQuote : UInt8 := 0x22
def comma : UInt8 := 0x2C

/-- The spellings of the matcher. -/
def hostNames : List Bytes := [bytes "Host", bytes "host", bytes "HOST"]

/-- The text before a position, the last byte first. -/
abbrev Before := Bytes

/-- `negatedBefore` -/
def negatedBefore (before : Before) : Bool := (before.dropWhile isSpace).head? = some bang

/-- The walk back to the groups around a position: none of them is negated. -/
def walkBack : ℕ → Before → Bool
  | _, [] => true
  | depth, b :: before =>
      if b = rparen then walkBack (depth + 1) before
      else if b = lparen then
        if 0 < depth then walkBack (depth - 1) before
        else if negatedBefore before then false
        else walkBack depth before
      else walkBack depth before

/-- `standaloneMatcher` -/
def standaloneMatcher (before : Before) : Bool :=
  !before.head?.any isWordByte && !negatedBefore before && walkBack 0 before

/-- `hostMatcher`, at a position: the name and the arguments. -/
def hostMatcher (text : Bytes) : Option (Bytes × Bytes) :=
  hostNames.findSome? fun name =>
    match stripPrefix (name ++ [lparen]) text with
    | none => none
    | some rest => if rparen ∈ rest then some (name, rest.takeWhile (· ≠ rparen)) else none

/-- A match: the text before it, and what it captures. -/
structure Match where
  before : Before
  name : Bytes
  args : Bytes
  deriving DecidableEq, Repr

/-- `hostMatcher.FindAllStringSubmatchIndex`; the first `skip` bytes belong to the last match. -/
def findAll : ℕ → Before → Bytes → List Match
  | _, _, [] => []
  | skip + 1, before, b :: rest => findAll skip (b :: before) rest
  | 0, before, b :: rest =>
      match hostMatcher (b :: rest) with
      | some (name, args) =>
          ⟨before, name, args⟩ :: findAll (name.length + args.length + 1) (b :: before) rest
      | none => findAll 0 (b :: before) rest

/-- A quoted text, at a position. -/
def quoted (quote : UInt8) : Bytes → Option Bytes
  | [] => none
  | b :: rest => if b = quote ∧ quote ∈ rest then some (rest.takeWhile (· ≠ quote)) else none

/-- `hostLiteral`, at a position. -/
def hostLiteral (text : Bytes) : Option Bytes := (quoted backtick text).or (quoted doubleQuote text)

/-- `hostLiteral.FindAllStringSubmatch`, with the places, where the text begins at `place`. -/
def literals : ℕ → ℕ → Bytes → List (ℕ × Bytes)
  | _, _, [] => []
  | skip + 1, place, _ :: rest => literals skip (place + 1) rest
  | 0, place, b :: rest =>
      match hostLiteral (b :: rest) with
      | some content => (place, content) :: literals (content.length + 1) (place + 1) rest
      | none => literals 0 (place + 1) rest

/-- The quoted texts of a match, if it is a whole matcher. -/
def Match.taken (m : Match) : List (ℕ × Bytes) :=
  if standaloneMatcher m.before then literals 0 (m.before.length + m.name.length + 1) m.args else []

/-- The quoted texts that are taken for hosts. -/
def taken (before : Before) (text : Bytes) : List (ℕ × Bytes) :=
  (findAll 0 before text).flatMap Match.taken

/-- `hostsFromRule`; `normalizeHost` gives the plain form of a host name, if it is one. -/
def hostsFromRule (normalizeHost : Bytes → Option Bytes) (rule : Bytes) : List Bytes :=
  (taken [] rule).filterMap fun l => normalizeHost l.2

/-! ### Rules -/

/-- A quoted argument. -/
structure Literal where
  quote : UInt8
  content : Bytes
  quote_eq : quote = backtick ∨ quote = doubleQuote
  notMem : quote ∉ content

/-- An argument, with the spaces around it. -/
structure Argument where
  gap : Bytes
  literal : Literal
  gapAfter : Bytes
  isSpace_gap : ∀ b ∈ gap, isSpace b = true
  isSpace_gapAfter : ∀ b ∈ gapAfter, isSpace b = true

def Argument.render (a : Argument) : Bytes :=
  a.gap ++ a.literal.quote :: a.literal.content ++ a.literal.quote :: a.gapAfter

/-- The arguments between the brackets. -/
def renderArguments : List Argument → Bytes
  | [] => []
  | [a] => a.render
  | a :: b :: rest => a.render ++ comma :: renderArguments (b :: rest)

/-- A rule as it is written, with its spaces. -/
inductive Rule
  | matcher (name gap : Bytes) (args : List Argument)
  | not (gap : Bytes) (r : Rule)
  | group (gap : Bytes) (r : Rule) (gapAfter : Bytes)
  | binary (l : Rule) (gap : Bytes) (isAnd : Bool) (gapAfter : Bytes) (r : Rule)

def operator (isAnd : Bool) : Bytes := if isAnd then bytes "&&" else bytes "||"

def Rule.render : Rule → Bytes
  | .matcher name gap args => name ++ (gap ++ lparen :: (renderArguments args ++ [rparen]))
  | .not gap r => bang :: (gap ++ r.render)
  | .group gap r gapAfter => lparen :: (gap ++ (r.render ++ (gapAfter ++ [rparen])))
  | .binary l gap isAnd gapAfter r =>
      l.render ++ (gap ++ (operator isAnd ++ (gapAfter ++ r.render)))

def Rule.isBinary : Rule → Bool
  | .binary .. => true
  | _ => false

/-- A name is a word, spaces are spaces, and what is negated is not a conjunction or disjunction. -/
def Rule.WellFormed : Rule → Prop
  | .matcher name gap _ => name ≠ [] ∧ (∀ b ∈ name, isWordByte b = true) ∧
      ∀ b ∈ gap, isSpace b = true
  | .not gap r => (∀ b ∈ gap, isSpace b = true) ∧ r.isBinary = false ∧ r.WellFormed
  | .group gap r gapAfter => (∀ b ∈ gap, isSpace b = true) ∧ r.WellFormed ∧
      ∀ b ∈ gapAfter, isSpace b = true
  | .binary l gap _ gapAfter r => l.WellFormed ∧ (∀ b ∈ gap, isSpace b = true) ∧
      (∀ b ∈ gapAfter, isSpace b = true) ∧ r.WellFormed

/-- **The hosts of the matchers** with no negation above them. -/
def Rule.hosts (normalizeHost : Bytes → Option Bytes) : Bool → Rule → List Bytes
  | negated, .matcher name _ args =>
      if name ∈ hostNames ∧ negated = false then
        (args.map fun a => a.literal.content).filterMap normalizeHost
      else []
  | _, .not _ r => r.hosts normalizeHost true
  | negated, .group _ r _ => r.hosts normalizeHost negated
  | negated, .binary l _ _ _ r => l.hosts normalizeHost negated ++ r.hosts normalizeHost negated

/-- The quoted texts of arguments, and their places. -/
def placed : ℕ → List Argument → List (ℕ × Bytes)
  | _, [] => []
  | place, a :: rest =>
      (place + a.gap.length, a.literal.content) :: placed (place + a.render.length + 1) rest

/-- **The arguments of the host matchers** with no negation above them, and their places in a text
where the rule begins at `place`. -/
def Rule.arguments : ℕ → Bool → Rule → List (ℕ × Bytes)
  | place, negated, .matcher name gap args =>
      if name ∈ hostNames ∧ negated = false then placed (place + name.length + gap.length + 1) args
      else []
  | place, _, .not gap r => r.arguments (place + 1 + gap.length) true
  | place, negated, .group gap r _ => r.arguments (place + 1 + gap.length) negated
  | place, negated, .binary l gap isAnd gapAfter r =>
      l.arguments place negated ++
        r.arguments (place + l.render.length + gap.length + (operator isAnd).length +
          gapAfter.length) negated

/-- Every bracket after a spelling of the matcher is closed. -/
def Closed (p : Bytes) : Prop :=
  ∀ p₁ name p₂, p = p₁ ++ (name ++ lparen :: p₂) → name ∈ hostNames → rparen ∈ p₂

/-- Wherever a spelling of the matcher stands as a whole matcher, and is not in the brackets of
another, no two equal quotes stand between its brackets. -/
def Quiet (before : Before) (text : Bytes) : Prop :=
  ∀ p name args rest, text = p ++ (name ++ lparen :: (args ++ rparen :: rest)) →
    name ∈ hostNames → rparen ∉ args → Closed p → standaloneMatcher (p.reverse ++ before) = true →
      args.count backtick ≤ 1 ∧ args.count doubleQuote ≤ 1

/-- **The pattern does what it should in each matcher**, given the text before it: a host matcher
with no negation above it has its bracket next to its name, closes no bracket in its arguments, and
the walk back from it meets no negation; and in the text of any other matcher nothing is taken. -/
def Rule.Read : Before → Bool → Rule → Prop
  | before, negated, .matcher name gap args =>
      if name ∈ hostNames ∧ negated = false ∧ args ≠ [] then
        gap = [] ∧ standaloneMatcher before = true ∧ ∀ a ∈ args, rparen ∉ a.literal.content
      else Quiet before (Rule.matcher name gap args).render
  | before, _, .not gap r => r.Read (gap.reverse ++ bang :: before) true
  | before, negated, .group gap r _ => r.Read (gap.reverse ++ lparen :: before) negated
  | before, negated, .binary l gap isAnd gapAfter r =>
      l.Read before negated ∧
        r.Read ((gap ++ (operator isAnd ++ gapAfter)).reverse ++ (l.render.reverse ++ before))
          negated

instance decidableWellFormed : (r : Rule) → Decidable r.WellFormed
  | .matcher _ _ _ => inferInstanceAs (Decidable (_ ∧ _ ∧ _))
  | .not _ r =>
      have : Decidable r.WellFormed := decidableWellFormed r
      inferInstanceAs (Decidable (_ ∧ _ ∧ _))
  | .group _ r _ =>
      have : Decidable r.WellFormed := decidableWellFormed r
      inferInstanceAs (Decidable (_ ∧ _ ∧ _))
  | .binary l _ _ _ r =>
      have : Decidable l.WellFormed := decidableWellFormed l
      have : Decidable r.WellFormed := decidableWellFormed r
      inferInstanceAs (Decidable (_ ∧ _ ∧ _ ∧ _))

/-! ### A match of the pattern -/

theorem length_of_mem_hostNames : ∀ name ∈ hostNames, name.length = 4 := by
  decide

theorem forall_isWordByte : ∀ name ∈ hostNames, ∀ b ∈ name, isWordByte b = true := by
  decide

theorem isWordByte_of_isSpace {b : UInt8} (h : isSpace b = true) : isWordByte b = false := by
  rw [isSpace, Bool.or_eq_true, decide_eq_true_iff, decide_eq_true_iff] at h
  rcases h with rfl | rfl <;> decide

theorem lparen_notMem {w : Bytes} (h : ∀ b ∈ w, isWordByte b = true ∨ isSpace b = true) :
    lparen ∉ w := by
  intro hmem
  rcases h lparen hmem with h | h <;> revert h <;> decide

theorem rparen_notMem {w : Bytes} (h : ∀ b ∈ w, isWordByte b = true ∨ isSpace b = true) :
    rparen ∉ w := by
  intro hmem
  rcases h rparen hmem with h | h <;> revert h <;> decide

theorem lparen_notMem_of_mem_hostNames {name : Bytes} (h : name ∈ hostNames) : lparen ∉ name :=
  lparen_notMem fun b hb => Or.inl (forall_isWordByte name h b hb)

/-- A name that ends at the same bracket is the same. -/
theorem eq_of_prefix_lparen {name w rest : Bytes} (hname : lparen ∉ name) (hw : lparen ∉ w)
    (h : (name ++ [lparen]) <+: (w ++ lparen :: rest)) : name = w := by
  induction name generalizing w with
  | nil =>
      cases w with
      | nil => rfl
      | cons b w =>
          obtain ⟨u, hu⟩ := h
          exact absurd ((List.cons.inj hu).1 ▸ List.mem_cons_self) hw
  | cons c name ih =>
      cases w with
      | nil =>
          obtain ⟨u, hu⟩ := h
          exact absurd ((List.cons.inj hu).1 ▸ List.mem_cons_self) hname
      | cons b w =>
          rw [List.cons_append, List.cons_append, List.cons_prefix_cons] at h
          rw [h.1, ih (fun hmem => hname (List.mem_cons_of_mem _ hmem))
            (fun hmem => hw (List.mem_cons_of_mem _ hmem)) h.2]

/-- What is taken before a byte that ends it. -/
theorem takeWhile_ne {s : Bytes} {q : UInt8} (rest : Bytes) (h : q ∉ s) :
    (s ++ q :: rest).takeWhile (· ≠ q) = s := by
  induction s with
  | nil => rw [List.nil_append, List.takeWhile_cons_of_neg (by simp)]
  | cons c s ih =>
      rw [List.mem_cons, not_or] at h
      rw [List.cons_append, List.takeWhile_cons_of_pos (by simpa using Ne.symm h.1), ih h.2]

theorem takeWhile_ne_of_mem {s : Bytes} {q : UInt8} (h : q ∈ s) :
    ∃ rest, s = s.takeWhile (· ≠ q) ++ q :: rest ∧ q ∉ s.takeWhile (· ≠ q) := by
  obtain ⟨t, rest, hs, hq⟩ := List.eq_append_cons_of_mem h
  rw [hs, takeWhile_ne rest hq]
  exact ⟨rest, rfl, hq⟩

theorem hostMatcher_eq_some {text name args : Bytes} (h : hostMatcher text = some (name, args)) :
    name ∈ hostNames ∧ rparen ∉ args ∧
      ∃ rest, text = name ++ lparen :: (args ++ rparen :: rest) := by
  obtain ⟨name', hname, h⟩ := List.exists_of_findSome?_eq_some h
  split at h
  · cases h
  · next rest hrest =>
      split at h
      · next hmem =>
          obtain ⟨rfl, rfl⟩ := Prod.mk.inj (Option.some.inj h)
          obtain ⟨after, hafter, hargs⟩ := takeWhile_ne_of_mem hmem
          refine ⟨hname, hargs, after, ?_⟩
          rw [stripPrefix_eq_some.1 hrest, ← hafter]
          simp
      · cases h

/-- A match begins with the first byte of a name. -/
theorem hostMatcher_head {b : UInt8} {text name args : Bytes}
    (h : hostMatcher (b :: text) = some (name, args)) : b = 0x48 ∨ b = 0x68 := by
  obtain ⟨hname, -, rest, htext⟩ := hostMatcher_eq_some h
  have hhead : ∀ name ∈ hostNames, name.head? = some 0x48 ∨ name.head? = some 0x68 := by decide
  have hcase := hhead name hname
  cases name with
  | nil => rcases hcase with hcase | hcase <;> cases hcase
  | cons c name =>
      have hbc : b = c := (List.cons.inj htext).1
      exact hcase.imp (fun hc => hbc.trans (Option.some.inj hc))
        fun hc => hbc.trans (Option.some.inj hc)

/-- A match begins at a spelling of the matcher, and its arguments end at a bracket. -/
theorem hostMatcher_render {name args : Bytes} (rest : Bytes) (hname : name ∈ hostNames)
    (hargs : rparen ∉ args) :
    hostMatcher (name ++ lparen :: (args ++ rparen :: rest)) = some (name, args) := by
  cases hfound : hostMatcher (name ++ lparen :: (args ++ rparen :: rest)) with
  | none =>
      have hnone := List.findSome?_eq_none_iff.1 hfound name hname
      have htext : name ++ lparen :: (args ++ rparen :: rest) =
          (name ++ [lparen]) ++ (args ++ rparen :: rest) := by simp
      rw [htext, stripPrefix_append] at hnone
      simp at hnone
  | some m =>
      obtain ⟨name', args'⟩ := m
      obtain ⟨hname', hargs', rest', htext⟩ := hostMatcher_eq_some hfound
      have hpre : (name' ++ [lparen]) <+: (name ++ lparen :: (args ++ rparen :: rest)) :=
        ⟨args' ++ rparen :: rest', by rw [htext]; simp⟩
      obtain rfl := eq_of_prefix_lparen (lparen_notMem_of_mem_hostNames hname')
        (lparen_notMem_of_mem_hostNames hname) hpre
      have hrest := (List.cons.inj (List.append_cancel_left htext)).2
      have hcut := congrArg (List.takeWhile (· ≠ rparen)) hrest
      rw [takeWhile_ne rest hargs, takeWhile_ne rest' hargs'] at hcut
      rw [hcut]

/-- A match in a text that ends with a bracket ends in it. -/
theorem hostMatcher_append {s : Bytes} (hs : s.getLast? = some rparen) (rest : Bytes) :
    hostMatcher (s ++ rest) = hostMatcher s := by
  cases hfound : hostMatcher s with
  | some m =>
      obtain ⟨hname, hargs, after, rfl⟩ := hostMatcher_eq_some hfound
      have h := hostMatcher_render (after ++ rest) hname hargs
      simpa using h
  | none =>
      by_contra hne
      obtain ⟨⟨name, args⟩, hsome⟩ := Option.ne_none_iff_exists'.1 hne
      obtain ⟨hname, hargs, after, htext⟩ := hostMatcher_eq_some hsome
      have hpre : name ++ lparen :: args ++ [rparen] <+: s ++ rest := ⟨after, by rw [htext]; simp⟩
      rcases le_total (name ++ lparen :: args ++ [rparen]).length s.length with hle | hle
      · obtain ⟨after', hs'⟩ := List.prefix_of_prefix_length_le hpre (List.prefix_append s rest) hle
        have h := hostMatcher_render after' hname hargs
        rw [← hs'] at hfound
        rw [show name ++ lparen :: (args ++ rparen :: after') =
          name ++ lparen :: args ++ [rparen] ++ after' by simp, hfound] at h
        cases h
      · -- the bracket at the end of the text is the one at which the match ends
        obtain ⟨u, hu⟩ := List.prefix_of_prefix_length_le (List.prefix_append s rest) hpre hle
        have hlast : rparen ∉ name ++ lparen :: args := by
          have hword := rparen_notMem fun b hb => Or.inl (forall_isWordByte name hname b hb)
          have hlr : rparen ≠ lparen := by decide
          simp [hword, hargs, hlr]
        obtain ⟨t, rfl⟩ := List.getLast?_eq_some_iff.1 hs
        rcases List.eq_nil_or_concat' u with rfl | ⟨u, b, rfl⟩
        · rw [List.append_nil] at hu
          have h := hostMatcher_render [] hname hargs
          rw [hu] at hfound
          rw [show name ++ lparen :: (args ++ rparen :: []) =
            name ++ lparen :: args ++ [rparen] by simp, hfound] at h
          cases h
        · rw [← List.append_assoc] at hu
          refine hlast ?_
          rw [← (List.append_inj' hu rfl).1]
          simp

/-! ### The matches in a text -/

/-- The bytes that belong to the last match are passed over. -/
theorem findAll_skip (s rest : Bytes) (before : Before) :
    findAll s.length before (s ++ rest) = findAll 0 (s.reverse ++ before) rest := by
  induction s generalizing before with
  | nil => rfl
  | cons b s ih =>
      rw [List.length_cons, List.cons_append, findAll, ih, List.reverse_cons, List.append_assoc]
      rfl

/-- No match begins in a text that is followed by another. -/
def NoMatch (s rest : Bytes) : Prop := ∀ p t, s = p ++ t → t ≠ [] → hostMatcher (t ++ rest) = none

theorem findAll_noMatch {s rest : Bytes} (h : NoMatch s rest) (before : Before) :
    findAll 0 before (s ++ rest) = findAll 0 (s.reverse ++ before) rest := by
  induction s generalizing before with
  | nil => rfl
  | cons b s ih =>
      have hnone : hostMatcher (b :: (s ++ rest)) = none := h [] (b :: s) rfl (List.cons_ne_nil _ _)
      have hrest : NoMatch s rest := fun p t heq hne => h (b :: p) t (by rw [heq]; rfl) hne
      rw [List.cons_append, findAll, hnone, ih hrest, List.reverse_cons, List.append_assoc]
      rfl

/-- No match begins with a byte that no name begins with. -/
theorem noMatch_of_forall {s : Bytes} (rest : Bytes) (h : ∀ b ∈ s, b ≠ 0x48 ∧ b ≠ 0x68) :
    NoMatch s rest := by
  intro p t heq hne
  obtain ⟨b, t', rfl⟩ := List.exists_cons_of_ne_nil hne
  obtain ⟨hH, hh⟩ := h b (by rw [heq]; simp)
  refine Option.eq_none_iff_forall_ne_some.2 fun m hm => ?_
  rcases hostMatcher_head (show hostMatcher (b :: (t' ++ rest)) = some (m.1, m.2) from hm) with
    hb | hb
  · exact hH hb
  · exact hh hb

theorem ne_of_isSpace {b : UInt8} (h : isSpace b = true) : b ≠ 0x48 ∧ b ≠ 0x68 := by
  rw [isSpace, Bool.or_eq_true, decide_eq_true_iff, decide_eq_true_iff] at h
  rcases h with rfl | rfl <;> decide

theorem ne_of_mem_operator (isAnd : Bool) : ∀ b ∈ operator isAnd, b ≠ 0x48 ∧ b ≠ 0x68 := by
  cases isAnd <;> decide

/-- **The matches in a text that ends with a bracket** are those of its own. -/
theorem findAll_append {s : Bytes} (hs : s = [] ∨ s.getLast? = some rparen) {skip : ℕ}
    (hskip : skip ≤ s.length) (before : Before) (rest : Bytes) :
    findAll skip before (s ++ rest) =
      findAll skip before s ++ findAll 0 (s.reverse ++ before) rest := by
  induction s generalizing skip before with
  | nil =>
      obtain rfl : skip = 0 := Nat.le_zero.1 hskip
      rfl
  | cons b s ih =>
      have hlast : s = [] ∨ s.getLast? = some rparen := by
        rcases hs with hs | hs
        · cases hs
        · cases s with
          | nil => exact Or.inl rfl
          | cons c s => exact Or.inr (by rwa [List.getLast?_cons_cons] at hs)
      have hlast' := hs.resolve_left (List.cons_ne_nil _ _)
      have hbefore : (b :: s).reverse ++ before = s.reverse ++ b :: before := by simp
      rw [hbefore, List.cons_append]
      cases skip with
      | succ skip => exact ih hlast (Nat.le_of_succ_le_succ hskip) _
      | zero =>
          have hmatch := hostMatcher_append hlast' rest
          rw [List.cons_append] at hmatch
          rw [findAll, findAll, hmatch]
          cases hfound : hostMatcher (b :: s) with
          | none => exact ih hlast (Nat.zero_le _) _
          | some m =>
              obtain ⟨name, args⟩ := m
              obtain ⟨-, -, after, htext⟩ := hostMatcher_eq_some hfound
              have hlength := congrArg List.length htext
              simp only [List.length_append, List.length_cons] at hlength
              exact congrArg (_ :: ·) (ih hlast (by omega) _)

/-- What contains a closing bracket after a name has it between the brackets. -/
theorem rparen_mem_of_suffix {name p₂ u : Bytes} (hname : name ∈ hostNames)
    (h : rparen :: u <:+ name ++ lparen :: p₂) : rparen ∈ p₂ := by
  have hmem := h.subset List.mem_cons_self
  rw [List.mem_append, List.mem_cons] at hmem
  rcases hmem with hmem | hmem | hmem
  · exact absurd hmem (rparen_notMem fun b hb => Or.inl (forall_isWordByte name hname b hb))
  · exact absurd hmem (by decide)
  · exact hmem

/-- A match that is found begins outside the ones before it. -/
theorem mem_findAll {m : Match} {skip : ℕ} {before : Before} {text : Bytes}
    (h : m ∈ findAll skip before text) :
    ∃ p t, text = p ++ t ∧ m.before = p.reverse ++ before ∧
      hostMatcher t = some (m.name, m.args) ∧ skip ≤ p.length ∧
        ∀ p₁ name p₂, p = p₁ ++ (name ++ lparen :: p₂) → name ∈ hostNames → skip ≤ p₁.length →
          rparen ∈ p₂ := by
  induction text generalizing skip before with
  | nil => cases skip <;> cases h
  | cons b rest ih =>
      cases skip with
      | succ skip =>
          obtain ⟨p, t, rfl, hbefore, hmatch, hle, hclosed⟩ := ih h
          refine ⟨b :: p, t, rfl, by rw [hbefore]; simp, hmatch, Nat.succ_le_succ hle, ?_⟩
          intro p₁ name p₂ hp hname hp₁
          cases p₁ with
          | nil => exact absurd hp₁ (Nat.not_succ_le_zero _)
          | cons c p₁ =>
              exact hclosed p₁ name p₂ (List.cons.inj hp).2 hname (Nat.le_of_succ_le_succ hp₁)
      | zero =>
          rw [findAll] at h
          split at h
          · next name₀ args₀ hfound =>
              rcases List.mem_cons.1 h with rfl | h
              · refine ⟨[], b :: rest, rfl, rfl, hfound, le_rfl, fun p₁ name p₂ hp _ _ => ?_⟩
                simp at hp
              · obtain ⟨p, t, rfl, hbefore, hmatch, hle, hclosed⟩ := ih h
                refine ⟨b :: p, t, rfl, by rw [hbefore]; simp, hmatch, Nat.zero_le _, ?_⟩
                intro p₁ name p₂ hp hname _
                rcases Nat.lt_or_ge (name₀.length + args₀.length + 1) p₁.length with hlt | hge
                · cases p₁ with
                  | nil => cases hlt
                  | cons c p₁ =>
                      exact hclosed p₁ name p₂ (List.cons.inj hp).2 hname
                        (Nat.le_of_lt_succ hlt)
                · -- the bracket that closes the match before is after the name
                  obtain ⟨-, -, after, htext⟩ := hostMatcher_eq_some hfound
                  have hend : name₀ ++ lparen :: args₀ ++ [rparen] <+: b :: p := by
                    have hmatched : name₀ ++ lparen :: args₀ ++ [rparen] <+: b :: (p ++ t) :=
                      ⟨after, by rw [htext]; simp⟩
                    refine List.prefix_of_prefix_length_le hmatched ⟨t, rfl⟩ ?_
                    simp only [List.length_append, List.length_cons, List.length_nil]
                    omega
                  obtain ⟨u, hu⟩ := hend
                  have hsuffix : rparen :: u <:+ b :: p :=
                    ⟨name₀ ++ lparen :: args₀, by rw [← hu]; simp⟩
                  refine rparen_mem_of_suffix hname
                    (List.suffix_of_suffix_length_le hsuffix ⟨p₁, hp.symm⟩ ?_)
                  have hlength := congrArg List.length (hu.trans hp)
                  simp only [List.length_append, List.length_cons, List.length_nil] at hlength ⊢
                  omega
          · next hnone =>
              obtain ⟨p, t, rfl, hbefore, hmatch, hle, hclosed⟩ := ih h
              refine ⟨b :: p, t, rfl, by rw [hbefore]; simp, hmatch, Nat.zero_le _, ?_⟩
              intro p₁ name p₂ hp hname _
              cases p₁ with
              | nil =>
                  by_contra hopen
                  obtain ⟨hname', hargs, after, rfl⟩ := hostMatcher_eq_some hmatch
                  have hword := rparen_notMem fun b hb =>
                    Or.inl (forall_isWordByte m.name hname' b hb)
                  have hlr : rparen ≠ lparen := by decide
                  have hall : rparen ∉ p₂ ++ (m.name ++ lparen :: m.args) := by
                    simp [hopen, hword, hargs, hlr]
                  have hsome := hostMatcher_render after hname hall
                  have htext : name ++ lparen :: (p₂ ++ (m.name ++ lparen :: m.args) ++
                      rparen :: after) = b :: (p ++ (m.name ++ lparen :: (m.args ++
                        rparen :: after))) := by
                    have hcons := congrArg (· ++ (m.name ++ lparen :: (m.args ++ rparen :: after)))
                      hp.symm
                    simpa using hcons
                  rw [htext, hnone] at hsome
                  cases hsome
              | cons c p₁ => exact hclosed p₁ name p₂ (List.cons.inj hp).2 hname (Nat.zero_le _)

/-- **Every match outside the ones before it is found**. -/
theorem mem_findAll_of_closed {p t : Bytes} {name args : Bytes} (hmatch : hostMatcher t =
    some (name, args)) (hclosed : Closed p) {skip : ℕ} (hskip : skip ≤ p.length)
    (before : Before) : ⟨p.reverse ++ before, name, args⟩ ∈ findAll skip before (p ++ t) := by
  induction p generalizing skip before with
  | nil =>
      obtain rfl : skip = 0 := Nat.le_zero.1 hskip
      cases t with
      | nil =>
          obtain ⟨-, -, rest, htext⟩ := hostMatcher_eq_some hmatch
          simp at htext
      | cons b t =>
          rw [List.nil_append, findAll, hmatch]
          exact List.mem_cons_self
  | cons c p ih =>
      have hclosed' : Closed p := fun p₁ name' p₂ hp hname' =>
        hclosed (c :: p₁) name' p₂ (by rw [hp]; rfl) hname'
      have hbefore : (c :: p).reverse ++ before = p.reverse ++ c :: before := by simp
      rw [hbefore, List.cons_append]
      cases skip with
      | succ skip => exact ih hclosed' (Nat.le_of_succ_le_succ hskip) _
      | zero =>
          rw [findAll]
          split
          · next name₀ args₀ hfound =>
              refine List.mem_cons_of_mem _ (ih hclosed' ?_ _)
              obtain ⟨hname₀, hargs₀, after, htext⟩ := hostMatcher_eq_some hfound
              by_contra hlt
              have hleft : c :: p <+: name₀ ++ lparen :: args₀ := by
                have hmatched : name₀ ++ lparen :: args₀ <+: c :: (p ++ t) :=
                  ⟨rparen :: after, by rw [htext]; simp⟩
                refine List.prefix_of_prefix_length_le ⟨t, rfl⟩ hmatched ?_
                simp only [List.length_append, List.length_cons]
                omega
              obtain ⟨u, hu⟩ := hleft
              have hname : name₀ ++ [lparen] <+: name₀ ++ lparen :: args₀ := ⟨args₀, by simp⟩
              rcases le_or_gt (name₀ ++ [lparen]).length (c :: p).length with hle | hgt
              · -- the match before begins before this one, and is not closed before it
                obtain ⟨p₂, hp₂⟩ := List.prefix_of_prefix_length_le hname ⟨u, hu⟩ hle
                have hmem := hclosed [] name₀ p₂ (by rw [← hp₂]; simp) hname₀
                have hargs : p₂ ++ u = args₀ := by
                  rw [← hp₂] at hu
                  simpa using hu
                exact hargs₀ (hargs ▸ List.mem_append_left _ hmem)
              · -- no name begins within a name
                obtain ⟨w, hw⟩ := List.prefix_of_prefix_length_le ⟨u, hu⟩ hname (Nat.le_of_lt hgt)
                cases w with
                | nil => rw [← hw, List.append_nil] at hgt; exact Nat.lt_irrefl _ hgt
                | cons b w =>
                    have ht : t = b :: (w ++ (args₀ ++ rparen :: after)) := by
                      have hcons : c :: p ++ t = c :: p ++ b :: (w ++ (args₀ ++ rparen :: after)) :=
                        calc c :: p ++ t
                          _ = name₀ ++ [lparen] ++ (args₀ ++ rparen :: after) := by
                              rw [List.cons_append, htext]; simp
                          _ = c :: p ++ b :: (w ++ (args₀ ++ rparen :: after)) := by
                              rw [← hw]; simp
                      exact List.append_cancel_left hcons
                    have htail : ∀ name ∈ hostNames, ∀ b ∈ (name ++ [lparen]).tail,
                        b ≠ 0x48 ∧ b ≠ 0x68 := by decide
                    obtain ⟨hH, hh⟩ := htail name₀ hname₀ b (by rw [← hw]; simp)
                    rw [ht] at hmatch
                    exact (hostMatcher_head hmatch).elim hH hh
          · exact ih hclosed' (Nat.zero_le _) _

/-! ### What is quoted -/

theorem literals_skip (s rest : Bytes) (place : ℕ) :
    literals s.length place (s ++ rest) = literals 0 (place + s.length) rest := by
  induction s generalizing place with
  | nil => rfl
  | cons b s ih =>
      rw [List.length_cons, List.cons_append, literals, ih, Nat.add_assoc, Nat.add_comm 1]

/-- A byte that is no quote is passed over. -/
theorem literals_cons {b : UInt8} (rest : Bytes) (place : ℕ) (h : b ≠ backtick ∧ b ≠ doubleQuote) :
    literals 0 place (b :: rest) = literals 0 (place + 1) rest := by
  have hnone : hostLiteral (b :: rest) = none := by
    simp [hostLiteral, quoted, h.1, h.2]
  rw [literals, hnone]

theorem literals_spaces {gap : Bytes} (rest : Bytes) (h : ∀ b ∈ gap, isSpace b = true)
    (place : ℕ) : literals 0 place (gap ++ rest) = literals 0 (place + gap.length) rest := by
  induction gap generalizing place with
  | nil => rfl
  | cons b gap ih =>
      have hb : b ≠ backtick ∧ b ≠ doubleQuote := by
        have hb := h b List.mem_cons_self
        rw [isSpace, Bool.or_eq_true, decide_eq_true_iff, decide_eq_true_iff] at hb
        rcases hb with rfl | rfl <;> decide
      rw [List.cons_append, literals_cons _ _ hb, ih fun c hc => h c (List.mem_cons_of_mem _ hc),
        List.length_cons, Nat.add_assoc, Nat.add_comm 1]

theorem quoted_render {q : UInt8} {content : Bytes} (rest : Bytes) (h : q ∉ content) :
    quoted q (q :: (content ++ q :: rest)) = some content := by
  rw [quoted, if_pos ⟨rfl, List.mem_append_right _ List.mem_cons_self⟩, takeWhile_ne rest h]

theorem Literal.hostLiteral_render (l : Literal) (rest : Bytes) :
    hostLiteral (l.quote :: (l.content ++ l.quote :: rest)) = some l.content := by
  have hquoted := quoted_render rest l.notMem
  rcases l.quote_eq with h | h
  · rw [hostLiteral, ← h, hquoted]
    rfl
  · have hback : quoted backtick (l.quote :: (l.content ++ l.quote :: rest)) = none := by
      rw [h, quoted, if_neg fun hb => absurd hb.1 (by decide)]
    rw [hostLiteral, hback, ← h, hquoted]
    rfl

theorem literals_argument (a : Argument) (rest : Bytes) (place : ℕ) :
    literals 0 place (a.render ++ rest) =
      (place + a.gap.length, a.literal.content) :: literals 0 (place + a.render.length) rest := by
  have hrender : a.render ++ rest = a.gap ++ (a.literal.quote :: (a.literal.content ++
      a.literal.quote :: (a.gapAfter ++ rest))) := by
    simp [Argument.render]
  have hskip : ∀ p, literals (a.literal.content.length + 1) p
      (a.literal.content ++ a.literal.quote :: (a.gapAfter ++ rest)) =
        literals 0 (p + a.literal.content.length + 1) (a.gapAfter ++ rest) := by
    intro p
    have h := literals_skip (a.literal.content ++ [a.literal.quote]) (a.gapAfter ++ rest) p
    rw [List.length_append, List.length_singleton, List.append_assoc] at h
    exact h
  have hlength : a.render.length =
      a.gap.length + 1 + a.literal.content.length + 1 + a.gapAfter.length := by
    simp [Argument.render]
    omega
  rw [hrender, literals_spaces _ a.isSpace_gap, literals, a.literal.hostLiteral_render]
  dsimp only
  rw [hskip, literals_spaces _ a.isSpace_gapAfter, hlength]
  congr 2
  omega

/-- **The quoted texts of the arguments** are those of their text. -/
theorem literals_renderArguments (args : List Argument) (place : ℕ) :
    literals 0 place (renderArguments args) = placed place args := by
  induction args generalizing place with
  | nil => rfl
  | cons a args ih =>
      cases args with
      | nil =>
          have h := literals_argument a [] place
          rwa [List.append_nil] at h
      | cons b args =>
          have hcomma : renderArguments (a :: b :: args) =
            a.render ++ comma :: renderArguments (b :: args) := rfl
          rw [hcomma, literals_argument, literals_cons _ _ (by decide), ih]
          rfl

theorem mem_quoted {q : UInt8} {text content : Bytes} (h : quoted q text = some content) :
    content ⊆ text := by
  cases text with
  | nil => cases h
  | cons b rest =>
      rw [quoted] at h
      split at h
      · obtain rfl := Option.some.inj h
        exact List.subset_cons_of_subset _ (List.takeWhile_sublist _).subset
      · cases h

/-- What is quoted is in the text, at its place. -/
theorem mem_literals {l : ℕ × Bytes} {skip place : ℕ} {text : Bytes}
    (h : l ∈ literals skip place text) :
    place ≤ l.1 ∧ l.1 < place + text.length ∧ l.2 ⊆ text := by
  induction text generalizing skip place with
  | nil => cases skip <;> cases h
  | cons b rest ih =>
      have hlater : ∀ {skip}, l ∈ literals skip (place + 1) rest →
          place ≤ l.1 ∧ l.1 < place + (b :: rest).length ∧ l.2 ⊆ b :: rest := by
        intro skip hl
        obtain ⟨hle, hlt, hsub⟩ := ih hl
        rw [List.length_cons]
        exact ⟨by omega, by omega, List.subset_cons_of_subset _ hsub⟩
      cases skip with
      | succ skip => exact hlater h
      | zero =>
          rw [literals] at h
          split at h
          · next content hfound =>
              rcases List.mem_cons.1 h with rfl | h
              · refine ⟨le_rfl, by rw [List.length_cons]; omega, ?_⟩
                rw [hostLiteral, Option.or_eq_some_iff] at hfound
                exact hfound.elim mem_quoted fun hfound => mem_quoted hfound.2
              · exact hlater h
          · exact hlater h

/-! ### Places -/

/-- What is taken from a match, and where it is. -/
theorem mem_taken {l : ℕ × Bytes} {before : Before} {text : Bytes} (h : l ∈ taken before text) :
    ∃ p name args rest, text = p ++ (name ++ lparen :: (args ++ rparen :: rest)) ∧
      name ∈ hostNames ∧ standaloneMatcher (p.reverse ++ before) = true ∧ rparen ∉ l.2 ∧
        before.length + p.length + name.length < l.1 ∧ l.1 < before.length + text.length := by
  obtain ⟨m, hm, hl⟩ := List.mem_flatMap.1 h
  obtain ⟨p, t, rfl, hbefore, hmatch, -⟩ := mem_findAll hm
  obtain ⟨hname, hargs, rest, rfl⟩ := hostMatcher_eq_some hmatch
  rw [Match.taken] at hl
  split at hl
  · next hstand =>
      obtain ⟨hle, hlt, hsub⟩ := mem_literals hl
      rw [hbefore, List.length_append, List.length_reverse] at hle hlt
      refine ⟨p, m.name, m.args, rest, rfl, hname, hbefore ▸ hstand, fun hmem => hargs (hsub hmem),
        by omega, ?_⟩
      simp only [List.length_append, List.length_cons]
      omega
  · cases hl

theorem mem_placed {l : ℕ × Bytes} {place : ℕ} {args : List Argument} (h : l ∈ placed place args) :
    place ≤ l.1 ∧ l.1 < place + (renderArguments args).length := by
  rw [← literals_renderArguments] at h
  exact ⟨(mem_literals h).1, (mem_literals h).2.1⟩

theorem mem_arguments {l : ℕ × Bytes} {r : Rule} {place : ℕ} {negated : Bool}
    (h : l ∈ r.arguments place negated) : place ≤ l.1 ∧ l.1 < place + r.render.length := by
  induction r generalizing place negated with
  | matcher name gap args =>
      rw [Rule.arguments] at h
      split at h
      · obtain ⟨hle, hlt⟩ := mem_placed h
        simp only [Rule.render, List.length_append, List.length_cons]
        omega
      · cases h
  | not gap r ih =>
      obtain ⟨hle, hlt⟩ := ih h
      simp only [Rule.render, List.length_append, List.length_cons]
      omega
  | group gap r gapAfter ih =>
      obtain ⟨hle, hlt⟩ := ih h
      simp only [Rule.render, List.length_append, List.length_cons]
      omega
  | binary l' gap isAnd gapAfter r ihl ihr =>
      simp only [Rule.render, List.length_append]
      rcases List.mem_append.1 h with h | h
      · obtain ⟨hle, hlt⟩ := ihl h
        omega
      · obtain ⟨hle, hlt⟩ := ihr h
        omega

/-- Lists whose places lie on two sides of a place are compared side by side. -/
theorem append_eq_iff {l l' e e' : List (ℕ × Bytes)} {n : ℕ} (hl : ∀ x ∈ l, x.1 < n)
    (he : ∀ x ∈ e, x.1 < n) (hl' : ∀ x ∈ l', n ≤ x.1) (he' : ∀ x ∈ e', n ≤ x.1) :
    l ++ l' = e ++ e' ↔ l = e ∧ l' = e' := by
  have hcut : ∀ {u v : List (ℕ × Bytes)}, (∀ x ∈ u, x.1 < n) → (∀ x ∈ v, n ≤ x.1) →
      (u ++ v).filter (fun x => x.1 < n) = u := by
    intro u v hu hv
    rw [List.filter_append, List.filter_eq_self.2 fun x hx => decide_eq_true (hu x hx),
      List.filter_eq_nil_iff.2 fun x hx => by simpa using hv x hx, List.append_nil]
  constructor
  · intro h
    have hleft : l = e := by rw [← hcut hl hl', h, hcut he he']
    subst hleft
    exact ⟨rfl, List.append_cancel_left h⟩
  · rintro ⟨rfl, rfl⟩
    rfl

/-! ### What is taken from a rule -/

theorem getLast?_render (r : Rule) : r.render.getLast? = some rparen := by
  have happend : ∀ {s t : Bytes}, t.getLast? = some rparen → (s ++ t).getLast? = some rparen := by
    intro s t ht
    rw [List.getLast?_append, ht]
    rfl
  induction r with
  | matcher name gap args =>
      have hrender : (Rule.matcher name gap args).render =
          (name ++ gap ++ lparen :: renderArguments args) ++ [rparen] := by
        simp [Rule.render]
      rw [hrender]
      exact happend rfl
  | not gap r ih => exact happend (s := bang :: gap) ih
  | group gap r gapAfter ih =>
      have hrender : (Rule.group gap r gapAfter).render =
          (lparen :: gap ++ r.render ++ gapAfter) ++ [rparen] := by
        simp [Rule.render]
      rw [hrender]
      exact happend rfl
  | binary l gap isAnd gapAfter r ihl ihr =>
      exact happend (happend (happend (happend ihr)))

/-- **What is taken from a text that begins with a rule.** -/
theorem taken_append (r : Rule) (before : Before) (rest : Bytes) :
    taken before (r.render ++ rest) =
      taken before r.render ++ taken (r.render.reverse ++ before) rest := by
  rw [taken, findAll_append (Or.inr (getLast?_render r)) (Nat.zero_le _), List.flatMap_append]
  rfl

theorem taken_noMatch {s : Bytes} (h : ∀ b ∈ s, b ≠ 0x48 ∧ b ≠ 0x68) (before : Before)
    (rest : Bytes) : taken before (s ++ rest) = taken (s.reverse ++ before) rest := by
  rw [taken, findAll_noMatch (noMatch_of_forall rest h)]
  rfl

theorem taken_eq_nil {s : Bytes} (h : ∀ b ∈ s, b ≠ 0x48 ∧ b ≠ 0x68) (before : Before) :
    taken before s = [] := by
  have hnil := taken_noMatch h before []
  rw [List.append_nil] at hnil
  exact hnil

/-- Nothing is quoted where no two equal quotes are. -/
theorem literals_eq_nil_iff (place : ℕ) (text : Bytes) :
    literals 0 place text = [] ↔ text.count backtick ≤ 1 ∧ text.count doubleQuote ≤ 1 := by
  induction text generalizing place with
  | nil => simp [literals]
  | cons b rest ih =>
      have hcount : ∀ q : UInt8, (b :: rest).count q ≤ 1 ↔
          rest.count q ≤ 1 ∧ ¬(b = q ∧ q ∈ rest) := by
        intro q
        have hpos := List.count_pos_iff (a := q) (l := rest)
        rcases eq_or_ne b q with rfl | hne
        · rw [List.count_cons_self]
          by_cases hmem : b ∈ rest
          · have := hpos.2 hmem
            simp only [hmem, and_self, not_true, and_false, iff_false]
            omega
          · simp [hmem, List.count_eq_zero_of_not_mem hmem]
        · rw [List.count_cons_of_ne hne]
          simp [hne]
      have hnone : hostLiteral (b :: rest) = none ↔
          ¬(b = backtick ∧ backtick ∈ rest) ∧ ¬(b = doubleQuote ∧ doubleQuote ∈ rest) := by
        rw [hostLiteral, Option.or_eq_none_iff, quoted, quoted]
        simp only [ite_eq_right_iff, reduceCtorEq, imp_false]
      rw [hcount, hcount, literals]
      cases hfound : hostLiteral (b :: rest) with
      | some content =>
          have hsome : hostLiteral (b :: rest) ≠ none := by rw [hfound]; simp
          rw [ne_eq, hnone] at hsome
          simp only [reduceCtorEq, false_iff]
          tauto
      | none =>
          rw [hnone] at hfound
          dsimp only
          rw [ih]
          tauto

/-- **When nothing is taken from a text.** -/
theorem taken_eq_nil_iff {before : Before} {text : Bytes} :
    taken before text = [] ↔ Quiet before text := by
  rw [taken, List.flatMap_eq_nil_iff]
  constructor
  · rintro h p name args rest rfl hname hargs hclosed hstand
    have hmem := mem_findAll_of_closed (hostMatcher_render rest hname hargs) hclosed
      (Nat.zero_le _) before
    have hnil := h _ hmem
    rw [Match.taken, if_pos hstand, literals_eq_nil_iff] at hnil
    exact hnil
  · intro h m hm
    obtain ⟨p, t, rfl, hbefore, hmatch, -, hclosed⟩ := mem_findAll hm
    obtain ⟨hname, hargs, rest, rfl⟩ := hostMatcher_eq_some hmatch
    rw [Match.taken]
    split
    · next hstand =>
        rw [literals_eq_nil_iff]
        exact h p m.name m.args rest rfl hname hargs
          (fun p₁ name p₂ hp hname => hclosed p₁ name p₂ hp hname (Nat.zero_le _))
          (hbefore ▸ hstand)
    · rfl

instance (before : Before) (text : Bytes) : Decidable (Quiet before text) :=
  decidable_of_iff _ taken_eq_nil_iff

instance decidableRead : (before : Before) → (negated : Bool) → (r : Rule) →
    Decidable (r.Read before negated)
  | before, negated, .matcher name gap args =>
      inferInstanceAs (Decidable (if name ∈ hostNames ∧ negated = false ∧ args ≠ [] then
        gap = [] ∧ standaloneMatcher before = true ∧ ∀ a ∈ args, rparen ∉ a.literal.content
      else Quiet before (Rule.matcher name gap args).render))
  | _, _, .not _ r => decidableRead _ true r
  | _, negated, .group _ r _ => decidableRead _ negated r
  | before, negated, .binary l gap isAnd gapAfter r =>
      have := decidableRead before negated l
      have := decidableRead
        ((gap ++ (operator isAnd ++ gapAfter)).reverse ++ (l.render.reverse ++ before)) negated r
      inferInstanceAs (Decidable (_ ∧ _))

/-- A host matcher whose arguments close no bracket. -/
theorem taken_host {name : Bytes} {args : List Argument} {before : Before}
    (hname : name ∈ hostNames) (hargs : rparen ∉ renderArguments args)
    (hstand : standaloneMatcher before = true) :
    taken before (Rule.matcher name [] args).render =
      placed (before.length + name.length + 1) args := by
  have hrender : (Rule.matcher name [] args).render =
      name ++ lparen :: (renderArguments args ++ rparen :: []) := rfl
  have hmatch := hostMatcher_render [] hname hargs
  have hfind : findAll 0 before (Rule.matcher name [] args).render =
      [⟨before, name, renderArguments args⟩] := by
    rw [hrender]
    cases htext : name ++ lparen :: (renderArguments args ++ rparen :: []) with
    | nil => simp at htext
    | cons b rest =>
        rw [htext] at hmatch
        have hlength : name.length + (renderArguments args).length + 1 = rest.length := by
          have := congrArg List.length htext
          simp only [List.length_append, List.length_cons, List.length_nil] at this
          omega
        have hskip := findAll_skip rest [] (b :: before)
        rw [List.append_nil] at hskip
        rw [findAll, hmatch]
        dsimp only
        rw [hlength, hskip]
        rfl
  rw [taken, hfind, List.flatMap_singleton, Match.taken, if_pos hstand, literals_renderArguments]

theorem Argument.mem_render {a : Argument} {b : UInt8} (h : b ∈ a.render) :
    isSpace b = true ∨ b = a.literal.quote ∨ b ∈ a.literal.content := by
  simp only [Argument.render, List.mem_append, List.mem_cons] at h
  rcases h with (h | h | h) | h | h
  · exact Or.inl (a.isSpace_gap b h)
  · exact Or.inr (Or.inl h)
  · exact Or.inr (Or.inr h)
  · exact Or.inr (Or.inl h)
  · exact Or.inl (a.isSpace_gapAfter b h)

theorem rparen_notMem_render {a : Argument} (h : rparen ∉ a.literal.content) :
    rparen ∉ a.render := by
  intro hmem
  rcases Argument.mem_render hmem with h' | h' | h'
  · exact absurd h' (by decide)
  · rcases a.literal.quote_eq with hq | hq <;> exact absurd (h'.trans hq) (by decide)
  · exact h h'

theorem rparen_notMem_renderArguments {args : List Argument}
    (h : ∀ a ∈ args, rparen ∉ a.literal.content) : rparen ∉ renderArguments args := by
  induction args with
  | nil => exact List.not_mem_nil
  | cons a args ih =>
      have ha := rparen_notMem_render (h a List.mem_cons_self)
      have hrest := ih fun b hb => h b (List.mem_cons_of_mem _ hb)
      cases args with
      | nil => exact ha
      | cons b args =>
          have hcomma : renderArguments (a :: b :: args) =
            a.render ++ comma :: renderArguments (b :: args) := rfl
          rw [hcomma]
          intro hmem
          rcases List.mem_append.1 hmem with hmem | hmem
          · exact ha hmem
          · rcases List.mem_cons.1 hmem with hmem | hmem
            · exact absurd hmem (by decide)
            · exact hrest hmem

/-- A name that ends at a bracket has no space before it. -/
theorem gap_eq_nil_of_suffix {p t name gap : Bytes} (hgap : ∀ b ∈ gap, isSpace b = true)
    (ht : t ∈ hostNames) (heq : p ++ t = name ++ gap) : gap = [] := by
  rcases List.eq_nil_or_concat' gap with hnil | ⟨g, b, rfl⟩
  · exact hnil
  · rcases List.eq_nil_or_concat' t with rfl | ⟨u, c, rfl⟩
    · exact absurd (length_of_mem_hostNames [] ht) (by decide)
    · rw [← List.append_assoc, ← List.append_assoc] at heq
      have hcb : c = b := (List.append_inj' heq rfl).2 |> List.singleton_inj.1
      have hword := forall_isWordByte _ ht c (List.mem_append_right _ List.mem_cons_self)
      have hspace := hgap b (List.mem_append_right _ List.mem_cons_self)
      rw [hcb, isWordByte_of_isSpace hspace] at hword
      cases hword

/-- **The first argument is taken** only by the match at the name of its matcher. -/
theorem taken_first {name gap : Bytes} {a : Argument} {args : List Argument} {before : Before}
    (hname : name ∈ hostNames) (hgap : ∀ b ∈ gap, isSpace b = true)
    (h : (before.length + name.length + gap.length + 1 + a.gap.length, a.literal.content) ∈
      taken before (Rule.matcher name gap (a :: args)).render) :
    gap = [] ∧ standaloneMatcher before = true := by
  obtain ⟨p, t, args', rest, htext, ht, hstand, -, hlt, -⟩ := mem_taken h
  obtain ⟨u, hu⟩ : a.gap <+: renderArguments (a :: args) := by
    cases args <;> simp [renderArguments, Argument.render]
  have hplain : ∀ b ∈ name ++ gap, isWordByte b = true ∨ isSpace b = true := by
    intro b hb
    rcases List.mem_append.1 hb with hb | hb
    · exact Or.inl (forall_isWordByte name hname b hb)
    · exact Or.inr (hgap b hb)
  -- up to the first argument there is one opening bracket
  have hpre : p ++ t ++ [lparen] <+: name ++ gap ++ lparen :: a.gap := by
    have hleft : p ++ t ++ [lparen] <+: (Rule.matcher name gap (a :: args)).render :=
      ⟨args' ++ rparen :: rest, by rw [htext]; simp⟩
    have hright : name ++ gap ++ lparen :: a.gap <+: (Rule.matcher name gap (a :: args)).render :=
      ⟨u ++ [rparen], by rw [Rule.render, ← hu]; simp⟩
    refine List.prefix_of_prefix_length_le hleft hright ?_
    dsimp only at hlt
    simp only [List.length_append, List.length_cons, List.length_nil]
    omega
  have hone : lparen ∉ p ++ t := by
    intro hmem
    have hcount := hpre.sublist.count_le lparen
    have hafter : (name ++ gap ++ lparen :: a.gap).count lparen = 1 := by
      rw [List.count_append, List.count_cons_self,
        List.count_eq_zero_of_not_mem (lparen_notMem hplain),
        List.count_eq_zero_of_not_mem (lparen_notMem fun b hb => Or.inr (a.isSpace_gap b hb))]
    have hpos := List.count_pos_iff.2 hmem
    rw [hafter, List.count_append, List.count_singleton_self] at hcount
    omega
  have heq := eq_of_prefix_lparen hone (lparen_notMem hplain) hpre
  have hnil := gap_eq_nil_of_suffix hgap ht heq
  subst hnil
  refine ⟨rfl, ?_⟩
  have hlength := congrArg List.length heq
  rw [List.length_append, List.append_nil, length_of_mem_hostNames t ht,
    length_of_mem_hostNames name hname] at hlength
  obtain rfl := List.eq_nil_of_length_eq_zero (show p.length = 0 by omega)
  exact hstand

theorem mem_placed_of_mem {a : Argument} {args : List Argument} (ha : a ∈ args) (place : ℕ) :
    ∃ l ∈ placed place args, l.2 = a.literal.content := by
  induction args generalizing place with
  | nil => cases ha
  | cons b args ih =>
      rcases List.mem_cons.1 ha with rfl | ha
      · exact ⟨_, List.mem_cons_self, rfl⟩
      · obtain ⟨l, hl, hcontent⟩ := ih ha (place + b.render.length + 1)
        exact ⟨l, List.mem_cons_of_mem _ hl, hcontent⟩

/-- **What is taken from a matcher.** -/
theorem taken_matcher {name gap : Bytes} {args : List Argument} {before : Before} {negated : Bool}
    (hwf : (Rule.matcher name gap args).WellFormed) :
    taken before (Rule.matcher name gap args).render =
        (Rule.matcher name gap args).arguments before.length negated ↔
      (Rule.matcher name gap args).Read before negated := by
  rw [Rule.Read]
  split
  · next hhost =>
      obtain ⟨hname, hnegated, hargs⟩ := hhost
      rw [Rule.arguments, if_pos ⟨hname, hnegated⟩]
      constructor
      · intro h
        obtain ⟨a, rest, rfl⟩ := List.exists_cons_of_ne_nil hargs
        have hfirst : (before.length + name.length + gap.length + 1 + a.gap.length,
            a.literal.content) ∈ taken before (Rule.matcher name gap (a :: rest)).render := by
          rw [h]
          exact List.mem_cons_self
        obtain ⟨hgap, hstand⟩ := taken_first hname hwf.2.2 hfirst
        refine ⟨hgap, hstand, fun b hb => ?_⟩
        obtain ⟨l, hl, hcontent⟩ :=
          mem_placed_of_mem hb (before.length + name.length + gap.length + 1)
        obtain ⟨-, -, -, -, -, -, -, hnot, -⟩ := mem_taken (h ▸ hl)
        exact hcontent ▸ hnot
      · rintro ⟨rfl, hstand, hparen⟩
        exact taken_host hname (rparen_notMem_renderArguments hparen) hstand
  · next hother =>
      have hnone : (Rule.matcher name gap args).arguments before.length negated = [] := by
        rw [Rule.arguments]
        split
        · next hhost =>
            have hnil : args = [] := by
              by_contra hne
              exact hother ⟨hhost.1, hhost.2, hne⟩
            rw [hnil, placed]
        · rfl
      rw [hnone, taken_eq_nil_iff]

/-- **What is taken from a rule** are the arguments of its host matchers, exactly if the pattern
does what it should in each matcher. -/
theorem taken_rule {r : Rule} (hwf : r.WellFormed) (before : Before) (negated : Bool) :
    taken before r.render = r.arguments before.length negated ↔ r.Read before negated := by
  induction r generalizing before negated with
  | matcher name gap args => exact taken_matcher hwf
  | not gap r ih =>
      have hskip : ∀ b ∈ bang :: gap, b ≠ 0x48 ∧ b ≠ 0x68 := by
        intro b hb
        rcases List.mem_cons.1 hb with rfl | hb
        · decide
        · exact ne_of_isSpace (hwf.1 b hb)
      have hbefore : (bang :: gap).reverse ++ before = gap.reverse ++ bang :: before := by simp
      have hlength : before.length + 1 + gap.length = (gap.reverse ++ bang :: before).length := by
        simp
        omega
      have htaken := taken_noMatch hskip before r.render
      rw [hbefore] at htaken
      rw [Rule.render, ← List.cons_append, htaken, Rule.arguments, hlength, Rule.Read]
      exact ih hwf.2.2 _ _
  | group gap r gapAfter ih =>
      have hskip : ∀ b ∈ lparen :: gap, b ≠ 0x48 ∧ b ≠ 0x68 := by
        intro b hb
        rcases List.mem_cons.1 hb with rfl | hb
        · decide
        · exact ne_of_isSpace (hwf.1 b hb)
      have hafter : ∀ b ∈ gapAfter ++ [rparen], b ≠ 0x48 ∧ b ≠ 0x68 := by
        intro b hb
        rcases List.mem_append.1 hb with hb | hb
        · exact ne_of_isSpace (hwf.2.2 b hb)
        · rw [List.mem_singleton.1 hb]
          decide
      have hbefore : (lparen :: gap).reverse ++ before = gap.reverse ++ lparen :: before := by simp
      have hlength : before.length + 1 + gap.length = (gap.reverse ++ lparen :: before).length := by
        simp
        omega
      have htaken := taken_noMatch hskip before (r.render ++ (gapAfter ++ [rparen]))
      rw [hbefore] at htaken
      rw [Rule.render, ← List.cons_append, htaken, taken_append, taken_eq_nil hafter,
        List.append_nil, Rule.arguments, hlength, Rule.Read]
      exact ih hwf.2.1 _ _
  | binary l gap isAnd gapAfter r ihl ihr =>
      have hskip : ∀ b ∈ gap ++ (operator isAnd ++ gapAfter), b ≠ 0x48 ∧ b ≠ 0x68 := by
        intro b hb
        rcases List.mem_append.1 hb with hb | hb
        · exact ne_of_isSpace (hwf.2.1 b hb)
        · rcases List.mem_append.1 hb with hb | hb
          · exact ne_of_mem_operator isAnd b hb
          · exact ne_of_isSpace (hwf.2.2.1 b hb)
      have hrender : (Rule.binary l gap isAnd gapAfter r).render =
          l.render ++ ((gap ++ (operator isAnd ++ gapAfter)) ++ r.render) := by
        simp [Rule.render]
      have hlength : before.length + l.render.length + gap.length + (operator isAnd).length +
          gapAfter.length = ((gap ++ (operator isAnd ++ gapAfter)).reverse ++
            (l.render.reverse ++ before)).length := by
        simp
        omega
      rw [hrender, taken_append, taken_noMatch hskip, Rule.arguments, hlength, Rule.Read,
        append_eq_iff (n := before.length + l.render.length)]
      · rw [ihl hwf.1, ihr hwf.2.2.2]
      · intro x hx
        obtain ⟨p, name, args, rest, -, -, -, -, -, hlt⟩ := mem_taken hx
        exact hlt
      · exact fun x hx => (mem_arguments hx).2
      · intro x hx
        obtain ⟨p, name, args, rest, -, -, -, -, hlt, -⟩ := mem_taken hx
        simp only [List.length_append, List.length_reverse] at hlt
        omega
      · intro x hx
        have hle := (mem_arguments hx).1
        simp only [List.length_append, List.length_reverse] at hle
        omega

theorem filterMap_placed (normalizeHost : Bytes → Option Bytes) (place : ℕ) (args : List Argument) :
    (placed place args).filterMap (fun l => normalizeHost l.2) =
      (args.map fun a => a.literal.content).filterMap normalizeHost := by
  induction args generalizing place with
  | nil => rfl
  | cons a args ih => simp only [placed, List.filterMap_cons, List.map_cons, ih]

/-- The hosts of a rule are its plain arguments. -/
theorem filterMap_arguments (normalizeHost : Bytes → Option Bytes) (r : Rule) (place : ℕ)
    (negated : Bool) :
    (r.arguments place negated).filterMap (fun l => normalizeHost l.2) =
      r.hosts normalizeHost negated := by
  induction r generalizing place negated with
  | matcher name gap args =>
      rw [Rule.arguments, Rule.hosts]
      split
      · exact filterMap_placed normalizeHost _ args
      · rfl
  | not gap r ih => exact ih _ _
  | group gap r gapAfter ih => exact ih _ _
  | binary l gap isAnd gapAfter r ihl ihr =>
      rw [Rule.arguments, List.filterMap_append, ihl, ihr, Rule.hosts]

def Argument.backticked (content : Bytes) (h : backtick ∉ content) : Argument where
  gap := []
  literal := ⟨backtick, content, Or.inl rfl, h⟩
  gapAfter := []
  isSpace_gap := by simp
  isSpace_gapAfter := by simp

/-- A rule with a negated group, a bracket in a quoted pattern that is not closed, and hosts. -/
def patternAndHosts : Rule :=
  .binary
    (.not [] (.group [] (.matcher (bytes "Path") [] [.backticked (bytes "/x") (by decide)]) []))
    (bytes " ") true (bytes " ")
    (.binary
      (.matcher (bytes "PathRegexp") [] [.backticked (bytes "^/\\((a|b)$") (by decide)])
      (bytes " ") true (bytes " ")
      (.group []
        (.binary
          (.matcher (bytes "Host") [] [.backticked (bytes "a.lab") (by decide),
            .backticked (bytes "b.lab") (by decide)])
          (bytes " ") false (bytes " ")
          (.not [] (.matcher (bytes "host") [] [.backticked (bytes "c.lab") (by decide)])))
        []))

/-- A rule without a host matcher: the quoted pattern of its one matcher has the text of one. -/
def quotedMatcher : Rule :=
  .matcher (bytes "PathRegexp") [] [.backticked (bytes "Host(\"a.lab\")") (by decide)]

end WiseLabz.HostRule
