/-
**JSON documents and their texts.**

A document is a tree, and its text is the compact one: there is no space between the parts, and a
string has escapes for the characters that may not stand in it, for those that HTML gives a meaning,
and for the bytes that are no character.  A document is read back from its text, whatever follows
it, as long as a number is not followed by more of a number.

Main definitions:

* `Lib.JsonToken`, `Lib.escape` — what a string is made of, and how it is written;
* `Lib.NumberText` — the text of a number;
* `Lib.Json`, `Lib.Json.text` — a document and **its text**.

Main results:

* `Lib.quote_append_inj` — a string ends at its quote;
* `Lib.Json.text_append_inj` — **a document ends where its text does**;
* `Lib.Json.text_inj` — a text is that of one document.
-/

import WiseLabz.Lib.JsonText

set_option relaxedAutoImplicit false
set_option autoImplicit false

namespace Lib

/-! ### Strings -/

/-- What the text of a string is made of. -/
inductive JsonToken
  | byte (b : UInt8)
  /-- A byte that is no character. -/
  | invalid
  | lineSeparator
  | paragraphSeparator
  deriving DecidableEq, Repr

def JsonToken.single : Option UInt8 → JsonToken
  | some b => .byte b
  | none => .invalid

/-- The tokens of an encoded string. -/
def jsonTokens : List (Option UInt8) → List JsonToken
  | a :: b :: c :: e =>
      if [a, b, c] = [some 0xE2, some 0x80, some 0xA8] then .lineSeparator :: jsonTokens e
      else if [a, b, c] = [some 0xE2, some 0x80, some 0xA9] then .paragraphSeparator :: jsonTokens e
      else .single a :: jsonTokens (b :: c :: e)
  | e => e.map .single

/-- The letter of a short escape. -/
def shortEscape (b : UInt8) : Option UInt8 :=
  if b = 34 ∨ b = 92 then some b
  else if b = 8 then some 98
  else if b = 12 then some 102
  else if b = 10 then some 110
  else if b = 13 then some 114
  else if b = 9 then some 116
  else none

/-- How a token is written. -/
def escape : JsonToken → Bytes
  | .invalid => bytes "\\ufffd"
  | .lineSeparator => bytes "\\u2028"
  | .paragraphSeparator => bytes "\\u2029"
  | .byte b =>
      match shortEscape b with
      | some c => [92, c]
      | none =>
          if b < 0x20 ∨ b = 60 ∨ b = 62 ∨ b = 38 then bytes "\\u00" ++ hexEncode [b]
          else [b]

/-- **The text of an encoded string.** -/
def quote (e : List (Option UInt8)) : Bytes := 34 :: ((jsonTokens e).flatMap escape ++ [34])

/-- The encoding that the tokens are of. -/
def JsonToken.encoding : JsonToken → List (Option UInt8)
  | .byte b => [some b]
  | .invalid => [none]
  | .lineSeparator => [some 0xE2, some 0x80, some 0xA8]
  | .paragraphSeparator => [some 0xE2, some 0x80, some 0xA9]

theorem JsonToken.encoding_single (a : Option UInt8) : (JsonToken.single a).encoding = [a] := by
  cases a <;> rfl

/-- The tokens are those of the string. -/
theorem flatMap_encoding_jsonTokens (e : List (Option UInt8)) :
    (jsonTokens e).flatMap JsonToken.encoding = e := by
  induction e using jsonTokens.induct with
  | case1 a b c e h ih =>
      rw [jsonTokens, if_pos h, List.flatMap_cons, ih]
      exact congrArg (· ++ e) h.symm
  | case2 a b c e _ h ih =>
      rw [jsonTokens, if_neg (by simp_all), if_pos h, List.flatMap_cons, ih]
      exact congrArg (· ++ e) h.symm
  | case3 a b c e h h' ih =>
      rw [jsonTokens, if_neg h, if_neg h', List.flatMap_cons, ih, JsonToken.encoding_single]
      rfl
  | case4 e h =>
      rw [jsonTokens.eq_2 e h, List.flatMap_map]
      simp only [JsonToken.encoding_single, List.flatMap_singleton']

theorem jsonTokens_inj {e e' : List (Option UInt8)} (h : jsonTokens e = jsonTokens e') :
    e = e' := by
  rw [← flatMap_encoding_jsonTokens e, h, flatMap_encoding_jsonTokens]

/-- The byte of a short escape. -/
def ofShortEscape (c : UInt8) : UInt8 :=
  if c = 98 then 8 else if c = 102 then 12 else if c = 110 then 10 else if c = 114 then 13
  else if c = 116 then 9 else c

theorem ofShortEscape_of {b c : UInt8} (h : shortEscape b = some c) :
    ofShortEscape c = b ∧ c ≠ 117 := by
  unfold shortEscape at h
  split_ifs at h with h1 h2 h3 h4 h5 h6
  · obtain rfl := Option.some.inj h
    rcases h1 with rfl | rfl <;> decide
  all_goals
    obtain rfl := Option.some.inj h
    subst b
    decide

/-- How many bytes an escape has: the first two tell. -/
def escapeLength : Bytes → ℕ
  | a :: b :: _ => if a ≠ 92 then 1 else if b ≠ 117 then 2 else 6
  | _ => 1

theorem shortEscape_backslash {b : UInt8} (h : shortEscape b = none) : b ≠ 92 := by
  rintro rfl
  cases h

theorem escapeLength_append (t : JsonToken) (s : Bytes) (hs : s ≠ []) :
    escapeLength (escape t ++ s) = (escape t).length := by
  cases t with
  | invalid => rfl
  | lineSeparator => rfl
  | paragraphSeparator => rfl
  | byte b =>
      rw [escape]
      split
      · next c hc => exact if_pos (ofShortEscape_of hc).2
      · next hc =>
          split
          · rfl
          · obtain ⟨a, s, rfl⟩ := List.exists_cons_of_ne_nil hs
            exact if_pos (shortEscape_backslash hc)

/-- The third byte of an escape, which tells the long ones apart. -/
theorem escape_byte_third (b : UInt8) :
    (escape (.byte b))[2]? = none ∨ (escape (.byte b))[2]? = some 48 := by
  rw [escape]
  split
  · exact Or.inl rfl
  · split
    · exact Or.inr rfl
    · exact Or.inl rfl

theorem escape_byte_inj {b b' : UInt8} (h : escape (.byte b) = escape (.byte b')) : b = b' := by
  rw [escape, escape] at h
  split at h
  · next c hc =>
      split at h
      · next c' hc' =>
          obtain rfl : c = c' := (List.cons.inj (List.cons.inj h).2).1
          rw [← (ofShortEscape_of hc).1, (ofShortEscape_of hc').1]
      · split at h
        · cases congrArg List.length h
        · cases congrArg List.length h
  · split at h
    · split at h
      · cases congrArg List.length h
      · split at h
        · exact (List.cons.inj (hexEncode_inj (List.append_cancel_left h))).1
        · cases congrArg List.length h
    · split at h
      · cases congrArg List.length h
      · split at h
        · cases congrArg List.length h
        · exact (List.cons.inj h).1

theorem escape_inj {t t' : JsonToken} (h : escape t = escape t') : t = t' := by
  have hbyte : ∀ {b : UInt8} {e : Bytes}, e[2]? ≠ none → e[2]? ≠ some 48 →
      escape (.byte b) ≠ e := by
    rintro b e hnone hzero rfl
    exact (escape_byte_third b).elim hnone hzero
  cases t with
  | byte b =>
      cases t' with
      | byte b' => rw [escape_byte_inj h]
      | _ => exact absurd h (hbyte (by decide) (by decide))
  | _ =>
      cases t' with
      | byte b' => exact absurd h.symm (hbyte (by decide) (by decide))
      | _ => first | rfl | exact absurd h (by decide)

/-- **A token ends where its escape does.** -/
theorem escape_append_inj {t t' : JsonToken} {s s' : Bytes} (hs : s ≠ []) (hs' : s' ≠ [])
    (h : escape t ++ s = escape t' ++ s') : t = t' ∧ s = s' := by
  have hlength : (escape t).length = (escape t').length := by
    rw [← escapeLength_append t s hs, h, escapeLength_append t' s' hs']
  obtain ⟨htoken, hrest⟩ := List.append_inj h hlength
  exact ⟨escape_inj htoken, hrest⟩

/-- No token begins with a quote. -/
theorem escape_head (t : JsonToken) (s s' : Bytes) : escape t ++ s ≠ 34 :: s' := by
  cases t with
  | byte b =>
      rw [escape]
      split
      · exact fun h => absurd (List.cons.inj h).1 (by decide)
      · next hb =>
          split
          · exact fun h => absurd (List.cons.inj h).1 (by decide)
          · intro h
            obtain rfl := (List.cons.inj h).1
            cases hb
  | _ => exact fun h => absurd (List.cons.inj h).1 (by decide)

/-- **A string ends at its quote.** -/
theorem quote_append_inj {e e' : List (Option UInt8)} {s s' : Bytes}
    (h : quote e ++ s = quote e' ++ s') : e = e' ∧ s = s' := by
  have htokens : ∀ ts ts' : List JsonToken,
      ts.flatMap escape ++ 34 :: s = ts'.flatMap escape ++ 34 :: s' → ts = ts' ∧ s = s' := by
    intro ts
    induction ts with
    | nil =>
        intro ts' h
        cases ts' with
        | nil => exact ⟨rfl, (List.cons.inj h).2⟩
        | cons t' ts' =>
            rw [List.flatMap_cons, List.append_assoc] at h
            exact (escape_head t' _ _ h.symm).elim
    | cons t ts ih =>
        intro ts' h
        cases ts' with
        | nil =>
            rw [List.flatMap_cons, List.append_assoc] at h
            exact (escape_head t _ _ h).elim
        | cons t' ts' =>
            rw [List.flatMap_cons, List.flatMap_cons, List.append_assoc, List.append_assoc] at h
            obtain ⟨rfl, hrest⟩ := escape_append_inj (by simp) (by simp) h
            obtain ⟨rfl, hs⟩ := ih ts' hrest
            exact ⟨rfl, hs⟩
  rw [quote, quote, List.cons_append, List.cons_append, List.append_assoc, List.append_assoc] at h
  obtain ⟨htokens, hs⟩ := htokens _ _ (List.cons.inj h).2
  exact ⟨jsonTokens_inj htokens, hs⟩

/-! ### Numbers -/

/-- A byte of the text of a number. -/
def isNumberByte (b : UInt8) : Bool := (48 ≤ b && b ≤ 57) || b ∈ bytes "+-.eE"

/-- The text of a number. -/
structure NumberText where
  text : Bytes
  ne_nil : text ≠ []
  all : text.all isNumberByte = true

/-- The lists are equal if what is made of them is. -/
theorem eq_of_map_eq {B C : Type} {f : B → C} {l l' : List B}
    (hf : ∀ x ∈ l, ∀ y ∈ l', f x = f y → x = y) (h : l.map f = l'.map f) : l = l' := by
  induction l generalizing l' with
  | nil => exact (List.map_eq_nil_iff.1 h.symm).symm
  | cons x l ih =>
      cases l' with
      | nil => cases h
      | cons y l' =>
          obtain ⟨hhead, htail⟩ := List.cons.inj h
          have hrest := ih (fun z hz w hw => hf z (List.mem_cons_of_mem _ hz) w
            (List.mem_cons_of_mem _ hw)) htail
          rw [hf x List.mem_cons_self y List.mem_cons_self hhead, hrest]

theorem toDigits_inj {m n : ℕ} (h : Nat.toDigits 10 m = Nat.toDigits 10 n) : m = n := by
  rw [← Nat.ofDigitChars_ten_toDigits (n := m), h, Nat.ofDigitChars_ten_toDigits]

theorem toList_toString (d : ℤ) : (toString d).toList =
    match d with
    | .ofNat n => Nat.toDigits 10 n
    | .negSucc n => '-' :: Nat.toDigits 10 (n + 1) := by
  cases d with
  | ofNat n => exact Nat.toList_repr
  | negSucc n => exact (String.toList_append ..).trans (congrArg ('-' :: ·) Nat.toList_repr)

/-- A digit or a sign is one byte. -/
theorem toNat_lt_of_mem_toString {d : ℤ} {c : Char} (hc : c ∈ (toString d).toList) :
    c.toNat < 256 := by
  have hdigit : ∀ n, c ∈ Nat.toDigits 10 n → c.toNat < 256 := by
    intro n hc
    have hisDigit := Nat.isDigit_of_mem_toDigits (by decide) (by decide) hc
    rw [Char.isDigit_iff_toNat] at hisDigit
    exact lt_of_le_of_lt hisDigit.2 (by decide)
  rw [toList_toString] at hc
  cases d with
  | ofNat n => exact hdigit n hc
  | negSucc n =>
      rcases List.mem_cons.1 hc with rfl | hc
      · decide
      · exact hdigit _ hc

theorem bytes_toString_inj {d d' : ℤ} (h : bytes (toString d) = bytes (toString d')) : d = d' := by
  have hlist : (toString d).toList = (toString d').toList := by
    refine eq_of_map_eq ?_ h
    intro c hc c' hc' heq
    have hbyte := congrArg UInt8.toNat heq
    rw [UInt8.toNat_ofNat', UInt8.toNat_ofNat', Nat.mod_eq_of_lt (toNat_lt_of_mem_toString hc),
      Nat.mod_eq_of_lt (toNat_lt_of_mem_toString hc')] at hbyte
    exact Char.toNat_inj.1 hbyte
  rw [toList_toString, toList_toString] at hlist
  have hsign : ∀ n n', '-' :: Nat.toDigits 10 n ≠ Nat.toDigits 10 n' := by
    intro n n' heq
    have hminus : '-' ∈ Nat.toDigits 10 n' := heq ▸ List.mem_cons_self
    exact absurd (Nat.isDigit_of_mem_toDigits (by decide) (by decide) hminus) (by decide)
  match d, d' with
  | .ofNat n, .ofNat n' => rw [toDigits_inj hlist]
  | .ofNat n, .negSucc n' => exact (hsign _ _ hlist.symm).elim
  | .negSucc n, .ofNat n' => exact (hsign _ _ hlist).elim
  | .negSucc n, .negSucc n' =>
      have hdigits := toDigits_inj (List.cons.inj hlist).2
      rw [Nat.succ.inj hdigits]

theorem bytes_toString_ne_nil (d : ℤ) : bytes (toString d) ≠ [] := by
  rw [bytes, toList_toString, ne_eq, List.map_eq_nil_iff]
  cases d with
  | ofNat n => exact Nat.toDigits_ne_nil
  | negSucc n => exact List.cons_ne_nil _ _

theorem isNumberByte_toString (d : ℤ) : (bytes (toString d)).all isNumberByte = true := by
  have hdigits : ∀ n, ∀ c ∈ Nat.toDigits 10 n, isNumberByte c.toNat.toUInt8 = true := by
    intro n c hc
    have hisDigit := Nat.isDigit_of_mem_toDigits (by decide) (by decide) hc
    rw [Char.isDigit_iff_toNat] at hisDigit
    obtain ⟨hlow, hhigh⟩ : 48 ≤ c.toNat ∧ c.toNat ≤ 57 := hisDigit
    generalize c.toNat = m at hlow hhigh
    interval_cases m <;> rfl
  rw [bytes, toList_toString, List.all_map, List.all_eq_true]
  cases d with
  | ofNat n => exact hdigits n
  | negSucc n =>
      intro c hc
      rcases List.mem_cons.1 hc with rfl | hc
      · decide
      · exact hdigits _ c hc

/-- The text of an integer. -/
def NumberText.ofInt (d : ℤ) : NumberText where
  text := bytes (toString d)
  ne_nil := bytes_toString_ne_nil d
  all := isNumberByte_toString d

theorem NumberText.ofInt_inj {d d' : ℤ} (h : NumberText.ofInt d = NumberText.ofInt d') : d = d' :=
  bytes_toString_inj (congrArg NumberText.text h)

/-! ### Documents -/

/-- A document; the texts in it are encoded. -/
inductive Json
  | null
  | bool (b : Bool)
  | number (t : NumberText)
  | string (e : List (Option UInt8))
  | array (items : List Json)
  | object (members : List (List (Option UInt8) × Json))

mutual

/-- **The text of a document.** -/
def Json.text : Json → Bytes
  | .null => bytes "null"
  | .bool true => bytes "true"
  | .bool false => bytes "false"
  | .number t => t.text
  | .string e => quote e
  | .array [] => bytes "[]"
  | .array (item :: rest) => 91 :: (item.text ++ Json.itemsText rest)
  | .object [] => bytes "\x7b\x7d"
  | .object ((key, item) :: rest) =>
      123 :: (quote key ++ 58 :: (item.text ++ Json.membersText rest))

/-- The text of the further items. -/
def Json.itemsText : List Json → Bytes
  | [] => [93]
  | item :: rest => 44 :: (item.text ++ Json.itemsText rest)

/-- The text of the further members. -/
def Json.membersText : List (List (Option UInt8) × Json) → Bytes
  | [] => [125]
  | (key, item) :: rest => 44 :: (quote key ++ 58 :: (item.text ++ Json.membersText rest))

end

/-- No number goes on in a text. -/
def NoNumber (s : Bytes) : Prop := ∀ b, s.head? = some b → isNumberByte b = false

theorem noNumber_nil : NoNumber [] := fun _ h => nomatch h

theorem noNumber_cons {b : UInt8} {s : Bytes} (h : isNumberByte b = false) : NoNumber (b :: s) :=
  fun _ hb => Option.some.inj hb ▸ h

theorem noNumber_itemsText (items : List Json) (s : Bytes) :
    NoNumber (Json.itemsText items ++ s) := by
  cases items with
  | nil => exact noNumber_cons (by decide)
  | cons item rest => exact noNumber_cons (by decide)

theorem noNumber_membersText (members : List (List (Option UInt8) × Json)) (s : Bytes) :
    NoNumber (Json.membersText members ++ s) := by
  cases members with
  | nil => exact noNumber_cons (by decide)
  | cons member rest => exact noNumber_cons (by decide)

/-- A number ends where no number goes on. -/
theorem NumberText.append_inj {t t' : NumberText} {s s' : Bytes} (hs : NoNumber s)
    (hs' : NoNumber s') (h : t.text ++ s = t'.text ++ s') : t = t' ∧ s = s' := by
  have htake : ∀ (t : NumberText) {s : Bytes}, NoNumber s →
      (t.text ++ s).takeWhile isNumberByte = t.text := by
    intro t s hs
    rw [List.takeWhile_append_of_pos (List.all_eq_true.1 t.all)]
    cases s with
    | nil => rw [List.takeWhile_nil, List.append_nil]
    | cons b s => rw [List.takeWhile_cons_of_neg (by simp [hs b rfl]), List.append_nil]
  have htext : t.text = t'.text := by rw [← htake t hs, h, htake t' hs']
  rw [htext] at h
  obtain ⟨text, hne, hall⟩ := t
  obtain rfl : text = t'.text := htext
  exact ⟨rfl, List.append_cancel_left h⟩

/-- Which kind of document it is. -/
def Json.kind : Json → ℕ
  | .null => 0
  | .bool _ => 1
  | .number _ => 2
  | .string _ => 3
  | .array _ => 4
  | .object _ => 5

/-- The kind of the documents whose texts begin with a byte. -/
def startKind (b : UInt8) : ℕ :=
  if b = 110 then 0
  else if b = 116 ∨ b = 102 then 1
  else if isNumberByte b then 2
  else if b = 34 then 3
  else if b = 91 then 4
  else if b = 123 then 5
  else 6

theorem startKind_number {b : UInt8} (h : isNumberByte b = true) : startKind b = 2 := by
  have hne : ∀ c ∈ [110, 116, 102], b ≠ c := by
    rintro c hc rfl
    rcases List.mem_cons.1 hc with rfl | hc
    · cases h
    · rcases List.mem_pair.1 hc with rfl | rfl <;> cases h
  rw [startKind, if_neg (hne _ (by decide)), if_neg, if_pos h]
  exact not_or.2 ⟨hne _ (by decide), hne _ (by decide)⟩

/-- The first byte of a text tells the kind. -/
theorem Json.text_start (v : Json) : ∃ b rest, v.text = b :: rest ∧ startKind b = v.kind := by
  cases v with
  | null => exact ⟨_, _, rfl, by decide⟩
  | bool b => cases b <;> exact ⟨_, _, rfl, by decide⟩
  | number t =>
      obtain ⟨b, rest, htext⟩ := List.exists_cons_of_ne_nil t.ne_nil
      exact ⟨b, rest, htext, startKind_number (List.all_eq_true.1 t.all b (by simp [htext]))⟩
  | string e => exact ⟨34, _, rfl, rfl⟩
  | array items => cases items <;> exact ⟨91, _, rfl, rfl⟩
  | object members => cases members <;> exact ⟨123, _, rfl, rfl⟩

theorem Json.kind_eq {v w : Json} {s s' : Bytes} (h : v.text ++ s = w.text ++ s') :
    v.kind = w.kind := by
  obtain ⟨b, rest, hv, hkind⟩ := v.text_start
  obtain ⟨b', rest', hw, hkind'⟩ := w.text_start
  rw [hv, hw] at h
  rw [← hkind, ← hkind', (List.cons.inj h).1]

/-- No text begins with a closing bracket. -/
theorem Json.text_ne_bracket (v : Json) (s s' : Bytes) : v.text ++ s ≠ 93 :: s' := by
  obtain ⟨b, rest, hv, hkind⟩ := v.text_start
  rw [hv]
  intro h
  obtain rfl := (List.cons.inj h).1
  cases v <;> cases hkind

/-! The texts that begin a document, with what follows. -/

theorem Json.array_nil_append (s : Bytes) : (Json.array []).text ++ s = 91 :: 93 :: s := rfl

theorem Json.array_cons_append (item : Json) (rest : List Json) (s : Bytes) :
    (Json.array (item :: rest)).text ++ s = 91 :: (item.text ++ (Json.itemsText rest ++ s)) := by
  rw [Json.text, List.cons_append, List.append_assoc]

theorem Json.itemsText_cons_append (item : Json) (rest : List Json) (s : Bytes) :
    Json.itemsText (item :: rest) ++ s = 44 :: (item.text ++ (Json.itemsText rest ++ s)) := by
  rw [Json.itemsText, List.cons_append, List.append_assoc]

theorem Json.object_nil_append (s : Bytes) : (Json.object []).text ++ s = 123 :: 125 :: s := rfl

theorem Json.object_cons_append (key : List (Option UInt8)) (item : Json)
    (rest : List (List (Option UInt8) × Json)) (s : Bytes) :
    (Json.object ((key, item) :: rest)).text ++ s =
      123 :: (quote key ++ 58 :: (item.text ++ (Json.membersText rest ++ s))) := by
  rw [Json.text, List.cons_append, List.append_assoc, List.cons_append, List.append_assoc]

theorem Json.membersText_cons_append (key : List (Option UInt8)) (item : Json)
    (rest : List (List (Option UInt8) × Json)) (s : Bytes) :
    Json.membersText ((key, item) :: rest) ++ s =
      44 :: (quote key ++ 58 :: (item.text ++ (Json.membersText rest ++ s))) := by
  rw [Json.membersText, List.cons_append, List.append_assoc, List.cons_append, List.append_assoc]

mutual

/-- **A document ends where its text does.** -/
theorem Json.text_append_inj : ∀ (v w : Json) {s s' : Bytes}, NoNumber s → NoNumber s' →
    v.text ++ s = w.text ++ s' → v = w ∧ s = s'
  | .null, w, s, s', _, _, h => by
      have hkind := Json.kind_eq h
      cases w with
      | null => exact ⟨rfl, List.append_cancel_left h⟩
      | _ => cases hkind
  | .bool b, w, s, s', _, _, h => by
      have hkind := Json.kind_eq h
      cases w with
      | bool b' => cases b <;> cases b' <;> simp_all [Json.text, bytes]
      | _ => cases hkind
  | .number t, w, s, s', hs, hs', h => by
      have hkind := Json.kind_eq h
      cases w with
      | number t' =>
          obtain ⟨rfl, hrest⟩ := NumberText.append_inj hs hs' h
          exact ⟨rfl, hrest⟩
      | _ => cases hkind
  | .string e, w, s, s', _, _, h => by
      have hkind := Json.kind_eq h
      cases w with
      | string e' =>
          obtain ⟨rfl, hrest⟩ := quote_append_inj h
          exact ⟨rfl, hrest⟩
      | _ => cases hkind
  | .array [], w, s, s', _, _, h => by
      have hkind := Json.kind_eq h
      cases w with
      | array items =>
          cases items with
          | nil => exact ⟨rfl, List.append_cancel_left h⟩
          | cons item rest =>
              rw [Json.array_nil_append, Json.array_cons_append] at h
              exact (item.text_ne_bracket _ _ (List.cons.inj h).2.symm).elim
      | _ => cases hkind
  | .array (item :: rest), w, s, s', _, _, h => by
      have hkind := Json.kind_eq h
      cases w with
      | array items =>
          cases items with
          | nil =>
              rw [Json.array_nil_append, Json.array_cons_append] at h
              exact (item.text_ne_bracket _ _ (List.cons.inj h).2).elim
          | cons item' rest' =>
              rw [Json.array_cons_append, Json.array_cons_append] at h
              obtain ⟨rfl, hrest⟩ := Json.text_append_inj item item' (noNumber_itemsText _ _)
                (noNumber_itemsText _ _) (List.cons.inj h).2
              obtain ⟨rfl, hs⟩ := Json.itemsText_append_inj rest rest' hrest
              exact ⟨rfl, hs⟩
      | _ => cases hkind
  | .object [], w, s, s', _, _, h => by
      have hkind := Json.kind_eq h
      cases w with
      | object members =>
          cases members with
          | nil => exact ⟨rfl, List.append_cancel_left h⟩
          | cons member rest =>
              rw [Json.object_nil_append, Json.object_cons_append] at h
              cases (List.cons.inj (List.cons.inj h).2).1
      | _ => cases hkind
  | .object ((key, item) :: rest), w, s, s', _, _, h => by
      have hkind := Json.kind_eq h
      cases w with
      | object members =>
          cases members with
          | nil =>
              rw [Json.object_nil_append, Json.object_cons_append] at h
              cases (List.cons.inj (List.cons.inj h).2).1
          | cons member rest' =>
              obtain ⟨key', item'⟩ := member
              rw [Json.object_cons_append, Json.object_cons_append] at h
              obtain ⟨rfl, hitem⟩ := quote_append_inj (List.cons.inj h).2
              obtain ⟨rfl, hrest⟩ := Json.text_append_inj item item' (noNumber_membersText _ _)
                (noNumber_membersText _ _) (List.cons.inj hitem).2
              obtain ⟨rfl, hs⟩ := Json.membersText_append_inj rest rest' hrest
              exact ⟨rfl, hs⟩
      | _ => cases hkind

theorem Json.itemsText_append_inj : ∀ (l l' : List Json) {s s' : Bytes},
    Json.itemsText l ++ s = Json.itemsText l' ++ s' → l = l' ∧ s = s'
  | [], [], _, _, h => ⟨rfl, (List.cons.inj h).2⟩
  | [], _ :: _, _, _, h => by cases (List.cons.inj h).1
  | _ :: _, [], _, _, h => by cases (List.cons.inj h).1
  | item :: rest, item' :: rest', s, s', h => by
      rw [Json.itemsText_cons_append, Json.itemsText_cons_append] at h
      obtain ⟨rfl, hrest⟩ := Json.text_append_inj item item' (noNumber_itemsText _ _)
        (noNumber_itemsText _ _) (List.cons.inj h).2
      obtain ⟨rfl, hs⟩ := Json.itemsText_append_inj rest rest' hrest
      exact ⟨rfl, hs⟩

theorem Json.membersText_append_inj : ∀ (l l' : List (List (Option UInt8) × Json)) {s s' : Bytes},
    Json.membersText l ++ s = Json.membersText l' ++ s' → l = l' ∧ s = s'
  | [], [], _, _, h => ⟨rfl, (List.cons.inj h).2⟩
  | [], _ :: _, _, _, h => by cases (List.cons.inj h).1
  | _ :: _, [], _, _, h => by cases (List.cons.inj h).1
  | (key, item) :: rest, (key', item') :: rest', s, s', h => by
      rw [Json.membersText_cons_append, Json.membersText_cons_append] at h
      obtain ⟨rfl, hitem⟩ := quote_append_inj (List.cons.inj h).2
      obtain ⟨rfl, hrest⟩ := Json.text_append_inj item item' (noNumber_membersText _ _)
        (noNumber_membersText _ _) (List.cons.inj hitem).2
      obtain ⟨rfl, hs⟩ := Json.membersText_append_inj rest rest' hrest
      exact ⟨rfl, hs⟩

end

/-- **A text is that of one document.** -/
theorem Json.text_inj {v w : Json} (h : v.text = w.text) : v = w :=
  (Json.text_append_inj v w noNumber_nil noNumber_nil (by rw [h])).1

end Lib
