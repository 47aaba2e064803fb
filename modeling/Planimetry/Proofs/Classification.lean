import Mathlib.Data.List.Nodup
import Mathlib.Data.List.Perm.Basic
import Planimetry.Category
import Planimetry.Proofs.BuiltPatterns

/-!
# The category of a word

A word has the first category whose pattern it matches. The order matters for names alone: no word
belongs to two of the other categories.

Some categories have only finitely many words. The others are told apart by their characters: a
parenthesis, a point, or the character at the beginning.

## Main definitions

* `Category.closedWords?`: the words of a category that has only finitely many.
* `Category.ofCharacters`: the category that the characters of a word speak for.
* `Category.firstOf`: the category of a word, if the patterns are tried in another order.

Main statement: `ofWord_first_match`.
-/

namespace Planimetry

namespace Category

open Pattern Text

variable {c d : Category} {w : List Char}

/-! ## Categories with finitely many words -/

/-- The words of a category, if there are only finitely many. -/
def closedWords? : Category → Option (List (List Char))
  | condition => some (["<=", ">=", "==", "<", ">", "!=", "&&", "||"].map String.toList)
  | arithmetic => some ("+-*/=%".toList.map ([·]))
  | delimiter => some ("[]()\x7b\x7d.,!?;:'\"\\".toList.map ([·]))
  | builtin => some (["sin", "cos", "tan", "log", "exp", "max", "min"].map String.toList)
  | reserved =>
    some (latinReserved.map String.toList ++ plainReserved.map String.toList ++
      ("'ʼ’".toList.map fun a => "З".toList ++ a :: "ЄДНАТИ".toList) ++
      "'ʼ’".toList.map fun a => "з".toList ++ a :: "єднати".toList)
  | error => some []
  | float | integer | coordinates | geometry | name => none

theorem matches_anyOf_iff_mem {s : String} : Matches (anyOf s) w ↔ w ∈ s.toList.map ([·]) := by
  simp [matches_anyOf_iff, eq_comm]

theorem matches_apostrophe_iff {s t : String} :
    Matches (inOrder [text s, apostrophe, text t]) w ↔
      w ∈ "'ʼ’".toList.map fun a => s.toList ++ a :: t.toList := by
  rw [matches_inOrder_iff, List.mem_map]
  constructor
  · rintro ⟨_, _ | ⟨hs, _ | ⟨ha, _ | ⟨ht, _ | _⟩⟩⟩, rfl⟩
    obtain ⟨a, hmem, rfl⟩ := matches_anyOf_iff.1 ha
    obtain rfl := matches_text_iff.1 hs
    obtain rfl := matches_text_iff.1 ht
    exact ⟨a, hmem, by simp⟩
  · rintro ⟨a, hmem, rfl⟩
    have htext {s : String} : Matches (text s) s.toList := matches_text_iff.2 rfl
    have ha : Matches apostrophe [a] := matches_anyOf_iff.2 ⟨a, hmem, rfl⟩
    exact ⟨[s.toList, [a], t.toList], .cons htext (.cons ha (.cons htext .nil)), by simp⟩

theorem matches_iff_of_closedWords? {ws : List (List Char)} (hc : c.closedWords? = some ws) :
    Matches c.pattern w ↔ w ∈ ws := by
  cases c <;> cases hc
  case condition => exact matches_words_iff
  case arithmetic => exact matches_anyOf_iff_mem
  case delimiter => exact matches_anyOf_iff_mem
  case builtin => exact matches_words_iff
  case reserved =>
    simp only [pattern, matches_oneOf_iff, List.mem_cons, List.not_mem_nil, or_false,
      exists_eq_or_imp, exists_eq_left, matches_words_iff, matches_apostrophe_iff,
      List.mem_append, or_assoc]
  case error => simp [pattern]

/-- All words of the finite categories are tried with all patterns. -/
theorem eq_of_mem_closedWords? : ∀ c ∈ ordered, ∀ ws ∈ c.closedWords?, ∀ w ∈ ws, ∀ d ∈ ordered,
    d ≠ name → d.pattern.accepts w = true → c = d := by
  decide +kernel

/-! ## Names and nouns -/

/-- No decimal digit lies between these letters. -/
theorem toNat_of_nameLetter {a : Char} (h : Matches nameLetter [a]) :
    0x41 ≤ a.toNat ∧ a.toNat < 0x660 := by
  have hrange {x y : Char} (hx : 0x41 ≤ x.toNat) (hy : y.toNat < 0x660)
      (h : Matches (between x y) [a]) : 0x41 ≤ a.toNat ∧ a.toNat < 0x660 := by
    obtain ⟨_, h, ⟨⟩⟩ := matches_one_iff.1 h
    have h : x.toNat ≤ a.toNat ∧ a.toNat ≤ y.toNat := by
      simpa [Char.le_def, UInt32.le_iff_toNat_le] using h
    omega
  simp only [nameLetter, matches_oneOf_iff, List.mem_cons, List.not_mem_nil, or_false,
    exists_eq_or_imp, exists_eq_left] at h
  rcases h with h | h | h | h | h
  case inr.inr.inl =>
    have hothers : "ІіЇїЄєҐґ".toList.all fun b => 0x41 ≤ b.toNat ∧ b.toNat < 0x660 := by decide
    obtain ⟨b, hb, ⟨⟩⟩ := matches_anyOf_iff.1 h
    simpa using List.all_eq_true.1 hothers a hb
  all_goals exact hrange (by decide) (by decide) h

theorem toNat_of_isDecimalDigit {a : Char} (h : isDecimalDigit a) :
    a.toNat < 0x41 ∨ 0x660 ≤ a.toNat := by
  have hranges : ∀ r ∈ decimalDigitRanges, r.last < 0x41 ∨ 0x660 ≤ r.first := by decide
  obtain ⟨r, hr, hfirst, hlast⟩ := covers_iff.1 h
  have := hranges r hr
  omega

theorem isDecimalDigit_of_nameLetter {a : Char} (h : Matches nameLetter [a]) :
    isDecimalDigit a = false := by
  refine Bool.eq_false_iff.2 fun hdigit => ?_
  have hletter := toNat_of_nameLetter h
  have := toNat_of_isDecimalDigit hdigit
  omega

/-- The letters of an inflection are letters of names. -/
theorem nameLetter_of_alt {a : Char} {p : Pattern} {s : String}
    (hp : p ∈ [between 'А' 'Я', between 'а' 'я']) (hs : s.toList ⊆ "ІіЇїЄєҐґ".toList)
    (h : Matches (.alt p (anyOf s)) [a]) : Matches nameLetter [a] := by
  refine matches_oneOf_iff.2 ?_
  rcases matches_alt_iff.1 h with h | h
  · exact ⟨p, List.mem_append_left _ hp, h⟩
  · obtain ⟨b, hb, ⟨⟩⟩ := matches_anyOf_iff.1 h
    exact ⟨_, .tail _ (.tail _ (.head _)), matches_anyOf_iff.2 ⟨a, hs hb, rfl⟩⟩

theorem matches_name_iff : Matches name.pattern w ↔
    ∃ a v, Matches nameLetter [a] ∧
      (∀ b ∈ v, Matches (.alt nameLetter (between '0' '9')) [b]) ∧ w = a :: v := by
  have h : (Pattern.alt nameLetter (between '0' '9')).isClass := rfl
  rw [pattern, matches_seq_iff_of_isClass rfl]
  simp only [matches_star_iff_of_isClass h]

/-- A stem with letters behind it has the form of a name, if the stem has it. -/
theorem matches_name_of_inflected {stems : List String} {letter : Pattern}
    (hstems : ∀ s ∈ stems, Matches name.pattern s.toList) (hclass : letter.isClass)
    (hletter : ∀ a, Matches letter [a] → Matches nameLetter [a])
    (h : Matches (.seq (Pattern.words stems) (.star letter)) w) : Matches name.pattern w := by
  obtain ⟨u, v, hu, hv, rfl⟩ := matches_seq_iff.1 h
  obtain ⟨s, hs, rfl⟩ := List.mem_map.1 (matches_words_iff.1 hu)
  obtain ⟨a, u, ha, hrest, hstem⟩ := matches_name_iff.1 (hstems s hs)
  rw [hstem]
  refine matches_name_iff.2 ⟨a, u ++ v, ha, fun b hb => ?_, rfl⟩
  rcases List.mem_append.1 hb with hb | hb
  · exact hrest b hb
  · exact .left (hletter b ((matches_star_iff_of_isClass hclass).1 hv b hb))

/-- An inflected noun has the form of a name. -/
theorem matches_name_of_geometry (h : Matches geometry.pattern w) : Matches name.pattern w := by
  rcases matches_alt_iff.1 h with h | h
  · exact matches_name_of_inflected (by decide +kernel) rfl
      (fun a => nameLetter_of_alt (.head _) (by decide)) h
  · exact matches_name_of_inflected (by decide +kernel) rfl
      (fun a => nameLetter_of_alt (.tail _ (.head _)) (by decide)) h

/-! ## Categories with words without end -/

theorem matches_digits_iff : Matches digits w ↔ w ≠ [] ∧ ∀ a ∈ w, isDecimalDigit a := by
  rw [digits, matches_many_iff_of_isClass rfl]
  simp [matches_one_iff]

/-- The category that the characters of a word speak for, among those with infinitely many words.
Names and inflected nouns look alike. -/
def ofCharacters (w : List Char) : Category :=
  if '(' ∈ w then coordinates
  else if '.' ∈ w then float
  else if w.head?.any isDecimalDigit then integer
  else geometry

theorem ofCharacters_of_coordinates (h : Matches coordinates.pattern w) :
    ofCharacters w = coordinates := by
  obtain ⟨_, _ | ⟨-, _ | ⟨hparen, -⟩⟩, rfl⟩ := matches_inOrder_iff.1 h
  obtain rfl := matches_char_iff.1 hparen
  simp [ofCharacters]

theorem ofCharacters_of_float (h : Matches float.pattern w) : ofCharacters w = float := by
  have hparen : '(' ∉ w := notMem_of_uses (by decide) h
  obtain ⟨_, _ | ⟨-, _ | ⟨hpoint, -⟩⟩, rfl⟩ := matches_inOrder_iff.1 h
  obtain rfl := matches_char_iff.1 hpoint
  rw [ofCharacters, if_neg hparen, if_pos (by simp)]

theorem ofCharacters_of_integer (h : Matches integer.pattern w) : ofCharacters w = integer := by
  have hparen : '(' ∉ w := notMem_of_uses (by decide) h
  have hpoint : '.' ∉ w := notMem_of_uses (by decide) h
  obtain ⟨hw, hdigits⟩ := matches_digits_iff.1 h
  obtain ⟨a, w, rfl⟩ := List.exists_cons_of_ne_nil hw
  have ha : (a :: w).head?.any isDecimalDigit := hdigits a List.mem_cons_self
  rw [ofCharacters, if_neg hparen, if_neg hpoint, if_pos ha]

theorem ofCharacters_of_name (h : Matches name.pattern w) : ofCharacters w = geometry := by
  have hparen : '(' ∉ w := notMem_of_uses (by decide) h
  have hpoint : '.' ∉ w := notMem_of_uses (by decide) h
  obtain ⟨a, v, ha, -, rfl⟩ := matches_name_iff.1 h
  have ha : ¬ (a :: v).head?.any isDecimalDigit := by simp [isDecimalDigit_of_nameLetter ha]
  rw [ofCharacters, if_neg hparen, if_neg hpoint, if_neg ha]

theorem ofCharacters_of_matches (hc : c.closedWords? = none) (hname : c ≠ name)
    (h : Matches c.pattern w) : ofCharacters w = c := by
  cases c <;> cases hc
  case float => exact ofCharacters_of_float h
  case integer => exact ofCharacters_of_integer h
  case coordinates => exact ofCharacters_of_coordinates h
  case geometry => exact ofCharacters_of_name (matches_name_of_geometry h)
  case name => contradiction

/-! ## Words of two categories -/

theorem mem_ordered_of_matches (h : Matches c.pattern w) : c ∈ ordered := by
  cases c
  case error => cases h
  all_goals decide

/-- Apart from names, no word belongs to two categories. -/
theorem eq_of_matches (h : Matches c.pattern w) (h' : Matches d.pattern w) (hc : c ≠ name)
    (hd : d ≠ name) : c = d := by
  have hclosed {c d : Category} {ws : List (List Char)} (hws : c.closedWords? = some ws)
      (h : Matches c.pattern w) (h' : Matches d.pattern w) (hd : d ≠ name) : c = d :=
    eq_of_mem_closedWords? c (mem_ordered_of_matches h) ws hws w
      ((matches_iff_of_closedWords? hws).1 h) d (mem_ordered_of_matches h') hd (accepts_iff.2 h')
  cases hws : c.closedWords? with
  | some ws => exact hclosed hws h h' hd
  | none =>
    cases hws' : d.closedWords? with
    | some ws => exact (hclosed hws' h' h hc).symm
    | none =>
      have hwc := ofCharacters_of_matches hws hc h
      have hwd := ofCharacters_of_matches hws' hd h'
      exact hwc.symm.trans hwd

/-- Builtin functions, reserved words and nouns have words of the form of a name. -/
theorem exists_matches_name_iff (hc : c ∈ ordered) (hname : c ≠ name) :
    (∃ w, Matches c.pattern w ∧ Matches name.pattern w) ↔ c ∈ [builtin, reserved, geometry] := by
  constructor
  · rintro ⟨w, h, hw⟩
    have hclosed : ∀ c ∈ ordered, ∀ ws ∈ c.closedWords?, ∀ w ∈ ws,
        name.pattern.accepts w = true → c ∈ [builtin, reserved, geometry] := by
      decide +kernel
    cases hws : c.closedWords? with
    | some ws =>
      exact hclosed c hc ws hws w ((matches_iff_of_closedWords? hws).1 h) (accepts_iff.2 hw)
    | none =>
      have hwc := ofCharacters_of_matches hws hname h
      rw [← hwc, ofCharacters_of_name hw]
      decide
  · intro h
    have hboth : ∀ c ∈ [builtin, reserved, geometry],
        ∃ w ∈ ["sin".toList, "за".toList, "кут".toList],
          Matches c.pattern w ∧ Matches name.pattern w := by
      decide +kernel
    obtain ⟨w, -, hw⟩ := hboth c h
    exact ⟨w, hw⟩

/-! ## The first match -/

/-- The first category of the list whose pattern fits the whole word. -/
def firstOf (order : List Category) (w : List Char) : Category :=
  (order.find? fun c => c.pattern.accepts w).getD error

theorem ofWord_eq_iff {before behind : List Category} (h : ordered = before ++ c :: behind) :
    ofWord w = c ↔ Matches c.pattern w ∧ ∀ d ∈ before, ¬ Matches d.pattern w := by
  have hnodup : (before ++ c :: behind).Nodup := h ▸ (by decide : ordered.Nodup)
  obtain ⟨hbefore, hbehind⟩ : c ∉ before ∧ c ∉ behind := by
    simpa [not_or] using (List.nodup_cons.1 (List.nodup_middle.1 hnodup)).1
  have hfind : ordered.find? (fun c => c.pattern.accepts w) = some c ↔
      Matches c.pattern w ∧ ∀ d ∈ before, ¬ Matches d.pattern w := by
    rw [List.find?_eq_some_iff_append, accepts_iff]
    refine and_congr_right fun _ => ⟨?_, fun hmatch => ⟨before, behind, h, ?_⟩⟩
    · rintro ⟨before', behind', h', hmatch⟩
      obtain ⟨rfl, -⟩ := (List.append_cons_inj_of_notMem hbefore hbehind).1 (h.symm.trans h')
      simpa [← accepts_iff] using hmatch
    · simpa [← accepts_iff] using hmatch
  have herror : c ≠ error := by
    have hc : c ∈ ordered := by simp [h]
    rintro rfl
    exact absurd hc (by decide)
  rw [← hfind, ofWord]
  cases ordered.find? (fun c => c.pattern.accepts w) with
  | none => simp [herror.symm]
  | some d => simp

theorem ofWord_eq_error_iff : ofWord w = error ↔ ∀ c ∈ ordered, ¬ Matches c.pattern w := by
  simp only [← accepts_iff, ofWord]
  cases h : ordered.find? (fun c => c.pattern.accepts w) with
  | none => simpa using List.find?_eq_none.1 h
  | some c =>
    have hc := List.mem_of_find?_eq_some h
    have haccepts := List.find?_some h
    refine iff_of_false ?_ fun hnone => hnone c hc haccepts
    rintro rfl
    exact absurd hc (by decide)

theorem matches_of_ofWord (h : ofWord w = c) (hc : c ≠ error) : Matches c.pattern w := by
  rw [ofWord] at h
  cases hfind : ordered.find? (fun c => c.pattern.accepts w) with
  | none =>
    rw [hfind] at h
    exact absurd h.symm hc
  | some d =>
    rw [hfind] at h
    obtain rfl : d = c := h
    have haccepts := List.find?_some hfind
    exact accepts_iff.1 haccepts

/-- A word has the category of any pattern other than that of names that it matches. -/
theorem ofWord_of_matches (h : Matches c.pattern w) (hc : c ≠ name) : ofWord w = c := by
  have hmem {c : Category} (h : c ∈ ordered) (hc : c ≠ name) : c ∈ ordered.dropLast := by
    revert c
    decide
  cases hfind : ordered.dropLast.find? (fun c => c.pattern.accepts w) with
  | none =>
    have hnone := List.find?_eq_none.1 hfind c (hmem (mem_ordered_of_matches h) hc)
    exact absurd (accepts_iff.2 h) hnone
  | some d =>
    have hd : d ≠ name := by
      rintro rfl
      exact absurd (List.mem_of_find?_eq_some hfind) (by decide)
    have hordered : ordered = ordered.dropLast ++ [name] := rfl
    have haccepts := List.find?_some hfind
    rw [ofWord, hordered, List.find?_append, hfind]
    exact eq_of_matches (accepts_iff.1 haccepts) h hd hc

/-- If only one element can be found, it is found in any order. -/
theorem find?_eq_of_perm {α : Type} {p : α → Bool} {l l' : List α} (h : l.Perm l')
    (hp : ∀ a ∈ l, ∀ b ∈ l, p a → p b → a = b) : l.find? p = l'.find? p := by
  cases hl : l.find? p with
  | none =>
    refine (List.find?_eq_none.2 fun a ha => ?_).symm
    exact List.find?_eq_none.1 hl a (h.mem_iff.2 ha)
  | some a =>
    have ha := List.mem_of_find?_eq_some hl
    cases hl' : l'.find? p with
    | none => exact absurd (List.find?_some hl) (List.find?_eq_none.1 hl' a (h.mem_iff.1 ha))
    | some b =>
      have hb := h.mem_iff.2 (List.mem_of_find?_eq_some hl')
      exact congrArg some (hp a ha b hb (List.find?_some hl) (List.find?_some hl'))

/-- In any order that has names at the end, a word has the same category. -/
theorem firstOf_eq_ofWord {order : List Category} (h : (order ++ [name]).Perm ordered)
    (w : List Char) : firstOf (order ++ [name]) w = ofWord w := by
  have hperm : order.Perm ordered.dropLast := (List.perm_append_right_iff [name]).1 h
  have hname : name ∉ order := fun hn => absurd (hperm.mem_iff.1 hn) (by decide)
  have hfind := find?_eq_of_perm hperm (p := fun c => c.pattern.accepts w) ?_
  · have hordered : ordered = ordered.dropLast ++ [name] := rfl
    rw [firstOf, ofWord, hordered, List.find?_append, List.find?_append, hfind]
  · intro c hc d hd h h'
    have hne {c : Category} (hc : c ∈ order) : c ≠ name := fun e => hname (e ▸ hc)
    exact eq_of_matches (accepts_iff.1 h) (accepts_iff.1 h') (hne hc) (hne hd)

/-- The category of a word is the first one whose pattern it matches, and no category if it matches
none. At most one pattern other than that of names fits a word, so that the order only decides
between a name and a builtin function, a reserved word or a noun. -/
theorem ofWord_first_match :
    (∀ w before c behind, ordered = before ++ c :: behind →
      (ofWord w = c ↔ Matches c.pattern w ∧ ∀ d ∈ before, ¬ Matches d.pattern w)) ∧
    (∀ w, ofWord w = error ↔ ∀ c ∈ ordered, ¬ Matches c.pattern w) ∧
    (∀ w c d, Matches c.pattern w → Matches d.pattern w → c ≠ name → d ≠ name → c = d) ∧
    (∀ c ∈ ordered, c ≠ name →
      ((∃ w, Matches c.pattern w ∧ Matches name.pattern w) ↔ c ∈ [builtin, reserved, geometry])) ∧
    ∀ order, (order ++ [name]).Perm ordered → ∀ w, firstOf (order ++ [name]) w = ofWord w :=
  ⟨fun _ _ _ _ => ofWord_eq_iff, fun _ => ofWord_eq_error_iff, fun _ _ _ => eq_of_matches,
    fun _ => exists_matches_name_iff, fun _ => firstOf_eq_ofWord⟩

end Category

end Planimetry
