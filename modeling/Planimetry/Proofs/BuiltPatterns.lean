import Mathlib.Data.List.Forall2
import Planimetry.Pattern

/-!
# Words of built patterns

What the words of a pattern look like, for the ways in which patterns are built, and which
characters they may hold.

## Main definitions

* `Pattern.isClass`: the pattern is a choice between single characters.
* `Pattern.uses`: a character may stand in the words of the pattern.
-/

namespace Planimetry

namespace Pattern

variable {p q : Pattern} {ps : List Pattern} {c : Char} {w : List Char}

theorem matches_char_iff : Matches (char c) w ↔ w = [c] := by
  simp [char, matches_one_iff]

theorem matches_anyOf_iff {s : String} : Matches (anyOf s) w ↔ ∃ c ∈ s.toList, w = [c] := by
  simp [anyOf, matches_one_iff]

theorem matches_text_iff {s : String} : Matches (text s) w ↔ w = s.toList := by
  unfold text
  induction s.toList generalizing w with
  | nil => exact matches_blank_iff
  | cons c cs ih => simp [matches_seq_iff, matches_char_iff, ih]

theorem matches_oneOf_iff : Matches (oneOf ps) w ↔ ∃ p ∈ ps, Matches p w := by
  unfold oneOf
  induction ps with
  | nil => simp
  | cons p ps ih => simp [matches_alt_iff, ih]

theorem matches_words_iff {ws : List String} :
    Matches (words ws) w ↔ w ∈ ws.map String.toList := by
  simp only [words, matches_oneOf_iff, List.mem_map]
  constructor
  · rintro ⟨_, ⟨s, hs, rfl⟩, h⟩
    exact ⟨s, hs, (matches_text_iff.1 h).symm⟩
  · rintro ⟨s, hs, rfl⟩
    exact ⟨_, ⟨s, hs, rfl⟩, matches_text_iff.2 rfl⟩

/-- A word of patterns in a row falls into words of these patterns. -/
theorem matches_inOrder_iff :
    Matches (inOrder ps) w ↔ ∃ ws, List.Forall₂ Matches ps ws ∧ w = ws.flatten := by
  induction ps generalizing w with
  | nil => simp [inOrder]
  | cons p ps ih =>
    change Matches (.seq p (inOrder ps)) w ↔ _
    simp only [matches_seq_iff, ih, List.forall₂_cons_left_iff]
    constructor
    · rintro ⟨u, _, hu, ⟨vs, hvs, rfl⟩, rfl⟩
      exact ⟨u :: vs, ⟨u, vs, hu, hvs, rfl⟩, rfl⟩
    · rintro ⟨_, ⟨u, vs, hu, hvs, rfl⟩, rfl⟩
      exact ⟨u, _, hu, ⟨vs, hvs, rfl⟩, rfl⟩

theorem matches_optional_iff : Matches (optional p) w ↔ Matches p w ∨ w = [] := by
  simp [optional, matches_alt_iff]

/-! ## Classes of characters -/

/-- Whether the pattern is a choice between single characters. -/
def isClass : Pattern → Bool
  | never | one _ => true
  | alt p q => p.isClass && q.isClass
  | blank | seq .. | star _ => false

theorem eq_singleton_of_isClass (hp : p.isClass) (h : Matches p w) : ∃ c, w = [c] := by
  induction h with
  | one => exact ⟨_, rfl⟩
  | left _ ih => exact ih (Bool.and_eq_true_iff.1 hp).1
  | right _ ih => exact ih (Bool.and_eq_true_iff.1 hp).2
  | blank | seq | starNil | starCons => cases hp

/-- A repetition of a choice between characters chooses for each character of the word. -/
theorem matches_star_iff_of_isClass (hp : p.isClass) :
    Matches (.star p) w ↔ ∀ c ∈ w, Matches p [c] := by
  induction w with
  | nil => simp [Matches.starNil]
  | cons c w ih =>
    rw [matches_star_cons_iff, List.forall_mem_cons, ← ih]
    constructor
    · rintro ⟨u, v, hu, hv, rfl⟩
      obtain ⟨d, hd⟩ := eq_singleton_of_isClass hp hu
      cases hd
      exact ⟨hu, hv⟩
    · rintro ⟨hc, hw⟩
      exact ⟨[], w, hc, hw, rfl⟩

theorem matches_seq_iff_of_isClass (hp : p.isClass) :
    Matches (.seq p q) w ↔ ∃ c v, Matches p [c] ∧ Matches q v ∧ w = c :: v := by
  rw [matches_seq_iff]
  constructor
  · rintro ⟨u, v, hu, hv, rfl⟩
    obtain ⟨c, rfl⟩ := eq_singleton_of_isClass hp hu
    exact ⟨c, v, hu, hv, rfl⟩
  · rintro ⟨c, v, hc, hv, rfl⟩
    exact ⟨[c], v, hc, hv, rfl⟩

/-- One repetition or more. -/
theorem matches_many_iff_of_isClass (hp : p.isClass) :
    Matches (many p) w ↔ w ≠ [] ∧ ∀ c ∈ w, Matches p [c] := by
  rw [many, matches_seq_iff_of_isClass hp]
  cases w with
  | nil => simp
  | cons c w => simp [matches_star_iff_of_isClass hp]

/-! ## Characters of a word -/

/-- Whether `c` may stand in a matching word. -/
def uses (c : Char) : Pattern → Bool
  | never | blank => false
  | one ok => ok c
  | seq p q | alt p q => p.uses c || q.uses c
  | star p => p.uses c

theorem uses_of_mem (h : Matches p w) (hc : c ∈ w) : p.uses c = true := by
  induction h with
  | blank | starNil => cases hc
  | one hok =>
    obtain rfl := List.mem_singleton.1 hc
    exact hok
  | seq _ _ hu hv =>
    rcases List.mem_append.1 hc with hc | hc
    · simp [uses, hu hc]
    · simp [uses, hv hc]
  | left _ ih => simp [uses, ih hc]
  | right _ ih => simp [uses, ih hc]
  | starCons _ _ hu hv =>
    rcases List.mem_append.1 hc with hc | hc
    · exact hu hc
    · exact hv hc

theorem notMem_of_uses (hp : p.uses c = false) (h : Matches p w) : c ∉ w := by
  intro hc
  simp [uses_of_mem h hc] at hp

end Pattern

end Planimetry
