import Mathlib.Algebra.Group.Nat.Defs
import Planimetry.Proofs.Text.Lines
import Planimetry.Script

/-!
# Counting lines and columns

Lines and columns are counted in 64 bits. A column begins anew in every line, so that three numbers
tell whether the counting of a text goes through: the last line, the last column of the first line,
and the length of the longest line behind it.

## Main definitions

* `Position.Fits`: all the lines and columns on the way through a text can be counted.
* `Position.Overflows`: one of the three numbers is too large.

Main statement: `Position.tally_exact`, about when the counting goes wrong and where it leads.
-/

namespace Planimetry

open Text (firstLine lastLine laterLines)

namespace Position

variable {p q : Position} {c : Char} {cs ds : List Char}

/-- Every line and every column on the way through a text that begins at `p` is below the limit.
The columns of the first line go on from `p`, those of a later line begin with one. -/
structure Fits (p : Position) (cs : List Char) : Prop where
  line : p.line + cs.count '\n' < limit
  first : p.col + (firstLine cs).length < limit
  later : ∀ l ∈ laterLines cs, 1 + l.length < limit

/-- On the way through a text that begins at `p` a number would pass `2 ^ 64 - 1`: there are too
many lines, or the first line is too long behind `p`, or a later line is too long. -/
def Overflows (p : Position) (cs : List Char) : Prop :=
  2 ^ 64 - 1 < p.line + cs.count '\n' ∨ 2 ^ 64 - 1 < p.col + (firstLine cs).length ∨
    ∃ l ∈ laterLines cs, 2 ^ 64 - 1 ≤ l.length

instance (p : Position) (cs : List Char) : Decidable (p.Overflows cs) :=
  inferInstanceAs (Decidable (_ ∨ _ ∨ ∃ l ∈ _, _))

theorem fits_nil_iff : p.Fits [] ↔ p.line < limit ∧ p.col < limit :=
  ⟨fun h => ⟨h.line, h.first⟩, fun ⟨hline, hcol⟩ => ⟨hline, hcol, nofun⟩⟩

/-- A line feed ends the first line, and the next one begins with column one. -/
theorem fits_cons_newline_iff (hp : p.Fits []) :
    p.Fits ('\n' :: cs) ↔ Fits ⟨p.line + 1, 1⟩ cs := by
  have hline : p.line + ('\n' :: cs).count '\n' = p.line + 1 + cs.count '\n' := by
    rw [List.count_cons_self]
    omega
  have hfirst : firstLine ('\n' :: cs) = firstLine [] := Text.firstLine_cons_newline cs
  have hlater : laterLines ('\n' :: cs) = firstLine cs :: laterLines cs :=
    Text.laterLines_cons_newline cs
  constructor
  · intro h
    obtain ⟨hnext, hbehind⟩ := List.forall_mem_cons.1 (hlater ▸ h.later)
    exact ⟨hline ▸ h.line, hnext, hbehind⟩
  · intro h
    exact ⟨hline ▸ h.line, hfirst ▸ hp.first, hlater ▸ List.forall_mem_cons.2 ⟨h.first, h.later⟩⟩

/-- Any other character lengthens the first line alone. -/
theorem fits_cons_iff_of_ne (hc : c ≠ '\n') : p.Fits (c :: cs) ↔ Fits ⟨p.line, p.col + 1⟩ cs := by
  have hline : (c :: cs).count '\n' = cs.count '\n' := List.count_cons_of_ne hc
  have hfirst : p.col + (firstLine (c :: cs)).length = p.col + 1 + (firstLine cs).length := by
    rw [Text.firstLine_cons hc, List.length_cons]
    omega
  have hlater : laterLines (c :: cs) = laterLines cs := Text.laterLines_cons hc cs
  constructor
  · intro h
    exact ⟨hline ▸ h.line, hfirst ▸ h.first, hlater ▸ h.later⟩
  · intro h
    exact ⟨hline ▸ h.line, hfirst ▸ h.first, hlater ▸ h.later⟩

/-- A text fits if its rest does, behind the first character. -/
theorem fits_cons_iff (hp : p.Fits []) : p.Fits (c :: cs) ↔ (p.after c).Fits cs := by
  unfold after
  split
  · rename_i hc
    exact hc ▸ fits_cons_newline_iff hp
  · exact fits_cons_iff_of_ne ‹_›

theorem Fits.nil (h : p.Fits cs) : p.Fits [] :=
  fits_nil_iff.2 ⟨Nat.lt_of_le_of_lt (Nat.le_add_right _ _) h.line,
    Nat.lt_of_le_of_lt (Nat.le_add_right _ _) h.first⟩

/-! ## One step -/

theorem after?_of_fits (h : (p.after c).Fits []) : p.after? c = some (p.after c) := by
  obtain ⟨hline, hcol⟩ := fits_nil_iff.1 h
  unfold after after? at *
  split
  · rename_i hc
    rw [if_pos hc] at hline
    exact if_pos hline
  · rename_i hc
    rw [if_neg hc] at hcol
    exact if_pos hcol

/-- A step that can be counted keeps both numbers below the limit. -/
theorem fits_of_after? (hp : p.Fits []) (h : p.after? c = some q) : q.Fits [] := by
  obtain ⟨hline, hcol⟩ := fits_nil_iff.1 hp
  rw [fits_nil_iff]
  unfold after? at h
  split at h <;> split at h <;> cases h
  · exact ⟨‹_›, (by decide : 1 < limit)⟩
  · exact ⟨hline, ‹_›⟩

/-! ## Whole texts -/

theorem walk?_of_fits (h : p.Fits cs) : p.walk? cs = some (p.walk cs) := by
  induction cs generalizing p with
  | nil => rfl
  | cons c cs ih =>
    have hrest := (fits_cons_iff h.nil).1 h
    rw [walk?, after?_of_fits hrest.nil, Option.bind_some, walk_cons]
    exact ih hrest

theorem fits_of_walk? (hp : p.Fits []) (h : p.walk? cs = some q) : p.Fits cs := by
  induction cs generalizing p with
  | nil => exact hp
  | cons c cs ih =>
    obtain ⟨r, hr, hq⟩ := Option.bind_eq_some_iff.1 h
    have hrest : r.Fits cs := ih (fits_of_after? hp hr) hq
    rw [eq_after_of_after? hr] at hrest
    exact (fits_cons_iff hp).2 hrest

theorem tally_of_fits (h : p.Fits cs) : p.tally cs = .ok (p.walk cs) := by
  rw [tally, walk?_of_fits h, counted]

/-- From a position that is counted itself, the counting goes wrong just where the text does not
fit. -/
theorem tally_eq_addOverflow_iff (hp : p.Fits []) :
    p.tally cs = .error .addOverflow ↔ ¬ p.Fits cs := by
  constructor
  · intro h hfits
    rw [tally_of_fits hfits] at h
    cases h
  · intro h
    cases hwalk : p.walk? cs with
    | none => rw [tally, hwalk, counted]
    | some q => exact absurd (fits_of_walk? hp hwalk) h

theorem overflows_iff : p.Overflows cs ↔ ¬ p.Fits cs := by
  have hlater (l : List Char) : 2 ^ 64 - 1 ≤ l.length ↔ limit ≤ 1 + l.length := by
    simp only [limit]
    omega
  constructor
  · rintro (h | h | ⟨l, hl, h⟩) hfits
    · exact Nat.not_lt.2 h hfits.line
    · exact Nat.not_lt.2 h hfits.first
    · exact Nat.not_lt.2 ((hlater l).1 h) (hfits.later l hl)
  · intro h
    by_contra hnone
    simp only [Overflows, hlater, not_or, not_exists, not_and, Nat.not_lt, Nat.not_le] at hnone
    exact h ⟨Nat.lt_succ_of_le hnone.1, Nat.lt_succ_of_le hnone.2.1, hnone.2.2⟩

theorem walk?_append (p : Position) (cs ds : List Char) :
    p.walk? (cs ++ ds) = (p.walk? cs).bind (·.walk? ds) := by
  induction cs generalizing p with
  | nil => rfl
  | cons c cs ih => simp only [List.cons_append, walk?, ih, Option.bind_assoc]

theorem tally_append (p : Position) (cs ds : List Char) :
    p.tally (cs ++ ds) = p.tally cs >>= (·.tally ds) := by
  unfold tally
  rw [walk?_append]
  cases p.walk? cs <;> rfl

/-- No line and no number of lines is larger than the text. -/
theorem fits_start (h : cs.length + 1 < limit) : start.Fits cs where
  line := by
    have := cs.count_le_length (a := '\n')
    simp only [start]
    omega
  first := by
    have := Text.length_firstLine_le cs
    simp only [start]
    omega
  later l hl := by
    have := Text.length_le_of_mem_laterLines hl
    omega

end Position

/-! ## Tokens and scripts -/

/-- The words of a text are found if its end can be counted, and only then. -/
theorem Token.wordsFrom?_eq (fresh : Bool) (p : Position) (cs : List Char) :
    wordsFrom? fresh p cs = (p.walk? cs).map fun _ => wordsFrom fresh p cs := by
  induction cs generalizing fresh p with
  | nil => rfl
  | cons c cs ih =>
    rw [wordsFrom?, Position.walk?, wordsFrom]
    cases hafter : p.after? c with
    | none => rfl
    | some q =>
      obtain rfl := Position.eq_after_of_after? hafter
      simp only [Option.bind_some, ih]
      split
      · rfl
      · split
        · rw [Option.map_map]
          rfl
        · rfl

theorem Token.scan_eq (text : String) :
    scan text = (Position.start.tally text.toList).map fun _ => ofText text := by
  rw [scan, Token.wordsFrom?_eq, Position.tally]
  cases Position.start.walk? text.toList <;> rfl

theorem Script.scan_eq (text : String) (path : Option String) :
    scan text path = (Position.start.tally text.toList).map fun _ => ofText text path := by
  rw [scan, Token.scan_eq]
  cases h : Position.start.walk? text.toList with
  | none => rw [Position.tally, h]; rfl
  | some q =>
    obtain rfl := Position.eq_walk_of_walk? h
    rw [Position.tally, h]
    rfl

namespace Position

/-- The line and the column behind a text, each told by the text at once. -/
theorem walk_eq_mk (p : Position) (cs : List Char) :
    p.walk cs = ⟨p.line + cs.count '\n',
      if '\n' ∈ cs then 1 + (lastLine cs).length else p.col + cs.length⟩ := by
  rw [walk_eq]
  by_cases h : '\n' ∈ cs
  · rw [if_pos h, if_pos h, Nat.add_comm 1]
  · rw [if_neg h, if_neg h, List.count_eq_zero_of_not_mem h, Nat.add_zero]

/-- Counting goes wrong just where a number would pass `2 ^ 64 - 1`, and otherwise it leads to the
line and the column that the text tells. The parts of a text are counted in turn. From its start a
text of fewer than `2 ^ 64 - 1` characters is always counted, so that all its tokens are found. -/
theorem tally_exact (line col : UInt64) (cs : List Char) :
    let p : Position := ⟨line.toNat, col.toNat⟩
    (p.tally cs = .error .addOverflow ↔ p.Overflows cs) ∧
    (¬ p.Overflows cs → p.tally cs = .ok ⟨p.line + cs.count '\n',
      if '\n' ∈ cs then 1 + (lastLine cs).length else p.col + cs.length⟩) ∧
    ArithmeticFault.addOverflow.message = "attempt to add with overflow" ∧
    (∀ ds, p.tally (cs ++ ds) = p.tally cs >>= (·.tally ds)) ∧
    ∀ text path, text.length < 2 ^ 64 - 1 →
      start.tally text.toList = .ok (start.walk text.toList) ∧
      Token.scan text = .ok (Token.ofText text) ∧
      Script.scan text path = .ok (Script.ofText text path) := by
  intro p
  have hp : p.Fits [] := fits_nil_iff.2 ⟨line.toNat_lt, col.toNat_lt⟩
  refine ⟨(tally_eq_addOverflow_iff hp).trans overflows_iff.symm, fun h => ?_, rfl,
    tally_append p cs, fun text path htext => ?_⟩
  · have hfits : p.Fits cs := not_not.1 (mt overflows_iff.2 h)
    rw [tally_of_fits hfits, walk_eq_mk]
  · have hfits : start.Fits text.toList := fits_start (by
      rw [String.length_toList]
      simp only [limit]
      omega)
    have htally := tally_of_fits hfits
    refine ⟨htally, ?_, ?_⟩
    · rw [Token.scan_eq, htally]
      rfl
    · rw [Script.scan_eq, htally]
      rfl

/-- In the last line, two columns before the last one. -/
def nearLimits : Position := ⟨2 ^ 64 - 1, 2 ^ 64 - 3⟩

/-- Near the limits two more characters are counted, but neither a third one nor a line feed. Behind
a line feed the columns begin with one again. -/
theorem exact_of_nearLimits :
    (¬ nearLimits.Overflows ['a', 'b'] ∧
      nearLimits.tally ['a', 'b'] = .ok ⟨2 ^ 64 - 1, 2 ^ 64 - 1⟩) ∧
    nearLimits.tally ['a', 'b', 'c'] = .error .addOverflow ∧
    nearLimits.tally ['\n'] = .error .addOverflow ∧
    (¬ Overflows ⟨1, 2 ^ 64 - 2⟩ ['a', '\n', 'b', 'c'] ∧
      tally ⟨1, 2 ^ 64 - 2⟩ ['a', '\n', 'b', 'c'] = .ok ⟨2, 3⟩) ∧
    "a\n ;".length < 2 ^ 64 - 1 ∧
    Script.scan "a\n ;" none = .ok (Script.ofText "a\n ;" none) := by
  have hnear := tally_exact (UInt64.ofNat (2 ^ 64 - 1)) (UInt64.ofNat (2 ^ 64 - 3))
  have hlines := tally_exact 1 (UInt64.ofNat (2 ^ 64 - 2)) ['a', '\n', 'b', 'c']
  have htwo : ¬ nearLimits.Overflows ['a', 'b'] := by decide +kernel
  have hnext : ¬ Overflows ⟨1, 2 ^ 64 - 2⟩ ['a', '\n', 'b', 'c'] := by decide +kernel
  have hshort : "a\n ;".length < 2 ^ 64 - 1 := by decide
  refine ⟨⟨htwo, (hnear ['a', 'b']).2.1 htwo⟩, (hnear ['a', 'b', 'c']).1.2 ?_,
    (hnear ['\n']).1.2 ?_, ⟨hnext, hlines.2.1 hnext⟩, hshort,
    (hlines.2.2.2.2 "a\n ;" none hshort).2.2⟩
  · exact .inr (.inl (by decide +kernel))
  · exact .inl (by decide +kernel)

end Position

end Planimetry
