import Mathlib.Data.List.DropRight
import Planimetry.Position

/-!
# The lines of a text

A position counts the lines before it and the characters before it in its line.

## Main definitions

* `Text.firstLine`, `Text.lastLine`: the two ends of a text.
* `Text.laterLines`: the lines of a text but the first.

Main statements: `Text.getElem?_lines` finds the line of a place in a text, and `Position.walk_eq`
tells which position the place has.
-/

namespace Planimetry

namespace Text

variable {c : Char}

/-- The characters before the first line feed. -/
def firstLine (cs : List Char) : List Char := cs.takeWhile (· != '\n')

/-- The characters behind the last line feed. -/
def lastLine (cs : List Char) : List Char := cs.rtakeWhile (· != '\n')

/-- The lines that a line feed comes before. -/
def laterLines (cs : List Char) : List (List Char) := (cs.splitOn '\n').tail

theorem firstLine_cons (h : c ≠ '\n') (cs : List Char) : firstLine (c :: cs) = c :: firstLine cs :=
  List.takeWhile_cons_of_pos (bne_iff_ne.2 h)

theorem firstLine_cons_newline (cs : List Char) : firstLine ('\n' :: cs) = [] :=
  List.takeWhile_cons_of_neg (by simp)

theorem length_firstLine_le (cs : List Char) : (firstLine cs).length ≤ cs.length :=
  (List.takeWhile_prefix _).length_le

theorem lastLine_concat (h : c ≠ '\n') (cs : List Char) :
    lastLine (cs ++ [c]) = lastLine cs ++ [c] :=
  List.rtakeWhile_concat_pos _ _ _ (bne_iff_ne.2 h)

theorem lastLine_concat_newline (cs : List Char) : lastLine (cs ++ ['\n']) = [] :=
  List.rtakeWhile_concat_neg _ _ _ (by simp)

/-- Without a line feed the last line is the whole text. -/
theorem lastLine_eq_self {cs : List Char} (h : '\n' ∉ cs) : lastLine cs = cs := by
  refine List.rtakeWhile_eq_self_iff.2 fun c hc => ?_
  exact bne_iff_ne.2 fun e => h (e ▸ hc)

theorem mem_getLast?_of_lastLine {cs : List Char} (h : c ∈ (lastLine cs).getLast?) :
    c ∈ cs.getLast? := by
  obtain ⟨before, hcs⟩ := List.rtakeWhile_suffix (· != '\n') cs
  rw [← hcs, List.getLast?_append]
  exact Option.or_eq_some_iff.2 (.inl h)

theorem mem_head?_of_firstLine {cs : List Char} (h : c ∈ (firstLine cs).head?) : c ∈ cs.head? := by
  rw [firstLine, List.head?_takeWhile] at h
  exact Option.eq_some_of_filter_eq_some h

/-- The first piece of a text that is cut at the characters of a kind. -/
theorem splitOnP_eq_cons (q : Char → Bool) (cs : List Char) :
    ∃ ps, cs.splitOnP q = cs.takeWhile (!q ·) :: ps := by
  induction cs with
  | nil => exact ⟨[], rfl⟩
  | cons c cs ih =>
    obtain ⟨ps, ih⟩ := ih
    rw [List.splitOnP_cons_eq_if_modifyHead, ih]
    cases hc : q c with
    | true => exact ⟨cs.takeWhile (!q ·) :: ps, by simp [hc]⟩
    | false => exact ⟨ps, by simp [hc]⟩

theorem lines_eq_cons (cs : List Char) : cs.splitOn '\n' = firstLine cs :: laterLines cs := by
  obtain ⟨ps, h⟩ := splitOnP_eq_cons (· == '\n') cs
  rw [laterLines, List.splitOn_eq_splitOnP, h]
  rfl

theorem head?_lines (cs : List Char) : (cs.splitOn '\n').head? = some (firstLine cs) := by
  rw [lines_eq_cons, List.head?_cons]

theorem laterLines_cons (h : c ≠ '\n') (cs : List Char) : laterLines (c :: cs) = laterLines cs := by
  rw [laterLines, List.splitOn_cons_eq_if_modifyHead, if_neg (by simpa using h), lines_eq_cons]
  rfl

theorem laterLines_cons_newline (cs : List Char) :
    laterLines ('\n' :: cs) = firstLine cs :: laterLines cs := by
  rw [laterLines, List.splitOn_cons_eq_if_modifyHead, if_pos (by simp), lines_eq_cons]
  rfl

theorem length_le_of_mem_laterLines {l cs : List Char} (h : l ∈ laterLines cs) :
    l.length ≤ cs.length := by
  induction cs with
  | nil => cases h
  | cons c cs ih =>
    refine Nat.le_succ_of_le ?_
    by_cases hc : c = '\n'
    · subst hc
      rw [laterLines_cons_newline] at h
      rcases List.mem_cons.1 h with rfl | h
      · exact length_firstLine_le cs
      · exact ih h
    · rw [laterLines_cons hc] at h
      exact ih h

theorem length_lines (cs : List Char) : (cs.splitOn '\n').length = cs.count '\n' + 1 := by
  induction cs with
  | nil => rfl
  | cons c cs ih =>
    rw [List.splitOn_cons_eq_if_modifyHead, List.count_cons]
    split <;> simp [ih]

/-- The line in which the first part of a text ends: what there is of it in that part, and what
comes of it behind. -/
theorem getElem?_lines (before behind : List Char) :
    ((before ++ behind).splitOn '\n')[before.count '\n']? =
      some (lastLine before ++ firstLine behind) := by
  induction before using List.reverseRecOn generalizing behind with
  | nil =>
    rw [List.nil_append, List.count_nil, ← List.head?_eq_getElem?]
    exact head?_lines behind
  | append_singleton before c ih =>
    rw [List.append_assoc, List.singleton_append, List.count_append]
    by_cases hc : c = '\n'
    · -- the line begins here
      subst hc
      have hlen := length_lines before
      rw [List.splitOn_append_cons_self, lastLine_concat_newline, List.count_singleton_self,
        List.getElem?_append_right (by omega), hlen, Nat.sub_self, ← List.head?_eq_getElem?]
      exact head?_lines behind
    · have hcount : [c].count '\n' = 0 := List.count_eq_zero_of_not_mem (by simpa using Ne.symm hc)
      rw [hcount, Nat.add_zero, ih, firstLine_cons hc, lastLine_concat hc, List.append_assoc,
        List.singleton_append]

end Text

/-- The lines that are left behind count, and the characters of the last line do. -/
theorem Position.walk_eq (p : Position) (cs : List Char) :
    p.walk cs =
      if '\n' ∈ cs then ⟨p.line + cs.count '\n', (Text.lastLine cs).length + 1⟩
      else ⟨p.line, p.col + cs.length⟩ := by
  induction cs using List.reverseRecOn with
  | nil => rfl
  | append_singleton cs c ih =>
    rw [walk_append, ih, walk_cons, walk_nil, after]
    by_cases hc : c = '\n'
    · subst hc
      by_cases hcs : '\n' ∈ cs
      · simp [hcs, Text.lastLine_concat_newline, Nat.add_assoc]
      · simp [hcs, Text.lastLine_concat_newline, List.count_eq_zero_of_not_mem hcs]
    · by_cases hcs : '\n' ∈ cs
      · simp [hcs, hc, Ne.symm hc, Text.lastLine_concat hc]
      · simp [hcs, hc, Ne.symm hc, Nat.add_assoc]

/-- From the beginning of a text, its last line alone tells the column. -/
theorem Position.walk_start (cs : List Char) :
    start.walk cs = ⟨cs.count '\n' + 1, (Text.lastLine cs).length + 1⟩ := by
  rw [walk_eq]
  split
  · simp [start, Nat.add_comm]
  · rename_i h
    simp [start, List.count_eq_zero_of_not_mem h, Text.lastLine_eq_self h, Nat.add_comm]

end Planimetry
