import Mathlib.Data.Nat.Digits.Defs
import Planimetry.Text.Quoted

/-!
# Reading quoted text

A quoted name is read from behind its first quote, character by character, up to the quote that
ends it. What follows is left alone.

## Main definitions

* `unquoteFrom`: the reading of quoted text.

Main statement: `unquoteFrom_escape`, an escaped text is read back.
-/

namespace Planimetry.Text

/-- How far the reading of one character has come. -/
inductive Unquoting where
  | plain
  /-- Behind a backslash. -/
  | slash
  /-- Behind `\u`, where a brace must follow. -/
  | brace
  /-- Inside the braces, behind digits of the value `n`. -/
  | code (n : Nat)

/-- The characters that are written as a backslash and a letter, with their letters. -/
def escapeLetters : List (Char × Char) :=
  [('"', '"'), ('\\', '\\'), ('\x00', '0'), ('\t', 't'), ('\r', 'r'), ('\n', 'n')]

/-- The character that a letter behind a backslash stands for. -/
def unescapeLetter? (l : Char) : Option Char :=
  (escapeLetters.find? (·.2 = l)).map Prod.fst

/-- The value of a digit to the base 16; letters are small. -/
def hexValue? (c : Char) : Option Nat :=
  if '0' ≤ c ∧ c ≤ '9' then some (c.toNat - '0'.toNat)
  else if 'a' ≤ c ∧ c ≤ 'f' then some (c.toNat - 'a'.toNat + 10)
  else none

/-- What is quoted up to the next quote, and what comes behind that. -/
def unquoteFrom : Unquoting → List Char → Option (List Char × List Char)
  | _, [] => none
  | .plain, c :: cs =>
    if c = '"' then some ([], cs)
    else if c = '\\' then unquoteFrom .slash cs
    else (unquoteFrom .plain cs).map fun (text, rest) => (c :: text, rest)
  | .slash, c :: cs =>
    if c = 'u' then unquoteFrom .brace cs
    else
      match unescapeLetter? c with
      | some d => (unquoteFrom .plain cs).map fun (text, rest) => (d :: text, rest)
      | none => none
  | .brace, c :: cs => if c = '\x7b' then unquoteFrom (.code 0) cs else none
  | .code n, c :: cs =>
    if c = '\x7d' then
      (unquoteFrom .plain cs).map fun (text, rest) => (Char.ofNat n :: text, rest)
    else
      match hexValue? c with
      | some d => unquoteFrom (.code (16 * n + d)) cs
      | none => none

/-! ## Single characters -/

theorem mem_escapeLetters {c l : Char} (h : escapeLetter? c = some l) : (c, l) ∈ escapeLetters := by
  unfold escapeLetter? at h
  split_ifs at h with h₁ h₂ h₃ h₄ h₅ h₆
  all_goals
    cases h
    subst c
    decide

theorem letter_ne_u : ∀ e ∈ escapeLetters, e.2 ≠ 'u' := by decide

theorem letter_ne_newline : ∀ e ∈ escapeLetters, e.2 ≠ '\n' := by decide

theorem unescapeLetter?_letter : ∀ e ∈ escapeLetters, unescapeLetter? e.2 = some e.1 := by decide

theorem hexValue?_digitChar {d : Nat} (h : d < 16) : hexValue? d.digitChar = some d := by
  revert d
  decide

theorem digitChar_ne_brace {d : Nat} (h : d < 16) : d.digitChar ≠ '\x7d' := by
  revert d
  decide

theorem unquoteFrom_code_digitChar {n d : Nat} (h : d < 16) (cs : List Char) :
    unquoteFrom (.code n) (d.digitChar :: cs) = unquoteFrom (.code (16 * n + d)) cs := by
  rw [unquoteFrom, if_neg (digitChar_ne_brace h), hexValue?_digitChar h]

/-- The digits of a number are read to that number. -/
theorem unquoteFrom_toDigits (n : Nat) (cs : List Char) :
    unquoteFrom (.code 0) (Nat.toDigits 16 n ++ cs) = unquoteFrom (.code n) cs := by
  induction n using Nat.strong_induction_on generalizing cs with
  | _ n ih =>
    rw [Nat.toDigits_eq_if (by decide)]
    split
    · rename_i h
      simpa using unquoteFrom_code_digitChar (n := 0) h cs
    · rename_i h
      rw [List.append_assoc, ih (n / 16) (by omega), List.singleton_append,
        unquoteFrom_code_digitChar (Nat.mod_lt n (by decide)), Nat.div_add_mod]

/-- A character is read back from the way it is written inside quotes. -/
theorem unquoteFrom_escapeChar (c : Char) (cs : List Char) :
    unquoteFrom .plain (escapeChar c ++ cs) =
      (unquoteFrom .plain cs).map fun (text, rest) => (c :: text, rest) := by
  unfold escapeChar
  split
  · rename_i l hl
    have hmem := mem_escapeLetters hl
    simp [unquoteFrom, letter_ne_u _ hmem, unescapeLetter?_letter _ hmem]
  · rename_i hl
    split
    · simp [unquoteFrom, unquoteFrom_toDigits]
    · have hquote : c ≠ '"' := by rintro rfl; cases hl
      have hslash : c ≠ '\\' := by rintro rfl; cases hl
      simp [unquoteFrom, hquote, hslash]

/-- An escaped text is read back, up to the quote behind it. -/
theorem unquoteFrom_escape (cs rest : List Char) :
    unquoteFrom .plain (escape cs ++ '"' :: rest) = some (cs, rest) := by
  induction cs with
  | nil => rfl
  | cons c cs ih =>
    rw [escape, List.flatMap_cons, List.append_assoc, unquoteFrom_escapeChar]
    rw [escape] at ih
    rw [ih]
    rfl

/-! ## Lines -/

theorem newline_notMem_toDigits (n : Nat) : '\n' ∉ Nat.toDigits 16 n := by
  have hdigit : ∀ d < 16, d.digitChar ≠ '\n' := by decide
  induction n using Nat.strong_induction_on with
  | _ n ih =>
    rw [Nat.toDigits_eq_if (by decide)]
    split
    · rename_i h
      simp [(hdigit n h).symm]
    · have hlast := hdigit (n % 16) (Nat.mod_lt n (by decide))
      simp [ih (n / 16) (by omega), hlast.symm]

theorem newline_notMem_escapeChar (c : Char) : '\n' ∉ escapeChar c := by
  unfold escapeChar
  split
  · rename_i l hl
    simp [(letter_ne_newline _ (mem_escapeLetters hl)).symm]
  · rename_i hl
    have hc : c ≠ '\n' := by rintro rfl; cases hl
    split
    · simp [newline_notMem_toDigits]
    · simp [hc.symm]

/-- A quoted text stands on one line. -/
theorem newline_notMem_escape (cs : List Char) : '\n' ∉ escape cs := by
  rw [escape, List.mem_flatMap]
  rintro ⟨c, -, hc⟩
  exact newline_notMem_escapeChar c hc

end Planimetry.Text
