import Planimetry.Proofs.Draws
import Planimetry.Proofs.FullBox
import Planimetry.Proofs.FullPeriod

/-!
# Draws from a scripted tape

Whatever the drawing of a position has decided so far, some words bring it to a given cell of the
box: the first of them decides no column, but every row, and the next two decide the column and the
row of the cell. All words come by on a scripted tape, so a free position is drawn before long.

## Main definitions

* `LeadsTo`: a word behind which a given cell is drawn.
* `drawBound`: a number of words that is enough for a free position.

Main statement: `PointMap.exists_drawn_scripted`.
-/

namespace Planimetry

open Tape (successor scriptedWord)

/-! ## Words that lead to a cell -/

/-- The word `v` leaves a column undecided and decides every row, and its successors decide the
column `x` and the row `y`. -/
def LeadsTo (v : UInt32) (x y : Nat) : Prop :=
  (columnDie.accepts v = false ∧ rowDie.accepts v = true) ∧
  (columnDie.accepts (successor v) = true ∧ columnDie.value (successor v) = x) ∧
  rowDie.accepts (successor (successor v)) = true ∧ rowDie.value (successor (successor v)) = y

instance (v : UInt32) (x y : Nat) : Decidable (LeadsTo v x y) := inferInstanceAs (Decidable (_ ∧ _))

/-- For each cell a word that leads to it, as the distance from a fixed one. -/
def leadOffsets : List (List UInt32) :=
  [[4, 6, 8, 10, 1, 2], [368, 359, 361, 363, 364, 366], [1008, 1009, 1011, 1013, 1004, 1006],
    [1658, 1649, 1651, 1653, 1654, 1656]]

theorem leadsTo_of_leadOffsets :
    ∀ x < 4, ∀ y < 6, LeadsTo (1610612736 + (leadOffsets.getD x []).getD y 0) x y := by
  decide +kernel

/-- So many words of a scripted tape are enough for a free position. -/
def drawBound (words : List UInt32) : Nat := words.length + wordCount + 3

namespace PointMap

variable {m : PointMap} {v : UInt32} {x y : Nat}

/-- The two words behind one that leads to a free cell draw that cell. -/
theorem drawn_of_leadsTo (hv : LeadsTo v x y) (hfree : m.isTaken (boxCell x y) = false) :
    Drawn m .column [successor v, successor (successor v)] (boxCell x y) := by
  obtain ⟨-, ⟨hcolumn, hx⟩, hrow, hy⟩ := hv
  have hread : DrawPhase.read m .column (successor v) = .inr (.row x) := by
    simp [DrawPhase.read, hcolumn, hx]
  have hread' : DrawPhase.read m (.row x) (successor (successor v)) = .inl (boxCell x y) := by
    simp [DrawPhase.read, hrow, hy, hfree]
  exact .goOn hread (.found hread')

/-- A word that leads to a free cell brings a position from every phase. -/
theorem exists_drawn_of_leadsTo (hv : LeadsTo v x y) (hfree : m.isTaken (boxCell x y) = false)
    {t : Tape} (ht : ∀ k, t.word (t.read + k) = successor^[k] v) (φ : DrawPhase) :
    ∃ n ≤ 3, ∃ c, Drawn m φ (t.next n) c := by
  obtain ⟨hpassed, hsynced⟩ := hv.1
  have hdrawn := drawn_of_leadsTo hv hfree
  have hwords : t.next 3 = [v, successor v, successor (successor v)] := by
    simp [Tape.next, List.range_succ, ht]
  have hword : t.next 1 = [v] := congrArg (fun ws => ws.take 1) hwords
  cases φ with
  | column =>
    have hread : DrawPhase.read m .column v = .inr .column := by simp [DrawPhase.read, hpassed]
    exact ⟨3, le_rfl, _, hwords.symm ▸ Drawn.goOn hread hdrawn⟩
  | row x' =>
    cases htaken : m.isTaken (boxCell x' (rowDie.value v)) with
    | true =>
      have hread : DrawPhase.read m (.row x') v = .inr .column := by
        simp [DrawPhase.read, hsynced, htaken]
      exact ⟨3, le_rfl, _, hwords.symm ▸ Drawn.goOn hread hdrawn⟩
    | false =>
      have hread : DrawPhase.read m (.row x') v = .inl (boxCell x' (rowDie.value v)) := by
        simp [DrawPhase.read, hsynced, htaken]
      exact ⟨1, by omega, _, hword.symm ▸ Drawn.found hread⟩

/-- If `d` words stand before a word that leads to a free cell, three more than these are enough. -/
theorem exists_drawn_of_ahead (hv : LeadsTo v x y) (hfree : m.isTaken (boxCell x y) = false)
    (d : Nat) {t : Tape} (ht : ∀ k, t.word (t.read + d + k) = successor^[k] v) (φ : DrawPhase) :
    ∃ n ≤ d + 3, ∃ c, Drawn m φ (t.next n) c := by
  -- by induction on the words before it, in whatever phase each of them is read
  induction d generalizing t φ with
  | zero => simpa using exists_drawn_of_leadsTo hv hfree ht φ
  | succ d ih =>
    cases hread : φ.read m (t.word t.read) with
    | inl c => exact ⟨1, by omega, c, t.next_succ 0 ▸ Drawn.found hread⟩
    | inr φ' =>
      have ht' (k : Nat) : t.advance.word (t.advance.read + d + k) = successor^[k] v := by
        rw [← ht k]
        simp only [Tape.advance]
        congr 1
        omega
      obtain ⟨n, hn, c, hdrawn⟩ := ih ht' φ'
      exact ⟨n + 1, by omega, c, t.next_succ n ▸ Drawn.goOn hread hdrawn⟩

/-- As long as the box is not full, a free position is drawn from the words at any place of a
scripted tape. -/
theorem exists_drawn_scripted (hroom : ¬ m.Full) {words : List UInt32} {t : Tape}
    (ht : t.word = scriptedWord words) (φ : DrawPhase) :
    ∃ n ≤ drawBound words, ∃ c, Drawn m φ (t.next n) c := by
  simp only [Full, not_forall, ← isTaken_iff, Bool.not_eq_true] at hroom
  obtain ⟨c, hc, hfree⟩ := hroom
  obtain ⟨x, hx, y, hy, rfl⟩ := hc.exists_boxCell
  obtain ⟨d, hd, hwords⟩ := Tape.exists_scriptedWord_eq words t.read _
  obtain ⟨n, hn, hdrawn⟩ :=
    exists_drawn_of_ahead (leadsTo_of_leadOffsets x hx y hy) hfree d (ht ▸ hwords) φ
  exact ⟨n, by unfold drawBound; omega, hdrawn⟩

end PointMap

end Planimetry
