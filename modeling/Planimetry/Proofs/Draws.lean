import Planimetry.Proofs.Resolution

/-!
# Draws word by word

A free position is drawn by reading words until a column is decided, then until a row is decided,
and again from the beginning if the position is taken. So the drawing of a position is an automaton
that reads one word after another, and the words that it has read tell what it draws.

## Main definitions

* `Tape.Begins`: some words stand next on a tape.
* `DrawPhase`: what is to be drawn next, a column or a row.
* `Drawn`: a word sequence from which a position is drawn.

Main statement: `PointMap.drawFrom_eq_some_iff`, a position is drawn from the words that are read
for it and from nothing else.
-/

namespace Planimetry

/-! ## Words that stand next -/

namespace Tape

/-- The tape behind its next `n` words. -/
def skip (t : Tape) (n : Nat) : Tape := { t with read := t.read + n, left := t.left - n }

/-- The next `n` words of the tape, whether it has as many left or not. -/
def next (t : Tape) (n : Nat) : List UInt32 := (List.range n).map fun i => t.word (t.read + i)

/-- The words stand next on the tape. -/
structure Begins (t : Tape) (ws : List UInt32) : Prop where
  left : ws.length ≤ t.left
  next : t.next ws.length = ws

variable {t : Tape} {v : UInt32} {ws ws' : List UInt32}

@[simp] theorem skip_zero (t : Tape) : t.skip 0 = t := rfl

theorem skip_skip (t : Tape) (n m : Nat) : (t.skip n).skip m = t.skip (n + m) := by
  simp only [skip, Nat.add_assoc, Nat.sub_sub]

theorem skip_advance (t : Tape) (n : Nat) : t.advance.skip n = t.skip (n + 1) := by
  rw [Nat.add_comm]
  exact t.skip_skip 1 n

@[simp] theorem length_next (t : Tape) (n : Nat) : (t.next n).length = n := by simp [next]

theorem next_succ (t : Tape) (n : Nat) :
    t.next (n + 1) = t.word t.read :: t.advance.next n := by
  simp only [next, advance, List.range_succ_eq_map, List.map_cons, List.map_map, Nat.add_zero,
    Function.comp_def, Nat.succ_eq_add_one, Nat.add_assoc, Nat.add_comm 1]

theorem begins_nil (t : Tape) : t.Begins [] := ⟨Nat.zero_le _, rfl⟩

theorem begins_next {n : Nat} (h : n ≤ t.left) : t.Begins (t.next n) :=
  ⟨by simpa using h, by rw [length_next]⟩

theorem begins_cons :
    t.Begins (v :: ws) ↔ t.left ≠ 0 ∧ t.word t.read = v ∧ t.advance.Begins ws := by
  constructor
  · rintro ⟨hleft, hnext⟩
    rw [List.length_cons, next_succ, List.cons.injEq] at hnext
    rw [List.length_cons] at hleft
    exact ⟨by omega, hnext.1, by simp only [advance]; omega, hnext.2⟩
  · rintro ⟨hleft, hword, hws⟩
    refine ⟨?_, ?_⟩
    · have := hws.left
      simp only [advance] at this
      rw [List.length_cons]
      omega
    · rw [List.length_cons, next_succ, hword, hws.next]

theorem begins_append :
    t.Begins (ws ++ ws') ↔ t.Begins ws ∧ (t.skip ws.length).Begins ws' := by
  induction ws generalizing t with
  | nil => simp [begins_nil]
  | cons v ws ih =>
    rw [List.cons_append, begins_cons, begins_cons, ih, skip_advance, List.length_cons]
    simp only [and_assoc]

/-- A die looks at the next word, and it rolls on if the word does not decide. -/
theorem roll_eq (d : Die) (t : Tape) :
    t.roll d =
      if t.left = 0 then none
      else if d.accepts (t.word t.read) then some (d.value (t.word t.read), t.advance)
      else t.advance.roll d := by
  rw [roll]

end Tape

/-! ## The automaton of a draw -/

/-- What is drawn next: a column, or a row for the column that is decided. -/
inductive DrawPhase where
  | column
  | row (x : Nat)

/-- What the next word brings: a free position, or the phase to go on with. -/
def DrawPhase.read (m : PointMap) : DrawPhase → UInt32 → Coord ⊕ DrawPhase
  | column, v => .inr (if columnDie.accepts v then row (columnDie.value v) else column)
  | row x, v =>
    if rowDie.accepts v then
      let c := boxCell x (rowDie.value v)
      if m.isTaken c then .inr column else .inl c
    else .inr (row x)

/-- The words are read one after another, beginning in a phase, and the last of them brings the
position. -/
inductive Drawn (m : PointMap) : DrawPhase → List UInt32 → Coord → Prop where
  | found {φ : DrawPhase} {v : UInt32} {c : Coord} : φ.read m v = .inl c → Drawn m φ [v] c
  | goOn {φ φ' : DrawPhase} {v : UInt32} {ws : List UInt32} {c : Coord} :
      φ.read m v = .inr φ' → Drawn m φ' ws c → Drawn m φ (v :: ws) c

theorem Drawn.ne_nil {m : PointMap} {φ : DrawPhase} {ws : List UInt32} {c : Coord}
    (h : Drawn m φ ws c) : ws ≠ [] := by
  cases h <;> exact List.cons_ne_nil _ _

namespace PointMap

variable {m : PointMap} {φ : DrawPhase} {t t' : Tape} {c : Coord} {ws : List UInt32}

/-- Draws a free position, beginning in a phase. -/
def drawFrom (m : PointMap) : DrawPhase → Tape → Option (Coord × Tape)
  | .column, t => m.drawFree t
  | .row x, t =>
    (t.roll rowDie).bind fun (y, t') =>
      if m.isTaken (boxCell x y) then m.drawFree t' else some (boxCell x y, t')

theorem drawFree_of_drawCell (m : PointMap) (t : Tape) :
    m.drawFree t =
      (drawCell t).bind fun (c, t') => if m.isTaken c then m.drawFree t' else some (c, t') := by
  rw [drawFree]
  split <;> simp [*]

theorem drawFree_eq (m : PointMap) (t : Tape) :
    m.drawFree t = (t.roll columnDie).bind fun (x, t') => m.drawFrom (.row x) t' := by
  rw [drawFree_of_drawCell, drawCell, Option.bind_assoc]
  simp only [Option.bind_map, drawFrom]
  rfl

/-- The drawing of a position reads one word after another. -/
theorem drawFrom_eq (m : PointMap) (φ : DrawPhase) (t : Tape) :
    m.drawFrom φ t =
      if t.left = 0 then none
      else
        match φ.read m (t.word t.read) with
        | .inl c => some (c, t.advance)
        | .inr φ' => m.drawFrom φ' t.advance := by
  cases φ with
  | column =>
    change m.drawFree t = _
    rw [drawFree_eq, Tape.roll_eq]
    split
    · rfl
    · simp only [DrawPhase.read]
      split
      · rfl
      · exact (drawFree_eq m t.advance).symm
  | row x =>
    change (t.roll rowDie).bind _ = _
    rw [Tape.roll_eq]
    split
    · rfl
    · simp only [DrawPhase.read]
      split
      · simp only [Option.bind_some]
        split <;> rfl
      · rfl

theorem drawFrom_of_drawn (h : Drawn m φ ws c) (ht : t.Begins ws) :
    m.drawFrom φ t = some (c, t.skip ws.length) := by
  induction h generalizing t with
  | found hread =>
    obtain ⟨hleft, rfl, -⟩ := Tape.begins_cons.1 ht
    rw [drawFrom_eq, if_neg hleft, hread]
    rfl
  | goOn hread _ ih =>
    obtain ⟨hleft, rfl, hws⟩ := Tape.begins_cons.1 ht
    rw [drawFrom_eq, if_neg hleft, hread, List.length_cons, ← Tape.skip_advance]
    exact ih hws

theorem exists_drawn_of_drawFrom (h : m.drawFrom φ t = some (c, t')) :
    ∃ ws, Drawn m φ ws c ∧ t.Begins ws ∧ t' = t.skip ws.length := by
  -- by induction on the words that are left
  generalize hn : t.left = n
  induction n generalizing t φ with
  | zero =>
    rw [drawFrom_eq, if_pos hn] at h
    cases h
  | succ n ih =>
    have hleft : t.left ≠ 0 := by omega
    rw [drawFrom_eq, if_neg hleft] at h
    split at h
    · rename_i hread
      cases h
      exact ⟨_, .found hread, Tape.begins_cons.2 ⟨hleft, rfl, Tape.begins_nil _⟩, rfl⟩
    · rename_i hread
      obtain ⟨ws, hdrawn, hws, rfl⟩ := ih h (by simp only [Tape.advance]; omega)
      refine ⟨_, .goOn hread hdrawn, Tape.begins_cons.2 ⟨hleft, rfl, hws⟩, ?_⟩
      rw [Tape.skip_advance, List.length_cons]

/-- A position is drawn from the words that are read for it, and the tape is left behind them. -/
theorem drawFrom_eq_some_iff :
    m.drawFrom φ t = some (c, t') ↔
      ∃ ws, Drawn m φ ws c ∧ t.Begins ws ∧ t' = t.skip ws.length := by
  refine ⟨exists_drawn_of_drawFrom, ?_⟩
  rintro ⟨ws, hdrawn, hws, rfl⟩
  exact drawFrom_of_drawn hdrawn hws

end PointMap

/-- A table generates what is drawn for it, if it has room. -/
theorem PointTable.generate_eq_ok_iff {t : PointTable} {c : Coord} {tape : Tape} :
    t.generate = .ok (c, tape) ↔
      box.all t.points.isTaken = false ∧
        ∃ ws, Drawn t.points .column ws c ∧ t.tape.Begins ws ∧ tape = t.tape.skip ws.length := by
  rw [← PointMap.drawFrom_eq_some_iff, PointMap.drawFrom]
  unfold generate
  split
  · simp [*]
  · split <;> simp [*]

end Planimetry
