import Planimetry.Command.Reader

/-!
# Readings

What a text says, before anything is drawn: its operations and, if the text goes wrong, the place
where it does. A fault of the text ends the reading, but the operations before it stand, and so do
the points that the unfinished command has mentioned.

## Main definitions

* `Reading.ofTokens`: the operations of a program and, if the text goes wrong, where.
-/

namespace Planimetry

/-- Where a text goes wrong. -/
structure Stop where
  /-- The points mentioned in the unfinished command. -/
  mentions : List Mention
  fault : SyntaxFault

/-- The operations of a text, up to its end or to the place where it goes wrong. -/
structure Reading where
  operations : List Operation
  stop : Option Stop

namespace Reading

/-- The reading with one more operation in front. -/
def cons (op : Operation) (r : Reading) : Reading := { r with operations := op :: r.operations }

/-- Reads a program: operations with `;` between them, and perhaps one at the end. -/
def ofTokens (ts : List Token) : Reading :=
  match _e : Reader.operation ⟨ts, []⟩ with
  | .error x s => ⟨[], some ⟨s.mentions, ⟨x, s.tokens.head?⟩⟩⟩
  | .ok op s =>
    match _h : s.tokens with
    | [] => ⟨[op], none⟩
    | t :: rest =>
      if t.isDelimiter ";" then
        if rest.isEmpty then ⟨[op], none⟩ else cons op (ofTokens rest)
      else ⟨[op], some ⟨[], ⟨.endOfCommand, some t⟩⟩⟩
termination_by ts.length
decreasing_by
  have := Reader.length_lt_of_operation _e
  rw [_h, List.length_cons] at this
  simp only at this
  omega

/-! ## Ways of a reading -/

variable {ts rest : List Token} {ms : List Mention} {op : Operation} {x : Expectation} {t : Token}

/-- The first command goes wrong. -/
theorem ofTokens_of_error {s : ReadState} (h : Reader.operation ⟨ts, []⟩ = .error x s) :
    ofTokens ts = ⟨[], some ⟨s.mentions, ⟨x, s.tokens.head?⟩⟩⟩ := by
  rw [ofTokens]
  split
  · rename_i h'
    cases h.symm.trans h'
    rfl
  · rename_i h'
    cases h.symm.trans h'

/-- The text ends behind the first command. -/
theorem ofTokens_of_end (h : Reader.operation ⟨ts, []⟩ = .ok op ⟨[], ms⟩) :
    ofTokens ts = ⟨[op], none⟩ := by
  rw [ofTokens]
  split
  · rename_i h'
    cases h.symm.trans h'
  · rename_i h'
    cases h.symm.trans h'
    rfl

/-- A token comes behind the first command. -/
theorem ofTokens_of_cons (h : Reader.operation ⟨ts, []⟩ = .ok op ⟨t :: rest, ms⟩) :
    ofTokens ts =
      if t.isDelimiter ";" then
        if rest.isEmpty then ⟨[op], none⟩ else cons op (ofTokens rest)
      else ⟨[op], some ⟨[], ⟨.endOfCommand, some t⟩⟩⟩ := by
  rw [ofTokens]
  split
  · rename_i h'
    cases h.symm.trans h'
  · rename_i h'
    cases h.symm.trans h'
    rfl

end Reading

end Planimetry
