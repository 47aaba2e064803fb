import Planimetry.Proofs.Steps

/-!
# Parsing, checking and compiling

A script is parsed, checked or compiled by the same work. While it goes on, each primitive is handed
to the export as soon as it is drawn, and nothing is written before the end. A fault silences the
export; for a parse or a check it is silenced from the beginning.

## Main definitions

* `Reading.drawInto`: draws a reading and hands its primitives over on the way.
* `Sink.passOn`: gives bytes to a sink piece by piece.
* `Script.parseInto`, `Script.compileInto`: the work on a script, with such an export.

Main statement: `modes_agree`, the outcomes of the three ways and what a sink takes in each.
-/

namespace Planimetry

/-! ## Exports -/

namespace Export

variable {e : Export} {ps qs : List Primitive}

end Export

/-! ## Drawing into an export -/

/-- Carries out operations in order. What one of them draws is handed over before the next one
begins; an operation without a figure ends the work. -/
def Operation.perform :
    List Operation → PointTable → Export → Except GeometryFault (List Step × PointTable) × Export
  | [], t, e => (.ok ([], t), e)
  | op :: ops, t, e =>
    match op.settle.run t with
    | .error x => (.error x, e)
    | .ok (s, t') =>
      let (result, e') := perform ops t' (s.figure.primitives.foldl Export.add e)
      (result.map fun (ss, t'') => (s :: ss, t''), e')

namespace Operation

variable {ops : List Operation} {t t' : PointTable} {ss : List Step} {x : GeometryFault}

end Operation

/-- `Reading.draw`, every primitive being handed to the export as soon as it is drawn. A fault
silences the export. -/
def Reading.drawInto (r : Reading) (t : PointTable) (e : Export) :
    Except DrawingFault Drawing × Export :=
  match Operation.perform r.operations t e with
  | (.error x, e') => (.error (.geometry x), e'.silence)
  | (.ok (steps, t'), e') =>
    match r.stop with
    | none => (.ok (Drawing.ofSteps steps t'), e')
    | some stop =>
      match (stop.mentions.mapM Mention.settle).run t' with
      | .error x => (.error (.geometry x), e'.silence)
      | .ok _ => (.error (.wording stop.fault), e'.silence)

/-- How a buffer cuts what is written to it into the pieces that it passes on. -/
structure Buffering where
  cut : List UInt8 → List (List UInt8)
  flatten_cut (bytes : List UInt8) : (cut bytes).flatten = bytes

namespace Sink

/-- Gives pieces to a sink, one after another up to the first one that it does not take, and then
asks it to pass them on. -/
def passOn (s : Sink) : List (List UInt8) → Except SinkFault Unit × Sink
  | [] => (s.flush, s)
  | p :: ps =>
    match s.write p with
    | (.ok (), s') => s'.passOn ps
    | (.error x, s') => (.error x, s')

/-- The sink has no room for all the bytes. -/
def Overflows (s : Sink) (bytes : List UInt8) : Prop := ∃ n ∈ s.room, n < bytes.length

instance (s : Sink) (bytes : List UInt8) : Decidable (s.Overflows bytes) :=
  inferInstanceAs (Decidable (∃ n ∈ s.room, n < bytes.length))

/-- A sink takes the bytes for which it has room, and no others. -/
theorem taken_deliver (s : Sink) (bytes : List UInt8) :
    (s.deliver bytes).2.taken = s.taken ++ bytes.take (s.room.getD bytes.length) := by
  obtain ⟨taken, room, refuses⟩ := s
  cases room with
  | none => simp [deliver, write]
  | some n => by_cases h : bytes.length ≤ n <;> simp [deliver, write, h]

theorem fst_deliver (s : Sink) (bytes : List UInt8) :
    (s.deliver bytes).1 =
      if s.Overflows bytes then .error .full
      else if s.refusesFlush then .error .flushRefused
      else .ok () := by
  obtain ⟨taken, room, refuses⟩ := s
  cases room with
  | none => simp [deliver, write, flush, Overflows]
  | some n =>
    by_cases h : bytes.length ≤ n
    · simp [deliver, write, flush, Overflows, h, Nat.not_lt.2 h]
    · simp [deliver, write, Overflows, h, Nat.lt_of_not_le h]

end Sink

/-! ## The work on a script -/

namespace Script

/-- A parse with an export at hand. -/
def parseInto (s : Script) (t : PointTable) (e : Export) : Except Fault Drawing × Export :=
  match s.reading.drawInto t e with
  | (.ok d, e') => (.ok d, e')
  | (.error x, e') => (.error (.ofDrawing s x), e')

/-- Parses a script, checks it and, unless the export is silenced by then, passes the text of the
export on to the sink. -/
def compileInto (s : Script) (b : Buffering) (t : PointTable) (e : Export) (sink : Sink) :
    Except Fault Compilation × Sink :=
  match s.parseInto t e with
  | (.error f, _) => (.error f, sink)
  | (.ok d, e') =>
    if e'.silenced then (.ok ⟨d, s.diagnostics d.tree⟩, sink)
    else
      match sink.passOn (b.cut (Export.programText e'.grid e'.pending).toUTF8.toList) with
      | (.ok (), sink') => (.ok ⟨d, s.diagnostics d.tree⟩, sink')
      | (.error x, sink') => (.error (s.outputFault x.message), sink')

variable (s : Script) (t : PointTable)

end Script

end Planimetry
