/-!
# Sinks

A sink takes the bytes of an exported drawing. It may have room for a limited number of bytes, and
it may refuse to be flushed.
-/

namespace Planimetry

/-- A sink and what it has taken so far. -/
structure Sink where
  taken : List UInt8
  /-- The number of bytes that still fit; `none` is no limit. -/
  room : Option Nat
  refusesFlush : Bool
deriving DecidableEq, Repr

/-- Why a sink did not take everything. -/
inductive SinkFault where
  | full
  | flushRefused
deriving DecidableEq, Repr

def SinkFault.message : SinkFault → String
  | full => "sink is full"
  | flushRefused => "flush refused"

namespace Sink

def unlimited : Sink := ⟨[], none, false⟩

/-- Gives bytes to the sink; of too many it takes those that fit. -/
def write (s : Sink) (bytes : List UInt8) : Except SinkFault Unit × Sink :=
  match s.room with
  | none => (.ok (), { s with taken := s.taken ++ bytes })
  | some n =>
    let fitting := bytes.take n
    let s' := { s with taken := s.taken ++ fitting, room := some (n - fitting.length) }
    (if bytes.length ≤ n then .ok () else .error .full, s')

/-- Asks the sink to pass on what it has taken. -/
def flush (s : Sink) : Except SinkFault Unit :=
  if s.refusesFlush then .error .flushRefused else .ok ()

def deliver (s : Sink) (bytes : List UInt8) : Except SinkFault Unit × Sink :=
  match s.write bytes with
  | (.ok (), s') => (s'.flush, s')
  | (.error e, s') => (.error e, s')

end Sink

end Planimetry
