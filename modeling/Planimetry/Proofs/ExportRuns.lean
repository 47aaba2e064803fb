import Mathlib.Data.List.DropRight
import Mathlib.Data.List.Infix
import Planimetry.Proofs.Modes
import Planimetry.Proofs.Rebuilding

/-!
# Runs of an export

Primitives, grids, silences and finishes come to an export in any order, up to the first finish that
fails. What waits in the export, and what the sink has taken, can be told from the list of these
events: up to the first silence every finish writes one program of the primitives since the finish
before it, and behind that silence nothing is written any more.

## Main definitions

* `Event`: what can happen to an export and its sink.
* `Session.run`: a run of events, up to the first finish that fails.
* `pendingAfter`, `gridAfter`, `programsAfter`: what a list of events leaves behind.
* `Session.Reached`: what is known of an export and its sink at any place of a run.

Main statement: `reached_of_run`.
-/

namespace Planimetry

/-- What is delivered without a fault is taken as a whole. -/
theorem Sink.taken_of_deliver {s s' : Sink} {bytes : List UInt8}
    (h : s.deliver bytes = (.ok (), s')) : s'.taken = s.taken ++ bytes := by
  have htaken := s.taken_deliver bytes
  have hfst := s.fst_deliver bytes
  rw [h] at htaken hfst
  have hfits : ¬ s.Overflows bytes := by
    intro hover
    rw [if_pos hover] at hfst
    cases hfst
  rw [htaken, List.take_of_length_le]
  cases hroom : s.room with
  | none => exact Nat.le_refl _
  | some n => exact Nat.le_of_not_lt fun hlt => hfits ⟨n, hroom, hlt⟩

namespace Export

/-! ## Events -/

/-- What can happen to an export and its sink. -/
inductive Event where
  | add (p : Primitive)
  | silence
  | setGrid (g : Grid)
  | finish
  /-- The sink has room for more or fewer bytes from now on, and changes its mind on flushes. -/
  | sink (room : Option Nat) (refusesFlush : Bool)
deriving DecidableEq

namespace Event

def primitive? : Event → Option Primitive
  | add p => some p
  | _ => none

def grid? : Event → Option Grid
  | setGrid g => some g
  | _ => none

end Event

/-- The events up to the first silence. -/
def loud (es : List Event) : List Event := es.takeWhile (· ≠ .silence)

/-- The primitives that come after the last finish. -/
def pendingAfter (es : List Event) : List Primitive :=
  (es.rtakeWhile (· ≠ .finish)).filterMap Event.primitive?

/-- The grid that is set last, if there is one. -/
def gridAfter (g : Grid) (es : List Event) : Grid := (es.filterMap Event.grid?).getLast?.getD g

/-- The program that a finish at the end of the events writes. -/
def lastProgram? (g : Grid) (es : List Event) : Option String :=
  if es.getLast? = some .finish then
    some (programText (gridAfter g es) (pendingAfter es.dropLast))
  else none

/-- The programs that the finishes write, one after another. -/
def programsAfter (g : Grid) (es : List Event) : List String :=
  es.inits.filterMap (lastProgram? g)

/-- The events up to a silence are those before it. -/
theorem loud_append_of_mem {es : List Event} (h : .silence ∈ es) (es' : List Event) :
    loud (es ++ es') = loud es := by
  induction es with
  | nil => cases h
  | cons e es ih =>
    by_cases he : e = .silence
    · simp [loud, he]
    · have hmem := ih ((List.mem_cons.1 h).resolve_left (Ne.symm he))
      simpa [loud, he] using hmem

/-- Events without a silence are followed by others up to the first silence of those. -/
theorem loud_append_of_not_mem {es : List Event} (h : .silence ∉ es) (es' : List Event) :
    loud (es ++ es') = es ++ loud es' := by
  refine List.takeWhile_append_of_pos fun e he => ?_
  have hne : e ≠ .silence := by rintro rfl; exact h he
  simpa using hne

theorem loud_eq_self {es : List Event} (h : .silence ∉ es) : loud es = es := by
  have happend := loud_append_of_not_mem h []
  rw [List.append_nil] at happend
  rw [happend]
  exact List.append_nil es

section

variable (g : Grid) (es : List Event) (e : Event)

theorem pendingAfter_append :
    pendingAfter (es ++ [e]) =
      if e = .finish then [] else pendingAfter es ++ e.primitive?.toList := by
  rw [pendingAfter, List.rtakeWhile_concat]
  by_cases h : e = .finish
  · simp [h]
  · cases hp : e.primitive? <;> simp [h, hp, pendingAfter]

theorem gridAfter_append : gridAfter g (es ++ [e]) = e.grid?.getD (gridAfter g es) := by
  cases h : e.grid? <;> simp [gridAfter, h]

theorem programsAfter_append :
    programsAfter g (es ++ [e]) = programsAfter g es ++
      if e = .finish then [programText (gridAfter g es) (pendingAfter es)] else [] := by
  have hlast : lastProgram? g (es ++ [e]) =
      if e = .finish then some (programText (gridAfter g es) (pendingAfter es)) else none := by
    rw [lastProgram?, List.getLast?_concat, List.dropLast_concat]
    by_cases h : e = .finish
    · simp [h, gridAfter_append, Event.grid?]
    · simp [h]
  rw [programsAfter, List.inits_append, List.filterMap_append, ← programsAfter]
  by_cases h : e = .finish
  · rw [if_pos h] at hlast ⊢
    simp [hlast]
  · rw [if_neg h] at hlast ⊢
    simp [hlast]

end

/-! ## Sessions -/

/-- An export and its sink. -/
structure Session where
  out : Export
  sink : Sink

namespace Session

/-- An export that has collected nothing, at a sink. -/
def start (g : Grid) (s : Sink) : Session := ⟨ofGrid g, s⟩

/-- What an event does. A finish that fails leaves the export as it is. -/
def step (x : Session) : Event → Except SinkFault Unit × Session
  | .add p => (.ok (), { x with out := x.out.add p })
  | .silence => (.ok (), { x with out := x.out.silence })
  | .setGrid g => (.ok (), { x with out := x.out.setGrid g })
  | .finish =>
    match x.out.finish x.sink with
    | (.ok out, sink) => (.ok (), ⟨out, sink⟩)
    | (.error f, sink) => (.error f, { x with sink })
  | .sink room refusesFlush => (.ok (), { x with sink := { x.sink with room, refusesFlush } })

/-- Events one after another, up to the first finish that fails. -/
def run (x : Session) : List Event → Except SinkFault Unit × Session
  | [] => (.ok (), x)
  | e :: es =>
    match x.step e with
    | (.ok (), y) => y.run es
    | (.error f, y) => (.error f, y)

variable {x y : Session} {e : Event} {f : SinkFault}

/-! ## Steps -/

/-- What a step does while nothing is silenced. -/
theorem of_step (hloud : x.out.silenced = false) (h : x.step e = (.ok (), y)) :
    y.out.silenced = decide (e = .silence) ∧ y.out.grid = e.grid?.getD x.out.grid ∧
      y.out.pending =
        (if e = .silence ∨ e = .finish then [] else x.out.pending ++ e.primitive?.toList) ∧
      y.sink.taken = x.sink.taken ++
        if e = .finish then (programText x.out.grid x.out.pending).toUTF8.toList else [] := by
  cases e with
  | add p =>
    cases h
    simp [add, hloud, Event.grid?, Event.primitive?]
  | silence =>
    cases h
    simp [Export.silence, Event.grid?]
  | setGrid g =>
    cases h
    simp [Export.setGrid, hloud, Event.grid?, Event.primitive?]
  | sink room refusesFlush =>
    cases h
    simp [hloud, Event.grid?, Event.primitive?]
  | finish =>
    simp only [step, Export.finish, hloud, Bool.false_eq_true, if_false] at h
    cases hdel : x.sink.deliver (programText x.out.grid x.out.pending).toUTF8.toList with
    | mk result s =>
      cases result with
      | error f =>
        simp only [hdel] at h
        cases h
      | ok =>
        simp only [hdel, Prod.mk.injEq, true_and] at h
        subst h
        simp [Event.grid?, Sink.taken_of_deliver hdel]

/-- Behind a silence every step goes through and writes nothing. -/
theorem step_of_silenced (hquiet : x.out.silenced = true) (hpending : x.out.pending = [])
    (e : Event) :
    ∃ y, x.step e = (.ok (), y) ∧ y.out.silenced = true ∧ y.out.pending = [] ∧
      y.out.grid = e.grid?.getD x.out.grid ∧ y.sink.taken = x.sink.taken := by
  cases e with
  | add p => exact ⟨_, rfl, by simp [add, hquiet, hpending, Event.grid?]⟩
  | silence => exact ⟨_, rfl, by simp [Export.silence, Event.grid?]⟩
  | setGrid g => exact ⟨_, rfl, by simp [Export.setGrid, hquiet, hpending, Event.grid?]⟩
  | sink room refusesFlush => exact ⟨_, rfl, by simp [hquiet, hpending, Event.grid?]⟩
  | finish => exact ⟨x, by simp [step, Export.finish, hquiet], hquiet, hpending, rfl, rfl⟩

/-- Only a finish can fail, and only before a silence; what waits keeps waiting then. -/
theorem of_step_eq_error (h : x.step e = (.error f, y)) :
    e = .finish ∧ x.out.silenced = false ∧ y.out = x.out := by
  cases e with
  | finish =>
    cases hs : x.out.silenced with
    | true => simp [step, Export.finish, hs] at h
    | false =>
      refine ⟨rfl, rfl, ?_⟩
      simp only [step] at h
      split at h <;> cases h
      rfl
  | _ => cases h

/-! ## Runs -/

/-- What is known of an export and its sink after the events. -/
structure Follows (g : Grid) (s : Sink) (es : List Event) (x : Session) : Prop where
  grid : x.out.grid = gridAfter g es
  silenced : x.out.silenced = decide (.silence ∈ es)
  pending : x.out.pending = if .silence ∈ es then [] else pendingAfter es
  taken : x.sink.taken = s.taken ++
    (programsAfter g (loud es)).flatMap fun p => p.toUTF8.toList

variable {g : Grid} {s : Sink} {es : List Event}

theorem follows_start (g : Grid) (s : Sink) : Follows g s [] (start g s) :=
  ⟨rfl, rfl, rfl, (List.append_nil _).symm⟩

theorem Follows.step_quiet (h : Follows g s es x) (hs : .silence ∈ es)
    (hstep : x.step e = (.ok (), y)) : Follows g s (es ++ [e]) y := by
  obtain ⟨y', hstep', hquiet, hpending, hgrid, htaken⟩ :=
    step_of_silenced (x := x) (by simp [h.silenced, hs]) (by simp [h.pending, hs]) e
  cases hstep.symm.trans hstep'
  refine ⟨?_, ?_, ?_, ?_⟩
  · rw [hgrid, h.grid, gridAfter_append]
  · simp [hquiet, hs]
  · simp [hpending, hs]
  · rw [htaken, h.taken, loud_append_of_mem hs]

theorem Follows.step_loud (h : Follows g s es x) (hs : .silence ∉ es)
    (hstep : x.step e = (.ok (), y)) : Follows g s (es ++ [e]) y := by
  obtain ⟨hquiet, hgrid, hpending, htaken⟩ := of_step (by simp [h.silenced, hs]) hstep
  have hp := h.pending
  have ht := h.taken
  rw [if_neg hs] at hp
  rw [loud_eq_self hs] at ht
  refine ⟨?_, ?_, ?_, ?_⟩
  · rw [hgrid, h.grid, gridAfter_append]
  · simp [hquiet, hs, eq_comm]
  · rw [hpending, hp, pendingAfter_append]
    by_cases he : e = .silence
    · simp [he]
    · simp [hs, he, Ne.symm he]
  · rw [htaken, ht, hp, h.grid, List.append_assoc, loud_append_of_not_mem hs]
    by_cases he : e = .silence
    · simp [he, loud]
    · have hloud : loud [e] = [e] := by simp [loud, he]
      rw [hloud, programsAfter_append, List.flatMap_append]
      split <;> simp

/-- A step that goes through keeps what is known. -/
theorem Follows.step (h : Follows g s es x) (hstep : x.step e = (.ok (), y)) :
    Follows g s (es ++ [e]) y := by
  by_cases hs : .silence ∈ es
  · exact h.step_quiet hs hstep
  · exact h.step_loud hs hstep

/-- A run from any place on keeps what is known there. -/
theorem Follows.run {es' : List Event} (h : Follows g s es x) (hrun : x.run es' = (.ok (), y)) :
    Follows g s (es ++ es') y := by
  induction es' generalizing es x with
  | nil =>
    cases hrun
    rwa [List.append_nil]
  | cons e es' ih =>
    rw [Session.run] at hrun
    cases hstep : x.step e with
    | mk result z =>
      cases result with
      | error f =>
        rw [hstep] at hrun
        cases hrun
      | ok =>
        rw [hstep] at hrun
        have h := ih (h.step hstep) hrun
        rwa [List.append_assoc] at h

/-- A run that fails does so at a finish. -/
theorem exists_of_run_eq_error (h : x.run es = (.error f, y)) :
    ∃ before after z, es = before ++ .finish :: after ∧ x.run before = (.ok (), z) ∧
      z.step .finish = (.error f, y) := by
  induction es generalizing x with
  | nil => cases h
  | cons e es ih =>
    rw [run] at h
    cases hstep : x.step e with
    | mk result z =>
      rw [hstep] at h
      cases result with
      | error f' =>
        cases h
        obtain ⟨rfl, -, -⟩ := of_step_eq_error hstep
        exact ⟨[], es, x, rfl, rfl, hstep⟩
      | ok =>
        obtain ⟨before, after, z', rfl, hrun, hfail⟩ := ih h
        refine ⟨e :: before, after, z', rfl, ?_, hfail⟩
        rw [run, hstep]
        exact hrun

/-! ## What is known at any place of a run -/

/-- What is known of an export and its sink after the events, and of the next event. -/
structure Reached (g : Grid) (s : Sink) (es : List Event) (x : Session) : Prop where
  taken : x.sink.taken = s.taken ++
    (programsAfter g (loud es)).flatMap fun p => p.toUTF8.toList
  waiting : .silence ∉ es →
    x.out.pending = pendingAfter es ∧ x.out.count = (pendingAfter es).length
  /-- A finish writes one program, with a push line for each primitive that waits. -/
  finish {y : Session} : .silence ∉ es → x.step .finish = (.ok (), y) →
    y.out.count = 0 ∧ ∃ program : String, y.sink.taken = x.sink.taken ++ program.toUTF8.toList ∧
      program = programText (gridAfter g es) (pendingAfter es) ∧
      (Text.lines program).filter isPush = (pendingAfter es).map (fun p => (pushLine p).toList) ∧
      rebuild program = some ⟨(pendingAfter es).length, pendingAfter es,
        Grid.ofMeasures (gridAfter g es).width (gridAfter g es).height (gridAfter g es).spacing⟩
  failed {f : SinkFault} {y : Session} {e : Event} : x.step e = (.error f, y) →
    e = .finish ∧ .silence ∉ es ∧ y.out.pending = x.out.pending ∧ y.out.count = x.out.count
  /-- No other event writes anything. -/
  other {e : Event} {y : Session} : e ≠ .finish → x.step e = (.ok (), y) →
    y.sink.taken = x.sink.taken
  quiet : .silence ∈ es → x.out.count = 0 ∧
    ∀ e, ∃ y, x.step e = (.ok (), y) ∧ y.sink.taken = x.sink.taken ∧ y.out.count = 0

theorem Follows.reached (h : Follows g s es x) : Reached g s es x := by
  have hloud (hs : .silence ∉ es) : x.out.silenced = false := by simp [h.silenced, hs]
  have hquiet (hs : .silence ∈ es) : x.out.silenced = true ∧ x.out.pending = [] := by
    simp [h.silenced, h.pending, hs]
  have hwaiting (hs : .silence ∉ es) : x.out.pending = pendingAfter es := by simp [h.pending, hs]
  constructor
  case taken => exact h.taken
  case waiting =>
    intro hs
    exact ⟨hwaiting hs, congrArg List.length (hwaiting hs)⟩
  case finish =>
    intro y hs hstep
    obtain ⟨-, -, hpending, htaken⟩ := of_step (hloud hs) hstep
    rw [if_pos rfl, hwaiting hs, h.grid] at htaken
    refine ⟨?_, _, htaken, rfl, filter_isPush_lines _ _, rebuild_programText _ _⟩
    rw [count, hpending, if_pos (.inr rfl), List.length_nil]
  case failed =>
    intro f y e hstep
    obtain ⟨he, hsilenced, hout⟩ := of_step_eq_error hstep
    refine ⟨he, ?_, by rw [hout], by rw [hout]⟩
    intro hs
    rw [(hquiet hs).1] at hsilenced
    cases hsilenced
  case other =>
    intro e y he hstep
    cases e with
    | finish => exact absurd rfl he
    | _ =>
      cases hstep
      rfl
  case quiet =>
    intro hs
    obtain ⟨hsilenced, hpending⟩ := hquiet hs
    refine ⟨by rw [count, hpending, List.length_nil], fun e => ?_⟩
    obtain ⟨y, hstep, -, hpending', -, htaken⟩ := step_of_silenced hsilenced hpending e
    exact ⟨y, hstep, htaken, by rw [count, hpending', List.length_nil]⟩

/-- All events of a run go through, or a finish fails before any silence. -/
theorem reached_of_run (g : Grid) (s : Sink) (es : List Event) :
    (∀ x, (start g s).run es = (.ok (), x) → Reached g s es x) ∧
      ∀ f x, (start g s).run es = (.error f, x) →
        ∃ before after y, es = before ++ .finish :: after ∧
          (start g s).run before = (.ok (), y) ∧ Reached g s before y ∧
            y.step .finish = (.error f, x) := by
  refine ⟨fun x hrun => ((follows_start g s).run hrun).reached, fun f x hrun => ?_⟩
  obtain ⟨before, after, y, hcut, hbefore, hfail⟩ := exists_of_run_eq_error hrun
  exact ⟨before, after, y, hcut, hbefore, ((follows_start g s).run hbefore).reached, hfail⟩

example :
    ((start .standard .unlimited).run [.add (.point "A" ⟨1, 2⟩), .finish, .silence, .finish]).1 =
      .ok () := by
  rfl

end Session

end Export

end Planimetry
