import Planimetry.Proofs.Exposure.Sources
import Planimetry.Proofs.Transcripts

/-!
# Refused points

A point is refused exactly if it is unknown, has no coordinates and finds the box full, and nothing
is changed then. A program says that it cannot place a point exactly if it meets such a table when
it comes to that point.

Main statement: `Script.refusals`.
-/

namespace Planimetry

/-! ## The message about a refused point -/

/-- No text ends with both messages about a refused point. -/
theorem ResolveFault.append_message_ne (u u' : String) :
    u ++ tapeEnded.message ≠ u' ++ boxFull.message := by
  have htape : tapeEnded.message.toList.getLast? = some 't' := by decide
  have hbox : boxFull.message.toList.getLast? = some ')' := by decide
  intro h
  have hlast := congrArg (fun u : String => u.toList.getLast?) h
  simp only [String.toList_append, List.getLast?_append, htape, hbox] at hlast
  cases hlast

/-- Only the fault of a refused point is told by its message. -/
theorem GeometryFault.message_eq_iff {f : GeometryFault} {name : String} :
    f.message = s!"cannot place {name}: {ResolveFault.boxFull.message}" ↔
      f.cause = .cannotPlace name .boxFull := by
  obtain ⟨pos, cause⟩ := f
  simp only [message, toString]
  cases cause with
  | cannotPlace other x =>
    cases x with
    | boxFull => simp
    | tapeEnded =>
      have hne := ResolveFault.append_message_ne ("cannot place " ++ other ++ ": ")
        ("cannot place " ++ name ++ ": ")
      simp [hne]
  | noPerpendicular segment x | noSquare side x =>
    simp only [reduceCtorEq, iff_false]
    intro h
    have hhead := congrArg (fun u : String => u.toList.head?) h
    simp at hhead

/-! ## Refused queries -/

/-- A query is refused if it has no coordinates, the table does not have its name and the box is
full. -/
theorem Exchange.Way.answer_eq_boxFull_iff {e : Exchange} (h : e.Way) :
    e.answer = .error .boxFull ↔
      e.query = .resolve e.query.name none ∧ ¬ e.before.Knows e.query.name ∧
        e.before.points.Full := by
  cases h with
  | explicit | lookup => simp [Query.name]
  | known hk => simp [Query.name, PointTable.Knows, hk]
  | @generated t name c tape hn hg =>
    have hroom : ¬ t.points.Full := by
      intro hfull
      rw [PointTable.generate_eq_boxFull_iff.2 hfull] at hg
      cases hg
    simp [hroom]
  | refused hn hg =>
    rw [← PointTable.generate_eq_boxFull_iff, hg]
    simp [Query.name, PointTable.Knows, hn]

namespace Script

variable {s : Script} {t : PointTable} {name : String}

/-- A program fails for want of a free position if it meets a full box, and not otherwise. -/
theorem parse_boxFull_iff :
    (∃ f, s.parse t = .error f ∧ f.kind = .geometry ∧
        f.message = s!"cannot place {name}: {ResolveFault.boxFull.message}") ↔
      ∃ e ∈ s.transcript t, e.query = .resolve name none ∧ ¬ e.before.Knows name ∧
        e.before.points.Full := by
  have htold := s.reading.told_settle
  constructor
  · rintro ⟨f, hf, hkind, hmessage⟩
    obtain ⟨e, he, rfl⟩ := parse_eq_error_iff.1 hf
    cases e with
    | wording e => cases hkind
    | geometry e =>
      obtain ⟨pos, cause⟩ := e
      obtain rfl := GeometryFault.message_eq_iff.1 hmessage
      obtain ⟨e, hmem, rfl, hanswer⟩ :=
        htold.refused.1 ⟨pos, Reading.draw_eq_geometry_iff.1 he⟩
      exact ⟨e, hmem, (htold.way hmem).answer_eq_boxFull_iff.1 hanswer⟩
  · rintro ⟨e, hmem, hquery, hunknown, hfull⟩
    have hname : e.query.name = name := by rw [hquery, Query.name]
    subst hname
    have hanswer := (htold.way hmem).answer_eq_boxFull_iff.2 ⟨hquery, hunknown, hfull⟩
    obtain ⟨pos, hpos⟩ := htold.refused.2 ⟨e, hmem, rfl, hanswer⟩
    have hdraw := Reading.draw_eq_geometry_iff.2 hpos
    exact ⟨_, parse_eq_error_iff.2 ⟨_, hdraw, rfl⟩, rfl, rfl⟩

/-- A point is refused exactly if it is unknown, has no coordinates and finds the box full; given
and known points never are. What is refused changes neither the points nor the tape. So 24 new names
fill the box of an empty table, each with a position of its own, and no further name finds room. A
program that cannot place a point has met a full box at that point, and it fails if it meets one. -/
theorem refusals :
    (∀ (t : PointTable) (name : String),
      ((t.resolve name none).1 = .error .boxFull ↔ ¬ t.Knows name ∧ t.points.Full)) ∧
    (∀ (t : PointTable) (name : String) (given : Option Coord), given.isSome ∨ t.Knows name →
      ∃ r, (t.resolve name given).1 = .ok r) ∧
    (∀ (t : PointTable) (name : String) (given : Option Coord) (x : ResolveFault),
      (t.resolve name given).1 = .error x → (t.resolve name given).2 = t) ∧
    (∀ (tape : Tape) (names : List String), names.Nodup → names.length = 24 →
      (∀ e ∈ (PointTable.ofTape tape).history (names.map (.resolve · none)),
        e.answer ≠ .error .tapeEnded) →
      (∃ cs : List Coord,
        ((PointTable.ofTape tape).history (names.map (.resolve · none))).map Exchange.answer =
          cs.map (fun c => .ok (c, .generated)) ∧ cs.Nodup ∧ ∀ c, c ∈ cs ↔ c.InBox) ∧
      ∀ name ∉ names,
        let t := (PointTable.ofTape tape).askAll (names.map (.resolve · none))
        t.resolve name none = (.error .boxFull, t)) ∧
    ∀ (s : Script) (t : PointTable) (name : String),
      (∃ f, s.parse t = .error f ∧ f.kind = .geometry ∧
          f.message = s!"cannot place {name}: {ResolveFault.boxFull.message}") ↔
        ∃ e ∈ s.transcript t, e.query = .resolve name none ∧ ¬ e.before.Knows name ∧
          e.before.points.Full := by
  refine ⟨fun t name => ?_, fun t name given h => PointTable.exists_resolve_eq_ok h,
    fun t name given x h => PointTable.eq_of_resolve_eq_error h, ?_,
    fun s t name => parse_boxFull_iff⟩
  · simp [PointTable.resolve_eq_boxFull_iff, PointTable.Knows]
  · intro tape names hnodup hlength hends
    obtain ⟨⟨cs, hanswers, hperm⟩, hfurther⟩ := PointTable.fill_box hnodup hlength hends
    have hbox (c : Coord) : c ∈ cs ↔ c.InBox := hperm.mem_iff.trans mem_box_iff
    exact ⟨⟨cs, hanswers, hperm.nodup_iff.2 nodup_box, hbox⟩, hfurther⟩

end Script

end Planimetry
