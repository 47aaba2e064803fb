import Planimetry.Proofs.Steps

/-!
# The tree and the primitives

The tree of a program and its primitives are two sides of the same steps: the tree is a chain of
constructions, and each construction tells by itself what is drawn of it.

## Main definitions

* `Node.Inside`: one tree stands in another.
* `Node.primitives?`: what the node of a construction draws.

Main statement: `parse_tree`, the primitives of a drawing are those of its tree.
-/

namespace Planimetry

/-- What is had from each element is had from all. -/
theorem mapM_map_eq_some {α β γ : Type} {l : List α} {f : α → β} {g : β → Option γ} {h : α → γ}
    (e : ∀ a ∈ l, g (f a) = some (h a)) : (l.map f).mapM g = some (l.map h) := by
  induction l with
  | nil => rfl
  | cons a l ih =>
    have hl := ih fun b hb => e b (List.mem_cons_of_mem a hb)
    rw [List.map_cons, List.mapM_cons, e a List.mem_cons_self, hl]
    rfl

namespace Node

/-- `n` is the tree, or it stands somewhere below. -/
inductive Inside (n : Node) : Node → Prop where
  | root : Inside n n
  | child {m c : Node} : c ∈ m.children → Inside n c → Inside n m

theorem inside_iff {n m : Node} : n.Inside m ↔ n = m ∨ ∃ c ∈ m.children, n.Inside c := by
  constructor
  · rintro (_ | ⟨hc, h⟩)
    · exact .inl rfl
    · exact .inr ⟨_, hc, h⟩
  · rintro (rfl | ⟨c, hc, h⟩)
    · exact .root
    · exact .child hc h

theorem inside_leaf_iff {n : Node} {k : NodeKind} {p : Position} :
    n.Inside (leaf k p) ↔ n = leaf k p := by
  rw [inside_iff]
  simp [leaf, children]

/-- The node has a construction and at most one operation behind it. -/
def IsLink (n : Node) : Prop :=
  ∃ c os, n.children = c :: os ∧ c.isOperation = false ∧ os.length ≤ 1 ∧ ∀ o ∈ os, o.isOperation

/-- What a child of a network draws. -/
def listed? : NodeKind → Option Primitive
  | .putPoint p => some p.primitive
  | .drawSegment a b => some (a.segmentTo b)
  | _ => none

/-- What a construction draws, if its node has the children that it should have. -/
def primitives? (n : Node) : Option (List Primitive) :=
  match n.kind, n.children.map kind with
  | .putPoint p, _ => some [p.primitive]
  | .connectPoints, ks => ks.mapM listed?
  | .drawSegment a b, _ => some [a.segmentTo b, a.primitive, b.primitive]
  | .drawPerpendicular _ a b first second, _ =>
    (Coord.ofInts? ((a.coord.x.toInt + b.coord.x.toInt).tdiv 2)
      ((a.coord.y.toInt + b.coord.y.toInt).tdiv 2)).map fun mid =>
        [.segment mid first, .segment mid second]
  | .buildTriangle, [.putPoint a, .putPoint b, .putPoint c] =>
    some [a.segmentTo b, b.segmentTo c, c.segmentTo a, a.primitive, b.primitive, c.primitive]
  | .buildSquare _, [.putPoint a, .putPoint b, .putPoint c, .putPoint d,
      .drawSegment _ _, .drawSegment _ _, .drawSegment _ _, .drawSegment _ _] =>
    some [a.segmentTo c, a.segmentTo b, b.segmentTo d, c.segmentTo d,
      a.primitive, b.primitive, c.primitive, d.primitive]
  | _, _ => none

end Node

namespace Figure

/-- The arms of a perpendicular begin in the middle of its segment. -/
def Centred : Figure → Prop
  | perpendicular _ a b arms => arms.mid = Perpendicular.midpoint a.coord b.coord
  | _ => True

/-- A figure draws what its node says. -/
theorem primitives?_node {f : Figure} (h : f.Centred) (pos : Position) :
    (f.node pos).primitives? = some f.primitives := by
  cases f with
  | point p => rfl
  | network ps =>
    have h₁ : (ps.map fun p => NodeKind.putPoint p).mapM Node.listed? =
        some (ps.map Point.primitive) :=
      mapM_map_eq_some fun p _ => rfl
    have h₂ : ((pairs ps).map fun ab => NodeKind.drawSegment ab.1 ab.2).mapM Node.listed? =
        some ((pairs ps).map fun ab => ab.1.segmentTo ab.2) :=
      mapM_map_eq_some fun ab _ => rfl
    have hkinds : ((network ps).node pos).children.map Node.kind =
        (ps.map fun p => NodeKind.putPoint p) ++
          (pairs ps).map fun ab => NodeKind.drawSegment ab.1 ab.2 := by
      simp [node, Node.children, Function.comp_def, Point.node, Point.nodeTo, Node.leaf, Node.kind]
    change (((network ps).node pos).children.map Node.kind).mapM Node.listed? = _
    rw [hkinds, List.mapM_append, h₁, h₂]
    rfl
  | segment a b => rfl
  | perpendicular s a b arms =>
    simp only [Centred] at h
    simp [node, Node.leaf, Node.primitives?, Node.kind, Perpendicular.ofInts?_midpoint, primitives,
      h]
  | triangle a b c => rfl
  | square s a b c d => rfl

/-- The nodes below that of a figure are points and segments. -/
theorem mem_children_node {f : Figure} {pos : Position} {c : Node}
    (h : c ∈ (f.node pos).children) : (∃ a, c = Point.node a) ∨ ∃ a b, c = Point.nodeTo a b := by
  cases f <;> simp [node, Node.leaf, Node.children] at h <;> grind

/-- Nothing in the node of a figure is an operation. -/
theorem isOperation_of_inside_node {f : Figure} {pos : Position} {n : Node}
    (h : n.Inside (f.node pos)) : n.isOperation = false := by
  rcases Node.inside_iff.1 h with rfl | ⟨c, hc, h⟩
  · exact f.isOperation_node pos
  · rcases mem_children_node hc with ⟨a, rfl⟩ | ⟨a, b, rfl⟩
    all_goals
      obtain rfl := Node.inside_leaf_iff.1 h
      rfl

end Figure

/-- The figure of a command is centred. -/
theorem Command.Settles.centred {c : Command} {f : Figure} {t t' : PointTable}
    (h : c.Settles t f t') : f.Centred := by
  cases h with
  | perpendicular harms => exact mid_of_perpendicular harms
  | _ => trivial

theorem Operation.centred_of_settle {op : Operation} {s : Step} {t t' : PointTable}
    (h : op.settle.run t = .ok (s, t')) : s.figure.Centred :=
  (settles_of_settle h).2.centred

/-- All steps are centred. -/
theorem Reading.centred_of_steps {r : Reading} {ss : List Step} {t t' : PointTable}
    (h : r.steps t = .ok (ss, t')) : ∀ s ∈ ss, s.figure.Centred := by
  intro s hs
  obtain ⟨op, -, t₁, t₂, hop⟩ := exists_operation_of_mem h hs
  exact Operation.centred_of_settle hop

/-! ## The chain of operations -/

namespace Step

theorem length_chain_le (ss : List Step) : (chain ss).length ≤ 1 := by
  cases ss <;> simp [chain]

theorem isOperation_of_mem_chain {ss : List Step} {n : Node} (h : n ∈ chain ss) :
    n.isOperation := by
  cases ss with
  | nil => cases h
  | cons s ss =>
    obtain rfl := List.mem_singleton.1 h
    rfl

/-- All operations that stand in a chain are links of it. -/
theorem isLink_of_inside_chain {ss : List Step} {m n : Node} (hm : m ∈ chain ss)
    (h : n.Inside m) (hn : n.isOperation) : n.IsLink := by
  induction ss generalizing m with
  | nil => cases hm
  | cons s ss ih =>
    obtain rfl := List.mem_singleton.1 hm
    rcases Node.inside_iff.1 h with rfl | ⟨c, hc, h⟩
    · exact ⟨s.node, chain ss, rfl, s.isOperation_node, length_chain_le ss,
        fun _ => isOperation_of_mem_chain⟩
    · rcases List.mem_cons.1 hc with rfl | hc
      · -- below a construction there are no operations
        have hn' := Figure.isOperation_of_inside_node h
        simp [hn'] at hn
      · exact ih hc h

end Step

namespace Script

/-- The tree of a drawing is a chain of constructions, and the primitives are what these draw, one
after the other. -/
theorem parse_tree {s : Script} {t : PointTable} {d : Drawing} (h : s.parse t = .ok d) :
    (∃ pos o, d.tree = .mk .program pos [o] ∧ o.isOperation) ∧
    (∀ n : Node, n.Inside d.tree → n.isOperation → n.IsLink) ∧
    ∃ pss, d.tree.operations.mapM Node.primitives? = some pss ∧ d.primitives = pss.flatten := by
  obtain ⟨ss, t', hss, rfl⟩ := Reading.draw_eq_ok_iff.1 (parse_eq_ok_iff.1 h)
  have hcentred := Reading.centred_of_steps hss
  obtain ⟨st, ss, rfl⟩ := List.exists_cons_of_ne_nil (Reading.ne_nil_of_steps hss)
  refine ⟨⟨_, _, rfl, rfl⟩, ?_, ?_⟩
  · intro n hn hop
    rcases Node.inside_iff.1 hn with rfl | ⟨c, hc, hn⟩
    · cases hop
    · exact Step.isLink_of_inside_chain hc hn hop
  · rw [Drawing.ofSteps, Step.operations_program, List.flatMap_def]
    refine ⟨_, ?_, rfl⟩
    exact mapM_map_eq_some fun s hs => Figure.primitives?_node (hcentred s hs) s.pos

/-- A script of one segment. -/
def oneSegment : Script :=
  .ofText "провести відрізок через дві точки A (1,2) та B (3,4)" none

theorem tree_of_oneSegment :
    ∃ d, oneSegment.parse (.ofTape ⟨fun _ => 0, 0, 0⟩) = .ok d ∧
      (∃ pos o, d.tree = .mk .program pos [o] ∧ o.isOperation) ∧
      (∀ n : Node, n.Inside d.tree → n.isOperation → n.IsLink) ∧
      ∃ pss, d.tree.operations.mapM Node.primitives? = some pss ∧ d.primitives = pss.flatten := by
  let a : Mention := ⟨"A", ⟨1, 35⟩, some ⟨1, 2⟩⟩
  let b : Mention := ⟨"B", ⟨1, 46⟩, some ⟨3, 4⟩⟩
  have e : Reader.operation ⟨oneSegment.tokens, []⟩ = .ok ⟨⟨1, 1⟩, .segment a b⟩ ⟨[], [a, b]⟩ := by
    rfl
  obtain ⟨d, h⟩ : ∃ d, oneSegment.parse (.ofTape ⟨fun _ => 0, 0, 0⟩) = .ok d := by
    rw [parse, reading, Reading.ofTokens_of_end e]
    exact ⟨_, rfl⟩
  exact ⟨d, h, parse_tree h⟩

end Script

end Planimetry
