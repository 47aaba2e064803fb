import Planimetry.Proofs.Exposure.Scopes
import Planimetry.Proofs.TreePrimitives

/-!
# Remarks on constructions

What a review remarks on one construction, if its scope is within the table, and how the remarks
are worded.

## Main definitions

* `Figure.corners`: the points that stand below the node of a figure.
* `NodeKind.points`: the points that a node names itself.

Main statements: `Within.mem_corner`, `Within.mem_segment`, `Within.mem_perpendicular` and
`mem_checkConstruction_line_iff`.
-/

namespace Planimetry

open Provenance (mentioned lookedUp)

/-! ## Messages -/

theorem head?_append_of_head? {s : String} {c : Char} (h : s.toList.head? = some c) (s' : String) :
    (s ++ s').toList.head? = some c := by
  rw [String.toList_append, List.head?_append, h]
  rfl

namespace RemarkCause

theorem message_pointUndefined (name : String) {figure end' : String}
    (h : "\" is not defined for " ++ figure = end') :
    (pointUndefined name (some figure)).message = "point \"" ++ name ++ end' := by
  change "point \"" ++ name ++ "\" is not defined for " ++ figure = _
  rw [String.append_assoc, h]

theorem message_endsUndefined (a b : String) {line end' : String}
    (h : "\" are not defined for " ++ line = end') :
    (endsUndefined a b line).message = "points \"" ++ a ++ "\" or \"" ++ b ++ end' := by
  change "points \"" ++ a ++ "\" or \"" ++ b ++ "\" are not defined for " ++ line = _
  rw [String.append_assoc, h]

theorem message_line (line : String) :
    (lineUndefined line).message =
      "line \"" ++ line ++ "\" is not defined for perpendicular line" :=
  rfl

/-- The first letter of the message. -/
def initial : RemarkCause → Char
  | lineUndefined _ => 'l'
  | trianglePoints _ => 't'
  | squarePoints _ | squareSegments _ | squareNames _ => 's'
  | pointRedefined _ | pointUndefined .. | endsUndefined .. => 'p'

theorem head?_message (c : RemarkCause) : c.message.toList.head? = some c.initial := by
  have grow {s s' : String} {c : Char} (h : s.toList.head? = some c) :
      (s ++ s').toList.head? = some c :=
    head?_append_of_head? h s'
  cases c with
  | pointUndefined name figure =>
    cases figure with
    | none => exact grow (grow rfl)
    | some figure => exact grow (grow (grow rfl))
  | pointRedefined name => exact grow (grow rfl)
  | lineUndefined line => exact grow (grow rfl)
  | endsUndefined a b line => exact grow (grow (grow (grow (grow rfl))))
  | _ => exact grow rfl

/-- The message about an undefined line tells that it is one, and which line. -/
theorem eq_of_message_eq_line {c : RemarkCause} {line : String}
    (h : c.message = (lineUndefined line).message) : c = lineUndefined line := by
  have hinitial : some c.initial = some 'l' := by
    rw [← head?_message, h, head?_message]
    rfl
  cases c with
  | lineUndefined line' =>
    rw [message_line, message_line, String.append_left_inj, String.append_right_inj] at h
    rw [h]
  | _ => cases hinitial

end RemarkCause

/-! ## Remarks on a construction -/

namespace Figure

variable {f : Figure} {t : PointTable} {p : Point}

/-- What a remark on a point of the figure calls the figure. -/
def title? : Figure → Option String
  | triangle .. => some "triangle"
  | square .. => some "square"
  | _ => none

/-- The points that stand below the node of the figure. -/
def corners : Figure → List Point
  | network ps => ps
  | triangle a b c => [a, b, c]
  | square _ a b c d => [a, b, c, d]
  | _ => []

theorem putPoints_node (f : Figure) (pos : Position) : (f.node pos).putPoints = f.corners := by
  cases f with
  | network ps =>
    have hpoints : (ps.map Point.node).filterMap Node.point? = ps := by
      simp [List.filterMap_map, Function.comp_def, Point.node, Node.point?, Node.leaf, Node.kind]
    have hpairs : ((pairs ps).map fun ab => ab.1.nodeTo ab.2).filterMap Node.point? = [] := by
      simp [List.filterMap_map, Function.comp_def, Point.nodeTo, Node.point?, Node.leaf, Node.kind]
    rw [Node.putPoints, node, Node.children, List.filterMap_append, hpoints, hpairs,
      List.append_nil, corners]
  | _ => rfl

theorem title?_of_kind_triangle {pos : Position} (h : (f.node pos).kind = .buildTriangle) :
    f.title? = some "triangle" := by
  cases f <;> cases h
  rfl

theorem title?_of_kind_square {pos : Position} {side : String}
    (h : (f.node pos).kind = .buildSquare side) : f.title? = some "square" := by
  cases f <;> cases h
  rfl

theorem Sourced.unheld (h : f.Sourced t) (hp : p ∈ f.corners) : p.Unheld t := by
  cases h with
  | network hps => exact (hps p hp).unheld
  | triangle ha hb hc =>
    simp only [corners, List.mem_cons, List.not_mem_nil, or_false] at hp
    rcases hp with rfl | rfl | rfl
    exacts [ha.unheld, hb.unheld, hc.unheld]
  | square ha hb hc hd =>
    simp only [corners, List.mem_cons, List.not_mem_nil, or_false] at hp
    rcases hp with rfl | rfl | rfl | rfl
    · exact ha.unheld
    · exact hb.unheld
    · exact Point.unheld_of_given (by rw [hc]; rfl)
    · exact Point.unheld_of_given (by rw [hd]; rfl)
  | _ => cases hp

end Figure

namespace Scope

variable {sc : Scope} {f : Figure} {pos : Position} {t : PointTable} {p a b : Point}

theorem mem_checkPoints {ps : List Point} (figure : Option String) (hp : p ∈ ps)
    (h : sc.knows p = false) : ⟨p.pos, .pointUndefined p.name figure⟩ ∈ sc.checkPoints figure ps :=
  List.mem_map.2 ⟨p, List.mem_filter.2 ⟨hp, by simp [h]⟩, rfl⟩

theorem mem_checkEnds (pos : Position) (line : String) (h : sc.knowsEnds a b = false) :
    ⟨pos, .endsUndefined a.name b.name line⟩ ∈ sc.checkEnds pos line a b := by
  simp [checkEnds, h]

theorem checkPoints_subset (sc : Scope) (f : Figure) (pos : Position) :
    sc.checkPoints f.title? f.corners ⊆ ((f.node pos).checkConstruction sc).1 := by
  have hcorners := f.putPoints_node pos
  intro r hr
  cases f with
  | network ps =>
    rw [← hcorners] at hr
    exact hr
  | triangle a b c => exact List.mem_append_right _ hr
  | square s a b c d =>
    exact List.mem_append_left _ (List.mem_append_left _ (List.mem_append_left _ hr))
  | _ => cases hr

/-- The points of a larger figure that are invented are remarked on. -/
theorem Within.mem_corner (h : sc.Within t) (hf : f.Sourced t) (hp : p ∈ f.corners)
    (hinv : p.source.isInvented) :
    ⟨p.pos, .pointUndefined p.name f.title?⟩ ∈ ((f.node pos).checkConstruction sc).1 :=
  sc.checkPoints_subset f pos (mem_checkPoints _ hp (h.not_knows (hf.unheld hp) hinv))

/-- The line of a perpendicular is remarked on exactly if the scope does not have it. -/
theorem mem_checkConstruction_line_iff {n : Node} {line : String} :
    ⟨pos, .lineUndefined line⟩ ∈ (n.checkConstruction sc).1 ↔
      (∃ a b first second, n.kind = .drawPerpendicular line a b first second) ∧ pos = n.pos ∧
        line ∉ sc.lines := by
  unfold Node.checkConstruction
  cases n.kind with
  | drawPerpendicular segment a b first second =>
    have hmem : (⟨pos, .lineUndefined line⟩ : Remark) ∈
        sc.checkEnds n.pos "perpendicular line" a b ++
          Remark.unless (sc.lines.contains segment) n.pos (.lineUndefined segment) ↔
        segment ∉ sc.lines ∧ pos = n.pos ∧ line = segment := by
      simp [checkEnds, Remark.unless]
    rw [hmem]
    constructor
    · rintro ⟨hline, rfl, rfl⟩
      exact ⟨⟨a, b, first, second, rfl⟩, rfl, hline⟩
    · rintro ⟨⟨_, _, _, _, ⟨⟩⟩, rfl, hline⟩
      exact ⟨hline, rfl, rfl⟩
  | putPoint p =>
    dsimp only
    split <;> simp
  | _ => simp [checkPoints, checkEnds, Remark.unless]

theorem Within.mem_segment (h : sc.Within t) (ha : a.From t mentioned) (hb : b.From t mentioned)
    (hgen : a.source = .generated ∨ b.source = .generated) (ha' : a.source ≠ .explicit)
    (hb' : b.source ≠ .explicit) :
    ⟨pos, .endsUndefined a.name b.name "segment"⟩ ∈
      (((Figure.segment a b).node pos).checkConstruction sc).1 := by
  refine mem_checkEnds pos "segment" (h.not_knowsEnds ha.unheld hb.unheld ?_
    (ha.not_carriesCoords ha') (hb.not_carriesCoords hb'))
  exact hgen.imp (fun e => by rw [e]; rfl) (fun e => by rw [e]; rfl)

theorem Within.mem_perpendicular {s : Side} {arms : Perpendicular} (h : sc.Within t)
    (ha : a.From t lookedUp) (hb : b.From t lookedUp)
    (hdef : a.source = .defaulted ∨ b.source = .defaulted) :
    ⟨pos, .endsUndefined a.name b.name "perpendicular line"⟩ ∈
      (((Figure.perpendicular s a b arms).node pos).checkConstruction sc).1 := by
  refine List.mem_append_left _ (mem_checkEnds pos "perpendicular line"
    (h.not_knowsEnds ha.unheld hb.unheld ?_ ha.not_carriesCoords_of_lookedUp
      hb.not_carriesCoords_of_lookedUp))
  exact hdef.imp (fun e => by rw [e]; rfl) (fun e => by rw [e]; rfl)

end Scope

/-! ## Points inside a tree -/

/-- The points that a node names itself. -/
def NodeKind.points : NodeKind → List Point
  | putPoint p => [p]
  | drawSegment a b => [a, b]
  | drawPerpendicular _ a b _ _ => [a, b]
  | program | operation | connectPoints | buildTriangle | buildSquare _ => []

theorem mem_of_mem_pairs {α : Type} {as : List α} {ab : α × α} (h : ab ∈ pairs as) :
    ab.1 ∈ as ∧ ab.2 ∈ as := by
  induction as with
  | nil => cases h
  | cons a as ih =>
    rcases List.mem_append.1 h with h | h
    · obtain ⟨b, hb, rfl⟩ := List.mem_map.1 h
      exact ⟨List.mem_cons_self, List.mem_cons_of_mem a hb⟩
    · exact ⟨List.mem_cons_of_mem a (ih h).1, List.mem_cons_of_mem a (ih h).2⟩

namespace Figure

variable {f : Figure} {pos : Position}

/-- The nodes below that of a figure are its corners and lines between them. -/
theorem corners_of_mem_children {c : Node} (h : c ∈ (f.node pos).children) :
    (∃ a ∈ f.corners, c = a.node) ∨ ∃ a ∈ f.corners, ∃ b ∈ f.corners, c = a.nodeTo b := by
  cases f with
  | network ps =>
    rcases List.mem_append.1 h with h | h
    · obtain ⟨a, ha, rfl⟩ := List.mem_map.1 h
      exact .inl ⟨a, ha, rfl⟩
    · obtain ⟨ab, hab, rfl⟩ := List.mem_map.1 h
      obtain ⟨ha, hb⟩ := mem_of_mem_pairs hab
      exact .inr ⟨ab.1, ha, ab.2, hb, rfl⟩
  | triangle a b c =>
    simp only [node, Node.children, List.mem_cons, List.not_mem_nil, or_false] at h
    grind [corners]
  | square s a b c d =>
    simp only [node, Node.children, List.mem_cons, List.not_mem_nil, or_false] at h
    grind [corners]
  | point p => cases h
  | segment a b => cases h
  | perpendicular s a b arms => cases h

/-- The points below the node of a figure are its corners. -/
theorem mem_corners_of_inside {n : Node} {p : Point} (h : n.Inside (f.node pos))
    (hp : p ∈ n.kind.points) : n = f.node pos ∨ p ∈ f.corners := by
  rcases Node.inside_iff.1 h with rfl | ⟨c, hc, h⟩
  · exact .inl rfl
  · right
    rcases corners_of_mem_children hc with ⟨a, ha, rfl⟩ | ⟨a, ha, b, hb, rfl⟩
    · obtain rfl := Node.inside_leaf_iff.1 h
      obtain rfl := List.mem_singleton.1 hp
      exact ha
    · obtain rfl := Node.inside_leaf_iff.1 h
      rcases List.mem_pair.1 hp with rfl | rfl
      exacts [ha, hb]

end Figure

/-- A node with points of its own stands in the node of a step. -/
theorem Step.inside_of_inside_chain {ss : List Step} {m n : Node} {p : Point} (hm : m ∈ chain ss)
    (h : n.Inside m) (hp : p ∈ n.kind.points) : ∃ s ∈ ss, n.Inside s.node := by
  induction ss generalizing m with
  | nil => cases hm
  | cons s ss ih =>
    obtain rfl := List.mem_singleton.1 hm
    rcases Node.inside_iff.1 h with rfl | ⟨c, hc, h⟩
    · cases hp
    · rcases List.mem_cons.1 hc with rfl | hc
      · exact ⟨s, List.mem_cons_self, h⟩
      · obtain ⟨s', hs', h⟩ := ih hc h
        exact ⟨s', List.mem_cons_of_mem s hs', h⟩

theorem Step.inside_of_inside_program {ss : List Step} {n : Node} {p : Point}
    (h : n.Inside (program ss)) (hp : p ∈ n.kind.points) : ∃ s ∈ ss, n.Inside s.node := by
  rcases Node.inside_iff.1 h with rfl | ⟨c, hc, h⟩
  · cases hp
  · exact inside_of_inside_chain hc h hp

end Planimetry
