import Planimetry.Proofs.Agreement
import Planimetry.Proofs.Exposure.Scopes
import Planimetry.Proofs.Places

/-!
# What a text passes on to the steps of its program

No name in a text is empty, so the two names that make up the name of a line can be told apart; and
no two operations of a text stand at the same position.

## Main definitions

* `Node.DrawsLine`: a construction draws the line between two one-letter points.

Main statements: `line?_eq_some_iff` and `Script.nodup_positions_of_steps`.
-/

namespace Planimetry

/-! ## Names of lines -/

/-- The node draws the segment from the point `x` to the point `y`, or a perpendicular to it. -/
def Node.DrawsLine (n : Node) (x y : Char) : Prop :=
  match n.kind with
  | .drawSegment a b => a.name = x.toString ∧ b.name = y.toString
  | .drawPerpendicular segment .. => segment = String.ofList [x, y]
  | _ => False

/-- The ends of the segment have names. -/
def Node.Named (n : Node) : Prop :=
  ∀ a b, n.kind = .drawSegment a b → a.name ≠ "" ∧ b.name ≠ ""

/-- Two names that are not empty make up two letters only if each of them has one. -/
theorem append_eq_pair_iff {a b : String} {x y : Char} (ha : a ≠ "") (hb : b ≠ "") :
    a ++ b = String.ofList [x, y] ↔ a = x.toString ∧ b = y.toString := by
  have ha' : a.toList ≠ [] := by simpa using ha
  have hb' : b.toList ≠ [] := by simpa using hb
  simp only [← String.toList_inj, String.toList_append, String.toList_ofList, Char.toString,
    String.toList_singleton]
  constructor
  · intro h
    cases hl : a.toList with
    | nil => exact absurd hl ha'
    | cons c cs =>
      cases cs with
      | nil => simpa [hl] using h
      | cons d ds =>
        have hlen := congrArg List.length h
        have hpos := List.length_pos_iff.2 hb'
        simp only [hl, List.length_append, List.length_cons, List.length_nil] at hlen
        omega
  · rintro ⟨h, h'⟩
    rw [h, h']
    rfl

/-- A construction adds the line with two letters exactly if it draws it. -/
theorem Node.line?_eq_some_iff {n : Node} (h : n.Named) {x y : Char} :
    n.line? = some (String.ofList [x, y]) ↔ n.DrawsLine x y := by
  unfold line? DrawsLine
  cases hk : n.kind with
  | drawSegment a b =>
    obtain ⟨ha, hb⟩ := h a b hk
    simp only [Option.some.injEq]
    exact append_eq_pair_iff ha hb
  | drawPerpendicular segment a b first second => simp
  | _ => simp

/-! ## Steps and operations -/

/-- The ends of a segment have the names by which they were mentioned. -/
theorem Command.Settles.names_of_segment {c : Command} {t t' : PointTable} {a b : Point}
    (h : c.Settles t (.segment a b) t') :
    ∃ l m, c = .segment l m ∧ a.name = l.name ∧ b.name = m.name := by
  cases h with
  | segment ha hb =>
    exact ⟨_, _, rfl, (Mention.from_of_settle ha).1, (Mention.from_of_settle hb).1⟩

namespace Reading

variable {r : Reading} {ss : List Step} {t t' : PointTable}

theorem positions_of_steps (h : r.steps t = .ok (ss, t')) :
    ss.map Step.pos = r.operations.map Operation.pos := by
  have hops := forall₂_of_steps h
  clear h
  generalize r.operations = ops at hops
  induction hops with
  | nil => rfl
  | cons hs _ ih =>
    obtain ⟨_, _, hs⟩ := hs
    rw [List.map_cons, List.map_cons, ih, (Operation.settles_of_settle hs).1]

end Reading

/-! ## Steps of a text -/

/-- A token of the text, on both sides. -/
def Token.Itself (text : String) (t t' : Token) : Prop := t = t' ∧ t ∈ ofText text

theorem Reading.agree_self (text : String) :
    (ofTokens (Token.ofText text)).Agree (Token.Itself text) (ofTokens (Token.ofText text)) := by
  refine agree_ofTokens ?_ (List.forall₂_same.2 fun t ht => ⟨rfl, ht⟩)
  rintro t _ ⟨rfl, -⟩
  exact .refl t

/-- A mentioned point has a name. -/
theorem Mention.name_ne {text : String} {m : Mention} (h : m.Agree (Token.Itself text) m) :
    m.name ≠ "" := by
  obtain ⟨t, t', ⟨-, ht⟩, -, -, hname | ⟨c, hname⟩⟩ := h.word
  · rw [hname]
    exact Token.lexeme_ne_of_mem_ofText ht
  · simp [hname]

namespace Script

variable {text : String} {path : Option String} {ss : List Step} {t t' : PointTable} {s : Step}

theorem named_of_steps (h : (ofText text path).reading.steps t = .ok (ss, t')) (hs : s ∈ ss) :
    s.node.Named := by
  intro a b hk
  have hfigure : s.figure = .segment a b := Figure.eq_segment_of_kind hk
  obtain ⟨op, hop, t₁, t₂, hrun⟩ := Reading.exists_operation_of_mem h hs
  obtain ⟨-, hsettles⟩ := Operation.settles_of_settle hrun
  rw [hfigure] at hsettles
  obtain ⟨l, m, hcommand, ha, hb⟩ := hsettles.names_of_segment
  have hself := (List.forall₂_same.1 (Reading.agree_self text).operations op hop).command
  rw [hcommand] at hself
  cases hself with
  | segment hl hm =>
    rw [ha, hb]
    exact ⟨Mention.name_ne hl, Mention.name_ne hm⟩

/-- No two steps of a text stand at the same position. -/
theorem nodup_positions_of_steps (h : (ofText text path).reading.steps t = .ok (ss, t')) :
    (ss.map Step.pos).Nodup := by
  have htokens : ((Token.ofText text).map Token.pos).Nodup :=
    (nodup_places_ofText text path).sublist (List.sublist_append_left _ _)
  rw [Reading.positions_of_steps h]
  exact htokens.sublist (Reading.sublist_positions _)

end Script

end Planimetry
