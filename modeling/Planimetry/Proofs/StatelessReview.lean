import Mathlib.Data.Finset.Card
import Planimetry.Compilation
import Planimetry.Proofs.Exposure.Remarks

/-!
# Reviews without a state

A review carries a scope from node to node. What it says about a construction can be told without
one, from the construction itself, the points put before it and the lines drawn before it.

## Main definitions

* `Node.constructions`: the constructions that a walk from the top of a tree meets.
* `Node.notes`: what is to be said about a construction behind given points and lines.
* `Node.statelessReview`: what is to be said about a tree.

Main statement: `diagnostics_eq_statelessReview`, for trees of any shape.
-/

namespace Planimetry

/-! ## The reference -/

/-- The point has brought its coordinates along. -/
def Point.Placed (p : Point) : Prop := p.source = .explicit ∨ p.source = .derived

instance (p : Point) : Decidable p.Placed := inferInstanceAs (Decidable (_ ∨ _))

theorem Point.carriesCoords_iff (p : Point) : p.source.carriesCoords = true ↔ p.Placed := by
  unfold Placed
  cases p.source <;> simp [Provenance.carriesCoords]

/-- What is said about a tree at some position. -/
structure Note where
  pos : Position
  text : String
deriving DecidableEq

namespace Node

mutual

/-- The constructions that a walk from the top meets, from left to right. The walk goes through
programs and operations and looks below nothing else. -/
def constructions : Node → List Node
  | mk .program _ cs => constructionsAll cs
  | mk .operation _ cs => constructionsAll cs
  | n => [n]

def constructionsAll : List Node → List Node
  | [] => []
  | c :: cs => c.constructions ++ constructionsAll cs

end

/-- The names of the points that are put by some of the constructions. -/
def putNames (ms : List Node) : Finset String :=
  (ms.filterMap fun m => m.point?.map Point.name).toFinset

/-- The names of the lines that some of the constructions draw. -/
def lineNames (ms : List Node) : Finset String := (ms.filterMap line?).toFinset

variable (P L : Finset String)

/-- A note on a point of a figure unless it is among `P` or placed. -/
def pointNote? (context : String) (p : Point) : Option Note :=
  if p.name ∈ P ∨ p.Placed then none
  else some ⟨p.pos, s!"point \"{p.name}\" is not defined{context}"⟩

/-- The notes on the points that are put below the node, in order. -/
def pointNotes (context : String) (n : Node) : List Note :=
  n.putPoints.filterMap (pointNote? P context)

/-- A note unless both ends are among `P` or one of them is placed. -/
def endNotes (line : String) (a b : Point) (n : Node) : List Note :=
  if (a.name ∈ P ∧ b.name ∈ P) ∨ a.Placed ∨ b.Placed then []
  else [⟨n.pos, s!"points \"{a.name}\" or \"{b.name}\" are not defined for {line}"⟩]

/-- What is to be said about a construction behind the points `P` and the lines `L`. -/
def notes (n : Node) : List Note :=
  match n.kind with
  | .program | .operation => []
  | .putPoint p =>
    if p.name ∈ P then [⟨p.pos, s!"point \"{p.name}\" is already defined"⟩] else []
  | .connectPoints => n.pointNotes P ""
  | .drawSegment a b => n.endNotes P "segment" a b
  | .drawPerpendicular segment a b _ _ =>
    n.endNotes P "perpendicular line" a b ++
      if segment ∈ L then []
      else [⟨n.pos, s!"line \"{segment}\" is not defined for perpendicular line"⟩]
  | .buildTriangle =>
    let points := n.putPoints.length
    (if points = 3 then [] else [⟨n.pos, s!"triangle requires 3 points, found {points}"⟩]) ++
      n.pointNotes P " for triangle"
  | .buildSquare _ =>
    let points := n.putPoints.length
    let segments := n.children.countP isSegment
    let names := (n.putPoints.map Point.name).toFinset.card
    n.pointNotes P " for square" ++
      (if points = 4 then []
        else [⟨n.pos, s!"square requires exactly 4 points, found {points}"⟩]) ++
      (if segments = 4 then []
        else [⟨n.pos, s!"square requires exactly 4 segments, found {segments}"⟩]) ++
      if 4 ≤ names then [] else [⟨n.pos, s!"square requires 4 distinct points, found {names}"⟩]

/-- What is to be said about a tree: about each construction in turn, what the constructions before
it leave to say. -/
def statelessReview (n : Node) : List Note :=
  let ms := n.constructions
  (ms.mapIdx fun k m => m.notes (putNames (ms.take k)) (lineNames (ms.take k))).flatten

/-- What is to be said about the constructions `ms` if those of `earlier` come before them. -/
def notesBehind (earlier ms : List Node) : List Note :=
  (ms.mapIdx fun k m =>
    m.notes (putNames (earlier ++ ms.take k)) (lineNames (earlier ++ ms.take k))).flatten

theorem statelessReview_eq_notesBehind (n : Node) :
    n.statelessReview = notesBehind [] n.constructions := by
  simp only [statelessReview, notesBehind, List.nil_append]

theorem notesBehind_cons (earlier : List Node) (m : Node) (ms : List Node) :
    notesBehind earlier (m :: ms) =
      m.notes (putNames earlier) (lineNames earlier) ++ notesBehind (earlier ++ [m]) ms := by
  simp [notesBehind, List.mapIdx_cons]

/-! ## The walk -/

theorem reviewAll_append (s : Scope) (ns ns' : List Node) :
    reviewAll s (ns ++ ns') =
      ((reviewAll s ns).1 ++ (reviewAll (reviewAll s ns).2 ns').1,
        (reviewAll (reviewAll s ns).2 ns').2) := by
  induction ns generalizing s with
  | nil => rfl
  | cons n ns ih => simp only [List.cons_append, reviewAll, ih, List.append_assoc]

mutual

/-- A review of a tree is one of the constructions that a walk meets. -/
theorem reviewAll_constructions (s : Scope) (n : Node) :
    reviewAll s n.constructions = reviewFrom s n := by
  cases n with
  | mk kind pos children =>
    cases kind with
    | program => exact reviewAll_constructionsAll s children
    | operation => exact reviewAll_constructionsAll s children
    | _ => simp only [constructions, reviewAll, List.append_nil]

theorem reviewAll_constructionsAll (s : Scope) (ns : List Node) :
    reviewAll s (constructionsAll ns) = reviewAll s ns := by
  cases ns with
  | nil => rfl
  | cons n ns =>
    rw [constructionsAll, reviewAll_append, reviewAll_constructions,
      reviewAll_constructionsAll, reviewAll]

end

mutual

theorem isConstruction_of_mem_constructions {n m : Node} (h : m ∈ n.constructions) :
    m.kind ≠ .program ∧ m.kind ≠ .operation := by
  cases n with
  | mk kind pos children =>
    cases kind with
    | program => exact isConstruction_of_mem_constructionsAll h
    | operation => exact isConstruction_of_mem_constructionsAll h
    | _ =>
      obtain rfl := List.mem_singleton.1 h
      exact ⟨nofun, nofun⟩

theorem isConstruction_of_mem_constructionsAll {ns : List Node} {m : Node}
    (h : m ∈ constructionsAll ns) : m.kind ≠ .program ∧ m.kind ≠ .operation := by
  cases ns with
  | nil => cases h
  | cons n ns =>
    rcases List.mem_append.1 h with h | h
    · exact isConstruction_of_mem_constructions h
    · exact isConstruction_of_mem_constructionsAll h

end

end Node

/-! ## One construction -/

/-- What is said in a remark. -/
def Remark.note (r : Remark) : Note := ⟨r.pos, r.cause.message⟩

def Note.fault (path : Option String) (n : Note) : Fault := ⟨.semantic, n.text, n.pos, path⟩

theorem Remark.map_note_unless {ok : Bool} {q : Prop} [Decidable q] (h : ok = true ↔ q)
    (pos : Position) (cause : RemarkCause) :
    (Remark.unless ok pos cause).map note = if q then [] else [⟨pos, cause.message⟩] := by
  unfold Remark.unless
  rw [apply_ite (List.map note)]
  exact if_congr h rfl rfl

namespace Scope

/-- The scope holds what the constructions have put and drawn. -/
structure Records (sc : Scope) (ms : List Node) : Prop where
  points (name : String) : name ∈ sc.points ↔ name ∈ Node.putNames ms
  lines (name : String) : name ∈ sc.lines ↔ name ∈ Node.lineNames ms

variable {sc : Scope} {earlier : List Node} {n : Node}

theorem records_empty : empty.Records [] where
  points _ := by simp [empty, Node.putNames]
  lines _ := by simp [empty, Node.lineNames]

theorem mem_points_checkConstruction_iff {name : String} :
    name ∈ (n.checkConstruction sc).2.points ↔
      name ∈ sc.points ∨ n.point?.map Point.name = some name := by
  unfold Node.checkConstruction Node.point?
  cases n.kind with
  | putPoint p =>
    dsimp only
    split
    · rename_i h
      have hp : p.name ∈ sc.points := by simpa using h
      constructor
      · exact .inl
      · rintro (h | h)
        · exact h
        · cases h
          exact hp
    · simp [addPoint, eq_comm, or_comm]
  | _ => simp [addLine]

/-- The scope behind a construction records that one too. -/
theorem Records.step (h : sc.Records earlier) (n : Node) :
    (n.checkConstruction sc).2.Records (earlier ++ [n]) where
  points name := by
    rw [mem_points_checkConstruction_iff, h.points]
    simp [Node.putNames, List.filterMap_append]
  lines name := by
    rw [lines_checkConstruction, List.mem_append, h.lines]
    simp [Node.lineNames, List.filterMap_append, or_comm]

theorem Records.knows_iff (h : sc.Records earlier) (p : Point) :
    sc.knows p = true ↔ p.name ∈ Node.putNames earlier ∨ p.Placed := by
  rw [knows, Bool.or_eq_true, List.contains_iff_mem, h.points, p.carriesCoords_iff]

theorem Records.knowsEnds_iff (h : sc.Records earlier) (a b : Point) :
    sc.knowsEnds a b = true ↔
      (a.name ∈ Node.putNames earlier ∧ b.name ∈ Node.putNames earlier) ∨ a.Placed ∨ b.Placed := by
  rw [knowsEnds, Bool.or_eq_true, Bool.and_eq_true, Bool.or_eq_true, List.contains_iff_mem,
    List.contains_iff_mem, h.points, h.points, a.carriesCoords_iff, b.carriesCoords_iff]

/-- The remarks on the points of a figure are the notes on them. -/
theorem Records.map_note_checkPoints (h : sc.Records earlier) {figure : Option String}
    {context : String} (hcontext : ∀ name, (RemarkCause.pointUndefined name figure).message =
      "point \"" ++ name ++ "\" is not defined" ++ context) (n : Node) :
    (sc.checkPoints figure n.putPoints).map Remark.note =
      n.pointNotes (Node.putNames earlier) context := by
  unfold checkPoints Node.pointNotes
  induction n.putPoints with
  | nil => rfl
  | cons p ps ih =>
    by_cases hp : sc.knows p = true
    · have hnote : Node.pointNote? (Node.putNames earlier) context p = none :=
        if_pos ((h.knows_iff p).1 hp)
      rw [List.filter_cons_of_neg (by simpa using hp), ih, List.filterMap_cons_none hnote]
    · have hnote : Node.pointNote? (Node.putNames earlier) context p =
          some (Remark.note ⟨p.pos, .pointUndefined p.name figure⟩) := by
        rw [Remark.note, hcontext]
        exact if_neg (mt (h.knows_iff p).2 hp)
      rw [List.filter_cons_of_pos (by simpa using hp), List.map_cons, List.map_cons, ih,
        List.filterMap_cons_some hnote]

theorem Records.map_note_checkEnds (h : sc.Records earlier) (n : Node) (line : String)
    (a b : Point) :
    (sc.checkEnds n.pos line a b).map Remark.note =
      n.endNotes (Node.putNames earlier) line a b := by
  unfold checkEnds Node.endNotes
  rw [apply_ite (List.map Remark.note)]
  exact if_congr (h.knowsEnds_iff a b) rfl rfl

end Scope

theorem nodup_eraseDups {α : Type} [DecidableEq α] (as : List α) : as.eraseDups.Nodup := by
  induction h : as.length using Nat.strong_induction_on generalizing as with
  | _ n ih =>
    cases as with
    | nil => exact List.nodup_nil
    | cons a as =>
      have hlt : (as.filter fun b => !b == a).length < n := by
        rw [← h]
        exact Nat.lt_succ_of_le (List.length_filter_le _ _)
      rw [List.eraseDups_cons, List.nodup_cons, List.mem_eraseDups]
      exact ⟨by simp, ih _ hlt _ rfl⟩

theorem length_eraseDups_eq_card {α : Type} [DecidableEq α] (as : List α) :
    as.eraseDups.length = as.toFinset.card := by
  rw [← List.toFinset_card_of_nodup (nodup_eraseDups as)]
  congr 1
  ext a
  simp

/-- What a review remarks on a construction is what there is to say about it. -/
theorem Scope.Records.map_note_checkConstruction {sc : Scope} {earlier : List Node}
    (h : sc.Records earlier) (n : Node) :
    (n.checkConstruction sc).1.map Remark.note =
      n.notes (Node.putNames earlier) (Node.lineNames earlier) := by
  have hpoints {figure context : String} (hcontext : " for " ++ figure = context) :
      (sc.checkPoints (some figure) n.putPoints).map Remark.note =
        n.pointNotes (Node.putNames earlier) context := by
    refine h.map_note_checkPoints (fun name => ?_) n
    have hend : "\" is not defined for " ++ figure = "\" is not defined" ++ context := by
      rw [← hcontext, ← String.append_assoc]
      rfl
    rw [RemarkCause.message_pointUndefined name hend, ← String.append_assoc]
  unfold Node.checkConstruction Node.notes
  cases n.kind with
  | program => rfl
  | operation => rfl
  | putPoint p =>
    have hp : sc.points.contains p.name = true ↔ p.name ∈ Node.putNames earlier := by
      rw [List.contains_iff_mem, h.points]
    dsimp only
    rw [if_congr hp rfl rfl]
    split <;> rfl
  | connectPoints => exact h.map_note_checkPoints (fun _ => (String.append_empty).symm) n
  | drawSegment a b => exact h.map_note_checkEnds n "segment" a b
  | drawPerpendicular segment a b first second =>
    have hline : sc.lines.contains segment = true ↔ segment ∈ Node.lineNames earlier := by
      rw [List.contains_iff_mem, h.lines]
    simp only [List.map_append, h.map_note_checkEnds, Remark.map_note_unless hline]
    rfl
  | buildTriangle =>
    simp only [List.map_append, hpoints rfl, Remark.map_note_unless decide_eq_true_iff]
    rfl
  | buildSquare side =>
    simp only [List.map_append, hpoints rfl, Remark.map_note_unless decide_eq_true_iff,
      length_eraseDups_eq_card, List.countP_eq_length_filter]
    rfl

/-! ## All constructions -/

namespace Node

/-- What a review remarks on constructions is what there is to say about them, if its scope records
the earlier ones. -/
theorem map_note_reviewAll {sc : Scope} {earlier ms : List Node} (h : sc.Records earlier)
    (hms : ∀ m ∈ ms, m.kind ≠ .program ∧ m.kind ≠ .operation) :
    (reviewAll sc ms).1.map Remark.note = notesBehind earlier ms := by
  induction ms generalizing sc earlier with
  | nil => rfl
  | cons m ms ih =>
    obtain ⟨⟨hprogram, hoperation⟩, hms⟩ := List.forall_mem_cons.1 hms
    simp only [reviewAll, reviewFrom_of_construction sc hprogram hoperation, List.map_append]
    rw [h.map_note_checkConstruction, ih (h.step m) hms, notesBehind_cons]

theorem map_note_review (n : Node) : n.review.map Remark.note = n.statelessReview := by
  rw [review, ← reviewAll_constructions, statelessReview_eq_notesBehind]
  exact map_note_reviewAll Scope.records_empty fun m => isConstruction_of_mem_constructions

end Node

/-- The diagnostics of a tree are told by its constructions, each of them by itself, the points put
before it and the lines drawn before it. -/
theorem Script.diagnostics_eq_statelessReview (s : Script) (n : Node) :
    s.diagnostics n = n.statelessReview.map (Note.fault s.path) := by
  rw [← n.map_note_review, List.map_map]
  rfl

end Planimetry
