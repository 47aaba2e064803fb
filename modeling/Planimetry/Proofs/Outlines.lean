import Planimetry.Proofs.Exposure.Remarks
import Planimetry.Proofs.Outlines.Layout
import Planimetry.Proofs.Rebuilding

/-!
# Outlines tell trees apart

The outline of a tree can be read back: the name of a node tells how many labels it has, and its
children go on for as long as the lines are indented below it. What cannot be read back is what has
no place in an outline, that is positions, the sources of coordinates, and the texts of lines.

## Main definitions

* `Node.bare`: a tree without what its outline does not show.
* `Outside`: the lines do not go on at an indentation.

Main statements: `lines_inj` and `outline_tells`.
-/

namespace Planimetry

/-! ## What is not shown -/

def Point.bare (p : Point) : Point := ⟨p.name, p.coord, .explicit, Position.start⟩

def NodeKind.bare : NodeKind → NodeKind
  | putPoint p => putPoint p.bare
  | drawSegment a b => drawSegment a.bare b.bare
  | drawPerpendicular _ a b first second => drawPerpendicular "" a.bare b.bare first second
  | buildSquare _ => buildSquare ""
  | program => program
  | operation => operation
  | connectPoints => connectPoints
  | buildTriangle => buildTriangle

namespace Node

mutual

/-- A tree without its positions, the sources of its coordinates, and the names of the lines that
its squares and perpendiculars stand on. -/
def bare : Node → Node
  | mk kind _ cs => mk kind.bare Position.start (bareAll cs)

def bareAll : List Node → List Node
  | [] => []
  | c :: cs => c.bare :: bareAll cs

end

end Node

/-! ## Labels -/

namespace Scan

def coord : Scan Coord := do
  skip "("
  let x ← number ','
  let y ← number ')'
  return ⟨x, y⟩

theorem recovers_coord (c : Coord) : Recovers coord (toString c).toList c := by
  have hcoord : Recovers coord
      ("(".toList ++ (((toString c.x.toInt).toList ++ [',']) ++
        (((toString c.y.toInt).toList ++ [')']) ++ []))) c :=
    (recovers_skip _).bind <| (recovers_number_comma c.x).bind <|
      (recovers_number_paren c.y).bind <| recovers_pure _
  have htext : toString c =
      "(" ++ toString c.x.toInt ++ "," ++ toString c.y.toInt ++ ")" := rfl
  simpa [htext] using hcoord

end Scan

namespace Coord

theorem toString_inj {c c' : Coord} : toString c = toString c' ↔ c = c' := by
  constructor
  · intro h
    have hread := (Scan.recovers_coord c).whole
    rw [h, (Scan.recovers_coord c').whole] at hread
    exact (Option.some.inj hread).symm
  · rintro rfl
    rfl

/-- A coordinate is written with digits, a bracket on either side, a comma and signs. -/
theorem mem_toList_toString {c : Coord} {x : Char} (h : x ∈ (toString c).toList) :
    x.isDigit ∨ x ∈ ['(', ',', ')', '-'] := by
  have htext : toString c =
      "(" ++ toString c.x.toInt ++ "," ++ toString c.y.toInt ++ ")" := rfl
  rw [htext] at h
  simp only [String.toList_append, List.mem_append] at h
  rcases h with (((h | h) | h) | h) | h
  · simp_all
  · exact (Text.mem_toList_toString h).symm.imp_right fun h => by simp [h]
  · simp_all
  · exact (Text.mem_toList_toString h).symm.imp_right fun h => by simp [h]
  · simp_all

end Coord

/-- A list is cut at the last place of an element in one way only. -/
theorem append_cons_inj_of_last {α : Type} {x : α} {l l' r r' : List α}
    (h : l ++ x :: r = l' ++ x :: r') (hr : x ∉ r) (hr' : x ∉ r') : l = l' ∧ r = r' := by
  rcases List.append_eq_append_iff.1 h with ⟨_ | ⟨y, ys⟩, rfl, hys⟩ | ⟨_ | ⟨y, ys⟩, rfl, hys⟩
  · simpa using hys
  · obtain ⟨-, rfl⟩ := List.cons.inj hys
    simp at hr
  · simpa [eq_comm] using hys
  · obtain ⟨-, rfl⟩ := List.cons.inj hys
    simp at hr'

/-- The last space of a label stands before the coordinate. -/
theorem Point.label_inj {p q : Point} :
    p.label = q.label ↔ p.name = q.name ∧ p.coord = q.coord := by
  have hlabel (p : Point) : p.label.toList = p.name.toList ++ ' ' :: (toString p.coord).toList := by
    simp [label, Text.toString_self]
  have hspace (c : Coord) : ' ' ∉ (toString c).toList := fun h =>
    (Coord.mem_toList_toString h).elim (by decide) (by decide)
  constructor
  · intro h
    have hlists := congrArg String.toList h
    rw [hlabel, hlabel] at hlists
    obtain ⟨hname, hcoord⟩ := append_cons_inj_of_last hlists (hspace _) (hspace _)
    exact ⟨String.toList_inj.1 hname, Coord.toString_inj.1 (String.toList_inj.1 hcoord)⟩
  · rintro ⟨hname, hcoord⟩
    rw [label, hname, hcoord, label]

namespace NodeKind

variable {k k' : NodeKind}

@[simp] theorem name_bare (k : NodeKind) : k.bare.name = k.name := by
  cases k <;> rfl

@[simp] theorem labels_bare (k : NodeKind) : k.bare.labels = k.labels := by
  cases k <;> rfl

/-- The name tells how many labels there are. -/
theorem length_labels (k : NodeKind) :
    k.labels.length =
      if k.name = "PutPoint" ∨ k.name = "DrawSegment" then 2
      else if k.name = "DrawPerpendicular" then 4
      else 0 := by
  cases k <;> simp [labels, name]

/-- The name and the labels tell everything that is shown. -/
theorem bare_eq_of_labels (hname : k.name = k'.name) (hlabels : k.labels = k'.labels) :
    k.bare = k'.bare := by
  cases k <;> cases k' <;> simp [name] at hname
  case putPoint.putPoint p q =>
    simp only [labels, List.cons.injEq, Coord.toString_inj, and_true] at hlabels
    simp [bare, Point.bare, hlabels]
  case drawSegment.drawSegment =>
    simp only [labels, List.cons.injEq, Point.label_inj, and_true] at hlabels
    simp [bare, Point.bare, hlabels]
  case drawPerpendicular.drawPerpendicular =>
    simp only [labels, List.cons.injEq, Point.label_inj, and_true, String.append_right_inj,
      Coord.toString_inj] at hlabels
    simp [bare, Point.bare, hlabels]
  all_goals rfl

end NodeKind

/-! ## Reading lines back -/

namespace Node

variable {indent t t' : String} {last last' : Bool} {rest rest' : List String}

theorem branch_inj :
    branch indent last t = branch indent last' t' ↔ last = last' ∧ t = t' := by
  simp only [branch, String.append_assoc, String.append_right_inj]
  cases last <;> cases last' <;> simp [← String.toList_inj]

/-- The lines do not go on at the indentation. -/
def Outside (indent : String) (lines : List String) : Prop :=
  ∀ l ∈ lines.head?, ¬ indent.toList <+: l.toList

theorem Outside.below (h : Outside indent rest) : Outside (indentBelow indent last) rest := by
  intro l hl hprefix
  have hindent : indent.toList <+: (indentBelow indent last).toList := by
    rw [indentBelow, String.toList_append]
    exact List.prefix_append _ _
  exact h l hl (hindent.trans hprefix)

/-- The line of a sibling does not belong below an entry. -/
theorem outside_branch : Outside (indentBelow indent last) (branch indent last' t :: rest) := by
  intro l hl
  cases hl
  rw [indentBelow, branch, String.append_assoc, String.toList_append, String.toList_append,
    List.prefix_append_right_inj]
  cases last <;> cases last' <;> simp

theorem outside_childLines (h : Outside indent rest) (cs : List Node) :
    Outside (indentBelow indent last) (childLines indent cs ++ rest) := by
  cases cs with
  | nil => exact h.below
  | cons c cs =>
    obtain ⟨kind, pos, cs'⟩ := c
    exact outside_branch

theorem length_labelLines (indent : String) (closed : Bool) (ls : List String) :
    (labelLines indent closed ls).length = ls.length := by
  induction ls with
  | nil => rfl
  | cons l ls ih => rw [labelLines, List.length_cons, ih, List.length_cons]

theorem labelLines_inj {closed closed' : Bool} {ls ls' : List String}
    (h : labelLines indent closed ls = labelLines indent closed' ls') : ls = ls' := by
  induction ls generalizing ls' with
  | nil =>
    cases ls' with
    | nil => rfl
    | cons l' ls' => cases h
  | cons l ls ih =>
    cases ls' with
    | nil => cases h
    | cons l' ls' =>
      obtain ⟨hl, hls⟩ := List.cons.inj h
      rw [(branch_inj.1 hl).2, ih hls]

/-- The lines of a node are indented as told. -/
theorem not_outside_lines (n : Node) : ¬ Outside indent (lines indent last n ++ rest) := by
  obtain ⟨kind, pos, cs⟩ := n
  intro h
  refine h _ rfl ?_
  rw [branch, String.append_assoc, String.toList_append]
  exact List.prefix_append _ _

mutual

/-- A node is told by its lines, whatever comes behind them but not below it. -/
theorem lines_inj : ∀ (n m : Node) {indent : String} {last last' : Bool} {rest rest' : List String},
    Outside (indentBelow indent last) rest → Outside (indentBelow indent last) rest' →
      lines indent last n ++ rest = lines indent last' m ++ rest' →
        last = last' ∧ n.bare = m.bare ∧ rest = rest'
  | mk kind _ cs, mk kind' _ cs' => by
    intro h h' heq
    rw [lines, lines, List.cons_append, List.cons_append] at heq
    obtain ⟨hbranch, hbelow⟩ := List.cons.inj heq
    obtain ⟨rfl, hname⟩ := branch_inj.1 hbranch
    -- the name tells how many of the lines are labels
    have hlength : kind.labels.length = kind'.labels.length := by
      rw [kind.length_labels, hname, ← kind'.length_labels]
    rw [List.append_assoc, List.append_assoc] at hbelow
    obtain ⟨hlabels, hchildren⟩ :=
      List.append_inj hbelow (by rw [length_labelLines, length_labelLines, hlength])
    obtain ⟨hcs, hrest⟩ := childLines_inj cs cs' h h' hchildren
    rw [bare, bare, hcs, NodeKind.bare_eq_of_labels hname (labelLines_inj hlabels)]
    exact ⟨rfl, rfl, hrest⟩

theorem childLines_inj : ∀ (cs cs' : List Node) {indent : String} {rest rest' : List String},
    Outside indent rest → Outside indent rest' →
      childLines indent cs ++ rest = childLines indent cs' ++ rest' →
        bareAll cs = bareAll cs' ∧ rest = rest'
  | [], [] => fun _ _ heq => ⟨rfl, heq⟩
  | [], c :: cs => by
    intro h h' heq
    rw [childLines, List.nil_append, childLines, List.append_assoc] at heq
    exact absurd (heq ▸ h) (not_outside_lines c)
  | c :: cs, [] => by
    intro h h' heq
    rw [childLines, List.nil_append, childLines, List.append_assoc] at heq
    exact absurd (heq ▸ h') (not_outside_lines c)
  | c :: cs, c' :: cs' => by
    intro h h' heq
    rw [childLines, childLines, List.append_assoc, List.append_assoc] at heq
    obtain ⟨-, hc, hrest⟩ :=
      lines_inj c c' (outside_childLines h cs) (outside_childLines h' cs') heq
    obtain ⟨hcs, hrest⟩ := childLines_inj cs cs' h h' hrest
    rw [bareAll, bareAll, hc, hcs]
    exact ⟨rfl, hrest⟩

end

mutual

theorem lines_bare (indent : String) (last : Bool) :
    ∀ n : Node, lines indent last n.bare = lines indent last n
  | mk kind _ cs => by
    have hempty : (bareAll cs).isEmpty = cs.isEmpty := by cases cs <;> rfl
    rw [bare, lines, lines, kind.name_bare, kind.labels_bare, hempty, childLines_bare]

theorem childLines_bare (indent : String) :
    ∀ cs : List Node, childLines indent (bareAll cs) = childLines indent cs
  | [] => rfl
  | c :: cs => by
    have hempty : (bareAll cs).isEmpty = cs.isEmpty := by cases cs <;> rfl
    rw [bareAll, childLines, childLines, hempty, lines_bare, childLines_bare]

end

/-! ## Outlines -/

/-- No point in the tree has a name with a line feed. -/
def OneLineNames (n : Node) : Prop :=
  ∀ k : Node, k.Inside n → ∀ p ∈ k.kind.points, Text.OneLine p.name

theorem oneLineNames_mk_iff {kind : NodeKind} {pos : Position} {cs : List Node} :
    (mk kind pos cs).OneLineNames ↔
      (∀ p ∈ kind.points, Text.OneLine p.name) ∧ ∀ c ∈ cs, c.OneLineNames := by
  constructor
  · intro h
    exact ⟨h _ .root, fun c hc k hk => h k (.child hc hk)⟩
  · rintro ⟨hkind, hcs⟩ k hk
    rcases inside_iff.1 hk with rfl | ⟨c, hc, hk⟩
    · exact hkind
    · exact hcs c hc k hk

end Node

theorem Coord.oneLine_toString (c : Coord) : Text.OneLine (toString c) := fun h =>
  (mem_toList_toString h).elim (by decide) (by decide)

theorem Point.oneLine_label {p : Point} (h : Text.OneLine p.name) : Text.OneLine p.label := by
  simp [label, Text.toString_self, h, p.coord.oneLine_toString]
  decide

theorem NodeKind.oneLine_name (k : NodeKind) : Text.OneLine k.name := by
  cases k <;> simp [name, Text.OneLine]

theorem NodeKind.oneLine_labels {k : NodeKind} (h : ∀ p ∈ k.points, Text.OneLine p.name) :
    ∀ l ∈ k.labels, Text.OneLine l := by
  have hlabel (s : String) (c : Coord) (hs : Text.OneLine s) : Text.OneLine (s ++ toString c) :=
    Text.oneLine_append.2 ⟨hs, c.oneLine_toString⟩
  cases k with
  | putPoint p =>
    simp only [points, labels, List.forall_mem_cons] at h ⊢
    exact ⟨h.1, p.coord.oneLine_toString, List.forall_mem_nil _⟩
  | drawSegment a b =>
    simp only [points, labels, List.forall_mem_cons] at h ⊢
    exact ⟨Point.oneLine_label h.1, Point.oneLine_label h.2.1, List.forall_mem_nil _⟩
  | drawPerpendicular segment a b first second =>
    simp only [points, labels, List.forall_mem_cons] at h ⊢
    exact ⟨Point.oneLine_label h.1, Point.oneLine_label h.2.1,
      hlabel "C1 " first (by decide), hlabel "C2 " second (by decide), List.forall_mem_nil _⟩
  | _ => exact List.forall_mem_nil _

namespace Node

variable {n m : Node} {indent : String}

theorem oneLine_branch {text : String} (last : Bool) (hi : Text.OneLine indent)
    (ht : Text.OneLine text) : Text.OneLine (branch indent last text) := by
  cases last <;> exact Text.oneLine_append.2 ⟨Text.oneLine_append.2 ⟨hi, by decide⟩, ht⟩

theorem oneLine_indentBelow (last : Bool) (hi : Text.OneLine indent) :
    Text.OneLine (indentBelow indent last) := by
  cases last <;> exact Text.oneLine_append.2 ⟨hi, by decide⟩

theorem oneLine_labelLines (closed : Bool) {ls : List String} (hi : Text.OneLine indent)
    (hls : ∀ l ∈ ls, Text.OneLine l) : ∀ l ∈ labelLines indent closed ls, Text.OneLine l := by
  induction ls with
  | nil => nofun
  | cons l ls ih =>
    obtain ⟨hl, hls⟩ := List.forall_mem_cons.1 hls
    exact List.forall_mem_cons.2 ⟨oneLine_branch _ hi hl, ih hls⟩

mutual

theorem oneLine_lines : ∀ (n : Node) {indent : String} (last : Bool), Text.OneLine indent →
    n.OneLineNames → ∀ l ∈ lines indent last n, Text.OneLine l
  | mk kind pos cs => by
    intro last hi h
    obtain ⟨hkind, hcs⟩ := oneLineNames_mk_iff.1 h
    have hlabels := NodeKind.oneLine_labels hkind
    have hbelow := oneLine_indentBelow last hi
    rw [lines, List.forall_mem_cons, List.forall_mem_append]
    exact ⟨oneLine_branch last hi kind.oneLine_name, oneLine_labelLines _ hbelow hlabels,
      oneLine_childLines cs hbelow hcs⟩

theorem oneLine_childLines : ∀ (cs : List Node) {indent : String}, Text.OneLine indent →
    (∀ c ∈ cs, c.OneLineNames) → ∀ l ∈ childLines indent cs, Text.OneLine l
  | [] => nofun
  | c :: cs => by
    intro hi h
    obtain ⟨hc, hcs⟩ := List.forall_mem_cons.1 h
    rw [childLines, List.forall_mem_append]
    exact ⟨oneLine_lines c _ hi hc, oneLine_childLines cs hi hcs⟩

end

theorem lines_outline (h : n.OneLineNames) :
    Text.lines n.outline = (lines "" true n).map String.toList ++ [[]] :=
  Text.lines_join (oneLine_lines n true (by decide) h)

theorem outline_eq_iff (hn : n.OneLineNames) (hm : m.OneLineNames) :
    n.outline = m.outline ↔ n.bare = m.bare := by
  constructor
  · intro h
    have hlines := congrArg Text.lines h
    rw [lines_outline hn, lines_outline hm, List.append_left_inj,
      List.map_inj_right fun _ _ => String.toList_inj.1] at hlines
    have houtside : Outside (indentBelow "" true) [] := nofun
    exact (lines_inj n m houtside houtside (congrArg (· ++ []) hlines)).2.1
  · intro h
    rw [outline, outline, ← lines_bare, h, lines_bare]

/-- A tree can be told from its outline, up to what is not shown. There is one line for each node
and each label, in preorder, and each line tells how its entry is placed among its siblings and
those above it. -/
theorem outline_tells (hn : n.OneLineNames) (hm : m.OneLineNames) :
    (n.outline = m.outline ↔ n.bare = m.bare) ∧
      Text.lines n.outline =
        n.addresses.map (fun a => ((Entry.node n).row "" true a).toList) ++ [[]] ∧
      n.addresses.Pairwise (· < ·) ∧
      ∀ a, a ∈ n.addresses ↔ ((Entry.node n).at? a).isSome := by
  refine ⟨outline_eq_iff hn hm, ?_, (Entry.node n).pairwise_addresses,
    fun a => Entry.mem_addresses_iff (e := .node n)⟩
  have hrows := (Entry.node n).lines_eq_map_row "" true
  rw [Entry.lines, Entry.addresses] at hrows
  rw [lines_outline hn, hrows, List.map_map]
  rfl

/-- A tree with a point whose name looks like a branch. -/
def imitation (pos : Position) (source : Provenance) (side : String) : Node :=
  mk .operation pos
    [leaf (.putPoint ⟨"└── PutPoint (1,2)", ⟨1, 2⟩, source, pos⟩) pos, leaf (.buildSquare side) pos]

/-- The same entries in the same order, but the square stands below the point. -/
def imitationNested : Node :=
  mk .operation .start
    [mk (.putPoint ⟨"└── PutPoint (1,2)", ⟨1, 2⟩, .explicit, .start⟩) .start
      [leaf (.buildSquare "AB") .start]]

/-- A tree in which a point has such a branch. -/
def imitated : Node :=
  mk .operation .start
    [mk (.putPoint ⟨"", ⟨1, 2⟩, .explicit, .start⟩) .start
        [leaf (.putPoint ⟨"A", ⟨1, 2⟩, .explicit, .start⟩) .start],
      leaf (.buildSquare "AB") .start]

/-- A name that looks like a branch is not taken for one, and the square keeps its place: what is
shown of the tree is read back. What is not shown makes no difference. -/
theorem outline_of_imitation :
    (imitation .start .explicit "AB").outline = (imitation ⟨2, 3⟩ .generated "CD").outline ∧
      (imitation .start .explicit "AB").outline ≠ imitationNested.outline ∧
      (imitation .start .explicit "AB").outline ≠ imitated.outline := by
  have hname : Text.OneLine "└── PutPoint (1,2)" := by decide
  have hplain : Text.OneLine "" ∧ Text.OneLine "A" := by decide
  have himitation (pos : Position) (source : Provenance) (side : String) :
      (imitation pos source side).OneLineNames := by
    simp [imitation, leaf, oneLineNames_mk_iff, NodeKind.points, hname]
  have hnested : imitationNested.OneLineNames := by
    simp [imitationNested, leaf, oneLineNames_mk_iff, NodeKind.points, hname]
  have himitated : imitated.OneLineNames := by
    simp [imitated, leaf, oneLineNames_mk_iff, NodeKind.points, hplain]
  refine ⟨(outline_tells (himitation _ _ _) (himitation _ _ _)).1.2 rfl,
    mt (outline_tells (himitation _ _ _) hnested).1.1 ?_,
    mt (outline_tells (himitation _ _ _) himitated).1.1 ?_⟩
  · -- the operation has two children in one tree and one in the other
    simp [imitation, imitationNested, leaf, bare, bareAll]
  · -- the names of the first points differ
    simp [imitation, imitated, leaf, bare, bareAll, NodeKind.bare, Point.bare]

end Node

end Planimetry
