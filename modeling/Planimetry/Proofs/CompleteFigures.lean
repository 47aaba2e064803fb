import Planimetry.Proofs.Exposure
import Planimetry.Proofs.FinalTable

/-!
# Complete figures

A text can only build figures with the points that they need: listed points bring their coordinates,
a triangle has three points, and a square four of them and four sides. So a review never misses any.
It can only complain that two corners of a square have the same name, and that is so if and only if
the two letters of its side are the same.

## Main definitions

* `Figure.Complete`: a figure has the points that its command asks for.
* `Step.Remarked`: what can be remarked on a step.
* `Compilation.CompleteFigures`: what the diagnostics say about the parts of figures.

Main statement: `completeFigures_of_check`.
-/

namespace Planimetry

/-! ## Figures of a text -/

/-- A figure has the points that its command asks for. -/
inductive Figure.Complete : Figure → Prop where
  | point (p : Point) : Complete (.point p)
  /-- Listed points come with their coordinates. -/
  | network {ps : List Point} : (∀ p ∈ ps, p.source = .explicit) → Complete (.network ps)
  | segment (a b : Point) : Complete (.segment a b)
  | perpendicular (side : Side) (a b : Point) (arms : Perpendicular) :
      Complete (.perpendicular side a b arms)
  | triangle (a b c : Point) : Complete (.triangle a b c)
  /-- The ends of the side have its letters for names, and the other corners are derived. -/
  | square {side : Side} {a b : Point} (c d : Coord) :
      a.name = side.firstName → b.name = side.secondName →
      a.source ≠ .derived → b.source ≠ .derived →
        Complete (.square side a b (side.corner side.firstName c) (side.corner side.secondName d))

/-- The figure of an operation is complete if the points that it lists are given. -/
theorem Operation.complete_of_settle {op : Operation} {s : Step} {t t' : PointTable}
    (h : op.settle.run t = .ok (s, t')) (hop : op.command.Listed) : s.figure.Complete := by
  obtain ⟨-, hc⟩ := settles_of_settle h
  obtain ⟨pos, f⟩ := s
  obtain ⟨pos', c⟩ := op
  cases hc with
  | place => exact .point _
  | connect hps =>
    refine .network fun p hp => ?_
    obtain ⟨rs, hms, hpoints, hrs⟩ := Mention.resolves_of_settleAll hps hop t'
    rw [← hpoints] at hp
    obtain ⟨⟨m, p⟩, hr, rfl⟩ := List.mem_map.1 hp
    obtain ⟨t₁, t₂, hm⟩ := hrs.exists_becomes hr
    exact hm.explicit_iff.2 (hop m (hms ▸ List.mem_map_of_mem hr))
  | segment => exact .segment _ _
  | perpendicular => exact .perpendicular _ _ _ _
  | triangle => exact .triangle _ _ _
  | square ha hb =>
    have ha := Mention.becomes_of_settle ha
    have hb := Mention.becomes_of_settle hb
    exact .square _ _ ha.name_eq hb.name_eq ha.source_ne_derived hb.source_ne_derived

theorem Reading.complete_of_steps {ts : List Token} {t t' : PointTable} {ss : List Step} {s : Step}
    (h : (ofTokens ts).steps t = .ok (ss, t')) (hs : s ∈ ss) : s.figure.Complete := by
  obtain ⟨op, hop, t₁, t₂, hrun⟩ := exists_operation_of_mem h hs
  exact Operation.complete_of_settle hrun (listed_of_mem hop)

/-! ## Names of corners -/

theorem Side.firstName_eq_secondName_iff (s : Side) :
    s.firstName = s.secondName ↔ s.first = s.second := by
  simp [firstName, secondName, Char.toString, ← String.toList_inj]

/-- A square has four names, or two if the ends of its side have the same. -/
theorem Side.length_eraseDups (s : Side) :
    [s.firstName, s.secondName, s.firstName ++ "1", s.secondName ++ "1"].eraseDups.length =
      if s.first = s.second then 2 else 4 := by
  have hcorner (x y : Char) : x.toString ++ "1" ≠ y.toString := s.name_corner_ne x y .origin
  have h₁ : s.firstName ++ "1" ≠ s.firstName := hcorner _ _
  have h₂ : s.firstName ++ "1" ≠ s.secondName := hcorner _ _
  have h₃ : s.secondName ++ "1" ≠ s.firstName := hcorner _ _
  have h₄ : s.secondName ++ "1" ≠ s.secondName := hcorner _ _
  by_cases h : s.first = s.second
  · have hname : s.firstName = s.secondName := s.firstName_eq_secondName_iff.2 h
    simp [h, hname, h₄, List.eraseDups_cons]
  · have hname : s.firstName ≠ s.secondName := mt s.firstName_eq_secondName_iff.1 h
    simp [h, hname.symm, h₁, h₂, h₃, h₄, List.eraseDups_cons]

/-! ## Remarks on complete figures -/

/-- What can be remarked on a step whose figure is complete. -/
inductive Step.Remarked (s : Step) : Remark → Prop where
  | redefined (p : Point) : Remarked s ⟨p.pos, .pointRedefined p.name⟩
  | segment (a b : String) : Remarked s ⟨s.pos, .endsUndefined a b "segment"⟩
  | perpendicular (a b : String) : Remarked s ⟨s.pos, .endsUndefined a b "perpendicular line"⟩
  | line (name : String) : Remarked s ⟨s.pos, .lineUndefined name⟩
  | triangle (p : Point) : Remarked s ⟨p.pos, .pointUndefined p.name (some "triangle")⟩
  /-- Of the corners of a square only the ends of its side can be undefined. -/
  | side (p : Point) (z : Char) : p.name = z.toString →
      Remarked s ⟨p.pos, .pointUndefined p.name (some "square")⟩
  /-- The two ends of the side have the same name. -/
  | names {side : Side} {a b c d : Point} : s.figure = .square side a b c d →
      side.first = side.second → Remarked s ⟨s.pos, .squareNames 2⟩

namespace Scope

variable {sc : Scope} {s : Step} {r : Remark} {p : Point}

theorem exists_of_mem_checkPoints {figure : Option String} {ps : List Point}
    (h : r ∈ sc.checkPoints figure ps) :
    ∃ p ∈ ps, p.source.carriesCoords = false ∧ r = ⟨p.pos, .pointUndefined p.name figure⟩ := by
  obtain ⟨p, hp, rfl⟩ := List.mem_map.1 h
  obtain ⟨hmem, hunknown⟩ := List.mem_filter.1 hp
  refine ⟨p, hmem, ?_, rfl⟩
  cases hsource : p.source.carriesCoords with
  | false => rfl
  | true => simp [knows, hsource] at hunknown

/-- Nothing is remarked on listed points. -/
theorem checkConstruction_network {ps : List Point} {pos : Position} (sc : Scope)
    (hps : ∀ p ∈ ps, p.source = .explicit) :
    (((Figure.network ps).node pos).checkConstruction sc).1 = [] := by
  refine List.eq_nil_iff_forall_not_mem.2 fun r hr => ?_
  change r ∈ sc.checkPoints none ((Figure.network ps).node pos).putPoints at hr
  rw [Figure.putPoints_node] at hr
  obtain ⟨p, hp, hsource, -⟩ := exists_of_mem_checkPoints hr
  rw [hps p hp] at hsource
  cases hsource

/-- What is remarked on a square is about one of its corners, or about their names. -/
theorem mem_checkConstruction_square_iff {side : Side} {a b c d : Point} {pos : Position}
    (ha : a.name = side.firstName) (hb : b.name = side.secondName)
    (hc : c.name = side.firstName ++ "1") (hd : d.name = side.secondName ++ "1") :
    r ∈ (((Figure.square side a b c d).node pos).checkConstruction sc).1 ↔
      r ∈ sc.checkPoints (some "square") [a, b, c, d] ∨
        side.first = side.second ∧ r = ⟨pos, .squareNames 2⟩ := by
  change r ∈ sc.checkPoints (some "square") [a, b, c, d] ++ [] ++ [] ++
    Remark.unless (4 ≤ ([a.name, b.name, c.name, d.name].eraseDups.length : Nat)) pos
      (.squareNames [a.name, b.name, c.name, d.name].eraseDups.length) ↔ _
  rw [ha, hb, hc, hd, Side.length_eraseDups, List.append_nil, List.append_nil, List.mem_append]
  by_cases h : side.first = side.second
  · simp [h, Remark.unless]
  · simp [h, Remark.unless]

/-- What a review remarks on a step. -/
theorem remarked_of_mem (hs : s.figure.Complete) (h : r ∈ (s.node.checkConstruction sc).1) :
    s.Remarked r := by
  obtain ⟨pos, f⟩ := s
  rw [Step.node] at h
  cases hs with
  | point p =>
    simp only [Figure.node, Node.checkConstruction, Node.leaf, Node.kind] at h
    split at h
    · obtain rfl := List.mem_singleton.1 h
      exact .redefined p
    · cases h
  | network hps =>
    rw [checkConstruction_network sc hps] at h
    cases h
  | segment a b =>
    obtain ⟨-, h⟩ := List.mem_ite_nil_left.1 h
    obtain rfl := List.mem_singleton.1 h
    exact .segment _ _
  | perpendicular side a b arms =>
    rcases List.mem_append.1 h with h | h
    · obtain ⟨-, h⟩ := List.mem_ite_nil_left.1 h
      obtain rfl := List.mem_singleton.1 h
      exact .perpendicular _ _
    · obtain ⟨-, h⟩ := List.mem_ite_nil_left.1 h
      obtain rfl := List.mem_singleton.1 h
      exact .line _
  | triangle a b c =>
    obtain ⟨p, -, -, rfl⟩ := exists_of_mem_checkPoints h
    exact .triangle p
  | @square side a b c d ha hb ha' hb' =>
    rcases (mem_checkConstruction_square_iff ha hb rfl rfl).1 h with h | ⟨heq, rfl⟩
    · obtain ⟨p, hp, hsource, rfl⟩ := exists_of_mem_checkPoints h
      simp only [List.mem_cons, List.not_mem_nil, or_false] at hp
      rcases hp with rfl | rfl | rfl | rfl
      · exact .side p side.first ha
      · exact .side p side.second hb
      · cases hsource
      · cases hsource
    · exact .names rfl heq

end Scope

/-! ## How remarks read -/

/-- Texts with different beginnings differ. -/
theorem append_ne_of_beginnings {b b' s s' : String} (h : ¬ b.toList <+: b'.toList)
    (h' : ¬ b'.toList <+: b.toList) : b ++ s ≠ b' ++ s' := by
  intro heq
  have hlists := congrArg String.toList heq
  rw [String.toList_append, String.toList_append] at hlists
  have hprefix : b.toList <+: b'.toList ++ s'.toList := hlists ▸ List.prefix_append _ _
  rcases List.prefix_or_prefix_of_prefix hprefix (List.prefix_append _ _) with hs | hs
  exacts [h hs, h' hs]

/-- Texts with different endings differ. -/
theorem append_ne_of_endings {s s' e e' : String} (h : ¬ e.toList <:+ e'.toList)
    (h' : ¬ e'.toList <:+ e.toList) : s ++ e ≠ s' ++ e' := by
  intro heq
  have hlists := congrArg String.toList heq
  rw [String.toList_append, String.toList_append] at hlists
  have hsuffix : e.toList <:+ s'.toList ++ e'.toList := hlists ▸ List.suffix_append _ _
  rcases List.suffix_or_suffix_of_suffix hsuffix (List.suffix_append _ _) with hs | hs
  exacts [h hs, h' hs]

namespace RemarkCause

theorem message_squareNames (found : Nat) :
    (squareNames found).message = "square requires 4 distinct points, found " ++ found.repr :=
  rfl

theorem found_of_message_eq {found found' : Nat}
    (h : (squareNames found).message = (squareNames found').message) : found = found' := by
  rw [message_squareNames, message_squareNames, String.append_right_inj] at h
  have hvalue := congrArg (Nat.ofDigitChars 10 ·.toList 0) h
  simpa only [Nat.toList_repr, Nat.ofDigitChars_ten_toDigits] using hvalue

end RemarkCause

namespace Step.Remarked

open RemarkCause

variable {s : Step} {r : Remark}

/-- The endings of the remarks that are not about a corner of a square. -/
def endings : List String :=
  ["\" is already defined", "\" are not defined for segment",
    "\" are not defined for perpendicular line", "\" is not defined for perpendicular line",
    "\" is not defined for triangle", "found 2"]

theorem corner_or_ending (h : s.Remarked r) :
    (∃ z : Char, r.cause = .pointUndefined z.toString (some "square")) ∨
      ∃ e ∈ endings, ∃ start, r.cause.message = start ++ e := by
  cases h with
  | redefined p => exact .inr ⟨"\" is already defined", by decide, _, rfl⟩
  | segment a b => exact .inr ⟨_, by decide, _, message_endsUndefined a b rfl⟩
  | perpendicular a b => exact .inr ⟨_, by decide, _, message_endsUndefined a b rfl⟩
  | line name => exact .inr ⟨_, by decide, _, message_line name⟩
  | triangle p => exact .inr ⟨_, by decide, _, message_pointUndefined p.name rfl⟩
  | side p z hz => exact .inl ⟨z, by rw [hz]⟩
  | names =>
    have hmessage :
        (squareNames 2).message = "square requires 4 distinct points, " ++ "found 2" := by decide
    exact .inr ⟨_, by decide, _, hmessage⟩

/-- Nothing is undefined without a figure that it is undefined for. -/
theorem ne_pointUndefined (h : s.Remarked r) (name : String) :
    r.cause.message ≠ (pointUndefined name none).message := by
  have hendings : ∀ e ∈ endings,
      ¬ e.toList <:+ "\" is not defined".toList ∧ ¬ "\" is not defined".toList <:+ e.toList := by
    decide
  rcases h.corner_or_ending with ⟨z, hz⟩ | ⟨e, he, start, hmessage⟩
  · rw [hz, message_pointUndefined _ rfl]
    exact append_ne_of_endings (by decide) (by decide)
  · rw [hmessage]
    exact append_ne_of_endings (hendings e he).1 (hendings e he).2

/-- A corner of a square that is undefined has one letter. -/
theorem name_of_square (h : s.Remarked r) {name : String}
    (hmessage : r.cause.message = (pointUndefined name (some "square")).message) :
    ∃ z : Char, name = z.toString := by
  have hendings : ∀ e ∈ endings, ¬ e.toList <:+ "\" is not defined for square".toList ∧
      ¬ "\" is not defined for square".toList <:+ e.toList := by
    decide
  rcases h.corner_or_ending with ⟨z, hz⟩ | ⟨e, he, start, hstart⟩
  · rw [hz, message_pointUndefined _ rfl, message_pointUndefined _ rfl, String.append_left_inj,
      String.append_right_inj] at hmessage
    exact ⟨z, hmessage.symm⟩
  · rw [hstart, message_pointUndefined _ rfl] at hmessage
    exact absurd hmessage (append_ne_of_endings (hendings e he).1 (hendings e he).2)

/-- Only the names of a square are counted, and there are two of them then. -/
theorem counted (h : s.Remarked r) (hinitial : r.cause.initial = 't' ∨ r.cause.initial = 's') :
    r = ⟨s.pos, .squareNames 2⟩ ∧
      ∃ side a b c d, s.figure = .square side a b c d ∧ side.first = side.second := by
  cases h with
  | names hf heq => exact ⟨rfl, _, _, _, _, _, hf, heq⟩
  | _ => simp [initial] at hinitial

end Step.Remarked

/-! ## Diagnostics of complete figures -/

namespace Compilation

/-- What the diagnostics say about the parts of figures. -/
structure CompleteFigures (c : Compilation) (path : Option String) : Prop where
  triangle (pos : Position) (found : Nat) :
    ¬ c.Warns path pos s!"triangle requires 3 points, found {found}"
  points (pos : Position) (found : Nat) :
    ¬ c.Warns path pos s!"square requires exactly 4 points, found {found}"
  segments (pos : Position) (found : Nat) :
    ¬ c.Warns path pos s!"square requires exactly 4 segments, found {found}"
  /-- There is nothing to remark on listed points, wherever they stand. -/
  network {n : Node} :
    n ∈ c.drawing.tree.operations → n.kind = .connectPoints →
      ∀ sc, (n.checkConstruction sc).1 = []
  /-- That is how points would be remarked on that are just listed. -/
  listed (pos : Position) (name : String) : ¬ c.Warns path pos s!"point \"{name}\" is not defined"
  /-- The corners of a square have two names if the letters of its side are the same, and its
  derived corners are defined. -/
  square {n : Node} {side : String} :
    n ∈ c.drawing.tree.operations → n.kind = .buildSquare side →
      ∃ x y, side = String.ofList [x, y] ∧
        n.putPoints.map Point.name = [s!"{x}", s!"{y}", s!"{x}1", s!"{y}1"] ∧
        (∀ found, c.Warns path n.pos s!"square requires 4 distinct points, found {found}" ↔
          x = y ∧ found = 2) ∧
        ∀ pos, ¬ c.Warns path pos s!"point \"{x}1\" is not defined for square" ∧
          ¬ c.Warns path pos s!"point \"{y}1\" is not defined for square"
  /-- Nothing but a square has too few names. -/
  names {pos : Position} {found : Nat} :
    c.Warns path pos s!"square requires 4 distinct points, found {found}" →
      ∃ n ∈ c.drawing.tree.operations, n.pos = pos ∧ ∃ side, n.kind = .buildSquare side

variable {c : Compilation} {text : String} {path : Option String} {ss : List Step} {s : Step}
  {t t' : PointTable} {pos : Position} {message : String}

/-- A diagnostic of a text remarks on one of its steps. -/
theorem remarked_of_warns (h : (Script.ofText text path).reading.steps t = .ok (ss, t'))
    (hdiag : c.diagnostics = (Script.ofText text path).diagnostics (Step.program ss))
    (hwarns : c.Warns path pos message) :
    ∃ s ∈ ss, ∃ r, s.Remarked r ∧ r.cause.message = message ∧ r.pos = pos := by
  obtain ⟨r, hreview, hmessage, hpos⟩ := (warns_iff hdiag).1 hwarns
  obtain ⟨pre, s, post, rfl, hr⟩ := Scope.mem_review_program_iff.1 hreview
  have hs : s ∈ pre ++ s :: post := by simp
  exact ⟨s, hs, r, Scope.remarked_of_mem (Reading.complete_of_steps h hs) hr, hmessage, hpos⟩

/-- A diagnostic that counts something is about the names of a square on a side of one letter. -/
theorem counted_of_warns (h : (Script.ofText text path).reading.steps t = .ok (ss, t'))
    (hdiag : c.diagnostics = (Script.ofText text path).diagnostics (Step.program ss))
    {cause : RemarkCause} (hwarns : c.Warns path pos cause.message)
    (hinitial : cause.initial = 't' ∨ cause.initial = 's') :
    cause.message = (RemarkCause.squareNames 2).message ∧ ∃ s ∈ ss, s.pos = pos ∧
      ∃ side a b c d, s.figure = .square side a b c d ∧ side.first = side.second := by
  obtain ⟨s, hs, r, hr, hmessage, rfl⟩ := remarked_of_warns h hdiag hwarns
  have heq : some cause.initial = some r.cause.initial := by
    rw [← RemarkCause.head?_message, ← RemarkCause.head?_message, hmessage]
  rw [Option.some.inj heq] at hinitial
  obtain ⟨rfl, hsquare⟩ := hr.counted hinitial
  exact ⟨hmessage.symm, s, hs, rfl, hsquare⟩

/-- A square has too few names exactly if its side has one letter. -/
theorem warns_names_iff (h : (Script.ofText text path).reading.steps t = .ok (ss, t'))
    (hdiag : c.diagnostics = (Script.ofText text path).diagnostics (Step.program ss))
    (hs : s ∈ ss) {side : Side} {p q p' q' : Point} (hf : s.figure = .square side p q p' q')
    (found : Nat) :
    c.Warns path s.pos s!"square requires 4 distinct points, found {found}" ↔
      side.first = side.second ∧ found = 2 := by
  constructor
  · intro hwarns
    have hinitial : (RemarkCause.squareNames found).initial = 's' := rfl
    obtain ⟨hmessage, s', hs', hpos, side', _, _, _, _, hf', heq⟩ :=
      counted_of_warns h hdiag hwarns (.inr hinitial)
    obtain rfl := List.inj_on_of_nodup_map (Script.nodup_positions_of_steps h) hs' hs hpos
    cases hf.symm.trans hf'
    exact ⟨heq, RemarkCause.found_of_message_eq hmessage⟩
  · rintro ⟨heq, rfl⟩
    obtain ⟨sc, -, -, -, hreview⟩ := (Reading.trail_of_steps h).exists_scope hs
    have hcomplete := Reading.complete_of_steps h hs
    refine (warns_iff hdiag).2 ⟨⟨s.pos, .squareNames 2⟩, hreview _ ?_, rfl, rfl⟩
    obtain ⟨pos, f⟩ := s
    obtain rfl : f = .square side p q p' q' := hf
    cases hcomplete with
    | square _ _ ha hb =>
      exact (Scope.mem_checkConstruction_square_iff ha hb rfl rfl).2 (.inr ⟨heq, rfl⟩)

/-- Only a point of one letter is undefined for a square. -/
theorem not_warns_corner (h : (Script.ofText text path).reading.steps t = .ok (ss, t'))
    (hdiag : c.diagnostics = (Script.ofText text path).diagnostics (Step.program ss))
    (z : Char) : ¬ c.Warns path pos s!"point \"{z}1\" is not defined for square" := by
  intro hwarns
  have hcorner : (RemarkCause.pointUndefined (z.toString ++ "1") (some "square")).message =
      s!"point \"{z}1\" is not defined for square" := by
    rw [RemarkCause.message_pointUndefined _ rfl]
    simp only [String.append_assoc]
    rfl
  rw [← hcorner] at hwarns
  obtain ⟨s, -, r, hr, hmessage, -⟩ := remarked_of_warns h hdiag hwarns
  obtain ⟨y, hy⟩ := hr.name_of_square hmessage
  have hlength := congrArg (·.toList.length) hy
  simp [Char.toString] at hlength

/-- The diagnostics of a text say that its figures are complete. -/
theorem completeFigures_of_steps (h : (Script.ofText text path).reading.steps t = .ok (ss, t'))
    (htree : c.drawing.tree = Step.program ss)
    (hdiag : c.diagnostics = (Script.ofText text path).diagnostics (Step.program ss)) :
    c.CompleteFigures path := by
  have hops : c.drawing.tree.operations = ss.map Step.node := by
    rw [htree, Step.operations_program]
  have step_of_mem {n : Node} (hn : n ∈ c.drawing.tree.operations) : ∃ s ∈ ss, s.node = n :=
    List.mem_map.1 (hops ▸ hn)
  have never {pos : Position} (cause : RemarkCause)
      (hinitial : cause.initial = 't' ∨ cause.initial = 's')
      (hne : cause.message ≠ (RemarkCause.squareNames 2).message) :
      ¬ c.Warns path pos cause.message := fun hwarns =>
    hne (counted_of_warns h hdiag hwarns hinitial).1
  constructor
  case triangle =>
    intro pos found
    exact never (.trianglePoints found) (.inl rfl) (append_ne_of_beginnings (by decide) (by decide))
  case points =>
    intro pos found
    exact never (.squarePoints found) (.inr rfl) (append_ne_of_beginnings (by decide) (by decide))
  case segments =>
    intro pos found
    exact never (.squareSegments found) (.inr rfl) (append_ne_of_beginnings (by decide) (by decide))
  case network =>
    intro n hn hk sc
    obtain ⟨s, hs, rfl⟩ := step_of_mem hn
    have hcomplete := Reading.complete_of_steps h hs
    obtain ⟨pos, f⟩ := s
    cases hcomplete with
    | network hps => exact Scope.checkConstruction_network sc hps
    | _ => cases hk
  case listed =>
    intro pos name hwarns
    obtain ⟨s, -, r, hr, hmessage, -⟩ := remarked_of_warns h hdiag hwarns
    exact hr.ne_pointUndefined name hmessage
  case square =>
    intro n side hn hk
    obtain ⟨s, hs, rfl⟩ := step_of_mem hn
    have hcomplete := Reading.complete_of_steps h hs
    rw [s.pos_node]
    obtain ⟨pos, f⟩ := s
    cases hcomplete with
    | @square side a b c d ha hb =>
      cases hk
      refine ⟨side.first, side.second, rfl, ?_, warns_names_iff h hdiag hs rfl, fun pos =>
        ⟨not_warns_corner h hdiag _, not_warns_corner h hdiag _⟩⟩
      rw [Step.node, Figure.putPoints_node]
      simp only [Figure.corners, List.map_cons, List.map_nil, ha, hb]
      rfl
    | _ => cases hk
  case names =>
    intro pos found hwarns
    have hinitial : (RemarkCause.squareNames found).initial = 's' := rfl
    obtain ⟨-, s, hs, rfl, side, a, b, c', d, hf, -⟩ :=
      counted_of_warns h hdiag hwarns (.inr hinitial)
    refine ⟨s.node, hops ▸ List.mem_map_of_mem hs, s.pos_node, side.text, ?_⟩
    rw [Step.node, hf]
    rfl

end Compilation

namespace Script

/-- A text that is checked builds complete figures, and its diagnostics say so. -/
theorem completeFigures_of_check {text : String} {path : Option String} {t : PointTable} {g : Grid}
    {sink sink' : Sink} {c : Compilation}
    (h : (ofText text path).check t g sink = (.ok c, sink')) : c.CompleteFigures path := by
  obtain ⟨hparse, hdiag⟩ := of_compileTo h
  obtain ⟨ss, t', hss, hd⟩ := Reading.draw_eq_ok_iff.1 (parse_eq_ok_iff.1 hparse)
  have htree : c.drawing.tree = Step.program ss := by
    rw [← hd]
    rfl
  rw [htree] at hdiag
  exact Compilation.completeFigures_of_steps hss htree hdiag

/-- A script of a square on a side without length. -/
def oneLetterSquare : Script := .ofText "побудувати квадрат зі стороною AA" none

/-- A table that knows that one end, and a point with the name of a corner. -/
def oneLetterKnown : PointTable := cornerKnown.insert "A" ⟨1, 4⟩

theorem completeFigures_of_oneLetterSquare :
    ∃ c sink, oneLetterSquare.check oneLetterKnown .standard .unlimited = (.ok c, sink) ∧
      c.CompleteFigures none := by
  have e : Reader.operation ⟨oneLetterSquare.tokens, []⟩ =
      .ok ⟨⟨1, 1⟩, .square ⟨'A', 'A', ⟨1, 32⟩⟩ none none⟩
        ⟨[], [⟨"A", ⟨1, 32⟩, none⟩, ⟨"A", ⟨1, 32⟩, none⟩]⟩ := by
    rfl
  have hsome : (oneLetterSquare.parse oneLetterKnown).toOption.isSome = true := by
    rw [parse, reading, Reading.ofTokens_of_end e]
    decide +kernel
  cases h : oneLetterSquare.parse oneLetterKnown with
  | error f => simp [h, Except.toOption] at hsome
  | ok d =>
    have hcheck : oneLetterSquare.check oneLetterKnown .standard .unlimited =
        (.ok ⟨d, oneLetterSquare.diagnostics d.tree⟩, .unlimited) := by
      simp only [check, compileTo, h]
      rfl
    exact ⟨_, _, hcheck, completeFigures_of_check hcheck⟩

end Script

end Planimetry
