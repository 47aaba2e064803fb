import Planimetry.Proofs.Exposure.Remarks
import Planimetry.Proofs.Exposure.Wording

/-!
# Invented points are exposed

The diagnostics of a program tell where it uses points that it has not defined. No coordinates that
nobody gave go unnoticed, except those of a point that is just put and of a segment with one given
end.

## Main definitions

* `Compilation.Warns`: a compilation has a diagnostic.
* `Compilation.Exposes`: what the diagnostics say about the points and lines of the tree.

Main statement: `exposes_of_compile_or_check`.
-/

namespace Planimetry

/-! ## What diagnostics say -/

namespace Compilation

/-- The compilation of the file `path` has the diagnostic `message` at `pos`. -/
def Warns (c : Compilation) (path : Option String) (pos : Position) (message : String) : Prop :=
  ⟨.semantic, message, pos, path⟩ ∈ c.diagnostics

/-- The diagnostics say which points were invented and which lines were not drawn. -/
structure Exposes (c : Compilation) (path : Option String) : Prop where
  triangle {n : Node} {p : Point} :
    n ∈ c.drawing.tree.operations → n.kind = .buildTriangle → p ∈ n.putPoints →
      p.source = .generated →
        c.Warns path p.pos s!"point \"{p.name}\" is not defined for triangle"
  square {n : Node} {side : String} {p : Point} :
    n ∈ c.drawing.tree.operations → n.kind = .buildSquare side → p ∈ n.putPoints →
      p.source = .generated →
        c.Warns path p.pos s!"point \"{p.name}\" is not defined for square"
  segment {n : Node} {a b : Point} :
    n ∈ c.drawing.tree.operations → n.kind = .drawSegment a b →
      a.source = .generated ∨ b.source = .generated →
      a.source ≠ .explicit → b.source ≠ .explicit →
        c.Warns path n.pos s!"points \"{a.name}\" or \"{b.name}\" are not defined for segment"
  perpendicular {n : Node} {segment : String} {a b : Point} {first second : Coord} :
    n ∈ c.drawing.tree.operations → n.kind = .drawPerpendicular segment a b first second →
      a.source = .defaulted ∨ b.source = .defaulted →
        c.Warns path n.pos
          s!"points \"{a.name}\" or \"{b.name}\" are not defined for perpendicular line"
  /-- The line of a perpendicular is undefined if no operation before it has drawn it. -/
  line {before after : List Node} {n : Node} {segment : String} {a b : Point}
      {first second : Coord} :
    c.drawing.tree.operations = before ++ n :: after →
      n.kind = .drawPerpendicular segment a b first second →
        ∃ x y, segment = String.ofList [x, y] ∧
          (c.Warns path n.pos s!"line \"{segment}\" is not defined for perpendicular line" ↔
            ¬ ∃ m ∈ before, m.DrawsLine x y)
  /-- Without diagnostics hardly any point is invented. -/
  silent {n : Node} {p : Point} :
    c.diagnostics = [] → n.Inside c.drawing.tree → p ∈ n.kind.points →
      p.source ≠ .defaulted ∧
      (p.source = .generated → n ∈ c.drawing.tree.operations ∧
        (n.kind = .putPoint p ∨ ∃ a b, n.kind = .drawSegment a b ∧
          (p = a ∧ b.source = .explicit ∨ p = b ∧ a.source = .explicit)))

end Compilation

/-! ## Reviews of programs -/

namespace Trail

variable {ss pre post : List Step} {s : Step} {t t' : PointTable} {n : Node} {p a b : Point}

/-- What is to be remarked on a step in its scope is found in the review of the program. -/
theorem exists_scope (h : Trail t ss t') (hs : s ∈ ss) :
    ∃ sc t₁, Scope.Within sc t₁ ∧ s.figure.Sourced t₁ ∧
      ∀ r ∈ (s.node.checkConstruction sc).1, r ∈ (Step.program ss).review := by
  obtain ⟨pre, post, rfl⟩ := List.append_of_mem hs
  obtain ⟨t₁, t₂, htaken, hwithin⟩ := h.exists_within (Scope.within_empty t)
  exact ⟨_, t₁, hwithin, htaken.sourced,
    fun r hr => Scope.mem_review_program_iff.2 ⟨pre, s, post, rfl, hr⟩⟩

theorem mem_review_corner (h : Trail t ss t') (hs : s ∈ ss) (hp : p ∈ s.figure.corners)
    (hinv : p.source.isInvented) :
    ⟨p.pos, .pointUndefined p.name s.figure.title?⟩ ∈ (Step.program ss).review := by
  obtain ⟨sc, t₁, hsc, hsourced, hmem⟩ := h.exists_scope hs
  exact hmem _ (hsc.mem_corner hsourced hp hinv)

theorem mem_review_segment (h : Trail t ss t') (hs : s ∈ ss) (hf : s.figure = .segment a b)
    (hgen : a.source = .generated ∨ b.source = .generated) (ha : a.source ≠ .explicit)
    (hb : b.source ≠ .explicit) :
    ⟨s.pos, .endsUndefined a.name b.name "segment"⟩ ∈ (Step.program ss).review := by
  obtain ⟨sc, t₁, hsc, hsourced, hmem⟩ := h.exists_scope hs
  rw [Step.node, hf] at hmem
  rw [hf] at hsourced
  cases hsourced with
  | segment ha' hb' => exact hmem _ (hsc.mem_segment ha' hb' hgen ha hb)

theorem mem_review_perpendicular {side : Side} {arms : Perpendicular} (h : Trail t ss t')
    (hs : s ∈ ss) (hf : s.figure = .perpendicular side a b arms)
    (hdef : a.source = .defaulted ∨ b.source = .defaulted) :
    ⟨s.pos, .endsUndefined a.name b.name "perpendicular line"⟩ ∈ (Step.program ss).review := by
  obtain ⟨sc, t₁, hsc, hsourced, hmem⟩ := h.exists_scope hs
  rw [Step.node, hf] at hmem
  rw [hf] at hsourced
  cases hsourced with
  | perpendicular ha hb => exact hmem _ (hsc.mem_perpendicular ha hb hdef)

/-- If nothing is remarked on, only a point that is put and a segment with a given end have
invented points of their own. -/
theorem source_of_own (h : Trail t ss t') (hsilent : (Step.program ss).review = []) (hs : s ∈ ss)
    (hp : p ∈ s.node.kind.points) :
    p.source ≠ .defaulted ∧
      (p.source = .generated → s.node.kind = .putPoint p ∨ ∃ a b, s.node.kind = .drawSegment a b ∧
        (p = a ∧ b.source = .explicit ∨ p = b ∧ a.source = .explicit)) := by
  have no_remark {r : Remark} : r ∉ (Step.program ss).review := by simp [hsilent]
  obtain ⟨sc, t₁, -, hsourced, -⟩ := h.exists_scope hs
  obtain ⟨pos, f⟩ := s
  cases hsourced with
  | point hq =>
    obtain rfl := List.mem_singleton.1 hp
    exact ⟨hq.ne_defaulted, fun _ => .inl rfl⟩
  | @segment a b ha hb =>
    have other (hgen : a.source = .generated ∨ b.source = .generated) :
        a.source = .explicit ∨ b.source = .explicit := by
      by_contra hne
      rw [not_or] at hne
      exact no_remark (h.mem_review_segment hs rfl hgen hne.1 hne.2)
    rcases List.mem_pair.1 hp with rfl | rfl
    · refine ⟨ha.ne_defaulted, fun hgen => .inr ⟨p, b, rfl, .inl ⟨rfl, ?_⟩⟩⟩
      exact (other (.inl hgen)).resolve_left (by rw [hgen]; nofun)
    · refine ⟨hb.ne_defaulted, fun hgen => .inr ⟨a, p, rfl, .inr ⟨rfl, ?_⟩⟩⟩
      exact (other (.inr hgen)).resolve_right (by rw [hgen]; nofun)
  | perpendicular ha hb =>
    rcases List.mem_pair.1 hp with rfl | rfl
    · refine ⟨fun hdef => no_remark (h.mem_review_perpendicular hs rfl (.inl hdef)), ?_⟩
      exact fun hgen => absurd hgen ha.ne_generated
    · refine ⟨fun hdef => no_remark (h.mem_review_perpendicular hs rfl (.inr hdef)), ?_⟩
      exact fun hgen => absurd hgen hb.ne_generated
  | network => cases hp
  | triangle => cases hp
  | square => cases hp

theorem source_of_silent (h : Trail t ss t') (hsilent : (Step.program ss).review = [])
    (hn : n.Inside (Step.program ss)) (hp : p ∈ n.kind.points) :
    p.source ≠ .defaulted ∧
      (p.source = .generated → n ∈ ss.map Step.node ∧
        (n.kind = .putPoint p ∨ ∃ a b, n.kind = .drawSegment a b ∧
          (p = a ∧ b.source = .explicit ∨ p = b ∧ a.source = .explicit))) := by
  obtain ⟨s, hs, hin⟩ := Step.inside_of_inside_program hn hp
  rcases Figure.mem_corners_of_inside hin hp with rfl | hcorner
  · obtain ⟨hdef, hgen⟩ := h.source_of_own hsilent hs hp
    exact ⟨hdef, fun e => ⟨List.mem_map.2 ⟨s, hs, rfl⟩, hgen e⟩⟩
  · have hinv : ¬ p.source.isInvented := by
      intro hinv
      have hmem := h.mem_review_corner hs hcorner hinv
      rw [hsilent] at hmem
      cases hmem
    constructor
    · intro e
      exact hinv (by rw [e]; rfl)
    · intro e
      exact absurd (by rw [e]; rfl) hinv

end Trail

theorem Step.pos_node (s : Step) : s.node.pos = s.pos := by
  obtain ⟨pos, f⟩ := s
  cases f <;> rfl

/-- The line of a perpendicular is remarked on at its step exactly if no step before has drawn
it. -/
theorem Step.mem_review_line_iff {ss pre post : List Step} {s : Step} {line : String} {a b : Point}
    {first second : Coord} (hss : ss = pre ++ s :: post) (hnodup : (ss.map Step.pos).Nodup)
    (hk : s.node.kind = .drawPerpendicular line a b first second) :
    ⟨s.pos, .lineUndefined line⟩ ∈ (program ss).review ↔
      ¬ ∃ s' ∈ pre, s'.node.line? = some line := by
  have hlines {ss : List Step} :
      line ∉ (Scope.empty.behind ss).lines ↔ ¬ ∃ s' ∈ ss, s'.node.line? = some line := by
    rw [Scope.mem_lines_behind_iff]
    simp [Scope.empty]
  rw [Scope.mem_review_program_iff]
  constructor
  · rintro ⟨pre', s', post', hss', h⟩
    obtain ⟨-, hpos, hline⟩ := Scope.mem_checkConstruction_line_iff.1 h
    rw [pos_node] at hpos
    -- the steps differ in position, so there is only one way to cut them at this one
    have hs : s ∈ ss := by simp [hss]
    have hs' : s' ∈ ss := by simp [hss']
    obtain rfl : s = s' := List.inj_on_of_nodup_map hnodup hs hs' hpos
    have hcut := hnodup.of_map
    rw [hss, List.nodup_middle, List.nodup_cons, List.mem_append, not_or] at hcut
    obtain ⟨rfl, -, -⟩ :=
      (List.append_cons_inj_of_notMem hcut.1.1 hcut.1.2).1 (hss.symm.trans hss')
    exact hlines.1 hline
  · intro h
    exact ⟨pre, s, post, hss, Scope.mem_checkConstruction_line_iff.2
      ⟨⟨a, b, first, second, hk⟩, (pos_node s).symm, hlines.2 h⟩⟩

/-! ## The diagnostics of a program -/

namespace Compilation

variable {c : Compilation} {sc : Script} {text : String} {path : Option String}
  {ss pre post : List Step} {s : Step} {t t' : PointTable} {pos : Position} {message : String}

theorem warns_iff (hdiag : c.diagnostics = sc.diagnostics (Step.program ss)) :
    c.Warns sc.path pos message ↔
      ∃ r ∈ (Step.program ss).review, r.cause.message = message ∧ r.pos = pos := by
  simp [Warns, hdiag, Script.diagnostics]

theorem review_eq_nil (hdiag : c.diagnostics = sc.diagnostics (Step.program ss))
    (hsilent : c.diagnostics = []) : (Step.program ss).review = [] := by
  rw [hdiag] at hsilent
  exact List.map_eq_nil_iff.1 hsilent

/-- A generated corner of a figure with a title has a diagnostic. -/
theorem warns_corner (hdiag : c.diagnostics = sc.diagnostics (Step.program ss))
    (htrail : Trail t ss t') (hs : s ∈ ss) {p : Point} (hp : p ∈ s.node.putPoints)
    (hgen : p.source = .generated) {figure end' : String}
    (htitle : s.figure.title? = some figure)
    (hend : "\" is not defined for " ++ figure = end') :
    c.Warns sc.path p.pos ("point \"" ++ p.name ++ end') := by
  have hcorner : p ∈ s.figure.corners := by rwa [← s.figure.putPoints_node s.pos]
  have hr := htrail.mem_review_corner hs hcorner (by rw [hgen]; rfl)
  rw [htitle] at hr
  exact (warns_iff hdiag).2 ⟨_, hr, RemarkCause.message_pointUndefined p.name hend, rfl⟩

/-- The line of a perpendicular has a diagnostic exactly if no step before draws it. -/
theorem warns_line_iff (h : (Script.ofText text path).reading.steps t = .ok (ss, t'))
    (hdiag : c.diagnostics = (Script.ofText text path).diagnostics (Step.program ss))
    (hss : ss = pre ++ s :: post) {x y : Char} {a b : Point} {first second : Coord}
    (hk : s.node.kind = .drawPerpendicular (String.ofList [x, y]) a b first second) :
    c.Warns path s.pos s!"line \"{String.ofList [x, y]}\" is not defined for perpendicular line" ↔
      ¬ ∃ s' ∈ pre, s'.node.DrawsLine x y := by
  have hdrawn : (∃ s' ∈ pre, s'.node.DrawsLine x y) ↔
      ∃ s' ∈ pre, s'.node.line? = some (String.ofList [x, y]) := by
    refine exists_congr fun s' => and_congr_right fun hs' => ?_
    have hmem : s' ∈ ss := by simp [hss, hs']
    exact (Node.line?_eq_some_iff (Script.named_of_steps h hmem)).symm
  rw [hdrawn, ← Step.mem_review_line_iff hss (Script.nodup_positions_of_steps h) hk]
  refine (warns_iff hdiag).trans ⟨?_, ?_⟩
  · rintro ⟨⟨pos, cause⟩, hr, hmessage, rfl⟩
    rwa [← RemarkCause.eq_of_message_eq_line hmessage]
  · intro hr
    exact ⟨_, hr, RemarkCause.message_line _, rfl⟩

/-- A compilation exposes what the steps of its text have invented. -/
theorem exposes_of_steps (h : (Script.ofText text path).reading.steps t = .ok (ss, t'))
    (htree : c.drawing.tree = Step.program ss)
    (hdiag : c.diagnostics = (Script.ofText text path).diagnostics (Step.program ss)) :
    c.Exposes path := by
  have htrail := Reading.trail_of_steps h
  have hops : c.drawing.tree.operations = ss.map Step.node := by
    rw [htree, Step.operations_program]
  have step_of_mem {n : Node} (hn : n ∈ c.drawing.tree.operations) : ∃ s ∈ ss, s.node = n :=
    List.mem_map.1 (hops ▸ hn)
  constructor
  case triangle =>
    intro n p hn hk hp hgen
    obtain ⟨s, hs, rfl⟩ := step_of_mem hn
    exact warns_corner hdiag htrail hs hp hgen (Figure.title?_of_kind_triangle hk) rfl
  case square =>
    intro n side p hn hk hp hgen
    obtain ⟨s, hs, rfl⟩ := step_of_mem hn
    exact warns_corner hdiag htrail hs hp hgen (Figure.title?_of_kind_square hk) rfl
  case segment =>
    intro n a b hn hk hgen ha hb
    obtain ⟨s, hs, rfl⟩ := step_of_mem hn
    have hr := htrail.mem_review_segment hs (Figure.eq_segment_of_kind hk) hgen ha hb
    rw [Step.pos_node]
    exact (warns_iff hdiag).2 ⟨_, hr, RemarkCause.message_endsUndefined a.name b.name rfl, rfl⟩
  case perpendicular =>
    intro n segment a b first second hn hk hdef
    obtain ⟨s, hs, rfl⟩ := step_of_mem hn
    obtain ⟨side, arms, hf, -⟩ := Figure.exists_of_kind_perpendicular hk
    have hr := htrail.mem_review_perpendicular hs hf hdef
    rw [Step.pos_node]
    exact (warns_iff hdiag).2 ⟨_, hr, RemarkCause.message_endsUndefined a.name b.name rfl, rfl⟩
  case line =>
    intro before after n segment a b first second hcut hk
    rw [hops] at hcut
    obtain ⟨pre, rest, hss, rfl, hrest⟩ := List.map_eq_append_iff.1 hcut
    obtain ⟨s, post, rfl, rfl, rfl⟩ := List.map_eq_cons_iff.1 hrest
    obtain ⟨side, arms, -, rfl⟩ := Figure.exists_of_kind_perpendicular hk
    refine ⟨side.first, side.second, rfl, ?_⟩
    simp only [List.mem_map, exists_exists_and_eq_and]
    rw [Step.pos_node]
    exact warns_line_iff h hdiag hss hk
  case silent =>
    intro n p hsilent hn hp
    rw [htree] at hn
    rw [hops]
    exact htrail.source_of_silent (review_eq_nil hdiag hsilent) hn hp

end Compilation

namespace Script

/-- A text that is compiled, or only checked, has diagnostics for every invented point and for every
line that is not drawn before it is used. -/
theorem exposes_of_compile_or_check {text : String} {path : Option String} {t : PointTable}
    {g : Grid} {sink sink' : Sink} {c : Compilation}
    (h : (ofText text path).compile t g sink = (.ok c, sink') ∨
      (ofText text path).check t g sink = (.ok c, sink')) : c.Exposes path := by
  obtain ⟨hparse, hdiag⟩ := h.elim of_compileTo of_compileTo
  obtain ⟨ss, t', hss, hd⟩ := Reading.draw_eq_ok_iff.1 (parse_eq_ok_iff.1 hparse)
  have htree : c.drawing.tree = Step.program ss := by
    rw [← hd]
    rfl
  rw [htree] at hdiag
  exact Compilation.exposes_of_steps hss htree hdiag

/-- A script of one perpendicular. -/
def onePerpendicular : Script := .ofText "провести пряму , перпендикулярну до відрізка AB" none

/-- A table that knows only one end of the segment. -/
def endKnown : PointTable := (PointTable.ofTape ⟨fun _ => 0, 0, 0⟩).insert "B" ⟨1, 4⟩

theorem exposes_of_onePerpendicular :
    ∃ c sink, onePerpendicular.check endKnown .standard .unlimited = (.ok c, sink) ∧
      c.Exposes none := by
  have e : Reader.operation ⟨onePerpendicular.tokens, []⟩ =
      .ok ⟨⟨1, 1⟩, .perpendicular ⟨'A', 'B', ⟨1, 46⟩⟩⟩ ⟨[], []⟩ := by rfl
  have hsome : (onePerpendicular.parse endKnown).toOption.isSome = true := by
    rw [parse, reading, Reading.ofTokens_of_end e]
    decide +kernel
  cases h : onePerpendicular.parse endKnown with
  | error f => simp [h, Except.toOption] at hsome
  | ok d =>
    have hcheck : onePerpendicular.check endKnown .standard .unlimited =
        (.ok ⟨d, onePerpendicular.diagnostics d.tree⟩, .unlimited) := by
      simp only [check, compileTo, h]
      rfl
    exact ⟨_, _, hcheck, exposes_of_compile_or_check (.inr hcheck)⟩

end Script

end Planimetry
