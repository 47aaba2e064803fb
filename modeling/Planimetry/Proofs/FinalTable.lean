import Planimetry.Proofs.Mentions

/-!
# The table behind a program

The table behind a program is told by the table before it and the points that the program mentions,
in the order of the text.

## Main definitions

* `TableLaw`: what mentions and their points say about two tables.
* `Step.Spares`: what a step leaves alone.

Main statement: `final_table`, the law of a program and what each of its operations leaves alone.
-/

namespace Planimetry

/-- What mentions, each with its point in the tree, say about the tables before and behind them. -/
structure TableLaw (t : PointTable) (rs : List (Mention × Point)) (t' : PointTable) : Prop where
  same {m : Mention} {p : Point} : (m, p) ∈ rs → p.name = m.name ∧ p.pos = m.pos
  /-- The table has the names that it had and those that are mentioned. -/
  keys (name : String) : t'.Knows name ↔ t.Knows name ∨ name ∈ rs.map (·.1.name)
  /-- The last given coordinates count; without any those that the table had; else those of the
  first mention. -/
  value (name : String) : t'.points.get? name =
    ((lastGiven (rs.map Prod.fst) name).or (t.points.get? name)).or (firstCoord rs name)
  given {m : Mention} {p : Point} : (m, p) ∈ rs → (p.source = .explicit ↔ m.given.isSome)
  /-- Without coordinates the first mention of a name is known if the table has the name, else it is
  generated. -/
  first {pre post : List (Mention × Point)} {m : Mention} {p : Point} :
    rs = pre ++ (m, p) :: post → m.name ∉ pre.map (·.1.name) → m.given = none →
      (p.source = .known ↔ t.Knows m.name) ∧ (p.source = .generated ↔ ¬ t.Knows m.name)
  later {pre post : List (Mention × Point)} {m : Mention} {p : Point} :
    rs = pre ++ (m, p) :: post → m.name ∈ pre.map (·.1.name) →
      p.source = .explicit ∨ p.source = .known

namespace Mention.Becomes

variable {m : Mention} {p : Point} {t t' : PointTable}

/-- Without coordinates a mention is known or generated, as the table has its name or not. -/
theorem source_iff (h : m.Becomes t p t') (hm : m.given = none) :
    (p.source = .known ↔ t.Knows m.name) ∧ (p.source = .generated ↔ ¬ t.Knows m.name) := by
  cases h with
  | given c' hg => cases hm.symm.trans hg
  | known hg hk => simp [PointTable.Knows, hk]
  | generated hg hn => simp [PointTable.Knows, hn]

theorem explicit_or_known (h : m.Becomes t p t') (hk : t.Knows m.name) :
    p.source = .explicit ∨ p.source = .known := by
  cases hm : m.given with
  | none => exact .inr ((h.source_iff hm).1.2 hk)
  | some c => exact .inl (h.explicit_iff.2 (Option.isSome_of_eq_some hm))

theorem knows_iff (h : m.Becomes t p t') (name : String) :
    t'.Knows name ↔ t.Knows name ∨ name = m.name := by
  unfold PointTable.Knows
  rw [h.get?_eq]
  by_cases hname : m.name = name
  · simp [hname]
  · simp [Mention.gives?, hname, Ne.symm hname]

end Mention.Becomes

namespace Resolves

variable {t t' : PointTable} {rs : List (Mention × Point)}

theorem knows_iff (h : Resolves t rs t') (name : String) :
    t'.Knows name ↔ t.Knows name ∨ name ∈ rs.map (·.1.name) := by
  induction h with
  | nil t => simp
  | cons hm _ ih => rw [ih, hm.knows_iff, List.map_cons, List.mem_cons, or_assoc]

theorem map_name (h : Resolves t rs t') : rs.map (·.2.name) = rs.map (·.1.name) := by
  induction h with
  | nil t => rfl
  | cons hm _ ih => rw [List.map_cons, List.map_cons, hm.name_eq, ih]

/-- A name that is not mentioned keeps its coordinates. -/
theorem get?_of_notMem (h : Resolves t rs t') {name : String}
    (hname : name ∉ rs.map (·.1.name)) : t'.points.get? name = t.points.get? name := by
  induction h with
  | nil t => rfl
  | @cons t t₁ t' m p rs hm _ ih =>
    rw [List.map_cons, List.mem_cons, not_or] at hname
    have hne : m.name ≠ name := Ne.symm hname.1
    rw [ih hname.2, hm.get?_eq]
    simp [Mention.gives?, hne]

/-- Mentions that become points, one after another, keep the law. -/
theorem tableLaw (h : Resolves t rs t') : TableLaw t rs t' where
  same hr := by
    obtain ⟨t₁, t₂, hm⟩ := h.exists_becomes hr
    exact ⟨hm.name_eq, hm.pos_eq⟩
  keys := h.knows_iff
  value := h.get?_eq
  given hr := by
    obtain ⟨t₁, t₂, hm⟩ := h.exists_becomes hr
    exact hm.explicit_iff
  first := by
    rintro pre post m p rfl hnew hgiven
    obtain ⟨t₁, t₂, hpre, hm, -⟩ := h.exists_of_cut
    have hknows : t₁.Knows m.name ↔ t.Knows m.name := by simp [hpre.knows_iff, hnew]
    rw [← hknows]
    exact hm.source_iff hgiven
  later := by
    rintro pre post m p rfl hold
    obtain ⟨t₁, t₂, hpre, hm, -⟩ := h.exists_of_cut
    exact hm.explicit_or_known ((hpre.knows_iff m.name).2 (.inr hold))

end Resolves

/-! ## What a step leaves alone -/

/-- The step leaves alone what it does not refer to: a perpendicular leaves the whole table alone,
and a square the names of its derived corners. -/
structure Step.Spares (s : Step) (t t' : PointTable) : Prop where
  others {name : String} : name ∉ s.node.references.map Point.name →
    t'.points.get? name = t.points.get? name
  perpendicular {segment : String} {a b : Point} {first second : Coord} :
    s.node.kind = .drawPerpendicular segment a b first second → t' = t
  derived {p : Point} : p ∈ s.node.putPoints → p.source = .derived →
    t'.points.get? p.name = t.points.get? p.name

/-- The name of a corner is longer than that of an end of the side. -/
theorem Side.name_corner_ne (s : Side) (x y : Char) (c : Coord) :
    (s.corner x.toString c).name ≠ y.toString := by
  intro h
  have hlength := congrArg (fun name : String => name.toList.length) h
  simp [corner] at hlength

/-- No construction refers to the name of a derived corner. -/
theorem Operation.notMem_references {op : Operation} {s : Step} {t t' : PointTable}
    (h : op.settle.run t = .ok (s, t')) (hop : op.command.Listed) {p : Point}
    (hp : p ∈ s.node.putPoints) (hderived : p.source = .derived) :
    p.name ∉ s.node.references.map Point.name := by
  have hp' : p ∉ s.node.references := by
    obtain ⟨rs, -, hps, hrs⟩ := resolves_of_settle h hop
    rw [← hps]
    intro hmem
    obtain ⟨⟨m, p⟩, hr, rfl⟩ := List.mem_map.1 hmem
    obtain ⟨t₁, t₂, hm⟩ := hrs.exists_becomes hr
    exact hm.source_ne_derived hderived
  -- Only squares have corners that they do not refer to.
  obtain ⟨-, hc⟩ := settles_of_settle h
  obtain ⟨pos, c⟩ := op
  obtain ⟨pos', f⟩ := s
  cases hc with
  | @square s g g' a b c d _ _ ha hb =>
    have ha := Mention.becomes_of_settle ha
    have hb := Mention.becomes_of_settle hb
    have href := Figure.references_square ha.source_ne_derived hb.source_ne_derived s c d pos'
    have hcorners := (Figure.square s a b _ _).putPoints_node pos' ▸ hp
    rw [Step.node, href] at hp' ⊢
    simp only [Figure.corners, List.mem_cons, List.not_mem_nil, or_false, not_or] at hcorners hp'
    rcases hcorners with rfl | rfl | rfl | rfl
    · exact absurd rfl hp'.1
    · exact absurd rfl hp'.2
    all_goals
      simp only [List.map_cons, List.map_nil, ha.name_eq, hb.name_eq, List.mem_cons,
        List.not_mem_nil, or_false, not_or]
      exact ⟨s.name_corner_ne _ _ _, s.name_corner_ne _ _ _⟩
  | connect => exact absurd hp hp'
  | triangle => exact absurd hp hp'
  | _ => cases hp

theorem Operation.spares_of_settle {op : Operation} {s : Step} {t t' : PointTable}
    (h : op.settle.run t = .ok (s, t')) (hop : op.command.Listed) : s.Spares t t' := by
  have hothers {name : String} (hname : name ∉ s.node.references.map Point.name) :
      t'.points.get? name = t.points.get? name := by
    obtain ⟨rs, -, hps, hrs⟩ := resolves_of_settle h hop
    rw [← hps, List.map_map] at hname
    exact hrs.get?_of_notMem (hrs.map_name ▸ hname)
  refine ⟨hothers, ?_, fun hp hderived => hothers (notMem_references h hop hp hderived)⟩
  intro segment a b first second hk
  obtain ⟨-, hc⟩ := settles_of_settle h
  obtain ⟨side, arms, hf, -⟩ := Figure.exists_of_kind_perpendicular hk
  rw [hf] at hc
  generalize op.command = c at hc
  cases hc
  rfl

/-! ## Programs -/

namespace Script

/-- The table behind a text obeys the law, and its operations leave alone what they do not refer
to. -/
theorem final_table {s : Script} {t : PointTable} {d : Drawing} (h : s.parse t = .ok d) :
    (∃ rs, rs.map Prod.fst = s.mentions ∧ rs.map Prod.snd = d.references ∧
      TableLaw t rs d.table) ∧
    ∀ op ∈ s.reading.operations, ∀ step t₁ t₂,
      op.settle.run t₁ = .ok (step, t₂) → step.Spares t₁ t₂ := by
  obtain ⟨rs, hms, hps, hrs⟩ := resolves_of_parse h
  refine ⟨⟨rs, hms, hps, hrs.tableLaw⟩, fun op hop step t₁ t₂ hstep => ?_⟩
  exact Operation.spares_of_settle hstep (Reading.listed_of_mem hop)

/-- A script of one square. -/
def oneSquare : Script := .ofText "побудувати квадрат зі стороною AB (0,0) (2,0)" none

/-- A table that knows a point with the name of a corner. -/
def cornerKnown : PointTable := (PointTable.ofTape ⟨fun _ => 0, 0, 0⟩).insert "A1" ⟨7, 7⟩

theorem final_table_of_oneSquare :
    ∃ d, oneSquare.parse cornerKnown = .ok d ∧ d.table.points.get? "A1" = some ⟨7, 7⟩ ∧
      ∃ rs, rs.map Prod.fst = oneSquare.mentions ∧ rs.map Prod.snd = d.references ∧
        TableLaw cornerKnown rs d.table := by
  have hcorner : ((oneSquare.parse cornerKnown).toOption.map fun d => d.table.points.get? "A1") =
      some (some ⟨7, 7⟩) := by
    decide +kernel
  cases h : oneSquare.parse cornerKnown with
  | error f => simp [h, Except.toOption] at hcorner
  | ok d =>
    rw [h] at hcorner
    exact ⟨d, rfl, Option.some.inj hcorner, (final_table h).1⟩

end Script

end Planimetry
