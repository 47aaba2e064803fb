import Mathlib.Data.List.Forall2
import Planimetry.Compilation

/-!
# The steps of a program

A drawing comes from the steps of its operations, each of which is settled on the table that the
one before it left.

## Main definitions

* `Mention.Becomes`: the way of a mention to its point in the tree.
* `Command.Settles`: the way of a command to its figure.
* `Reading.steps`: the steps of a reading and the table behind them, or the first fault.
-/

namespace Planimetry

/-- The kind of the fault of a program that draws nothing. -/
def DrawingFault.kind : DrawingFault → FaultKind
  | wording _ => .wording
  | geometry _ => .geometry

theorem Fault.kind_ofDrawing (s : Script) (e : DrawingFault) : (ofDrawing s e).kind = e.kind := by
  cases e <;> rfl

/-- What is known of a result that may be absent, when it is there. -/
theorem exists_eq_ok_of_map_toOption {ε α β : Type} {x : Except ε α} {f : α → β} {b : β}
    (h : x.toOption.map f = some b) : ∃ a, x = .ok a ∧ f a = b := by
  cases x with
  | error e => cases h
  | ok a => exact ⟨a, rfl, Option.some.inj h⟩

/-! ## Single steps -/

theorem table_of_constructed {α : Type} {pos : Position}
    {cause : ConstructionFault → GeometryCause} {x : Except ConstructionFault α} {a : α}
    {t t' : PointTable} (h : (constructed pos cause x).run t = .ok (a, t')) : t' = t := by
  cases x with
  | error e => cases h
  | ok b =>
    cases h
    rfl

/-- The ways of a mention to its point in the tree, and from the table `t` to the one that it
leaves. Behind written coordinates the point may stand elsewhere in the tree: listed points that
share a name stand where the last of them was put. -/
inductive Mention.Becomes (t : PointTable) (m : Mention) : Point → PointTable → Prop where
  | given {c : Coord} (c' : Coord) :
      m.given = some c → Becomes t m ⟨m.name, c', .explicit, m.pos⟩ (t.insert m.name c)
  | known {c : Coord} :
      m.given = none → t.points.get? m.name = some c → Becomes t m ⟨m.name, c, .known, m.pos⟩ t
  | generated {c : Coord} {tape : Tape} :
      m.given = none → t.points.get? m.name = none → t.generate = .ok (c, tape) →
        Becomes t m ⟨m.name, c, .generated, m.pos⟩ ({ t with tape }.insert m.name c)

theorem Mention.becomes_of_settle {m : Mention} {p : Point} {t t' : PointTable}
    (h : m.settle.run t = .ok (p, t')) : m.Becomes t p t' := by
  change m.settle t = _ at h
  unfold settle PointTable.resolve at h
  cases hg : m.given with
  | some c =>
    simp only [hg] at h
    cases h
    exact .given c hg
  | none =>
    cases hk : t.points.get? m.name with
    | some c =>
      simp only [hg, hk] at h
      cases h
      exact .known hg hk
    | none =>
      simp only [hg, hk] at h
      cases hgen : t.generate with
      | error e => simp [hgen] at h
      | ok r =>
        simp only [hgen] at h
        cases h
        exact .generated hg hk hgen

/-- The ways of a command to its figure, and from the table `t` to the one that it leaves. -/
inductive Command.Settles (t : PointTable) : Command → Figure → PointTable → Prop where
  | place {m : Mention} {p : Point} {t' : PointTable} :
      m.settle.run t = .ok (p, t') → Settles t (.place m) (.point p) t'
  | connect {ms : List Mention} {ps : List Point} {t' : PointTable} :
      (ms.mapM Mention.settle).run t = .ok (ps, t') →
        Settles t (.connect ms) (.network (ps.map (·.refresh t'))) t'
  | segment {l m : Mention} {a b : Point} {t₁ t' : PointTable} :
      l.settle.run t = .ok (a, t₁) → m.settle.run t₁ = .ok (b, t') →
        Settles t (.segment l m) (.segment a b) t'
  | perpendicular {s : Side} {arms : Perpendicular} :
      Planimetry.perpendicular (s.lookup s.firstName t).coord (s.lookup s.secondName t).coord =
          .ok arms →
        Settles t (.perpendicular s)
          (.perpendicular s (s.lookup s.firstName t) (s.lookup s.secondName t) arms) t
  | triangle {l m n : Mention} {a b c : Point} {t₁ t₂ t' : PointTable} :
      l.settle.run t = .ok (a, t₁) → m.settle.run t₁ = .ok (b, t₂) → n.settle.run t₂ = .ok (c, t') →
        Settles t (.triangle l m n) (.triangle a b c) t'
  | square {s : Side} {given given' : Option Coord} {a b : Point} {c d : Coord}
      {t₁ t' : PointTable} :
      (Mention.settle ⟨s.firstName, s.pos, given⟩).run t = .ok (a, t₁) →
      (Mention.settle ⟨s.secondName, s.pos, given'⟩).run t₁ = .ok (b, t') →
      squareCorners a.coord b.coord = .ok (c, d) →
        Settles t (.square s given given')
          (.square s a b (s.corner s.firstName c) (s.corner s.secondName d)) t'

theorem Command.settles_of_settle {c : Command} {f : Figure} {t t' : PointTable}
    (h : c.settle.run t = .ok (f, t')) : c.Settles t f t' := by
  cases c with
  | place m =>
    obtain ⟨p, t₁, hp, h⟩ := Settling.bind_eq_ok_iff.1 h
    cases h
    exact .place hp
  | connect ms =>
    obtain ⟨ps, t₁, hps, h⟩ := Settling.bind_eq_ok_iff.1 h
    cases h
    exact .connect hps
  | segment l m =>
    obtain ⟨a, t₁, ha, h⟩ := Settling.bind_eq_ok_iff.1 h
    obtain ⟨b, t₂, hb, h⟩ := Settling.bind_eq_ok_iff.1 h
    cases h
    exact .segment ha hb
  | perpendicular s =>
    obtain ⟨t₁, t₂, ht, h⟩ := Settling.bind_eq_ok_iff.1 h
    cases ht
    obtain ⟨arms, t₃, harms, h⟩ := Settling.bind_eq_ok_iff.1 h
    cases h
    obtain rfl := table_of_constructed harms
    exact .perpendicular (eq_ok_of_constructed harms)
  | triangle l m n =>
    obtain ⟨a, t₁, ha, h⟩ := Settling.bind_eq_ok_iff.1 h
    obtain ⟨b, t₂, hb, h⟩ := Settling.bind_eq_ok_iff.1 h
    obtain ⟨c, t₃, hc, h⟩ := Settling.bind_eq_ok_iff.1 h
    cases h
    exact .triangle ha hb hc
  | square s given given' =>
    obtain ⟨a, t₁, ha, h⟩ := Settling.bind_eq_ok_iff.1 h
    obtain ⟨b, t₂, hb, h⟩ := Settling.bind_eq_ok_iff.1 h
    obtain ⟨⟨c, d⟩, t₃, hcd, h⟩ := Settling.bind_eq_ok_iff.1 h
    cases h
    obtain rfl := table_of_constructed hcd
    exact .square ha hb (eq_ok_of_constructed hcd)

/-- A step stands where its operation does, and has the figure of its command. -/
theorem Operation.settles_of_settle {op : Operation} {s : Step} {t t' : PointTable}
    (h : op.settle.run t = .ok (s, t')) : s.pos = op.pos ∧ op.command.Settles t s.figure t' := by
  obtain ⟨f, t₁, hf, h⟩ := Settling.bind_eq_ok_iff.1 h
  cases h
  exact ⟨rfl, Command.settles_of_settle hf⟩

/-! ## All steps of a program -/

namespace Reading

variable {r : Reading} {t t' : PointTable} {op : Operation} {s : Step} {ss : List Step}
  {d : Drawing}

/-- The steps of a reading and the table behind them, or the first fault. -/
def steps (r : Reading) (t : PointTable) : Except DrawingFault (List Step × PointTable) :=
  match (r.operations.mapM Operation.settle).run t with
  | .error e => .error (.geometry e)
  | .ok (ss, t') =>
    match r.stop with
    | none => .ok (ss, t')
    | some stop =>
      match (stop.mentions.mapM Mention.settle).run t' with
      | .error e => .error (.geometry e)
      | .ok _ => .error (.wording stop.fault)

/-- What is drawn are the steps. -/
theorem draw_eq_map_steps (r : Reading) (t : PointTable) :
    r.draw t = (r.steps t).map fun (ss, t') => .ofSteps ss t' := by
  unfold draw steps
  cases (r.operations.mapM Operation.settle).run t with
  | error e => rfl
  | ok a =>
    cases r.stop with
    | none => rfl
    | some stop => cases h : (stop.mentions.mapM Mention.settle).run a.2 <;> simp [h, Except.map]

theorem draw_eq_ok_iff :
    r.draw t = .ok d ↔ ∃ ss t', r.steps t = .ok (ss, t') ∧ .ofSteps ss t' = d := by
  rw [draw_eq_map_steps]
  cases r.steps t with
  | error e => simp [Except.map]
  | ok a =>
    constructor
    · intro h
      exact ⟨a.1, a.2, rfl, Except.ok.inj h⟩
    · rintro ⟨ss, t', h, rfl⟩
      cases h
      rfl

theorem draw_eq_error_iff {e : DrawingFault} : r.draw t = .error e ↔ r.steps t = .error e := by
  rw [draw_eq_map_steps]
  cases r.steps t <;> simp [Except.map]

/-- A text that was read to its end has an operation. -/
theorem operations_ne_nil {ts : List Token} (h : (ofTokens ts).stop = none) :
    (ofTokens ts).operations ≠ [] := by
  revert h
  fun_cases ofTokens ts <;> simp [cons]

/-- Only a reading that came to the end of its text has steps. -/
theorem stop_eq_none_of_steps (h : r.steps t = .ok (ss, t')) : r.stop = none := by
  unfold steps at h
  split at h
  · cases h
  · split at h
    · assumption
    · split at h <;> cases h

/-- A fault of the text is the one at which the reading stopped. -/
theorem exists_stop_of_steps {f : SyntaxFault} (h : r.steps t = .error (.wording f)) :
    ∃ stop, r.stop = some stop ∧ stop.fault = f := by
  unfold steps at h
  split at h
  · cases h
  · split at h
    · cases h
    · rename_i stop hstop
      split at h <;> cases h
      exact ⟨stop, hstop, rfl⟩

theorem run_mapM_cons (op : Operation) (ops : List Operation) (t : PointTable) :
    ((op :: ops).mapM Operation.settle).run t =
      match op.settle.run t with
      | .error e => .error e
      | .ok (s, t') =>
        ((ops.mapM Operation.settle).run t').map fun (ss, t'') => (s :: ss, t'') := by
  simp only [List.mapM_cons, StateT.run_bind, StateT.run_pure]
  cases op.settle.run t with
  | error e => rfl
  | ok a => cases h : (ops.mapM Operation.settle).run a.2 <;>
      simp [h, bind, Except.bind, pure, Except.pure, Except.map]

/-- The first operation is settled first, and the others on the table that it leaves. -/
theorem steps_cons (op : Operation) (r : Reading) (t : PointTable) :
    (r.cons op).steps t =
      match op.settle.run t with
      | .error e => .error (.geometry e)
      | .ok (s, t') => (r.steps t').map fun (ss, t'') => (s :: ss, t'') := by
  unfold steps
  rw [cons, run_mapM_cons]
  cases op.settle.run t with
  | error e => rfl
  | ok a =>
    obtain ⟨s, t'⟩ := a
    dsimp only
    cases (r.operations.mapM Operation.settle).run t' with
    | error e => rfl
    | ok b =>
      cases r.stop with
      | none => rfl
      | some stop => cases h : (stop.mentions.mapM Mention.settle).run b.2 <;> simp [h, Except.map]

theorem exists_of_steps_cons {ops : List Operation} {stop : Option Stop}
    (h : (⟨op :: ops, stop⟩ : Reading).steps t = .ok (ss, t')) :
    ∃ s t₁ ss', op.settle.run t = .ok (s, t₁) ∧
      (⟨ops, stop⟩ : Reading).steps t₁ = .ok (ss', t') ∧ ss = s :: ss' := by
  change (cons op ⟨ops, stop⟩).steps t = _ at h
  rw [steps_cons] at h
  cases hop : op.settle.run t with
  | error e => simp [hop] at h
  | ok a =>
    cases hss : (⟨ops, stop⟩ : Reading).steps a.2 with
    | error e => simp [hop, hss, Except.map] at h
    | ok b =>
      simp only [hop, hss, Except.map, Except.ok.injEq, Prod.mk.injEq] at h
      obtain ⟨rfl, rfl⟩ := h
      exact ⟨a.1, a.2, b.1, rfl, hss, rfl⟩

/-- Each step is that of an operation, on some table. -/
theorem forall₂_of_steps (h : r.steps t = .ok (ss, t')) :
    List.Forall₂ (fun op s => ∃ t t', op.settle.run t = .ok (s, t')) r.operations ss := by
  obtain ⟨ops, stop⟩ := r
  induction ops generalizing t ss with
  | nil =>
    obtain rfl : stop = none := stop_eq_none_of_steps h
    cases h
    exact .nil
  | cons op ops ih =>
    obtain ⟨s, t₁, ss, hop, hss, rfl⟩ := exists_of_steps_cons h
    exact .cons ⟨t, t₁, hop⟩ (ih hss)

theorem exists_operation_of_mem (h : r.steps t = .ok (ss, t')) (hs : s ∈ ss) :
    ∃ op ∈ r.operations, ∃ t t', op.settle.run t = .ok (s, t') := by
  have hops := forall₂_of_steps h
  clear h
  generalize r.operations = ops at hops
  induction hops with
  | nil => cases hs
  | cons hop _ ih =>
    rcases List.mem_cons.1 hs with rfl | hs
    · exact ⟨_, List.mem_cons_self, hop⟩
    · obtain ⟨op, hmem, hop⟩ := ih hs
      exact ⟨op, List.mem_cons_of_mem _ hmem, hop⟩

/-- The steps of a text are not none. -/
theorem ne_nil_of_steps {ts : List Token} (h : (ofTokens ts).steps t = .ok (ss, t')) : ss ≠ [] := by
  have hops := forall₂_of_steps h
  rintro rfl
  exact operations_ne_nil (stop_eq_none_of_steps h) (List.forall₂_nil_right_iff.1 hops)

/-- A single operation is settled on the table at hand. -/
theorem steps_single (op : Operation) (t : PointTable) :
    (⟨[op], none⟩ : Reading).steps t =
      match op.settle.run t with
      | .error e => .error (.geometry e)
      | .ok (s, t') => .ok ([s], t') :=
  steps_cons op ⟨[], none⟩ t

end Reading

namespace Script

variable {s : Script} {t t' : PointTable} {ss : List Step} {e : DrawingFault}

theorem parse_of_steps_ok (h : s.reading.steps t = .ok (ss, t')) :
    s.parse t = .ok (.ofSteps ss t') :=
  parse_eq_ok_iff.2 (Reading.draw_eq_ok_iff.2 ⟨ss, t', h, rfl⟩)

theorem parse_of_steps_error (h : s.reading.steps t = .error e) :
    s.parse t = .error (.ofDrawing s e) :=
  parse_eq_error_iff.2 ⟨e, Reading.draw_eq_error_iff.2 h, rfl⟩

end Script

/-! ## The tree of the steps -/

theorem Figure.isOperation_node (f : Figure) (pos : Position) :
    (f.node pos).isOperation = false := by
  cases f <;> rfl

namespace Step

theorem isOperation_node (s : Step) : s.node.isOperation = false :=
  s.figure.isOperation_node s.pos

/-- The constructions of a chain are the nodes of its steps. -/
theorem chainFrom_chain (s : Step) (ss : List Step) :
    Node.chainFrom (.mk .operation s.pos (s.node :: chain ss)) = (s :: ss).map node := by
  induction ss generalizing s with
  | nil => simp [chain, Node.chainFrom, Node.chainBehind, isOperation_node]
  | cons s' ss ih =>
    have h : (Node.mk .operation s'.pos (s'.node :: chain ss)).isOperation = true := rfl
    rw [Node.chainFrom, chain, Node.chainBehind, if_pos (by simp [h]), Node.chainBehind,
      if_neg (by simp), if_pos h, ih s']
    simp [h, isOperation_node]

/-- The constructions of a program are the nodes of its steps. -/
theorem operations_program (ss : List Step) : (program ss).operations = ss.map node := by
  cases ss with
  | nil => rfl
  | cons s ss => exact chainFrom_chain s ss

end Step

end Planimetry
