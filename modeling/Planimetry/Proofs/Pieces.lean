import Mathlib.Data.List.Forall2
import Planimetry.Proofs.Prediction.Commands
import Planimetry.Proofs.Steps

/-!
# The pieces of a program

A text is cut at every `;`. Parsing it is the same as parsing its pieces one after the other, each
of them on the table that the piece before it left.

## Main definitions

* `pieces`: the texts between the `;` of a text.
* `Script.parseParts`: parses several texts one after the other.

Main statement: `parse_pieces`, the drawing of a program is made of those of its pieces.
-/

namespace Planimetry

open Reader (Closed Alike reads_operation)

/-! ## Cutting -/

/-- The texts between the `;` of a text. Nothing has to stand behind the last `;`. -/
def pieces (ts : List Token) : List (List Token) :=
  let ps := ts.splitOnP (·.isDelimiter ";")
  if 1 < ps.length ∧ ps.getLast? = some [] then ps.dropLast else ps

/-- No token of the text is a `;`. -/
def Uncut (p : List Token) : Prop := ∀ t ∈ p, t.isDelimiter ";" = false

section Cutting

variable {p rest : List Token} {t : Token}

theorem splitOnP_ne_singleton_nil {q : Token → Bool} (h : rest ≠ []) :
    rest.splitOnP q ≠ [[]] := by
  obtain ⟨t, ts, rfl⟩ := List.exists_cons_of_ne_nil h
  rw [List.splitOnP_cons_eq_if_modifyHead]
  split
  · simp [List.splitOnP_ne_nil]
  · cases ts.splitOnP q <;> simp

theorem pieces_uncut (hp : Uncut p) : pieces p = [p] := by
  simp [pieces, List.splitOnP_eq_singleton hp]

theorem pieces_closed (hp : Uncut p) (ht : t.isDelimiter ";") : pieces (p ++ [t]) = [p] := by
  simp [pieces, List.splitOnP_append_cons_of_forall_mem hp t ht]

/-- The empty last piece of the rest, if it has one, is the empty last piece of the whole. -/
theorem pieces_next (hp : Uncut p) (ht : t.isDelimiter ";") (hrest : rest ≠ []) :
    pieces (p ++ t :: rest) = p :: pieces rest := by
  have hqs := splitOnP_ne_singleton_nil (q := (·.isDelimiter ";")) hrest
  have hne := List.splitOnP_ne_nil (·.isDelimiter ";") rest
  rw [pieces, pieces, List.splitOnP_append_cons_of_forall_mem hp t ht]
  cases h : rest.splitOnP (·.isDelimiter ";") with
  | nil => exact absurd h hne
  | cons q qs =>
    cases qs with
    | nil =>
      -- a rest of one piece is that piece, which is not empty
      rw [h] at hqs
      simpa using hqs
    | cons q' qs =>
      by_cases hlast : (q' :: qs).getLast? = some [] <;> simp [hlast, List.getLast?_cons_cons]

/-- A text is uncut, or its first `;` stands behind an uncut text. -/
theorem uncut_or_exists_cut (ts : List Token) :
    Uncut ts ∨ ∃ p t rest, Uncut p ∧ t.isDelimiter ";" ∧ ts = p ++ t :: rest := by
  induction ts with
  | nil => exact .inl (by simp [Uncut])
  | cons t ts ih =>
    by_cases ht : t.isDelimiter ";"
    · exact .inr ⟨[], t, ts, by simp [Uncut], ht, rfl⟩
    · rcases ih with h | ⟨p, t', rest, hp, ht', rfl⟩
      · exact .inl (List.forall_mem_cons.2 ⟨by simpa using ht, h⟩)
      · exact .inr ⟨t :: p, t', rest, List.forall_mem_cons.2 ⟨by simpa using ht, hp⟩, ht', rfl⟩

/-- Induction on the pieces of a text. -/
theorem cutting_induction {motive : List Token → Prop} (uncut : ∀ p, Uncut p → motive p)
    (closed : ∀ p t, Uncut p → t.isDelimiter ";" → motive (p ++ [t]))
    (next : ∀ p t rest, Uncut p → t.isDelimiter ";" → rest ≠ [] → motive rest →
      motive (p ++ t :: rest))
    (ts : List Token) : motive ts := by
  induction h : ts.length using Nat.strong_induction_on generalizing ts with
  | _ n ih =>
    subst h
    rcases uncut_or_exists_cut ts with h | ⟨p, t, rest, hp, ht, rfl⟩
    · exact uncut ts h
    · by_cases hrest : rest = []
      · exact hrest ▸ closed p t hp ht
      · exact next p t rest hp ht hrest (ih _ (by simp; omega) rest rfl)

end Cutting

/-! ## Reading a piece -/

/-- A text is like the same text with a `;` behind it. -/
theorem alike_append_semicolon {t : Token} (u rest : List Token) (ht : t.isDelimiter ";") :
    Alike u (u ++ t :: rest) := by
  cases u with
  | nil =>
    refine .inr ⟨by simp [Closed], ?_⟩
    intro t' ht'
    obtain rfl : t = t' := Option.some.inj ht'
    exact ht
  | cons t' u => exact .inl rfl

namespace Reading

variable {p rest : List Token} {t : Token} {tab : PointTable}

/-- The reading that stops for another reason. -/
def withFault (r : Reading) (f : SyntaxFault) : Reading :=
  { r with stop := r.stop.map ({ · with fault := f }) }

/-- A text without `;` is one operation, and goes on behind a `;`; or it stops, and a `;` behind it
changes nothing but the fault. -/
theorem ofTokens_uncut (hp : Uncut p) :
    (∃ op, ofTokens p = ⟨[op], none⟩ ∧ ∀ t rest, t.isDelimiter ";" →
      ofTokens (p ++ t :: rest) = if rest.isEmpty then ⟨[op], none⟩ else (ofTokens rest).cons op) ∨
    ((ofTokens p).stop ≠ none ∧ ∀ t rest, t.isDelimiter ";" →
      ∃ f, ofTokens (p ++ t :: rest) = (ofTokens p).withFault f) := by
  have hr := reads_operation.at_text p
  cases e : Reader.operation ⟨p, []⟩ with
  | error x s =>
    right
    obtain ⟨c, -, hts⟩ := hr.viable e
    rw [ofTokens_of_error e]
    refine ⟨nofun, fun t rest ht => ?_⟩
    obtain ⟨y, hy⟩ := hr.error_of_alike hts (alike_append_semicolon s.tokens rest ht) e
    rw [hts, List.append_assoc, ofTokens_of_error hy]
    exact ⟨_, rfl⟩
  | ok op s =>
    obtain ⟨c, -, hts⟩ := hr.taken e
    obtain ⟨u, ms⟩ := s
    cases u with
    | nil =>
      left
      refine ⟨op, ofTokens_of_end e, fun t rest ht => ?_⟩
      have e' := hr.ok_of_alike hts (alike_append_semicolon [] rest ht) e
      rw [hts, List.append_assoc, ofTokens_of_cons e', if_pos ht]
    | cons t' u =>
      -- the token behind the operation is no `;`, so the text stops there in both cases
      right
      have ht' : ¬ t'.isDelimiter ";" = true := by
        have hfalse := hp t' (by simp [hts])
        simp [hfalse]
      rw [ofTokens_of_cons e, if_neg ht']
      refine ⟨nofun, fun t rest ht => ?_⟩
      have e' := hr.ok_of_alike hts (alike_append_semicolon (t' :: u) rest ht) e
      rw [hts, List.append_assoc, ofTokens_of_cons e', if_neg ht']
      exact ⟨_, rfl⟩

/-- Another reason to stop leaves the kind of the fault as it is. -/
theorem exists_steps_withFault {r : Reading} (h : r.stop ≠ none) (tab : PointTable) :
    ∃ e, r.steps tab = .error e ∧
      ∀ f, ∃ e', (r.withFault f).steps tab = .error e' ∧ e'.kind = e.kind := by
  obtain ⟨ops, _ | st⟩ := r
  · exact absurd rfl h
  · simp only [steps, withFault, Option.map_some]
    cases (ops.mapM Operation.settle).run tab with
    | error e => exact ⟨_, rfl, fun f => ⟨_, rfl, rfl⟩⟩
    | ok a =>
      cases h : (st.mentions.mapM Mention.settle).run a.2 with
      | error e => exact ⟨.geometry e, by simp [h], fun f => ⟨.geometry e, by simp [h], rfl⟩⟩
      | ok b => exact ⟨.wording st.fault, by simp [h], fun f => ⟨.wording f, by simp [h], rfl⟩⟩

/-- A text without `;` is one step, and what stands behind a `;` is settled on the table that it
leaves; or it has a fault, and with a `;` behind it one of the same kind. -/
theorem steps_uncut (hp : Uncut p) (tab : PointTable) :
    (∃ s tab', (ofTokens p).steps tab = .ok ([s], tab') ∧ ∀ t rest, t.isDelimiter ";" →
      (ofTokens (p ++ t :: rest)).steps tab =
        if rest.isEmpty then .ok ([s], tab')
        else ((ofTokens rest).steps tab').map fun (ss, t) => (s :: ss, t)) ∨
    (∃ e, (ofTokens p).steps tab = .error e ∧ ∀ t rest, t.isDelimiter ";" →
      ∃ e', (ofTokens (p ++ t :: rest)).steps tab = .error e' ∧ e'.kind = e.kind) := by
  rcases ofTokens_uncut hp with ⟨op, h, hcut⟩ | ⟨h, hcut⟩
  · cases hop : op.settle.run tab with
    | error e =>
      right
      refine ⟨.geometry e, by rw [h, steps_single, hop], fun t rest ht => ⟨.geometry e, ?_, rfl⟩⟩
      rw [hcut t rest ht]
      split
      · rw [steps_single, hop]
      · rw [steps_cons, hop]
    | ok a =>
      left
      refine ⟨a.1, a.2, by rw [h, steps_single, hop], fun t rest ht => ?_⟩
      rw [hcut t rest ht]
      split
      · rw [steps_single, hop]
      · rw [steps_cons, hop]
  · right
    obtain ⟨e, he, hf⟩ := exists_steps_withFault h tab
    refine ⟨e, he, fun t rest ht => ?_⟩
    obtain ⟨f, hf'⟩ := hcut t rest ht
    rw [hf']
    exact hf f

end Reading

/-! ## Parsing piece by piece -/

namespace Drawing

/-- The drawing is made of drawings of single operations. -/
structure Joins (d : Drawing) (ds : List Drawing) : Prop where
  /-- The constructions are theirs, one of each. -/
  operations : List.Forall₂ (fun n d' => d'.tree.operations = [n]) d.tree.operations ds
  primitives : d.primitives = ds.flatMap Drawing.primitives
  table : ds.getLast?.map Drawing.table = some d.table

variable {s : Step} {ss : List Step} {ds : List Drawing} {t t' : PointTable}

theorem joins_single (s : Step) (t : PointTable) : (ofSteps [s] t).Joins [ofSteps [s] t] where
  operations := by simp [ofSteps, Step.operations_program]
  primitives := by simp [ofSteps]
  table := rfl

theorem Joins.cons (h : (ofSteps ss t).Joins ds) :
    (ofSteps (s :: ss) t).Joins (ofSteps [s] t' :: ds) where
  operations := by
    have hops := h.operations
    simp only [ofSteps, Step.operations_program, List.map_cons] at hops ⊢
    exact .cons (Step.operations_program [s]) hops
  primitives := by
    have hprims := h.primitives
    simp only [ofSteps, List.flatMap_cons, List.flatMap_nil, List.append_nil] at hprims ⊢
    rw [hprims]
  table := by
    cases ds with
    | nil => cases h.table
    | cons d ds => exact h.table

end Drawing

namespace Script

variable {s : Script} {p ts : List Token} {tab tab' : PointTable}

/-- The script of a part of the tokens. -/
def part (s : Script) (p : List Token) : Script := { s with tokens := p }

/-- Parses texts one after the other, each on the table that the text before it left. -/
def parseParts (s : Script) : List (List Token) → PointTable → Except Fault (List Drawing)
  | [], _ => .ok []
  | p :: ps, t =>
    match (s.part p).parse t with
    | .error f => .error f
    | .ok d => (s.parseParts ps d.table).map (d :: ·)

theorem parseParts_cons_of_ok {st : Step} {ps : List (List Token)}
    (h : (Reading.ofTokens p).steps tab = .ok ([st], tab')) :
    s.parseParts (p :: ps) tab =
      (s.parseParts ps tab').map (Drawing.ofSteps [st] tab' :: ·) := by
  rw [parseParts, parse_of_steps_ok (s := s.part p) h]
  rfl

theorem parseParts_cons_of_error {e : DrawingFault} {ps : List (List Token)}
    (h : (Reading.ofTokens p).steps tab = .error e) :
    s.parseParts (p :: ps) tab = .error (.ofDrawing (s.part p) e) := by
  rw [parseParts, parse_of_steps_error (s := s.part p) h]

/-- A text and its pieces have steps and drawings that go together, or faults of one kind. -/
theorem steps_pieces (s : Script) (ts : List Token) (tab : PointTable) :
    (∃ ss tab' ds, (Reading.ofTokens ts).steps tab = .ok (ss, tab') ∧
      s.parseParts (pieces ts) tab = .ok ds ∧ ds.length = (pieces ts).length ∧
      (Drawing.ofSteps ss tab').Joins ds) ∨
    (∃ e f, (Reading.ofTokens ts).steps tab = .error e ∧
      s.parseParts (pieces ts) tab = .error f ∧ f.kind = e.kind) := by
  induction ts using cutting_induction generalizing tab with
  | uncut p hp =>
    rw [pieces_uncut hp]
    rcases Reading.steps_uncut hp tab with ⟨st, tab', h, -⟩ | ⟨e, h, -⟩
    · exact .inl ⟨_, _, _, h, parseParts_cons_of_ok h, rfl, Drawing.joins_single st tab'⟩
    · exact .inr ⟨_, _, h, parseParts_cons_of_error h, Fault.kind_ofDrawing _ e⟩
  | closed p t hp ht =>
    rw [pieces_closed hp ht]
    rcases Reading.steps_uncut hp tab with ⟨st, tab', h, hcut⟩ | ⟨e, h, hcut⟩
    · exact .inl ⟨_, _, _, hcut t [] ht, parseParts_cons_of_ok h, rfl, Drawing.joins_single st tab'⟩
    · obtain ⟨e', he', hk⟩ := hcut t [] ht
      exact .inr ⟨_, _, he', parseParts_cons_of_error h, (Fault.kind_ofDrawing _ e).trans hk.symm⟩
  | next p t rest hp ht hrest ih =>
    rw [pieces_next hp ht hrest]
    rcases Reading.steps_uncut hp tab with ⟨st, tab', h, hcut⟩ | ⟨e, h, hcut⟩
    · rw [hcut t rest ht, if_neg (by simpa using hrest), parseParts_cons_of_ok h]
      rcases ih tab' with ⟨ss, tab'', ds, hss, hds, hlen, hj⟩ | ⟨e, f, he, hf, hk⟩
      · rw [hss, hds]
        exact .inl ⟨_, _, _, rfl, rfl, by simp [hlen], hj.cons⟩
      · rw [he, hf]
        exact .inr ⟨e, f, rfl, rfl, hk⟩
    · obtain ⟨e', he', hk⟩ := hcut t rest ht
      exact .inr ⟨_, _, he', parseParts_cons_of_error h, (Fault.kind_ofDrawing _ e).trans hk.symm⟩

/-- A text has a drawing exactly if its pieces have drawings, each on the table that the piece
before it left. Then it is made of theirs; and otherwise the fault is of the kind of the first one
among the pieces. -/
theorem parse_pieces (s : Script) (t : PointTable) :
    ((∃ d, s.parse t = .ok d) ↔ ∃ ds, s.parseParts (pieces s.tokens) t = .ok ds) ∧
    (∀ d ds, s.parse t = .ok d → s.parseParts (pieces s.tokens) t = .ok ds →
      d.tree.operations.length = (pieces s.tokens).length ∧ d.Joins ds) ∧
    (∀ f g, s.parse t = .error f → s.parseParts (pieces s.tokens) t = .error g →
      f.kind = g.kind) := by
  rcases steps_pieces s s.tokens t with ⟨ss, t', ds, hss, hds, hlen, hj⟩ | ⟨e, f, he, hf, hk⟩
  · rw [parse_of_steps_ok hss, hds]
    refine ⟨⟨fun _ => ⟨_, rfl⟩, fun _ => ⟨_, rfl⟩⟩, ?_, nofun⟩
    rintro d ds' ⟨⟩ ⟨⟩
    exact ⟨hj.operations.length_eq.trans hlen, hj⟩
  · rw [parse_of_steps_error he, hf]
    refine ⟨⟨nofun, nofun⟩, nofun, ?_⟩
    rintro f' g ⟨⟩ ⟨⟩
    exact (Fault.kind_ofDrawing s e).trans hk.symm

end Script

end Planimetry
