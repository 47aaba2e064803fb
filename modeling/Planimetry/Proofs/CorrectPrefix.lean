import Planimetry.Proofs.Prediction.Commands
import Planimetry.Proofs.Steps

/-!
# The language of programs, and where a text leaves it

A text is read to its end exactly if it is a program. A text that is not goes wrong at the first
token that no program can have there: what stands before it begins a program, and nothing that
begins with it as well does.

## Main statements

* `parse_language`: what is drawn is a program, and a program has no fault of the text.
* `exists_dead_end_of_wording`: where a fault of the text lies.
-/

namespace Planimetry

open Grammar (Program Viable)
open Reader (Closed Alike reads_operation)

/-- The language of programs. -/
def Grammar.program : Language Token := {ts | Program ts}

namespace Reading

variable {ts rest : List Token} {op : Operation}

theorem program_of_stop_eq_none (h : (ofTokens ts).stop = none) : Program ts := by
  fun_induction ofTokens ts with
  | case1 | case5 => cases h
  | case2 ts op s e hs =>
    obtain ⟨c, hc, rfl⟩ := (reads_operation.at_text ts).taken e
    rw [hs, List.append_nil]
    exact .last hc
  | case3 ts op s e t rest hs ht hrest =>
    obtain ⟨c, hc, rfl⟩ := (reads_operation.at_text ts).taken e
    rw [hs, List.isEmpty_iff.1 hrest]
    exact .closed hc ht
  | case4 ts op s e t rest hs ht hrest ih =>
    obtain ⟨c, hc, rfl⟩ := (reads_operation.at_text ts).taken e
    rw [hs]
    exact .next hc ht (ih h)

theorem stop_eq_none_of_program (h : Program ts) : (ofTokens ts).stop = none := by
  induction h with
  | @last p hp =>
    obtain ⟨op, ms, e⟩ := (reads_operation.at_text p).total [] (List.append_nil p).symm hp
      Reader.stops_nil
    rw [ofTokens_of_end e]
  | @closed p t hp ht =>
    obtain ⟨op, ms, e⟩ := (reads_operation.at_text _).total [] rfl hp (Reader.stops_cons ht)
    rw [ofTokens_of_cons e, if_pos ht]
    rfl
  | @next p q t hp ht hq ih =>
    obtain ⟨op, ms, e⟩ := (reads_operation.at_text _).total [] rfl hp (Reader.stops_cons ht)
    rw [ofTokens_of_cons e, if_pos ht]
    split
    · rfl
    · exact ih

/-- A text is read to its end exactly if it is a program. -/
theorem stop_eq_none_iff : (ofTokens ts).stop = none ↔ Program ts :=
  ⟨program_of_stop_eq_none, stop_eq_none_of_program⟩

/-- Where the reading stops: before the place there is a viable prefix, and with the same token
next, or none, it stops as well. -/
theorem exists_stop {st : Stop} (h : (ofTokens ts).stop = some st) :
    ∃ c u, ts = c ++ u ∧ st.fault.found = u.head? ∧ Viable Grammar.program c ∧
      ∀ v, v.head? = u.head? → (ofTokens (c ++ v)).stop ≠ none := by
  fun_induction ofTokens ts with
  | case1 ts x s e =>
    cases h
    -- the first command goes wrong, and so it does with every text that goes on alike
    obtain ⟨c, hc, hts⟩ := (reads_operation.at_text ts).viable e
    refine ⟨c, s.tokens, hts, rfl, hc.mono fun _ => .last, ?_⟩
    intro v hv
    obtain ⟨y, hy⟩ := (reads_operation.at_text ts).error_of_alike hts (.inl hv.symm) e
    rw [ofTokens_of_error hy]
    nofun
  | case2 | case3 => cases h
  | case4 ts op s e t rest hs ht hrest ih =>
    obtain ⟨c, hc, hts⟩ := (reads_operation.at_text ts).taken e
    -- the place lies behind the `;`, where a shorter text stops
    obtain ⟨c', u, hrest', hfound, ⟨w, hw, hcw⟩, hstop⟩ := ih h
    have e' : Reader.operation ⟨ts, []⟩ = .ok op ⟨t :: rest, s.mentions⟩ := by rw [e, ← hs]
    rw [hs] at hts
    refine ⟨c ++ t :: c', u, by simp [hts, hrest'], hfound, ⟨w, hw, ?_⟩, ?_⟩
    · rw [List.append_assoc]
      exact .next hc ht hcw
    · intro v hv
      have hcv : ¬ (c' ++ v).isEmpty = true := by
        intro hcv
        obtain ⟨rfl, rfl⟩ := List.append_eq_nil_iff.1 (List.isEmpty_iff.1 hcv)
        obtain rfl := List.head?_eq_none_iff.1 hv.symm
        exact hrest (by rw [hrest']; rfl)
      have ev := (reads_operation.at_text ts).ok_of_alike (u := t :: rest)
        (v := t :: (c' ++ v)) hts (.inl rfl) e'
      rw [List.append_assoc, List.cons_append, ofTokens_of_cons ev, if_pos ht, if_neg hcv]
      exact hstop v hv
  | case5 ts op s e t rest hs ht =>
    cases h
    obtain ⟨c, hc, hts⟩ := (reads_operation.at_text ts).taken e
    rw [hs] at hts
    -- the command is complete, but no `;` comes behind it
    refine ⟨c, t :: rest, hts, rfl, Grammar.viable_of_mem (.last hc), ?_⟩
    intro v hv
    obtain ⟨v, rfl⟩ := List.head?_eq_some_iff.1 hv
    have e' : Reader.operation ⟨ts, []⟩ = .ok op ⟨t :: rest, s.mentions⟩ := by rw [e, ← hs]
    have ev := (reads_operation.at_text ts).ok_of_alike (v := t :: v) hts (.inl rfl) e'
    rw [ofTokens_of_cons ev, if_neg ht]
    nofun

end Reading

namespace Script

variable {s : Script} {t : PointTable} {f : Fault}

/-- A fault of the text is the one at which the reading stopped. -/
theorem exists_stop_of_parse (h : s.parse t = .error f) (hf : f.kind = .wording) :
    ∃ st, s.reading.stop = some st ∧ f.pos = st.fault.pos s.finish := by
  obtain ⟨e, he, rfl⟩ := parse_eq_error_iff.1 h
  cases e with
  | geometry e => cases hf
  | wording e =>
    obtain ⟨st, hst, rfl⟩ := Reading.exists_stop_of_steps (Reading.draw_eq_error_iff.1 he)
    exact ⟨st, hst, rfl⟩

/-- Only a program has a drawing, and a program has a drawing or a fault of its geometry. -/
theorem parse_language (s : Script) (t : PointTable) :
    (∀ d, s.parse t = .ok d → Program s.tokens) ∧
      (Program s.tokens →
        (∃ d, s.parse t = .ok d) ∨ ∃ f, s.parse t = .error f ∧ f.kind = .geometry) := by
  constructor
  · intro d h
    obtain ⟨ss, t', hss, -⟩ := Reading.draw_eq_ok_iff.1 (parse_eq_ok_iff.1 h)
    exact Reading.stop_eq_none_iff.1 (Reading.stop_eq_none_of_steps hss)
  · intro hp
    cases h : s.parse t with
    | ok d => exact .inl ⟨d, rfl⟩
    | error f =>
      refine .inr ⟨f, rfl, ?_⟩
      obtain ⟨e, he, rfl⟩ := parse_eq_error_iff.1 h
      cases e with
      | geometry e => rfl
      | wording e =>
        obtain ⟨st, hst, -⟩ := exists_stop_of_parse h rfl
        cases hst.symm.trans (Reading.stop_eq_none_iff.2 hp)

/-- A fault of the text lies at the first token that no program has there, or behind the text. -/
theorem exists_dead_end_of_wording (h : s.parse t = .error f) (hf : f.kind = .wording) :
    ∃ k ≤ s.tokens.length,
      f.pos = (s.tokens[k]?.map Token.pos).getD s.finish ∧
      (∃ us, (∀ u ∈ us, u.Written) ∧ Program (s.tokens.take k ++ us)) ∧
      (k < s.tokens.length → ∀ us, ¬ Program (s.tokens.take (k + 1) ++ us)) ∧
      (k = s.tokens.length → ¬ Program s.tokens) := by
  obtain ⟨st, hst, hpos⟩ := exists_stop_of_parse h hf
  obtain ⟨c, u, hcu, hfound, hc, hstop⟩ := Reading.exists_stop hst
  have hdead : ∀ v, v.head? = u.head? → ¬ Program (c ++ v) := fun v hv hp =>
    hstop v hv (Reading.stop_eq_none_iff.2 hp)
  refine ⟨c.length, ?_, ?_, ?_, ?_, ?_⟩
  · simp [hcu]
  · rw [hpos, SyntaxFault.pos, hfound, hcu]
    cases u <;> simp
  · rw [hcu, List.take_left]
    exact hc
  · intro hk us
    cases u with
    | nil => simp [hcu] at hk
    | cons v vs =>
      rw [hcu, List.take_length_add_append]
      simpa using hdead (v :: us) rfl
  · intro _
    rw [hcu]
    exact hdead u rfl

/-- A command that lacks the name of its point. -/
def nameless : Script := .ofText "поставити точку ;" none

theorem dead_end_of_nameless :
    ∃ f, nameless.parse (.ofTape ⟨fun _ => 0, 0, 0⟩) = .error f ∧ f.kind = .wording ∧
      ∃ k ≤ nameless.tokens.length,
        f.pos = (nameless.tokens[k]?.map Token.pos).getD nameless.finish ∧
        (∃ us, (∀ u ∈ us, u.Written) ∧ Program (nameless.tokens.take k ++ us)) ∧
        (k < nameless.tokens.length → ∀ us, ¬ Program (nameless.tokens.take (k + 1) ++ us)) ∧
        (k = nameless.tokens.length → ¬ Program nameless.tokens) := by
  let semicolon : Token := ⟨";", .delimiter, ⟨1, 17⟩⟩
  have e : Reader.operation ⟨nameless.tokens, []⟩ = .error .pointName ⟨[semicolon], []⟩ := by rfl
  have h : nameless.parse (.ofTape ⟨fun _ => 0, 0, 0⟩) =
      .error (.ofDrawing nameless (.wording ⟨.pointName, some semicolon⟩)) := by
    rw [parse, reading, Reading.ofTokens_of_error e]
    rfl
  exact ⟨_, h, rfl, exists_dead_end_of_wording h rfl⟩

end Script

end Planimetry
