import Planimetry.Proofs.Prediction.Commands
import Planimetry.Reading
import Planimetry.Script

/-!
# Places in a text

The words of a text stand one behind the other, and its end comes behind all of them. So a position
tells which word is meant, and which operation.

## Main definitions

* `Position.Before`: the order of the positions in a text.
* `Script.places`: the positions of the words, and the position of the end.

Main statements: `nodup_places_ofText` and `Reading.sublist_positions`.
-/

namespace Planimetry

namespace Position

variable {p q r : Position}

/-- The order of the positions in a text: by lines, and by columns in a line. -/
def Before (p q : Position) : Prop := p.line < q.line ∨ p.line = q.line ∧ p.col < q.col

theorem Before.trans (h : p.Before q) (h' : q.Before r) : p.Before r := by
  unfold Before at *
  omega

theorem Before.ne (h : p.Before q) : p ≠ q := by
  rintro rfl
  unfold Before at h
  omega

theorem before_after (p : Position) (c : Char) : p.Before (p.after c) := by
  unfold after
  split
  · exact .inl (Nat.lt_succ_self _)
  · exact .inr ⟨rfl, Nat.lt_succ_self _⟩

end Position

/-! ## Words -/

namespace Token

variable {fresh : Bool} {p q : Position} {cs : List Char}

/-- The positions of the words of a text that begins at `p`, and the position of its end. -/
def placesFrom (fresh : Bool) (p : Position) (cs : List Char) : List Position :=
  (wordsFrom fresh p cs).map Prod.fst ++ [p.walk cs]

/-- A word begins where it is found, and the other places come behind it. -/
theorem placesFrom_cons (fresh : Bool) (p : Position) (c : Char) (cs : List Char) :
    ∃ fresh', placesFrom fresh p (c :: cs) = placesFrom fresh' (p.after c) cs ∨
      placesFrom fresh p (c :: cs) = p :: placesFrom fresh' (p.after c) cs := by
  unfold placesFrom
  rw [wordsFrom]
  split
  · exact ⟨true, .inl rfl⟩
  · split
    · exact ⟨false, .inr rfl⟩
    · exact ⟨false, .inl rfl⟩

/-- No place of a text comes before its beginning. -/
theorem eq_or_before_of_mem_placesFrom (h : q ∈ placesFrom fresh p cs) : p = q ∨ p.Before q := by
  induction cs generalizing fresh p with
  | nil => exact .inl (List.mem_singleton.1 h).symm
  | cons c cs ih =>
    have behind : ∀ fresh', q ∈ placesFrom fresh' (p.after c) cs → p.Before q := by
      intro fresh' hq
      rcases ih hq with rfl | hq
      · exact p.before_after c
      · exact (p.before_after c).trans hq
    obtain ⟨fresh', e | e⟩ := placesFrom_cons fresh p c cs
    · rw [e] at h
      exact .inr (behind fresh' h)
    · rw [e] at h
      rcases List.mem_cons.1 h with rfl | h
      · exact .inl rfl
      · exact .inr (behind fresh' h)

theorem pairwise_placesFrom (fresh : Bool) (p : Position) (cs : List Char) :
    (placesFrom fresh p cs).Pairwise Position.Before := by
  induction cs generalizing fresh p with
  | nil => exact List.pairwise_singleton _ _
  | cons c cs ih =>
    obtain ⟨fresh', e | e⟩ := placesFrom_cons fresh p c cs
    · rw [e]
      exact ih fresh' (p.after c)
    · rw [e]
      refine List.pairwise_cons.2 ⟨fun q hq => ?_, ih fresh' (p.after c)⟩
      rcases eq_or_before_of_mem_placesFrom hq with rfl | hq
      · exact p.before_after c
      · exact (p.before_after c).trans hq

/-- A word is not empty. -/
theorem ne_nil_of_mem_wordsFrom {w : Position × List Char} (h : w ∈ wordsFrom fresh p cs) :
    w.2 ≠ [] := by
  induction cs generalizing fresh p with
  | nil => cases h
  | cons c cs ih =>
    rw [wordsFrom] at h
    split at h
    · exact ih h
    · split at h
      · rcases List.mem_cons.1 h with rfl | h
        · exact List.cons_ne_nil _ _
        · exact ih h
      · exact ih h

theorem lexeme_ne_of_mem_ofText {t : Token} {text : String} (h : t ∈ ofText text) :
    t.lexeme ≠ "" := by
  obtain ⟨w, hw, rfl⟩ := List.mem_map.1 h
  intro e
  have hnil : (String.ofList w.2).toList = [] := congrArg String.toList e
  exact ne_nil_of_mem_wordsFrom hw (by simpa using hnil)

end Token

namespace Script

/-- The places of a script: the positions of its tokens, and the end of the text. -/
def places (s : Script) : List Position := s.tokens.map Token.pos ++ [s.finish]

theorem places_ofText (text : String) (path : Option String) :
    (ofText text path).places = Token.placesFrom true Position.start text.toList := by
  simp [places, ofText, Token.ofText, Token.placesFrom, Token.words, Token.ofWord,
    Function.comp_def]

/-- No two places of a text are the same. -/
theorem nodup_places_ofText (text : String) (path : Option String) :
    (ofText text path).places.Nodup := by
  rw [places_ofText]
  exact (Token.pairwise_placesFrom _ _ _).imp Position.Before.ne

end Script

/-! ## Operations -/

namespace Reader

/-- An operation stands where its first word does, and it takes that word. -/
theorem pos_of_operation {ts : List Token} {s : ReadState} {op : Operation}
    (h : operation ⟨ts, []⟩ = .ok op s) :
    ∃ t c, t.pos = op.pos ∧ ts = t :: c ++ s.tokens := by
  obtain ⟨c, -, hts⟩ := (reads_operation.at_text ts).taken h
  have hlt := length_lt_of_operation h
  obtain ⟨⟨pos, body⟩, s₁, hopen, hbody⟩ := bind_eq_ok_iff.1 h
  obtain ⟨t, haccept, rfl, -⟩ := token_eq_ok_iff.1 hopen
  have hpos : t.pos = pos := by
    split at haccept <;> cases haccept <;> rfl
  obtain ⟨command, s₂, -, hret⟩ := bind_eq_ok_iff.1 hbody
  cases hret
  cases c with
  | nil => simp [hts] at hlt
  | cons t' c =>
    obtain ⟨rfl, -⟩ := List.cons.inj hts
    exact ⟨t, c, hpos, hts⟩

end Reader

namespace Reading

/-- The operations stand at positions of the tokens, in the same order. -/
theorem sublist_positions (ts : List Token) :
    ((ofTokens ts).operations.map Operation.pos).Sublist (ts.map Token.pos) := by
  fun_induction ofTokens ts with
  | case1 ts x s e => exact List.nil_sublist _
  | case2 ts op s e h =>
    obtain ⟨t, c, hpos, rfl⟩ := Reader.pos_of_operation e
    simp [hpos]
  | case3 ts op s e t rest h ht hrest =>
    obtain ⟨t, c, hpos, rfl⟩ := Reader.pos_of_operation e
    simp [hpos]
  | case4 ts op s e t rest h ht hrest ih =>
    obtain ⟨t', c, hpos, rfl⟩ := Reader.pos_of_operation e
    have hrest : ((ofTokens rest).operations.map Operation.pos).Sublist
        ((c ++ s.tokens).map Token.pos) := by
      rw [h, List.map_append, List.map_cons]
      exact (ih.cons _).trans (List.sublist_append_right _ _)
    rw [cons, List.map_cons, ← hpos]
    exact hrest.cons_cons _
  | case5 ts op s e t rest h ht =>
    obtain ⟨t, c, hpos, rfl⟩ := Reader.pos_of_operation e
    simp [hpos]

end Reading

end Planimetry
