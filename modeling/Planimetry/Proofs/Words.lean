import Planimetry.Proofs.CorrectPrefix
import Planimetry.Proofs.Places
import Planimetry.Proofs.Text.Lines

/-!
# The words of a text

A text is cut into tokens without loss: its tokens are the longest runs of characters that are not
white space, in order, and the position of a token leads back to the place where it stands.

## Main definitions

* `Token.StandsIn`: a token is found in a text at its position.

Main statement: `tokens_faithful`, about the tokens of a script, their positions, the end of the
text and the positions of the faults of the text.
-/

namespace Planimetry

open Text (isWhite isInk)

/-! ## Words without their positions -/

namespace Token

variable {fresh : Bool} {p q : Position} {cs w : List Char}

/-- The words are the pieces between the white space, as far as they are not empty. Inside a word
its rest is passed over. -/
theorem map_snd_wordsFrom (p : Position) (cs : List Char) :
    (wordsFrom true p cs).map Prod.snd = (cs.splitOnP isWhite).filter (· ≠ []) ∧
      (wordsFrom false p cs).map Prod.snd = (cs.splitOnP isWhite).tail.filter (· ≠ []) := by
  induction cs generalizing p with
  | nil => exact ⟨rfl, rfl⟩
  | cons c cs ih =>
    obtain ⟨ihfresh, ihinside⟩ := ih (p.after c)
    obtain ⟨ps, hps⟩ := Text.splitOnP_eq_cons isWhite cs
    rw [hps, List.tail_cons] at ihinside
    rw [wordsFrom, wordsFrom, List.splitOnP_cons_eq_if_modifyHead]
    by_cases hc : isWhite c = true
    · simp [hc, ihfresh]
    · have hfirst : cs.takeWhile isInk = cs.takeWhile (!isWhite ·) := rfl
      simp [hc, hps, ihinside, hfirst]

/-! ## Words at their positions -/

/-- The text has the word `w` at the position `q`, if it begins at `p`: white space, or nothing, is
on both sides of it. If the text does not begin afresh, there is something before the word. -/
structure HasWord (fresh : Bool) (p : Position) (cs : List Char) (q : Position) (w : List Char) :
    Prop where
  ink : ∀ c ∈ w, isInk c
  cut : ∃ before behind, cs = before ++ w ++ behind ∧ q = p.walk before ∧
    (before = [] → fresh = true) ∧ (∀ c ∈ before.getLast?, isWhite c) ∧
    ∀ c ∈ behind.head?, isWhite c

/-- A word of the rest is a word of the whole. Only behind white space it may begin at once. -/
theorem HasWord.cons {c : Char} {fresh' : Bool} (h : HasWord fresh (p.after c) cs q w)
    (hc : fresh = true → isWhite c) : HasWord fresh' p (c :: cs) q w where
  ink := h.ink
  cut := by
    obtain ⟨before, behind, rfl, rfl, hfresh, hbefore, hbehind⟩ := h.cut
    refine ⟨c :: before, behind, rfl, rfl, nofun, ?_, hbehind⟩
    rw [List.getLast?_cons]
    cases hlast : before.getLast? with
    | none =>
      rintro _ ⟨⟩
      exact hc (hfresh (List.getLast?_eq_none_iff.1 hlast))
    | some d =>
      rintro _ ⟨⟩
      exact hbefore d hlast

theorem hasWord_first {c : Char} (p : Position) (cs : List Char) (hc : ¬ isWhite c) :
    HasWord true p (c :: cs) p (c :: cs.takeWhile isInk) where
  ink := by
    intro d hd
    rcases List.mem_cons.1 hd with rfl | hd
    · simpa [isInk] using hc
    · exact List.mem_takeWhile_imp hd
  cut := by
    refine ⟨[], cs.dropWhile isInk, by simp, rfl, fun _ => rfl, nofun, fun d hd => ?_⟩
    have hd : isInk d = false := by
      have := List.head?_dropWhile_not isInk cs
      rw [hd] at this
      simpa using this
    simpa [isInk] using hd

theorem hasWord_of_mem_wordsFrom (h : (q, w) ∈ wordsFrom fresh p cs) : HasWord fresh p cs q w := by
  induction cs generalizing fresh p with
  | nil => cases h
  | cons c cs ih =>
    rw [wordsFrom] at h
    split at h
    · rename_i hc
      exact (ih h).cons fun _ => hc
    · rename_i hc
      split at h
      · rename_i hfresh
        subst hfresh
        rcases List.mem_cons.1 h with e | h
        · cases e
          exact hasWord_first _ cs hc
        · exact (ih h).cons fun hfalse => absurd hfalse Bool.false_ne_true
      · exact (ih h).cons fun hfalse => absurd hfalse Bool.false_ne_true

/-! ## Tokens in their lines -/

/-- In the line of its position, behind as many characters as the column tells, the text has the
token, with white space or an end of the line on both sides. -/
def StandsIn (t : Token) (text : List Char) : Prop :=
  1 ≤ t.pos.line ∧ 1 ≤ t.pos.col ∧
    ∃ before behind,
      (text.splitOn '\n')[t.pos.line - 1]? = some (before ++ t.lexeme.toList ++ behind) ∧
      before.length = t.pos.col - 1 ∧ (∀ c ∈ before.getLast?, isWhite c) ∧
      ∀ c ∈ behind.head?, isWhite c

/-- A word has no line feed in it, so that all of it stands in one line. -/
theorem HasWord.standsIn {text : List Char} (h : HasWord fresh Position.start text q w) :
    (ofWord q w).StandsIn text := by
  obtain ⟨before, behind, rfl, rfl, -, hbefore, hbehind⟩ := h.cut
  have hpos := Position.walk_start before
  refine ⟨by simp [ofWord, hpos], by simp [ofWord, hpos],
    Text.lastLine before, Text.firstLine behind, ?_, by simp [ofWord, hpos], ?_, ?_⟩
  · have hw : Text.firstLine (w ++ behind) = w ++ Text.firstLine behind := by
      refine List.takeWhile_append_of_pos fun c hc => bne_iff_ne.2 ?_
      rintro rfl
      have := h.ink _ hc
      simp [isInk, Text.isWhite_newline] at this
    have hline := Text.getElem?_lines before (w ++ behind)
    simpa [ofWord, hpos, hw] using hline
  · exact fun c hc => hbefore c (Text.mem_getLast?_of_lastLine hc)
  · exact fun c hc => hbehind c (Text.mem_head?_of_firstLine hc)

theorem lexemes_ofText (text : String) :
    (ofText text).map (·.lexeme.toList) = (text.toList.splitOnP isWhite).filter (· ≠ []) := by
  rw [← (map_snd_wordsFrom Position.start text.toList).1, ofText, List.map_map]
  simp [words, ofWord, Function.comp_def]

theorem standsIn_of_mem_ofText {t : Token} {text : String} (h : t ∈ ofText text) :
    t.StandsIn text.toList := by
  obtain ⟨⟨q, w⟩, hw, rfl⟩ := List.mem_map.1 h
  exact (hasWord_of_mem_wordsFrom hw).standsIn

end Token

/-! ## Scripts -/

namespace Script

/-- Asking for the next token takes one token from the front. -/
theorem tokens_iterate_next (s : Script) (n : Nat) :
    ((·.next.2)^[n] s).tokens = s.tokens.drop n := by
  induction n generalizing s with
  | zero => rfl
  | succ n ih =>
    rw [Function.iterate_succ_apply, ih]
    unfold next
    split <;> rename_i h <;> simp [h]

theorem next_iterate_next (s : Script) (n : Nat) :
    ((·.next.2)^[n] s).next.1 = s.tokens[n]? := by
  have h : ∀ s : Script, s.next.1 = s.tokens.head? := fun s => by
    unfold next
    split <;> rename_i h <;> simp [h]
  rw [h, tokens_iterate_next, List.head?_drop]

/-- A fault of the text lies at the token that was found, or behind the text if none was. -/
theorem pos_of_wording {s : Script} {tab : PointTable} {f : Fault} (h : s.parse tab = .error f)
    (hf : f.kind = .wording) :
    ∃ st, s.reading.stop = some st ∧ f.message = st.fault.message ∧
      (st.fault.found = none → f.pos = s.finish) ∧
      ∀ t ∈ st.fault.found, t ∈ s.tokens ∧ f.pos = t.pos := by
  obtain ⟨e, he, rfl⟩ := parse_eq_error_iff.1 h
  cases e with
  | geometry e => cases hf
  | wording x =>
    obtain ⟨st, hst, rfl⟩ := Reading.exists_stop_of_steps (Reading.draw_eq_error_iff.1 he)
    obtain ⟨c, u, hcu, hfound, -⟩ := Reading.exists_stop hst
    refine ⟨st, hst, rfl, fun hnone => ?_, fun t ht => ⟨?_, ?_⟩⟩
    · simp only [Fault.ofDrawing, SyntaxFault.pos, hnone]
    · rw [hfound] at ht
      exact hcu ▸ List.mem_append_right c (List.mem_of_mem_head? ht)
    · simp only [Fault.ofDrawing, SyntaxFault.pos, Option.mem_def.1 ht]

/-- The tokens of a text are the longest runs of characters that are not white space, each of them
stands in the text at its position, and the positions ascend up to the end of the text. They are
handed out in this order, and a fault for want of a token lies at the end of the text. -/
theorem tokens_faithful (text : String) (path : Option String) :
    let s := ofText text path
    s.tokens.map (·.lexeme.toList) = (text.toList.splitOnP isWhite).filter (· ≠ []) ∧
    (∀ t ∈ s.tokens, t.StandsIn text.toList) ∧
    (s.tokens.map Token.pos ++ [s.finish]).Pairwise Position.Before ∧
    s.finish = ⟨text.toList.count '\n' + 1, (Text.lastLine text.toList).length + 1⟩ ∧
    (∀ n, ((·.next.2)^[n] s).next.1 = s.tokens[n]?) ∧
    ∀ tab f, s.parse tab = .error f → f.kind = .wording →
      ∃ st, s.reading.stop = some st ∧ f.message = st.fault.message ∧
        (st.fault.found = none → f.pos = s.finish) ∧
        ∀ t ∈ st.fault.found, t ∈ s.tokens ∧ f.pos = t.pos := by
  refine ⟨Token.lexemes_ofText text, fun t ht => Token.standsIn_of_mem_ofText ht, ?_,
    Position.walk_start _, next_iterate_next _, fun tab f h hf => pos_of_wording h hf⟩
  have hplaces := places_ofText text path
  rw [places] at hplaces
  rw [hplaces]
  exact Token.pairwise_placesFrom _ _ _

end Script

end Planimetry
