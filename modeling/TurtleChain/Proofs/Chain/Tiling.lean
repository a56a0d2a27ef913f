import TurtleChain.Proofs.Chain.Scanning

/-! How tokens lie in the text they are cut from. One behind the other they take all of it but spaces, each of them
spelled as the text is there, or broken off at a character of it. Nothing is lost behind a malformed one, and a lexer
that is at the end stays there. -/

namespace TurtleChain

open Grammar Lexer

namespace Token

/-- The characters that the token spans. -/
def slice (cs : List Char) (t : Token) : List Char :=
  (cs.drop t.start).take (t.stop - t.start)

/-- The token is what stands at its place in the text. An error is at a character that the token takes, or at the end of
the text. -/
def Fits (cs : List Char) (t : Token) : Prop :=
  match t.kind with
  | .pipe => t.slice cs = ['|']
  | .colon => t.slice cs = [':']
  | .dot => t.slice cs = ['.']
  | .ident name => t.slice cs = name.toList ∧ Name name.toList ∧ Stops isNameChar (cs.drop t.stop)
  | .number text => t.slice cs = text.toList ∧ ((∃ n, Integer text.toList n) ∨ Fraction text.toList)
  | .string content => t.slice cs = '"' :: (content.toList ++ ['"']) ∧ ∀ c ∈ content.toList, isTextChar c = true
  | .error e =>
    t.start ≤ e.offset ∧ (e.offset < t.stop ∨ e.offset = t.stop ∧ t.stop = cs.length) ∧ e.found = cs[e.offset]?
  | .eof => False

theorem Fits.kind_ne_eof {cs : List Char} {t : Token} (h : t.Fits cs) : t.kind ≠ .eof := by
  intro hkind
  rw [Fits, hkind] at h
  exact h

end Token

/-- The tokens take the text from the position on, with nothing but spaces in front of each and behind the last. -/
inductive TilesFrom (cs : List Char) : Nat → List Token → Prop where
  | spaces {position : Nat} (hgap : ∀ n, position ≤ n → n < cs.length → cs[n]? = some ' ') : TilesFrom cs position []
  | token {position : Nat} {t : Token} {found : List Token} (hstart : position ≤ t.start)
      (hgap : ∀ n, position ≤ n → n < t.start → cs[n]? = some ' ') (hstop : t.start < t.stop)
      (hlength : t.stop ≤ cs.length) (ht : t.Fits cs) (hrest : TilesFrom cs t.stop found) :
      TilesFrom cs position (t :: found)

namespace TilesFrom

variable {cs : List Char} {position : Nat} {found : List Token} (h : TilesFrom cs position found)

include h

theorem fits_of_mem {t : Token} (ht : t ∈ found) :
    position ≤ t.start ∧ t.start < t.stop ∧ t.stop ≤ cs.length ∧ t.Fits cs := by
  induction h with
  | spaces => cases ht
  | token hstart _ hstop hlength hfits _ ih =>
      rcases List.mem_cons.mp ht with rfl | ht
      · exact ⟨hstart, hstop, hlength, hfits⟩
      · obtain ⟨hlater, hrest⟩ := ih ht
        exact ⟨by omega, hrest⟩

theorem pairwise : found.Pairwise fun t t' => t.stop ≤ t'.start := by
  induction h with
  | spaces => exact .nil
  | token _ _ _ _ _ hrest ih => exact .cons (fun t' ht' => (hrest.fits_of_mem ht').1) ih

/-- What no token takes is a space. -/
theorem space_of_uncovered {n : Nat} (hn : position ≤ n) (hlength : n < cs.length)
    (huncovered : ∀ t ∈ found, ¬(t.start ≤ n ∧ n < t.stop)) : cs[n]? = some ' ' := by
  induction h with
  | spaces hgap => exact hgap n hn hlength
  | @token position t found hstart hgap _ _ _ _ ih =>
      rcases Nat.lt_or_ge n t.start with hbefore | hbehind
      · exact hgap n hn hbefore
      · have hstop : t.stop ≤ n := Nat.le_of_not_lt fun hlt => huncovered t List.mem_cons_self ⟨hbehind, hlt⟩
        exact ih hstop fun t' ht' => huncovered t' (List.mem_cons_of_mem t ht')

end TilesFrom

/-! ### The tokens of a text -/

theorem getElem?_of_spaces {front gap : List Char} (hgap : Spaces gap) (rest : List Char) {n : Nat}
    (hfront : front.length ≤ n) (hn : n < (front ++ gap).length) : (front ++ gap ++ rest)[n]? = some ' ' := by
  have hlt : n - front.length < gap.length := by
    rw [List.length_append] at hn
    omega
  rw [List.getElem?_append_left hn, List.getElem?_append_right hfront, List.getElem?_eq_getElem hlt,
    hgap _ (List.getElem_mem hlt)]

/-- A token that takes some text, with spaces in front of it. -/
theorem TilesFrom.cons {front gap taken rest : List Char} {kind : TokenKind} {found : List Token} (hgap : Spaces gap)
    (htaken : taken ≠ [])
    (hfits : Token.Fits (front ++ gap ++ taken ++ rest) ⟨kind, (front ++ gap).length, (front ++ gap ++ taken).length⟩)
    (hrest : TilesFrom (front ++ gap ++ taken ++ rest) (front ++ gap ++ taken).length found) :
    TilesFrom (front ++ gap ++ taken ++ rest) front.length
      (⟨kind, (front ++ gap).length, (front ++ gap ++ taken).length⟩ :: found) := by
  refine .token ?_ ?_ ?_ ?_ hfits hrest
  · exact (List.prefix_append front gap).length_le
  · intro n hfront hn
    rw [List.append_assoc (front ++ gap)]
    exact getElem?_of_spaces hgap (taken ++ rest) hfront hn
  · have hpos := List.length_pos_of_ne_nil htaken
    simp only [List.length_append]
    omega
  · exact (List.prefix_append _ rest).length_le

theorem slice_append (front text rest : List Char) (kind : TokenKind) :
    Token.slice (front ++ text ++ rest) ⟨kind, front.length, (front ++ text).length⟩ = text := by
  rw [Token.slice, List.append_assoc, List.drop_left, List.length_append, Nat.add_sub_cancel_left, List.take_left]

theorem Lexer.Lexeme.fits {kind : TokenKind} {text rest : List Char} (h : Lexeme kind text rest) (front : List Char) :
    Token.Fits (front ++ text ++ rest) ⟨kind, front.length, (front ++ text).length⟩ := by
  have hslice := slice_append front text rest kind
  cases h with
  | pipe | colon | dot => exact hslice
  | ident hname hrest =>
      simp only [Token.Fits, String.toList_ofList, List.drop_left]
      exact ⟨hslice, hname, hrest⟩
  | @integer _ _ n hinteger =>
      simp only [Token.Fits, String.toList_ofList]
      exact ⟨hslice, Or.inl ⟨n, hinteger⟩⟩
  | fraction hfraction =>
      simp only [Token.Fits, String.toList_ofList]
      exact ⟨hslice, Or.inr hfraction⟩
  | string hcontent =>
      simp only [Token.Fits, String.toList_ofList]
      exact ⟨hslice, hcontent⟩

/-- The error is at the first character of the rest, which the token takes, or at the end. -/
theorem fits_malformed (front text rest : List Char) (cause : SyntaxError.Cause) :
    Token.Fits (front ++ (text ++ rest.take 1) ++ rest.drop 1)
      ⟨.error ⟨front.length + text.length, rest.head?, cause⟩, front.length,
        (front ++ (text ++ rest.take 1)).length⟩ := by
  refine ⟨Nat.le_add_right _ _, ?_, ?_⟩
  · cases rest with
    | nil => exact Or.inr ⟨by simp, by simp⟩
    | cons c rest => exact Or.inl (by simp)
  · dsimp only
    rw [List.append_assoc, List.append_assoc text, List.take_append_drop, ← List.append_assoc, ← List.length_append,
      List.getElem?_append_right (Nat.le_refl _), Nat.sub_self, List.head?_eq_getElem?]

theorem Lexer.Lexeme.ne_nil {kind : TokenKind} {text rest : List Char} (h : Lexeme kind text rest) : text ≠ [] := by
  obtain ⟨c, tail, rfl, -⟩ := h.cons_inv
  exact List.cons_ne_nil c tail

theorem Lexer.Malformed.ne_nil {cause : SyntaxError.Cause} {text rest : List Char} (h : Malformed cause text rest) :
    text ++ rest.take 1 ≠ [] := by
  obtain ⟨c, tail, htext, -⟩ := h.cons_inv
  intro hnil
  obtain ⟨rfl, hrest⟩ := List.append_eq_nil_iff.mp hnil
  rw [List.nil_append] at htext
  rw [htext] at hrest
  cases hrest

/-- The tokens of a text tile it behind its front, and the end of input stands behind the last one. -/
theorem tilesFrom_tokensAt (front rest : List Char) :
    ∃ found, tokensAt front.length rest = found ++ [⟨.eof, (front ++ rest).length, (front ++ rest).length⟩] ∧
      TilesFrom (front ++ rest) front.length found := by
  induction rest using text_induction generalizing front with
  | @spaces gap hgap =>
      refine ⟨[], ?_, .spaces fun n hfront hn => ?_⟩
      · rw [tokensAt_of_spaces hgap, List.length_append, List.nil_append]
      · have hspace := getElem?_of_spaces hgap [] hfront hn
        rwa [List.append_nil] at hspace
  | @lexeme gap text rest kind hgap h ih =>
      have hsource : front ++ (gap ++ (text ++ rest)) = front ++ gap ++ text ++ rest := by
        simp only [List.append_assoc]
      obtain ⟨found, htokens, htiles⟩ := ih (front ++ gap ++ text)
      refine ⟨_ :: found, ?_, hsource ▸ TilesFrom.cons hgap h.ne_nil (h.fits (front ++ gap)) htiles⟩
      rw [hsource, tokensAt_spaces hgap, tokensAt_lexeme h, ← List.length_append, ← List.length_append, htokens,
        List.cons_append]
  | @malformed gap text rest cause hgap h ih =>
      have hsource : front ++ (gap ++ (text ++ rest)) = front ++ gap ++ (text ++ rest.take 1) ++ rest.drop 1 := by
        simp only [List.append_assoc, List.take_append_drop]
      obtain ⟨found, htokens, htiles⟩ := ih (front ++ gap ++ (text ++ rest.take 1))
      refine ⟨_ :: found, ?_, hsource ▸ TilesFrom.cons hgap h.ne_nil (fits_malformed (front ++ gap) text rest cause)
        htiles⟩
      have hstop : front.length + gap.length + (text.length + (rest.take 1).length) =
          (front ++ gap ++ (text ++ rest.take 1)).length := by
        simp only [List.length_append]
      rw [hsource, tokensAt_spaces hgap, tokensAt_malformed h, hstop, htokens, ← List.length_append, List.cons_append]

/-- The tokens lie in the text in order and apart, each where it belongs, and what lies between them is spaces. -/
structure Tiles (cs : List Char) (found : List Token) : Prop where
  fits : ∀ t ∈ found, t.start < t.stop ∧ t.stop ≤ cs.length ∧ t.Fits cs
  pairwise : found.Pairwise fun t t' => t.stop ≤ t'.start
  spaces : ∀ n c, cs[n]? = some c → (∀ t ∈ found, ¬(t.start ≤ n ∧ n < t.stop)) → c = ' '

theorem TilesFrom.tiles {cs : List Char} {found : List Token} (h : TilesFrom cs 0 found) : Tiles cs found := by
  refine ⟨fun t ht => (h.fits_of_mem ht).2, h.pairwise, fun n c hc huncovered => ?_⟩
  obtain ⟨hlength, -⟩ := List.getElem?_eq_some_iff.mp hc
  rw [h.space_of_uncovered (Nat.zero_le n) hlength huncovered] at hc
  exact (Option.some.inj hc).symm

/-- A lexer that has found all its tokens is at the end and stays there. -/
theorem Lexer.tokenize_again (lexer : Lexer) :
    lexer.tokenize.2.tokenize =
      ([⟨.eof, lexer.position + lexer.rest.length, lexer.position + lexer.rest.length⟩], lexer.tokenize.2) := by
  rw [tokenize_eq lexer, lexerBehind_eq]
  exact tokensFrom_nil _

/-- The tokens of a source tile it, with an end of input behind them and nowhere else, and there is nothing but that end
when its lexer is asked again. -/
theorem tokens_tile_source (source : String) :
    (∃ found, (Lexer.ofString source).tokenize.1 = found ++ [⟨.eof, source.length, source.length⟩] ∧
        (∀ t ∈ found, t.kind ≠ .eof) ∧ Tiles source.toList found) ∧
      ∀ times, ((fun lexer : Lexer => lexer.tokenize.2)^[times + 1] (Lexer.ofString source)).tokenize.1 =
        [⟨.eof, source.length, source.length⟩] := by
  constructor
  · obtain ⟨found, htokens, htiles⟩ := tilesFrom_tokensAt [] source.toList
    rw [List.nil_append, String.length_toList] at htokens
    exact ⟨found, htokens, fun t ht => (htiles.tiles.fits t ht).2.2.kind_ne_eof, htiles.tiles⟩
  · intro times
    have hagain := (Lexer.ofString source).tokenize_again
    have hlength : (Lexer.ofString source).position + (Lexer.ofString source).rest.length = source.length :=
      (Nat.zero_add _).trans String.length_toList
    rw [Function.iterate_succ_apply, Function.iterate_fixed (congrArg Prod.snd hagain), hagain, hlength]

/-- The zero that a minus breaks off at belongs to the malformed token, and the next one starts behind it. -/
example : tokens "£ -05" =
    [⟨.ident "£", 0, 1⟩, ⟨.error ⟨3, some '0', .zeroAfterMinus⟩, 2, 4⟩, ⟨.number "5", 4, 5⟩, ⟨.eof, 5, 5⟩] := by
  cbv

end TurtleChain
