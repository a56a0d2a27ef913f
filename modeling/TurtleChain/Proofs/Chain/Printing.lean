import TurtleChain.Chain.Printer
import TurtleChain.Proofs.Chain.Acceptance
import TurtleChain.Proofs.Chain.Float

/-! Which sequences come back from their canonical text. Those of well-formed operations do, because their text
derives them. What the parser gives is well-formed but for infinite floats, and these print as something else:
positive infinity as an identifier, negative infinity as no argument at all. -/

namespace TurtleChain

open Grammar Binary64

/-! ### Well-formed operations -/

def Arg.WellFormed : Arg → Prop
  | int _ => True
  | float value => WritableFloat value
  | ident name => Name name.toList
  | member object field => Name object.toList ∧ Name field.toList
  | text content => ∀ c ∈ content.toList, isTextChar c = true

structure Operation.WellFormed (op : Operation) : Prop where
  name : Name op.name.toList
  arg : ∀ arg ∈ op.arg, arg.WellFormed

theorem integer_toString (n : Int) : Integer (toString n).toList n := by
  cases n with
  | ofNat m =>
      have htext : (toString (Int.ofNat m)).toList = Nat.toDigits 10 m := Nat.toList_repr
      rw [htext]
      cases m with
      | zero => exact .zero
      | succ m =>
          have hinteger := Integer.positive (leading_toDigits (Nat.succ_pos m))
          rwa [Nat.ofDigitChars_ten_toDigits] at hinteger
  | negSucc m =>
      have htext : (toString (Int.negSucc m)).toList = '-' :: Nat.toDigits 10 (m + 1) := by
        show ("-" ++ Nat.repr (m + 1)).toList = _
        rw [String.toList_append, Nat.toList_repr]
        rfl
      rw [htext]
      have hinteger := Integer.negative (leading_toDigits (Nat.succ_pos m))
      rwa [Nat.ofDigitChars_ten_toDigits] at hinteger

namespace Arg

theorem value_render {arg : Arg} (h : arg.WellFormed) : Value arg.render.toList arg := by
  cases arg with
  | int value => exact .int (integer_toString value.toInt)
  | float value => exact value_floatText h
  | ident name =>
      have hvalue := Value.ident h
      rwa [String.ofList_toList] at hvalue
  | member object field =>
      have hvalue := Value.member h.1 h.2
      rw [String.ofList_toList, String.ofList_toList] at hvalue
      have htext : (render (.member object field)).toList = object.toList ++ '.' :: field.toList := by
        simp [render]
      rwa [htext]
  | text content =>
      have hvalue := Value.text h
      rw [String.ofList_toList] at hvalue
      have htext : (render (.text content)).toList = '"' :: (content.toList ++ ['"']) := by
        simp [render]
      rwa [htext]

end Arg

namespace Operation

theorem statement_render {op : Operation} (h : op.WellFormed) : Statement op.render.toList op := by
  obtain ⟨name, arg⟩ := op
  cases arg with
  | none =>
      have hstatement := Statement.bare h.name
      rwa [String.ofList_toList] at hstatement
  | some arg =>
      have hstatement := Statement.applied h.name Spaces.nil Spaces.nil (Arg.value_render (h.arg arg rfl))
      rw [String.ofList_toList] at hstatement
      have htext : (render ⟨name, some arg⟩).toList = name.toList ++ ([] ++ ':' :: ([] ++ arg.render.toList)) := by
        simp [render]
      rwa [htext]

end Operation

namespace Sequence

theorem render_cons (op op' : Operation) (ops : Sequence) :
    render (op :: op' :: ops) = op.render ++ "|" ++ render (op' :: ops) := by
  rw [render, List.map_cons, List.map_cons, String.intercalate_cons_cons]
  rfl

/-- The text of well-formed operations derives them, also with a pipe behind it. -/
theorem chain_render {ops : Sequence} (h : ∀ op ∈ ops, op.WellFormed) (hops : ops ≠ []) :
    Chain (render ops).toList ops ∧ Chain ((render ops).toList ++ ['|']) ops := by
  induction ops with
  | nil => exact absurd rfl hops
  | cons op ops ih =>
      have hstatement := Operation.statement_render (h op List.mem_cons_self)
      cases ops with
      | nil =>
          rw [render, List.map_singleton, String.intercalate_singleton]
          exact ⟨hstatement.last, hstatement.cons (.spaces Spaces.nil)⟩
      | cons op' ops =>
          obtain ⟨hchain, htrailing⟩ :=
            ih (fun op hop => h op (List.mem_cons_of_mem _ hop)) (List.cons_ne_nil op' ops)
          have htext : (render (op :: op' :: ops)).toList =
              op.render.toList ++ '|' :: (render (op' :: ops)).toList := by
            simp [render_cons]
          rw [htext, List.append_assoc]
          exact ⟨hstatement.cons hchain, hstatement.cons htrailing⟩

theorem chain_toChain {ops : Sequence} (h : ∀ op ∈ ops, op.WellFormed) (trailingPipe : Bool) :
    Chain (toChain trailingPipe ops).toList ops := by
  unfold toChain
  by_cases hops : ops = []
  · subst hops
    rw [if_neg fun hne => hne.2 rfl]
    exact .spaces Spaces.nil
  · obtain ⟨hchain, htrailing⟩ := chain_render h hops
    split
    · rwa [String.toList_append]
    · exact hchain

/-! ### Where an operation is printed -/

/-- The text of the operation stands in the text of the sequence. -/
theorem exists_append_render {ops : Sequence} {op : Operation} (hop : op ∈ ops) :
    ∃ front rest, (render ops).toList = front ++ (op.render.toList ++ rest) := by
  induction ops with
  | nil => cases hop
  | cons op' ops ih =>
      cases ops with
      | nil =>
          rw [List.mem_singleton] at hop
          subst hop
          exact ⟨[], [], by simp [render]⟩
      | cons op'' ops =>
          rw [render_cons]
          rcases List.mem_cons.mp hop with rfl | hop
          · exact ⟨[], '|' :: (render (op'' :: ops)).toList, by simp⟩
          · obtain ⟨front, rest, htext⟩ := ih hop
            refine ⟨op'.render.toList ++ '|' :: front, rest, ?_⟩
            simp [htext]

theorem exists_append_toChain {ops : Sequence} {op : Operation} (hop : op ∈ ops) (trailingPipe : Bool) :
    ∃ front rest, (toChain trailingPipe ops).toList = front ++ (op.render.toList ++ rest) := by
  obtain ⟨front, rest, htext⟩ := exists_append_render hop
  unfold toChain
  split
  · exact ⟨front, rest ++ ['|'], by simp [htext]⟩
  · exact ⟨front, rest, htext⟩

end Sequence

/-- Behind a colon an argument is due, and behind a minus a digit. -/
theorem Place.not_accepts_minus {front rest : List Char} {c : Char} (hc : c.isDigit = false) :
    ¬Place.Accepts (front ++ ':' :: '-' :: c :: rest) := by
  rintro ⟨q, hq, -⟩
  rw [Place.run_append] at hq
  obtain ⟨q', -, hq'⟩ := Option.bind_eq_some_iff.mp hq
  cases hcolon : q'.step ':' with
  | none =>
      rw [Place.run_cons_none hcolon] at hq'
      cases hq'
  | some q'' =>
      obtain rfl := Place.eq_argument_of_step_colon hcolon
      have hminus : Place.argument.step '-' = some .minus := by decide
      have hstep : Place.minus.step c = none := by rw [Place.step, if_neg fun h => by rw [hc] at h; cases h.2]
      rw [Place.run_cons hcolon, Place.run_cons hminus, Place.run_cons_none hstep] at hq'
      cases hq'

/-! ### What texts give -/

theorem Arg.wellFormed_or_infinite {cs : List Char} {arg : Arg} (h : Value cs arg) :
    arg.WellFormed ∨ ∃ negative, arg = .float (ofMagnitudeBits negative infinityBits) := by
  cases h with
  | int => exact Or.inl trivial
  | @float _ x h hx =>
      obtain ⟨hle, hone⟩ := Numeral.readFloat?_fraction h hx
      rcases Nat.eq_or_lt_of_le hle with heq | hlt
      · exact Or.inr ⟨isNegative x, by rw [← heq, ofMagnitudeBits_isNegative]⟩
      · exact Or.inl ((writableFloat_iff (isFinite_iff.mpr hlt)).mpr hone)
  | member hobject hfield =>
      refine Or.inl ⟨?_, ?_⟩
      · rwa [String.toList_ofList]
      · rwa [String.toList_ofList]
  | ident h =>
      apply Or.inl
      rwa [WellFormed, String.toList_ofList]
  | text h =>
      apply Or.inl
      rwa [WellFormed, String.toList_ofList]

theorem isFinite_infinity (negative : Bool) : (ofMagnitudeBits negative infinityBits).isFinite = false := by
  rw [Bool.eq_false_iff, ne_eq, isFinite_iff, magnitudeBits_ofMagnitudeBits (Nat.le_refl _)]
  exact Nat.lt_irrefl _

namespace Operation

/-- If the argument is a float, it is finite. -/
def HasFinite (op : Operation) : Prop :=
  ∀ x, op.arg = some (.float x) → x.isFinite = true

theorem WellFormed.hasFinite {op : Operation} (h : op.WellFormed) : op.HasFinite :=
  fun x hx => (h.arg (.float x) hx).isFinite

theorem wellFormed_or_infinite {text : List Char} {op : Operation} (h : Statement text op) :
    op.WellFormed ∨
      Name op.name.toList ∧ ∃ negative, op.arg = some (.float (ofMagnitudeBits negative infinityBits)) := by
  cases h with
  | bare hname =>
      refine Or.inl ⟨?_, by simp⟩
      rwa [String.toList_ofList]
  | @applied name _ _ _ arg hname _ _ hvalue =>
      have hname' : Name (String.ofList name).toList := by rwa [String.toList_ofList]
      rcases Arg.wellFormed_or_infinite hvalue with harg | ⟨negative, rfl⟩
      · refine Or.inl ⟨hname', fun arg' harg' => ?_⟩
        cases harg'
        exact harg
      · exact Or.inr ⟨hname', negative, rfl⟩

/-- The operation as its text reads: an infinity is an identifier. -/
def shown (op : Operation) : Operation :=
  match op.arg with
  | some (.float x) => if x.isFinite then op else ⟨op.name, some (.ident (Arg.floatText x))⟩
  | _ => op

theorem render_shown (op : Operation) : op.shown.render = op.render := by
  obtain ⟨name, arg⟩ := op
  unfold shown
  split
  · next x hx =>
      cases hx
      split <;> rfl
  · rfl

theorem shown_of_hasFinite {op : Operation} (h : op.HasFinite) : op.shown = op := by
  unfold shown
  split
  · next x hx => rw [if_pos (h x hx)]
  · rfl

theorem shown_infinity {name : String} (h : Name name.toList) :
    (shown ⟨name, some (.float (ofMagnitudeBits false infinityBits))⟩).WellFormed := by
  have htext : Arg.floatText (ofMagnitudeBits false infinityBits) = "inf" := by decide +kernel
  unfold shown
  simp only [isFinite_infinity, htext, if_neg Bool.false_ne_true]
  have hinf : Name "inf".toList := by decide
  refine ⟨h, ?_⟩
  intro arg harg
  cases harg
  exact hinf

end Operation

namespace Sequence

theorem render_map_shown (ops : Sequence) : render (ops.map Operation.shown) = render ops := by
  rw [render, render, List.map_map]
  congr 1
  exact List.map_congr_left fun op _ => op.render_shown

theorem toChain_map_shown (trailingPipe : Bool) (ops : Sequence) :
    toChain trailingPipe (ops.map Operation.shown) = toChain trailingPipe ops := by
  rw [toChain, toChain, render_map_shown]
  simp only [ne_eq, List.map_eq_nil_iff]

/-- A minus infinity makes the text unreadable. -/
theorem not_parse_of_neg_infinity {ops ops' : Sequence} {op : Operation} (hop : op ∈ ops)
    (harg : op.arg = some (.float (ofMagnitudeBits true infinityBits))) (trailingPipe : Bool) :
    parse (toChain trailingPipe ops) ≠ .ok ops' := by
  intro h
  obtain ⟨front, rest, htext⟩ := exists_append_toChain hop trailingPipe
  have harg' : Arg.floatText (ofMagnitudeBits true infinityBits) = "-inf" := by decide +kernel
  have hrender : op.render.toList = op.name.toList ++ ':' :: '-' :: 'i' :: ['n', 'f'] := by
    rw [Operation.render, harg]
    simp [Arg.render, harg']
  have haccepts := accepts_of_parse h
  rw [htext, hrender, List.append_assoc, ← List.append_assoc front] at haccepts
  exact Place.not_accepts_minus (by decide) haccepts

theorem wellFormed_of_parse {trailingPipe : Bool} {ops : Sequence}
    (h : parse (toChain trailingPipe ops) = .ok ops) : ∀ op ∈ ops, op.WellFormed := by
  -- The sequence as it is shown has the same text and is well-formed, so the text is read as it as well.
  have hshown : ∀ op ∈ ops.map Operation.shown, op.WellFormed := by
    intro shown hshown
    obtain ⟨op, hop, rfl⟩ := List.mem_map.mp hshown
    obtain ⟨text, hstatement⟩ := (chain_of_parse h).exists_statement hop
    rcases Operation.wellFormed_or_infinite hstatement with hop' | ⟨hname, negative, harg⟩
    · rwa [Operation.shown_of_hasFinite hop'.hasFinite]
    · cases negative with
      | true => exact absurd h (not_parse_of_neg_infinity hop harg trailingPipe)
      | false =>
          obtain ⟨name, arg⟩ := op
          cases harg
          exact Operation.shown_infinity hname
  have hparse := parse_of_chain (chain_toChain hshown trailingPipe)
  rw [toChain_map_shown, h, Except.ok.injEq] at hparse
  rw [hparse]
  exact hshown

/-- A sequence comes back from its text exactly if all its operations are well-formed. -/
theorem parse_toChain_iff (trailingPipe : Bool) (ops : Sequence) :
    parse (toChain trailingPipe ops) = .ok ops ↔ ∀ op ∈ ops, op.WellFormed :=
  ⟨wellFormed_of_parse, fun h => parse_of_chain (chain_toChain h trailingPipe)⟩

end Sequence

/-- What is read from a text comes back from its canonical text exactly if no float in it is infinite, and so
does the canonical text itself. -/
theorem canonical_lossless_iff {source : String} {ops : Sequence} (h : parse source = .ok ops) :
    (∀ trailingPipe, parse (Sequence.toChain trailingPipe ops) = .ok ops ↔ ∀ op ∈ ops, op.HasFinite) ∧
      ∃ text, canonical source = .ok text ∧
        (parse text = parse source ∧ canonical text = .ok text ↔ ∀ op ∈ ops, op.HasFinite) := by
  have hparse : ∀ trailingPipe,
      parse (Sequence.toChain trailingPipe ops) = .ok ops ↔ ∀ op ∈ ops, op.HasFinite := by
    intro trailingPipe
    refine ⟨fun h op hop => (Sequence.wellFormed_of_parse h op hop).hasFinite, ?_⟩
    intro hfinite
    refine parse_of_chain (Sequence.chain_toChain (fun op hop => ?_) trailingPipe)
    obtain ⟨text, hstatement⟩ := (chain_of_parse h).exists_statement hop
    rcases Operation.wellFormed_or_infinite hstatement with hop' | ⟨-, negative, harg⟩
    · exact hop'
    · have hfalse := hfinite op hop _ harg
      rw [isFinite_infinity] at hfalse
      cases hfalse
  refine ⟨hparse, Sequence.toChain false ops, by rw [canonical, h]; rfl, ?_⟩
  rw [h, ← hparse false]
  refine ⟨fun hboth => hboth.1, fun hback => ⟨hback, ?_⟩⟩
  rw [canonical, hback]
  rfl

theorem canonical_lossless_fraction :
    parse "D:-1.5|B" = .ok [⟨"D", some (.float (-1.5))⟩, ⟨"B", none⟩] ∧
      ∀ trailingPipe, parse (Sequence.toChain trailingPipe [⟨"D", some (.float (-1.5))⟩, ⟨"B", none⟩]) =
        .ok [⟨"D", some (.float (-1.5))⟩, ⟨"B", none⟩] := by
  have hd : Name ['D'] := by decide
  have hb : Name ['B'] := by decide
  have hwhole : Leading ['1'] := by decide
  have hdigits : Digits ['5'] := by decide
  have hread : readFloat? (String.ofList ['-', '1', '.', '5']) = some (-1.5) := by decide +kernel
  have hstatement : Statement "D:-1.5".toList ⟨"D", some (.float (-1.5))⟩ :=
    .applied hd Spaces.nil Spaces.nil (.float (.mk (.negative hwhole) hdigits) hread)
  have hlast : Statement ['B'] ⟨"B", none⟩ := .bare hb
  have hparse : parse "D:-1.5|B" = .ok [⟨"D", some (.float (-1.5))⟩, ⟨"B", none⟩] :=
    parse_of_chain (hstatement.cons hlast.last)
  refine ⟨hparse, fun trailingPipe => ((canonical_lossless_iff hparse).1 trailingPipe).mpr ?_⟩
  have hfinite : (-1.5 : Float).isFinite = true := by decide +kernel
  intro op hop x hx
  simp only [List.mem_cons, List.not_mem_nil, or_false] at hop
  rcases hop with rfl | rfl
  · cases hx
    exact hfinite
  · cases hx

/-- The digits of a power of ten. -/
def powerDigits (n : Nat) : List Char :=
  ['1'] ++ List.replicate n '0'

theorem leading_powerDigits (n : Nat) : Leading (powerDigits n) := by
  have hone : Leading ['1'] := by decide
  refine hone.append ?_
  intro c hc
  rw [List.eq_of_mem_replicate hc]
  decide

theorem readFloat?_powerDigits (n : Nat) :
    readFloat? (String.ofList (powerDigits n ++ '.' :: ['0'])) =
      some (ofMagnitudeBits false (Decimal.bits ⟨1, n⟩)) := by
  have hdigits : Digits ['0'] := by decide
  have hread := @Numeral.readFloat?_signed false _ _ (leading_powerDigits n).digits hdigits
  rw [Numeral.signed, if_neg Bool.false_ne_true] at hread
  have hspelled : Nat.ofDigitChars 10 (powerDigits n ++ ['0']) 0 = 10 ^ n * 10 := by
    have hone : Nat.ofDigitChars 10 ['1'] 0 = 1 := by decide
    rw [powerDigits, Nat.ofDigitChars_append, Nat.ofDigitChars_append, hone, Nat.ofDigitChars_replicate_zero,
      Nat.mul_one]
    exact (Nat.ofDigitChars_replicate_zero (n := 1)).trans (by ring)
  rw [hread, Numeral.toFloat, Decimal.toFloat_eq, Numeral.toDecimal, hspelled]
  refine congrArg (fun bits => some (ofMagnitudeBits false bits)) (Decimal.bits_congr ?_)
  rw [Decimal.value, Decimal.value]
  push_cast
  norm_num
  ring

/-- A statement with a float of that many zeros. -/
def powerText (n : Nat) : String :=
  String.ofList (['D'] ++ ([] ++ ':' :: ([] ++ (powerDigits n ++ '.' :: ['0']))))

theorem statement_powerText (n : Nat) :
    Statement (powerText n).toList ⟨"D", some (.float (ofMagnitudeBits false (Decimal.bits ⟨1, n⟩)))⟩ := by
  have hname : Name ['D'] := by decide
  have hdigits : Digits ['0'] := by decide
  rw [powerText, String.toList_ofList]
  exact .applied hname Spaces.nil Spaces.nil
    (.float (.mk (.positive (leading_powerDigits n)) hdigits) (readFloat?_powerDigits n))

/-- Beyond the greatest double it is read as infinity, and infinity comes back as an identifier. -/
theorem infinity_comes_back_as_identifier :
    parse (powerText 309) = .ok [⟨"D", some (.float (ofMagnitudeBits false infinityBits))⟩] ∧
      ∀ trailingPipe,
        parse (Sequence.toChain trailingPipe [⟨"D", some (.float (ofMagnitudeBits false infinityBits))⟩]) =
          .ok [⟨"D", some (.ident "inf")⟩] := by
  have hbits : Decimal.bits ⟨1, (309 : Nat)⟩ = infinityBits := by decide +kernel
  have hstatement := statement_powerText 309
  rw [hbits] at hstatement
  refine ⟨parse_of_chain hstatement.last, ?_⟩
  intro trailingPipe
  have hwellFormed : Operation.WellFormed ⟨"D", some (.ident "inf")⟩ := by
    have hname : Name "D".toList := by decide
    have hinf : Name "inf".toList := by decide
    refine ⟨hname, ?_⟩
    intro arg harg
    cases harg
    exact hinf
  have htext : Sequence.toChain trailingPipe [⟨"D", some (.float (ofMagnitudeBits false infinityBits))⟩] =
      Sequence.toChain trailingPipe [⟨"D", some (.ident "inf")⟩] := by
    cases trailingPipe <;> decide +kernel
  rw [htext]
  exact parse_of_chain (Sequence.chain_toChain (by simpa using hwellFormed) trailingPipe)

end TurtleChain
