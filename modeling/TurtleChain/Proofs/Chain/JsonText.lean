import TurtleChain.Command.Run
import TurtleChain.Proofs.Json.Doubles
import TurtleChain.Proofs.Json.Reading

/-! Which sequences come back from their JSON text. The text is always read as the records it was written for.
Names, texts and integers come back from their records whatever they are; a float comes back if its number is read
as it, and an infinite one, which is written as null, never does. -/

namespace TurtleChain

open Grammar Binary64

/-! ### Numbers -/

namespace Json

/-- A signed zero is read as a double, but no integer is spelled like that. -/
theorem toString_ne_signed_zero (n : Int) : toString n ≠ "-0" := by
  intro h
  have hinteger : Integer ['-', '0'] n := by
    have htoString := integer_toString n
    rwa [h] at htoString
  cases hinteger with
  | positive hleading => exact absurd hleading (by decide)
  | negative hleading => exact absurd hleading (by decide)

theorem toInt64?_ofInt (n : Int64) : (ofInt n.toInt).toInt64? = some n.toInt := by
  have hread : readInt? (toString n.toInt) = some n.toInt := Numeral.readInt?_integer (integer_toString n.toInt)
  have hrange : -int64Limit ≤ n.toInt ∧ n.toInt ≤ int64Limit - 1 :=
    ⟨n.le_toInt, Int.le_sub_one_of_lt n.toInt_lt⟩
  rw [ofInt, toInt64?, toInt?, if_neg (toString_ne_signed_zero n.toInt), hread]
  exact if_pos hrange

theorem writable_ofInt (n : Int) : Writable (ofInt n) :=
  .number (numberSpelling_integer (integer_toString n))

theorem writable_ofFloat (x : Float) : Writable (ofFloat x) := by
  unfold ofFloat
  split
  · next h => exact .number (numberSpelling_render h)
  · exact .null

end Json

/-! ### Records -/

namespace Arg

theorem writable_toJson (arg : Arg) : arg.toJson.Writable := by
  have hsingle {key : String} {value : Json} (h : value.Writable) : (Json.object [(key, value)]).Writable :=
    .object (by simpa using h)
  cases arg with
  | int value => exact hsingle (Json.writable_ofInt value.toInt)
  | float value => exact hsingle (Json.writable_ofFloat value)
  | ident name => exact hsingle (.string name)
  | member object field => exact hsingle (.object (by simp [Json.Writable.string]))
  | text content => exact hsingle (.string content)

theorem ofJson?_toJson_float (x : Float) : ofJson? (float x).toJson = (Json.ofFloat x).toFloat?.map float :=
  rfl

/-- Only a float may fail to come back. -/
theorem ofJson?_toJson {arg : Arg} (h : ∀ x, arg ≠ float x) : ofJson? arg.toJson = some arg := by
  cases arg with
  | int value => rw [toJson, ofJson?, Json.toInt64?_ofInt, Option.map_some, Int64.ofInt_toInt]
  | float value => exact absurd rfl (h value)
  | ident name => rfl
  | member object field => rfl
  | text content => rfl

end Arg

namespace Operation

theorem writable_toJson (op : Operation) : op.toJson.Writable := by
  obtain ⟨name, arg⟩ := op
  refine .object ?_
  cases arg with
  | none => simp [Json.ofOption, Json.Writable.null, Json.Writable.string]
  | some arg => simp [Json.ofOption, arg.writable_toJson, Json.Writable.string]

theorem ofJson?_toJson_some (name : String) (arg : Arg) :
    ofJson? (toJson ⟨name, some arg⟩) = (Arg.ofJson? arg.toJson).map fun arg => ⟨name, some arg⟩ := by
  have hfields : (toJson ⟨name, some arg⟩).fields? {} ["name", "arg"] =
      some [some (.string name), some arg.toJson] := rfl
  have hoption : arg.toJson.toOption? Arg.ofJson? = (Arg.ofJson? arg.toJson).map some := by
    cases arg <;> rfl
  rw [ofJson?, hfields]
  simp only [Option.bind_eq_bind, Option.bind_some, Json.required, Json.optional, hoption]
  cases Arg.ofJson? arg.toJson <;> rfl

/-- An operation is read as itself, but for what its float is read as. -/
theorem ofJson?_toJson_cases (op : Operation) :
    (∃ x, op.arg = some (.float x) ∧
        ofJson? op.toJson = (Json.ofFloat x).toFloat?.map fun y => ⟨op.name, some (.float y)⟩) ∨
      (∀ x, op.arg ≠ some (.float x)) ∧ ofJson? op.toJson = some op := by
  obtain ⟨name, arg⟩ := op
  cases arg with
  | none => exact .inr ⟨by simp, rfl⟩
  | some arg =>
      rw [ofJson?_toJson_some]
      by_cases hfloat : ∃ x, arg = .float x
      · obtain ⟨x, rfl⟩ := hfloat
        exact .inl ⟨x, rfl, by rw [Arg.ofJson?_toJson_float, Option.map_map]; rfl⟩
      · rw [Arg.ofJson?_toJson (not_exists.mp hfloat)]
        exact .inr ⟨fun x hx => hfloat ⟨x, Option.some.inj hx⟩, rfl⟩

/-- If the argument is a float, its number is read as it. -/
def ReadsBack (op : Operation) : Prop :=
  ∀ x, op.arg = some (.float x) → Json.ReadsBack x

theorem ofJson?_toJson_iff (op : Operation) : ofJson? op.toJson = some op ↔ op.ReadsBack := by
  obtain ⟨name, arg⟩ := op
  rcases ofJson?_toJson_cases ⟨name, arg⟩ with ⟨x, rfl, hread⟩ | ⟨hnone, hread⟩
  · simp [hread, ReadsBack, Json.ReadsBack]
  · exact iff_of_true hread fun x hx => absurd hx (hnone x)

/-- An operation that is not read at all has a float whose number is none. -/
theorem ofJson?_toJson_eq_none_iff (op : Operation) :
    ofJson? op.toJson = none ↔ ∃ x, op.arg = some (.float x) ∧ (Json.ofFloat x).toFloat? = none := by
  rcases ofJson?_toJson_cases op with ⟨x, hx, hread⟩ | ⟨hnone, hread⟩
  · simp [hread, hx]
  · rw [hread]
    exact iff_of_false (by simp) fun ⟨x, hx, _⟩ => hnone x hx

end Operation

/-! ### Sequences -/

namespace Sequence

/-- The sequence that a JSON text spells. -/
def ofJsonText? (text : String) : Option Sequence :=
  (Json.read? text).bind ofJson?

theorem ofJsonText?_jsonText (ops : Sequence) :
    ofJsonText? ops.jsonText = ops.mapM fun op => Operation.ofJson? op.toJson := by
  have hwritable : (toJson ops).Writable := .array (by simp [Operation.writable_toJson])
  rw [ofJsonText?, jsonText, Json.read?_pretty hwritable, Option.bind_some]
  exact List.mapM_map

/-- A sequence comes back from its JSON text exactly if every float of it is read from the number it is written
as. -/
theorem ofJsonText?_jsonText_iff (ops : Sequence) :
    ofJsonText? ops.jsonText = some ops ↔ ∀ op ∈ ops, op.ReadsBack := by
  rw [ofJsonText?_jsonText]
  induction ops with
  | nil => simp
  | cons op ops ih =>
      rw [List.forall_mem_cons, ← ih, ← Operation.ofJson?_toJson_iff, List.mapM_cons]
      constructor
      · intro h
        obtain ⟨op', hop, h⟩ := Option.bind_eq_some_iff.mp h
        obtain ⟨ops', hops, h⟩ := Option.bind_eq_some_iff.mp h
        obtain ⟨rfl, rfl⟩ := List.cons.inj (Option.some.inj h)
        exact ⟨hop, hops⟩
      · rintro ⟨hop, hops⟩
        rw [hop, hops]
        rfl

/-- Nothing is read exactly if nothing is read for one of its floats. -/
theorem ofJsonText?_jsonText_eq_none_iff (ops : Sequence) :
    ofJsonText? ops.jsonText = none ↔
      ∃ op ∈ ops, ∃ x, op.arg = some (.float x) ∧ (Json.ofFloat x).toFloat? = none := by
  simp only [ofJsonText?_jsonText, ← Operation.ofJson?_toJson_eq_none_iff]
  induction ops with
  | nil => simp
  | cons op ops ih =>
      rw [List.exists_mem_cons_iff, ← ih, List.mapM_cons]
      cases Operation.ofJson? op.toJson with
      | none => simp
      | some op' => cases (List.mapM (fun op => Operation.ofJson? op.toJson) ops) <;> simp

end Sequence

/-- If the finite floats of a sequence are read from the numbers they are written as, the sequence that a text is
read as comes back from its JSON text exactly if no float in it is infinite. With an infinite float in it, nothing
is read.

That they are read from their numbers is an assumption on the reader of JSON numbers. It fails for some finite floats,
such as 130627.23951714601: the reader scales the digits by a power of ten, rounds twice and ends at a neighbour. -/
theorem json_lossless_iff {source : String} {ops : Sequence} (h : parse source = .ok ops)
    (hback : ∀ op ∈ ops, ∀ x, op.arg = some (.float x) → x.isFinite = true → Json.ReadsBack x) :
    (Sequence.ofJsonText? ops.jsonText = some ops ↔ ∀ op ∈ ops, op.HasFinite) ∧
      (Sequence.ofJsonText? ops.jsonText = none ↔
        ∃ op ∈ ops, ∃ negative, op.arg = some (.float (ofMagnitudeBits negative infinityBits))) := by
  constructor
  · rw [Sequence.ofJsonText?_jsonText_iff]
    refine forall₂_congr fun op hop => forall₂_congr fun x hx => ?_
    exact ⟨Json.ReadsBack.isFinite, hback op hop x hx⟩
  · rw [Sequence.ofJsonText?_jsonText_eq_none_iff]
    refine exists_congr fun op => and_congr_right fun hop => ?_
    constructor
    · rintro ⟨x, hx, hnone⟩
      obtain ⟨text, hstatement⟩ := (chain_of_parse h).exists_statement hop
      rcases Operation.wellFormed_or_infinite hstatement with hop' | ⟨-, hinfinite⟩
      · have hreads : Json.ReadsBack x := hback op hop x hx (hop'.hasFinite x hx)
        rw [Json.ReadsBack, hnone] at hreads
        cases hreads
      · exact hinfinite
    · rintro ⟨negative, hx⟩
      exact ⟨_, hx, Json.toFloat?_ofFloat_of_not_isFinite (isFinite_infinity negative)⟩

/-- The assumption does fail. -/
example : ¬Json.ReadsBack 130627.23951714601 := by
  unfold Json.ReadsBack
  decide +kernel

theorem json_lossless_control_blank :
    parse "D:-1.5|L:\"a\x0b\n\"" = .ok [⟨"D", some (.float (-1.5))⟩, ⟨"L", some (.text "a\x0b\n")⟩] ∧
      Sequence.ofJsonText? (Sequence.jsonText [⟨"D", some (.float (-1.5))⟩, ⟨"L", some (.text "a\x0b\n")⟩]) =
        some [⟨"D", some (.float (-1.5))⟩, ⟨"L", some (.text "a\x0b\n")⟩] := by
  have hd : Name ['D'] := by decide
  have hl : Name ['L'] := by decide
  have hwhole : Leading ['1'] := by decide
  have hdigits : Digits ['5'] := by decide
  have hread : readFloat? (String.ofList ['-', '1', '.', '5']) = some (-1.5) := by decide +kernel
  have hstatement : Statement "D:-1.5".toList ⟨"D", some (.float (-1.5))⟩ :=
    .applied hd Spaces.nil Spaces.nil (.float (.mk (.negative hwhole) hdigits) hread)
  have htext : ∀ c ∈ ['a', '\x0b', '\n'], isTextChar c = true :=
    List.all_eq_true.mp (by decide)
  have hlast : Statement "L:\"a\x0b\n\"".toList ⟨"L", some (.text "a\x0b\n")⟩ :=
    .applied hl Spaces.nil Spaces.nil (.text htext)
  have hparse : parse "D:-1.5|L:\"a\x0b\n\"" =
      .ok [⟨"D", some (.float (-1.5))⟩, ⟨"L", some (.text "a\x0b\n")⟩] :=
    parse_of_chain (hstatement.cons hlast.last)
  have hfinite : (-1.5 : Float).isFinite = true := by decide +kernel
  have hback : Json.ReadsBack (-1.5) := by
    have hrender : jsonStyle.render (-1.5) = "-1.5" := by decide +kernel
    have hspelled : Numeral.read? (jsonStyle.render (-1.5)).toList = some ⟨true, ['1'], ['5'], 0⟩ := by
      rw [hrender]
      rfl
    exact Json.readsBack_of_digits_lt hfinite hspelled (by decide) (by decide)
  have hfloat : ∀ op ∈ [⟨"D", some (.float (-1.5))⟩, (⟨"L", some (.text "a\x0b\n")⟩ : Operation)],
      ∀ x, op.arg = some (.float x) → x = -1.5 := by
    intro op hop x hx
    simp only [List.mem_cons, List.not_mem_nil, or_false] at hop
    rcases hop with rfl | rfl
    · cases hx
      rfl
    · cases hx
  refine ⟨hparse, (json_lossless_iff hparse ?_).1.mpr ?_⟩
  · intro op hop x hx _
    rw [hfloat op hop x hx]
    exact hback
  · intro op hop x hx
    rw [hfloat op hop x hx]
    exact hfinite

/-- Beyond the greatest double a float is read as infinity, which is written as null, and null is no float. -/
theorem infinity_lost_in_json :
    parse (powerText 309) = .ok [⟨"D", some (.float (ofMagnitudeBits false infinityBits))⟩] ∧
      Sequence.jsonText [⟨"D", some (.float (ofMagnitudeBits false infinityBits))⟩] =
        "[\n  \x7b\n    \"name\": \"D\",\n    \"arg\": \x7b\n      \"Float\": null\n    \x7d\n  \x7d\n]" ∧
      Sequence.ofJsonText? (Sequence.jsonText [⟨"D", some (.float (ofMagnitudeBits false infinityBits))⟩]) = none := by
  have hbits : Decimal.bits ⟨1, (309 : Nat)⟩ = infinityBits := by decide +kernel
  have hstatement := statement_powerText 309
  rw [hbits] at hstatement
  refine ⟨parse_of_chain hstatement.last, by decide +kernel, ?_⟩
  rw [Sequence.ofJsonText?_jsonText_eq_none_iff]
  exact ⟨_, List.mem_singleton_self _, _, rfl, Json.toFloat?_ofFloat_of_not_isFinite (isFinite_infinity false)⟩

end TurtleChain
