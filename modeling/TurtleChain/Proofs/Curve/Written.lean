import TurtleChain.Proofs.Curve.Parameter
import TurtleChain.Walk.Color

/-! The operations that curves are written with: numbers behind the names that take one, colours, and the two
names that only stand for what replaces them. Chains that are put together from their texts are read as them. -/

namespace TurtleChain

open Grammar Binary64

/-- A name with the number behind it that its text is read as. -/
def Operation.ofNumber (name : String) (x : Float) : Operation :=
  ⟨name, some (.ofNumber x)⟩

/-- The number of an operation. -/
def Operation.value? (op : Operation) : Option ℚ :=
  (op.arg.bind Arg.number?).map toRat

theorem Operation.value?_ofNumber (name : String) {x : Float} (h : WritableNumber x) :
    (ofNumber name x).value? = some (toRat x) :=
  Arg.toRat_number?_ofNumber h

/-- The names that stand in front of numbers. -/
def numberNames : List String :=
  ["D", "D2", "DL", "DR", "T", "S"]

inductive Operation.Written : Operation → Prop where
  | bare {name : String} (hname : name = "A" ∨ name = "B") : Written ⟨name, none⟩
  | color (tag : Color) : Written ⟨"C", some (.ident tag.name)⟩
  | number {name : String} {x : Float} (hname : name ∈ numberNames) (hx : WritableNumber x) :
      Written (.ofNumber name x)

theorem Operation.Written.wellFormed {op : Operation} (h : op.Written) : op.WellFormed := by
  cases h with
  | bare hname =>
      have hletter : Name "A".toList ∧ Name "B".toList := by decide
      refine ⟨?_, fun arg harg => by cases harg⟩
      rcases hname with rfl | rfl
      · exact hletter.1
      · exact hletter.2
  | color tag =>
      have hletter : Name "C".toList := by decide
      have htag : Name tag.name.toList := by cases tag <;> decide
      refine ⟨hletter, fun arg harg => ?_⟩
      cases harg
      exact htag
  | number hname hx =>
      have hnames : ∀ name ∈ numberNames, Name name.toList := by decide
      refine ⟨hnames _ hname, fun arg harg => ?_⟩
      cases harg
      exact Arg.wellFormed_ofNumber hx

namespace Operation

theorem render_bare (name : String) : render ⟨name, none⟩ = name := rfl

theorem render_color (name : String) : render ⟨"C", some (.ident name)⟩ = "C:" ++ name := rfl

theorem render_ofNumber (name : String) {x : Float} (h : WritableNumber x) :
    (ofNumber name x).render = name ++ ":" ++ numberText x := by
  rw [← Arg.render_ofNumber h]
  rfl

end Operation

namespace Sequence

/-- The text of operations with a pipe behind each. -/
def piped (ops : Sequence) : String :=
  String.join (ops.map fun op => op.render ++ "|")

theorem piped_nil : piped [] = "" := rfl

theorem piped_cons (op : Operation) (ops : Sequence) : piped (op :: ops) = op.render ++ "|" ++ piped ops := by
  rw [piped, List.map_cons, String.join_cons]
  rfl

theorem piped_append (ops ops' : Sequence) : piped (ops ++ ops') = piped ops ++ piped ops' := by
  rw [piped, List.map_append, String.join_append]
  rfl

theorem toChain_true (ops : Sequence) : toChain true ops = piped ops := by
  induction ops with
  | nil => rfl
  | cons op ops ih =>
      rw [toChain, if_pos ⟨rfl, List.cons_ne_nil op ops⟩, piped_cons]
      cases ops with
      | nil =>
          rw [render, List.map_singleton, String.intercalate_singleton, piped_nil, String.append_empty]
      | cons op' ops =>
          rw [toChain, if_pos ⟨rfl, List.cons_ne_nil op' ops⟩] at ih
          rw [render_cons, ← ih, String.append_assoc]

section

variable {ops : Sequence} (h : ∀ op ∈ ops, op.Written)

include h

theorem parse_piped : parse (piped ops) = .ok ops := by
  rw [← toChain_true]
  exact parse_of_chain (chain_toChain (fun op hop => (h op hop).wellFormed) true)

theorem parse_render : parse (render ops) = .ok ops :=
  parse_of_chain (chain_toChain (fun op hop => (h op hop).wellFormed) false)

end

end Sequence

end TurtleChain
