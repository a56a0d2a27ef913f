import Mathlib
import TurtleChain.Chain.Operation
import TurtleChain.Chain.Token
import TurtleChain.Number.Numeral

/-! The grammar of chains, over characters and with no tokens in between: which texts are chains, and which
operations each of them denotes. Spaces stand between tokens only, so a number, a member and a string are
written without a gap, and a space inside a string belongs to the string. -/

namespace TurtleChain.Grammar

/-- Any number of spaces, and no other blank. -/
def Spaces (cs : List Char) : Prop :=
  ∀ c ∈ cs, c = ' '

def Name : List Char → Prop
  | [] => False
  | c :: cs => isNameStart c = true ∧ ∀ d ∈ cs, isNameChar d = true

/-- At least one digit. -/
def Digits (cs : List Char) : Prop :=
  cs ≠ [] ∧ ∀ c ∈ cs, c.isDigit = true

/-- Digits that do not start with a zero. -/
def Leading : List Char → Prop
  | [] => False
  | c :: cs => c ≠ '0' ∧ ∀ d ∈ c :: cs, d.isDigit = true

section

-- Named, because characters are finitely many and a search through all of them would decide this as well.
local instance decidableForallMem (p : Char → Bool) (cs : List Char) : Decidable (∀ c ∈ cs, p c = true) :=
  cs.decidableBAll _

instance : DecidablePred Name
  | [] => isFalse id
  | c :: cs => inferInstanceAs (Decidable (isNameStart c = true ∧ ∀ d ∈ cs, isNameChar d = true))

instance : DecidablePred Digits :=
  fun cs => inferInstanceAs (Decidable (cs ≠ [] ∧ ∀ c ∈ cs, c.isDigit = true))

instance : DecidablePred Leading
  | [] => isFalse id
  | c :: cs => inferInstanceAs (Decidable (c ≠ '0' ∧ ∀ d ∈ c :: cs, d.isDigit = true))

end

/-- The spellings of integers of any size, each with the integer it spells. -/
inductive Integer : List Char → Int → Prop where
  | zero : Integer ['0'] 0
  | positive {ds : List Char} (h : Leading ds) : Integer ds (Nat.ofDigitChars 10 ds 0)
  | negative {ds : List Char} (h : Leading ds) : Integer ('-' :: ds) (-(Nat.ofDigitChars 10 ds 0 : Int))

/-- The spelling of a float: that of an integer, a point, and digits. -/
inductive Fraction : List Char → Prop where
  | mk {whole digits : List Char} {n : Int} (hwhole : Integer whole n) (hdigits : Digits digits) :
      Fraction (whole ++ '.' :: digits)

/-- What may stand behind a colon. An integer has to be one of 64 bits with a sign. -/
inductive Value : List Char → Arg → Prop where
  | int {cs : List Char} {n : Int64} (h : Integer cs n.toInt) : Value cs (.int n)
  | float {cs : List Char} {x : Float} (h : Fraction cs) (hx : readFloat? (String.ofList cs) = some x) :
      Value cs (.float x)
  | member {object field : List Char} (hobject : Name object) (hfield : Name field) :
      Value (object ++ '.' :: field) (.member (String.ofList object) (String.ofList field))
  | ident {cs : List Char} (h : Name cs) : Value cs (.ident (String.ofList cs))
  | text {cs : List Char} (h : ∀ c ∈ cs, isTextChar c = true) :
      Value ('"' :: (cs ++ ['"'])) (.text (String.ofList cs))

/-- A name, and behind it nothing or a colon and an argument. -/
inductive Statement : List Char → Operation → Prop where
  | bare {name : List Char} (h : Name name) : Statement name ⟨String.ofList name, none⟩
  | applied {name gap gap' value : List Char} {arg : Arg} (hname : Name name) (hgap : Spaces gap)
      (hgap' : Spaces gap') (hvalue : Value value arg) :
      Statement (name ++ (gap ++ ':' :: (gap' ++ value))) ⟨String.ofList name, some arg⟩

/-- Statements with pipes between them, or spaces alone. Behind a pipe comes a chain again; where that is
spaces alone, the pipe is the trailing one. -/
inductive Chain : List Char → Sequence → Prop where
  | spaces {cs : List Char} (h : Spaces cs) : Chain cs []
  | last {gap text gap' : List Char} {op : Operation} (hgap : Spaces gap) (htext : Statement text op)
      (hgap' : Spaces gap') : Chain (gap ++ (text ++ gap')) [op]
  | cons {gap text gap' rest : List Char} {op : Operation} {ops : Sequence} (hgap : Spaces gap)
      (htext : Statement text op) (hgap' : Spaces gap') (hrest : Chain rest ops) :
      Chain (gap ++ (text ++ (gap' ++ '|' :: rest))) (op :: ops)

theorem Spaces.nil : Spaces [] := by
  intro c hc
  cases hc

theorem Spaces.tail {c : Char} {cs : List Char} (h : Spaces (c :: cs)) : Spaces cs :=
  fun d hd => h d (List.mem_cons_of_mem c hd)

theorem Spaces.eq_space {c : Char} {cs : List Char} (h : Spaces (c :: cs)) : c = ' ' :=
  h c List.mem_cons_self

theorem spaces_cons {cs : List Char} (h : Spaces cs) : Spaces (' ' :: cs) := by
  intro c hc
  rcases List.mem_cons.mp hc with rfl | hc
  · rfl
  · exact h c hc

theorem Statement.last {text : List Char} {op : Operation} (h : Statement text op) : Chain text [op] := by
  have hchain := Chain.last Spaces.nil h Spaces.nil
  rwa [List.nil_append, List.append_nil] at hchain

theorem Statement.cons {text rest : List Char} {op : Operation} {ops : Sequence} (h : Statement text op)
    (hrest : Chain rest ops) : Chain (text ++ '|' :: rest) (op :: ops) :=
  .cons Spaces.nil h Spaces.nil hrest

/-- Every operation of a chain has a statement in it. -/
theorem Chain.exists_statement {cs : List Char} {ops : Sequence} (h : Chain cs ops) {op : Operation}
    (hop : op ∈ ops) : ∃ text, Statement text op := by
  induction h with
  | spaces => cases hop
  | last _ htext =>
      rw [List.mem_singleton] at hop
      subst hop
      exact ⟨_, htext⟩
  | cons _ htext _ _ ih =>
      rcases List.mem_cons.mp hop with rfl | hop
      · exact ⟨_, htext⟩
      · exact ih hop

/-- A text starts with its spaces. -/
theorem exists_spaces_append (cs : List Char) :
    ∃ gap rest, cs = gap ++ rest ∧ Spaces gap ∧ ∀ c ∈ rest.head?, c ≠ ' ' := by
  induction cs with
  | nil => exact ⟨[], [], rfl, Spaces.nil, by simp⟩
  | cons c cs ih =>
      by_cases hc : c = ' '
      · obtain ⟨gap, rest, rfl, hgap, hrest⟩ := ih
        subst hc
        exact ⟨' ' :: gap, rest, rfl, spaces_cons hgap, hrest⟩
      · exact ⟨[], c :: cs, rfl, Spaces.nil, by simpa using hc⟩

theorem Leading.digits {ds : List Char} (h : Leading ds) : Digits ds := by
  cases ds with
  | nil => exact h.elim
  | cons d ds => exact ⟨List.cons_ne_nil d ds, h.2⟩

theorem Leading.cons_inv {ds : List Char} (h : Leading ds) :
    ∃ d tail, ds = d :: tail ∧ d ≠ '0' ∧ d.isDigit = true ∧ ∀ c ∈ tail, c.isDigit = true := by
  cases ds with
  | nil => exact h.elim
  | cons d tail =>
      exact ⟨d, tail, rfl, h.1, h.2 d List.mem_cons_self, fun c hc => h.2 c (List.mem_cons_of_mem d hc)⟩

theorem Leading.append {ds cs : List Char} (hds : Leading ds) (hcs : ∀ c ∈ cs, c.isDigit = true) :
    Leading (ds ++ cs) := by
  cases ds with
  | nil => exact hds.elim
  | cons d ds =>
      refine ⟨hds.1, ?_⟩
      intro c hc
      rcases List.mem_append.mp (show c ∈ (d :: ds) ++ cs from hc) with hc | hc
      · exact hds.2 c hc
      · exact hcs c hc

theorem Leading.take {ds : List Char} (hds : Leading ds) {n : Nat} (hn : 0 < n) : Leading (ds.take n) := by
  cases ds with
  | nil => exact hds.elim
  | cons d ds =>
      obtain ⟨m, rfl⟩ := Nat.exists_eq_succ_of_ne_zero (Nat.ne_of_gt hn)
      exact ⟨hds.1, fun c hc => hds.2 c (List.mem_of_mem_take (show c ∈ (d :: ds).take (m + 1) from hc))⟩

theorem Name.cons_inv {cs : List Char} (h : Name cs) :
    ∃ c tail, cs = c :: tail ∧ isNameStart c = true ∧ ∀ d ∈ tail, isNameChar d = true := by
  cases cs with
  | nil => exact h.elim
  | cons c tail => exact ⟨c, tail, rfl, h.1, h.2⟩

end TurtleChain.Grammar
