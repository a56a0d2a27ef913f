import TurtleChain.Curve.Rules
import TurtleChain.Proofs.Curve.Written
import TurtleChain.Proofs.NameMap
import TurtleChain.Proofs.Rewriting.Collecting

/-! The seeds and the tables of the families that are given by a side length. For every side that passes its check
they are read without an error, as operations that curves are written with. -/

namespace TurtleChain

open Binary64

/-- A table of these rules, all of operations that curves are written with. -/
structure Table.Has (table : Table) (rules : List (String × Sequence)) : Prop where
  get? : ∀ name, table.get? name = rules.lookup name
  written : ∀ rule ∈ rules, ∀ op ∈ rule.2, op.Written

namespace Sequence

theorem render_append {ops ops' : Sequence} (h : ops ≠ []) (h' : ops' ≠ []) :
    render (ops ++ ops') = render ops ++ "|" ++ render ops' := by
  induction ops with
  | nil => exact absurd rfl h
  | cons op ops ih =>
      cases ops with
      | nil =>
          obtain ⟨op', ops', rfl⟩ := List.exists_cons_of_ne_nil h'
          rw [List.singleton_append, render_cons, render, render, List.map_singleton, String.intercalate_singleton]
      | cons op' ops =>
          rw [List.cons_append, List.cons_append, render_cons, ← List.cons_append, ih (List.cons_ne_nil op' ops),
            render_cons]
          simp only [String.append_assoc]

end Sequence

/-! ### Turtle notation -/

namespace TurtleRule

/-- The turn that a run of turns adds up to, if they do not cancel. -/
def turnOps (angle : Float) (turns : Int) : Sequence :=
  if turns = 0 then [] else [.ofNumber "T" (Float.ofInt turns * angle)]

/-- The operations of a rule, behind `turns` turns not yet written. -/
def stepOps (side angle : Float) (turns : Int) : List Char → Sequence
  | [] => turnOps angle turns
  | c :: cs =>
    if c = '+' then stepOps side angle (turns + 1) cs
    else if c = '-' then stepOps side angle (turns - 1) cs
    else if c = 'L' then turnOps angle turns ++ .ofNumber "DL" side :: stepOps side angle 0 cs
    else if c = 'R' then turnOps angle turns ++ .ofNumber "DR" side :: stepOps side angle 0 cs
    else stepOps side angle turns cs

section

variable {side angle : Float} {most : Nat} (hside : WritableNumber side)
  (hangle : ∀ turns : Int, turns ≠ 0 → turns.natAbs ≤ most → WritableNumber (Float.ofInt turns * angle))

include hangle

theorem written_turnOps {turns : Int} (h : turns.natAbs ≤ most) : ∀ op ∈ turnOps angle turns, op.Written := by
  unfold turnOps
  split
  · simp
  · next hturns =>
      intro op hop
      rw [List.mem_singleton.mp hop]
      exact .number (by decide) (hangle turns hturns h)

theorem turn_eq {turns : Int} (h : turns.natAbs ≤ most) :
    turn angle turns = (turnOps angle turns).map Operation.render := by
  unfold turn turnOps
  split
  · rfl
  · next hturns =>
      rw [List.map_singleton, Operation.render_ofNumber _ (hangle turns hturns h)]
      rfl

include hside

/-- What is written are operations, of as many turns at most as there are characters. -/
theorem steps_eq {turns : Int} {cs : List Char} (h : turns.natAbs + cs.length ≤ most) :
    (∀ op ∈ stepOps side angle turns cs, op.Written) ∧
      steps (numberText side) angle turns cs = (stepOps side angle turns cs).map Operation.render := by
  induction cs generalizing turns with
  | nil => exact ⟨written_turnOps hangle (by omega), turn_eq hangle (by omega)⟩
  | cons c cs ih =>
      rw [List.length_cons] at h
      have hzero := ih (show (0 : Int).natAbs + cs.length ≤ most by omega)
      have hturns : turns.natAbs ≤ most := by omega
      have hdraw : ∀ name ∈ numberNames,
          (∀ op ∈ turnOps angle turns ++ .ofNumber name side :: stepOps side angle 0 cs, op.Written) ∧
            turn angle turns ++ (name ++ ":" ++ numberText side) :: steps (numberText side) angle 0 cs =
              (turnOps angle turns ++ .ofNumber name side :: stepOps side angle 0 cs).map Operation.render := by
        intro name hname
        refine ⟨List.forall_mem_append.mpr ⟨written_turnOps hangle hturns, ?_⟩, ?_⟩
        · exact List.forall_mem_cons.mpr ⟨.number hname hside, hzero.1⟩
        · rw [List.map_append, List.map_cons, Operation.render_ofNumber _ hside, ← turn_eq hangle hturns, hzero.2]
      rw [steps, stepOps]
      by_cases hplus : c = '+'
      · rw [if_pos hplus, if_pos hplus]
        exact ih (by omega)
      · rw [if_neg hplus, if_neg hplus]
        by_cases hminus : c = '-'
        · rw [if_pos hminus, if_pos hminus]
          exact ih (by omega)
        · rw [if_neg hminus, if_neg hminus]
          by_cases hleft : c = 'L'
          · rw [if_pos hleft, if_pos hleft]
            exact hdraw "DL" (by decide)
          · rw [if_neg hleft, if_neg hleft]
            by_cases hright : c = 'R'
            · rw [if_pos hright, if_pos hright]
              exact hdraw "DR" (by decide)
            · rw [if_neg hright, if_neg hright]
              exact ih (by omega)

end

/-- A rule that draws is not empty. -/
theorem stepOps_ne_nil (side angle : Float) (turns : Int) {cs : List Char} (h : 'L' ∈ cs) :
    stepOps side angle turns cs ≠ [] := by
  induction cs generalizing turns with
  | nil => cases h
  | cons c cs ih =>
      have hdraw : ∀ name, turnOps angle turns ++ .ofNumber name side :: stepOps side angle 0 cs ≠ [] := by simp
      unfold stepOps
      rcases List.mem_cons.mp h with rfl | h
      · exact hdraw "DL"
      · split
        · exact ih (turns + 1) h
        · split
          · exact ih (turns - 1) h
          · split
            · exact hdraw "DL"
            · split
              · exact hdraw "DR"
              · exact ih turns h

section

variable {a : Int} (ha : a ≠ 0) {most : Nat} (hmost : most * a.natAbs < 2 ^ 53)

include ha hmost

/-- Whole turns are exact however many there are, up to the range of whole doubles. -/
theorem ofInt_turns {turns : Int} (hturns : turns ≠ 0) (hle : turns.natAbs ≤ most) :
    (turns * a).natAbs < 2 ^ 53 ∧ Float.ofInt turns * Float.ofInt a = Float.ofInt (turns * a) := by
  have hproduct : (turns * a).natAbs < 2 ^ 53 := by
    rw [Int.natAbs_mul]
    exact (Nat.mul_le_mul_right _ hle).trans_lt hmost
  have hleft : turns.natAbs ≤ (turns * a).natAbs :=
    Int.natAbs_mul turns a ▸ Nat.le_mul_of_pos_right _ (Int.natAbs_pos.mpr ha)
  have hright : a.natAbs ≤ (turns * a).natAbs :=
    Int.natAbs_mul turns a ▸ Nat.le_mul_of_pos_left _ (Int.natAbs_pos.mpr hturns)
  exact ⟨hproduct,
    ofInt_mul (hleft.trans_lt hproduct) (hright.trans_lt hproduct) hproduct (mul_ne_zero hturns ha)⟩

theorem writable_turns (turns : Int) (hturns : turns ≠ 0) (hle : turns.natAbs ≤ most) :
    WritableNumber (Float.ofInt turns * Float.ofInt a) := by
  obtain ⟨hproduct, hexact⟩ := ofInt_turns ha hmost hturns hle
  rw [hexact]
  exact writable_ofInt hproduct

end

/-- A rule in turtle notation between two changes of scale. -/
def wrappedOps (side angle shrink grow : Float) (rule : String) : Sequence :=
  .ofNumber "S" shrink :: (stepOps side angle 0 rule.toList ++ [.ofNumber "S" grow])

section

variable {side angle shrink grow : Float} (hside : WritableNumber side) (hshrink : WritableNumber shrink)
  (hgrow : WritableNumber grow) {rule : String} (hrule : 'L' ∈ rule.toList)
  (hangle : ∀ turns : Int, turns ≠ 0 → turns.natAbs ≤ rule.toList.length → WritableNumber (Float.ofInt turns * angle))

include hside hangle

/-- The chain of a rule is the text of its operations. -/
theorem chainText_eq :
    (∀ op ∈ stepOps side angle 0 rule.toList, op.Written) ∧
      chainText (numberText side) angle rule = Sequence.render (stepOps side angle 0 rule.toList) := by
  obtain ⟨hwritten, hsteps⟩ := steps_eq hside hangle (show (0 : Int).natAbs + rule.toList.length ≤ _ by simp)
  exact ⟨hwritten, by rw [chainText, hsteps, Sequence.render]⟩

include hshrink hgrow

theorem written_wrappedOps : ∀ op ∈ wrappedOps side angle shrink grow rule, op.Written := by
  have hsteps := (chainText_eq hside hangle).1
  refine List.forall_mem_cons.mpr ⟨.number (by decide) hshrink, List.forall_mem_append.mpr ⟨hsteps, ?_⟩⟩
  exact List.forall_mem_singleton.mpr (.number (by decide) hgrow)

include hrule

theorem render_wrappedOps :
    Sequence.render (wrappedOps side angle shrink grow rule) =
      "S:" ++ numberText shrink ++ "|" ++ chainText (numberText side) angle rule ++ "|S:" ++ numberText grow := by
  have hne := stepOps_ne_nil side angle 0 hrule
  have hsingle : ∀ {x : Float}, WritableNumber x → Sequence.render [.ofNumber "S" x] = "S:" ++ numberText x := by
    intro x hx
    rw [Sequence.render, List.map_singleton, String.intercalate_singleton, Operation.render_ofNumber _ hx]
    rfl
  rw [wrappedOps, ← List.singleton_append, Sequence.render_append (List.cons_ne_nil _ _) (by simp),
    Sequence.render_append hne (List.cons_ne_nil _ _), hsingle hshrink, hsingle hgrow,
    (chainText_eq hside hangle).2]
  exact String.toList_inj.mp (by simp)

theorem parse_wrapped :
    parse ("S:" ++ numberText shrink ++ "|" ++ chainText (numberText side) angle rule ++ "|S:" ++ numberText grow) =
      .ok (wrappedOps side angle shrink grow rule) := by
  rw [← render_wrappedOps hside hshrink hgrow hrule hangle]
  exact Sequence.parse_render (written_wrappedOps hside hshrink hgrow hangle)

end

end TurtleRule

/-! ### Tables -/

namespace Family

theorem checkSide_eq {side : Float} (h : Parameter.sideLength.checkLength side = .ok ()) :
    checkSide side = .ok (numberText side) := by
  rw [checkSide, h]

theorem checkSide_of_error {side : Float} {e : InvalidParameter}
    (h : Parameter.sideLength.checkLength side = .error e) : checkSide side = .error (.invalid e) := by
  rw [checkSide, h]

theorem readRule_eq {family : Family} {rule chain : String} {ops : Sequence} (h : parse chain = .ok ops) :
    readRule family rule chain = .ok ops := by
  rw [readRule, h]
  rfl

/-- A table of two chains that can be read. -/
theorem tableOfChains_pair (family : Family) {name name' : String} (hne : name' ≠ name) {chain chain' : String}
    {ops ops' : Sequence} (h : parse chain = .ok ops) (h' : parse chain' = .ok ops')
    (hwritten : ∀ op ∈ ops, op.Written) (hwritten' : ∀ op ∈ ops', op.Written) :
    ∃ table, tableOfChains family [(name, chain), (name', chain')] = .ok table ∧
      table.Has [(name, ops), (name', ops')] := by
  have hempty : Table.empty.contains name = false := rfl
  have hfirst : Table.contains ⟨Table.empty.rules.put name ops⟩ name' = false := by
    rw [Table.contains, NameMap.contains, NameMap.get?_put, if_neg hne]
    rfl
  refine ⟨⟨(Table.empty.rules.put name ops).put name' ops'⟩, ?_, fun key => ?_,
    List.forall_mem_cons.mpr ⟨hwritten, List.forall_mem_singleton.mpr hwritten'⟩⟩
  · simp only [tableOfChains, List.foldlM_cons, List.foldlM_nil, readRule_eq h, readRule_eq h', Table.insert_eq, bind,
      Except.bind, hempty, hfirst, Bool.false_eq_true, if_false, Except.mapError]
    rfl
  · rw [Table.get?, NameMap.get?_put, NameMap.get?_put, NameMap.lookup_cons, NameMap.lookup_cons]
    by_cases hkey : key = name'
    · rw [if_pos hkey, if_neg fun heq => hne (hkey.symm.trans heq), if_pos hkey]
    · rw [if_neg hkey, if_neg hkey]
      rfl

/-- The factors by which rules change the scale. -/
def factors : List Float :=
  [0.25, 4, 0.2, 5, 0.5, 2, 0.7071067811865476, 1.4142135623730951]

theorem writable_factor {x : Float} (h : x ∈ factors) : WritableNumber x := by
  have hbits : ∀ x ∈ factors, magnitudeBits x ≤ magnitudeBits Parameter.limit ∧ isNegative x = false := by
    decide +kernel
  obtain ⟨hle, hnegative⟩ := hbits x h
  refine Parameter.writable_of_le_limit hle fun hminus => ?_
  rw [hnegative] at hminus
  cases hminus

/-- The rule that replaces a Hilbert curve of one hand; the other hand turns the other way. -/
def hilbertOps (side : Float) (turn : Int) (self other : String) : Sequence :=
  [.ofNumber "S" 0.25, .ofNumber "T" (Float.ofInt (-turn)), ⟨other, none⟩, .ofNumber "D" side,
    .ofNumber "T" (Float.ofInt turn), ⟨self, none⟩, .ofNumber "D" side, ⟨self, none⟩,
    .ofNumber "T" (Float.ofInt turn), .ofNumber "D" side, ⟨other, none⟩, .ofNumber "T" (Float.ofInt (-turn)),
    .ofNumber "S" 4]

/-- What a family replaces, and by what. The one rule of an E-sequence is not made from a side length. -/
def ruleOps (side : Float) : Family → List (String × Sequence)
  | hilbert => [("A", hilbertOps side 90 "A" "B"), ("B", hilbertOps side (-90) "B" "A")]
  | eCurve =>
    [("DL", TurtleRule.wrappedOps side 90 0.2 5 "LL+R+R-L-L+R+RL-R-LLR+L-R-LL-R+LR+R+L-L-RR+"),
      ("DR", TurtleRule.wrappedOps side 90 0.2 5 "-LL+R+R-L-LR-L+RR+L+R-LRR+L+RL-L-R+R+L-L-RR")]
  | sierpinski =>
    [("DL", TurtleRule.wrappedOps side 60 0.5 2 "R-L-R"), ("DR", TurtleRule.wrappedOps side 60 0.5 2 "L+R+L")]
  | zigzag =>
    [("DL", TurtleRule.wrappedOps side 45 0.7071067811865476 1.4142135623730951 "+L--R+"),
      ("DR", TurtleRule.wrappedOps side 45 0.7071067811865476 1.4142135623730951 "-L++R-")]
  | generic => []

section

variable {side : Float} (h : WritableNumber side)

include h

theorem written_hilbertOps {turn : Int} (hturn : turn.natAbs < 2 ^ 53) {self other : String}
    (hself : self = "A" ∨ self = "B") (hother : other = "A" ∨ other = "B") :
    ∀ op ∈ hilbertOps side turn self other, op.Written := by
  have hshrink : WritableNumber 0.25 := writable_factor (by simp [factors])
  have hgrow : WritableNumber 4 := writable_factor (by simp [factors])
  have hforth := writable_ofInt hturn
  have hback : WritableNumber (Float.ofInt (-turn)) := writable_ofInt (by rwa [Int.natAbs_neg])
  simp only [hilbertOps, List.forall_mem_cons]
  exact ⟨.number (by decide) hshrink, .number (by decide) hback, .bare hother, .number (by decide) h,
    .number (by decide) hforth, .bare hself, .number (by decide) h, .bare hself, .number (by decide) hforth,
    .number (by decide) h, .bare hother, .number (by decide) hback, .number (by decide) hgrow, by simp⟩

theorem piped_hilbertOps {turn : Int} (hturn : turn.natAbs < 2 ^ 53) (self other : String) :
    Sequence.piped (hilbertOps side turn self other) =
      "S:0.25|T:" ++ numberText (Float.ofInt (-turn)) ++ "|" ++ other ++ "|D:" ++ numberText side ++ "|T:" ++
        numberText (Float.ofInt turn) ++ "|" ++ self ++ "|D:" ++ numberText side ++ "|" ++ self ++ "|T:" ++
        numberText (Float.ofInt turn) ++ "|D:" ++ numberText side ++ "|" ++ other ++ "|T:" ++
        numberText (Float.ofInt (-turn)) ++ "|S:4|" := by
  have hshrink : WritableNumber 0.25 := writable_factor (by simp [factors])
  have hgrow : WritableNumber 4 := writable_factor (by simp [factors])
  have hback : WritableNumber (Float.ofInt (-turn)) := writable_ofInt (by rwa [Int.natAbs_neg])
  have hshrinkText : numberText 0.25 = "0.25" := by decide +kernel
  have hgrowText : numberText 4 = "4" := numberText_ofInt (n := 4) (by decide)
  simp only [hilbertOps, Sequence.piped_cons, Sequence.piped_nil, Operation.render_bare, Operation.render_ofNumber _ h,
    Operation.render_ofNumber _ hshrink, Operation.render_ofNumber _ hgrow, Operation.render_ofNumber _ hback,
    Operation.render_ofNumber _ (writable_ofInt hturn), hshrinkText, hgrowText]
  exact String.toList_inj.mp (by simp)

end

section

variable {side : Float} (h : Parameter.sideLength.checkLength side = .ok ())

include h

theorem hilbertTable_eq : ∃ table, hilbertTable side = .ok table ∧ table.Has (ruleOps side hilbert) := by
  have hside := Parameter.writable_of_checkLength h
  have hforth : numberText (Float.ofInt 90) = "90" := numberText_ofInt (by decide)
  have hback : numberText (Float.ofInt (-90)) = "-90" := numberText_ofInt (by decide)
  have hright := piped_hilbertOps hside (show (90 : Int).natAbs < 2 ^ 53 by decide) "A" "B"
  have hleft := piped_hilbertOps hside (show (-90 : Int).natAbs < 2 ^ 53 by decide) "B" "A"
  rw [neg_neg] at hleft
  rw [hforth, hback] at hright hleft
  have hwritten : ∀ op ∈ hilbertOps side 90 "A" "B", op.Written :=
    written_hilbertOps hside (by decide) (Or.inl rfl) (Or.inr rfl)
  have hwritten' : ∀ op ∈ hilbertOps side (-90) "B" "A", op.Written :=
    written_hilbertOps hside (by decide) (Or.inr rfl) (Or.inl rfl)
  have hparse := Sequence.parse_piped hwritten
  have hparse' := Sequence.parse_piped hwritten'
  rw [hright] at hparse
  rw [hleft] at hparse'
  rw [hilbertTable, checkSide_eq h]
  refine tableOfChains_pair hilbert (by decide) (Eq.trans ?_ hparse) (Eq.trans ?_ hparse') hwritten hwritten'
  · exact congrArg parse (String.toList_inj.mp (by simp))
  · exact congrArg parse (String.toList_inj.mp (by simp))

theorem turtleTable_eq (family : Family) {a : Int} (ha : a ≠ 0) {shrink grow : Float} (hshrink : WritableNumber shrink)
    (hgrow : WritableNumber grow) {left right : String} (hleft : 'L' ∈ left.toList) (hright : 'L' ∈ right.toList)
    (hmost : left.toList.length * a.natAbs < 2 ^ 53) (hmost' : right.toList.length * a.natAbs < 2 ^ 53) :
    ∃ table, turtleTable family side (Float.ofInt a) shrink grow left right = .ok table ∧
      table.Has [("DL", TurtleRule.wrappedOps side (Float.ofInt a) shrink grow left),
        ("DR", TurtleRule.wrappedOps side (Float.ofInt a) shrink grow right)] := by
  have hside := Parameter.writable_of_checkLength h
  rw [turtleTable, checkSide_eq h]
  exact tableOfChains_pair family (by decide)
    (TurtleRule.parse_wrapped hside hshrink hgrow hleft (TurtleRule.writable_turns ha hmost))
    (TurtleRule.parse_wrapped hside hshrink hgrow hright (TurtleRule.writable_turns ha hmost'))
    (TurtleRule.written_wrappedOps hside hshrink hgrow (TurtleRule.writable_turns ha hmost))
    (TurtleRule.written_wrappedOps hside hshrink hgrow (TurtleRule.writable_turns ha hmost'))

/-- The tables of the families that are given by a side length. -/
theorem table_eq {family : Family} (hfamily : family ≠ generic) :
    ∃ table, family.table side = .ok table ∧ table.Has (family.ruleOps side) := by
  cases family with
  | hilbert => exact hilbertTable_eq h
  | eCurve =>
      exact turtleTable_eq h eCurve (show (90 : Int) ≠ 0 by decide) (writable_factor (x := 0.2) (by simp [factors]))
        (writable_factor (by simp [factors]))
        (by decide) (by decide) (by decide) (by decide)
  | sierpinski =>
      exact turtleTable_eq h sierpinski (show (60 : Int) ≠ 0 by decide) (writable_factor (x := 0.5) (by simp [factors]))
        (writable_factor (by simp [factors])) (by decide) (by decide) (by decide) (by decide)
  | zigzag =>
      exact turtleTable_eq h zigzag (show (45 : Int) ≠ 0 by decide) (writable_factor (by simp [factors]))
        (writable_factor (by simp [factors])) (by decide) (by decide) (by decide) (by decide)
  | generic => exact absurd rfl hfamily

end

/-! ### Seeds -/

def seedOps (side : Float) : Family → Sequence
  | hilbert => [⟨"A", none⟩]
  | eCurve => [.ofNumber "DL" 0]
  | sierpinski => [.ofNumber "DR" 0]
  | zigzag =>
    [.ofNumber "T" 45, .ofNumber "DL" side, .ofNumber "T" (-90), .ofNumber "DR" side, .ofNumber "T" 90,
      .ofNumber "DL" side, .ofNumber "T" (-90), .ofNumber "DR" side, .ofNumber "T" 45]
  | generic => [.ofNumber "D" 0]

theorem writable_zero : WritableNumber 0 :=
  writable_ofInt (n := 0) (by decide)

theorem writable_eighth : WritableNumber 45 :=
  writable_ofInt (n := 45) (by decide)

theorem writable_right : WritableNumber 90 :=
  writable_ofInt (n := 90) (by decide)

theorem writable_left : WritableNumber (-90) :=
  writable_ofInt (n := .negSucc 89) (by decide)

section

variable {side : Float} (h : Parameter.sideLength.checkLength side = .ok ())

include h

theorem written_seedOps (family : Family) : ∀ op ∈ family.seedOps side, op.Written := by
  have hside := Parameter.writable_of_checkLength h
  cases family with
  | hilbert => exact List.forall_mem_singleton.mpr (.bare (Or.inl rfl))
  | eCurve => exact List.forall_mem_singleton.mpr (.number (by decide) writable_zero)
  | sierpinski => exact List.forall_mem_singleton.mpr (.number (by decide) writable_zero)
  | zigzag =>
      simp only [seedOps, List.forall_mem_cons]
      exact ⟨.number (by decide) writable_eighth, .number (by decide) hside, .number (by decide) writable_left,
        .number (by decide) hside, .number (by decide) writable_right, .number (by decide) hside,
        .number (by decide) writable_left, .number (by decide) hside, .number (by decide) writable_eighth, by simp⟩
  | generic => exact List.forall_mem_singleton.mpr (.number (by decide) writable_zero)

theorem seedChain_eq (family : Family) : family.seedChain side = .ok (Sequence.render (family.seedOps side)) := by
  have hside := Parameter.writable_of_checkLength h
  have hzero : numberText 0 = "0" := numberText_ofInt (n := 0) (by decide)
  have hrender : ∀ name, Sequence.render [.ofNumber name 0] = name ++ ":" ++ "0" := by
    intro name
    rw [Sequence.render, List.map_singleton, String.intercalate_singleton, Operation.render_ofNumber _ writable_zero,
      hzero]
  rw [seedChain, checkSide_eq h]
  refine congrArg Except.ok ?_
  cases family with
  | hilbert => rfl
  | eCurve => exact (hrender "DL").symm
  | sierpinski => exact (hrender "DR").symm
  | zigzag =>
      have hforthText : numberText 45 = "45" := numberText_ofInt (n := 45) (by decide)
      have hrightText : numberText 90 = "90" := numberText_ofInt (n := 90) (by decide)
      have hleftText : numberText (-90) = "-90" := numberText_ofInt (n := .negSucc 89) (by decide)
      simp only [seedOps, Sequence.render_cons, Operation.render_ofNumber _ hside,
        Operation.render_ofNumber _ writable_eighth, Operation.render_ofNumber _ writable_right,
        Operation.render_ofNumber _ writable_left, hforthText, hrightText, hleftText]
      rw [Sequence.render, List.map_singleton, String.intercalate_singleton,
        Operation.render_ofNumber _ writable_eighth, hforthText]
      exact String.toList_inj.mp (by simp)
  | generic => exact (hrender "D").symm

theorem seed_eq (family : Family) : family.seed side = .ok (family.seedOps side) := by
  rw [seed, seedChain_eq h]
  exact readRule_eq (Sequence.parse_render (written_seedOps h family))

end

theorem seed_of_error (family : Family) {side : Float} {e : InvalidParameter}
    (h : Parameter.sideLength.checkLength side = .error e) : family.seed side = .error (.invalid e) := by
  rw [seed, seedChain, checkSide_of_error h]
  rfl

end Family

end TurtleChain
