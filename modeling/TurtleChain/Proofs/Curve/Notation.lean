import TurtleChain.Proofs.Curve.Turns

/-! Rules in turtle notation beside the chains that they are written as. Runs of turns are collected until a segment
is drawn or the rule ends; so the segments, and how far the turtle has turned in front of each of them, are those of
the rule, and no turn of the chain is needless. -/

namespace TurtleChain

open Binary64

namespace Sequence

/-- The operations without the turns. -/
def segments (ops : Sequence) : Sequence :=
  ops.filter fun op => op.name != "T"

theorem segments_append (ops ops' : Sequence) : segments (ops ++ ops') = segments ops ++ segments ops' :=
  List.filter_append ..

theorem segments_cons_of_ne {op : Operation} (h : op.name ≠ "T") (ops : Sequence) :
    segments (op :: ops) = op :: segments ops :=
  List.filter_cons_of_pos (bne_iff_ne.mpr h)

theorem netTurn?_of_value? {op : Operation} (hname : op.name = "T") {degrees : ℚ} (h : op.value? = some degrees) :
    netTurn? [op] = some degrees := by
  obtain ⟨own, hown, rfl⟩ := Option.map_eq_some_iff.mp h
  rw [netTurn?, if_pos hname, hown, Option.bind_some, netTurn?, Option.map_some, add_zero]

end Sequence

namespace TurtleRule

/-- What a character adds to the turns. -/
def sign (c : Char) : Int :=
  if c = '+' then 1 else if c = '-' then -1 else 0

/-- The turns of a part of a rule, one way less the other. -/
def netSigns (cs : List Char) : Int :=
  (cs.count '+' : Int) - cs.count '-'

/-- The segment that a character draws. -/
def draw? (side : Float) (c : Char) : Option Operation :=
  if c = 'L' then some (.ofNumber "DL" side)
  else if c = 'R' then some (.ofNumber "DR" side)
  else none

/-- The operations draw what the rule draws, with a turn by the unit for each of its signs. -/
structure Draws (side : Float) (unit : ℚ) (cs : List Char) (ops : Sequence) : Prop where
  /-- All operations but turns are the segments of the rule, in its order. -/
  segments : ops.segments = cs.filterMap (draw? side)
  /-- In front of a segment the turns are those of the rule in front of the character that draws it. -/
  heading : ∀ (before : Sequence) (op : Operation) (after : Sequence), ops = before ++ op :: after → op.name ≠ "T" →
    ∃ part c rest, cs = part ++ c :: rest ∧ draw? side c = some op ∧
      before.segments = part.filterMap (draw? side) ∧ before.netTurn? = some (unit * netSigns part)
  netTurn : ops.netTurn? = some (unit * netSigns cs)
  /-- A turn stands for signs that do not cancel, and their number fits 32 bits. -/
  turns : ∀ op ∈ ops, op.name = "T" →
    ∃ count : Int, count ≠ 0 ∧ count.natAbs < 2 ^ 31 ∧ op.value? = some (unit * count)
  turns_apart : ops.IsChain fun op op' => op.name ≠ "T" ∨ op'.name ≠ "T"

/-! ### One character -/

theorem netSigns_cons (c : Char) (cs : List Char) : netSigns (c :: cs) = sign c + netSigns cs := by
  unfold netSigns sign
  rw [List.count_cons, List.count_cons]
  by_cases hplus : c = '+'
  · subst hplus
    simp
    ring
  · by_cases hminus : c = '-'
    · subst hminus
      simp
      ring
    · simp [hplus, hminus]

theorem natAbs_sign_le (c : Char) : (sign c).natAbs ≤ 1 := by
  unfold sign
  split
  · decide
  · split <;> decide

section

variable {side angle : Float} {turns : Int} {c : Char} {cs : List Char} {op : Operation}

theorem sign_of_draw? (h : draw? side c = some op) : sign c = 0 := by
  unfold draw? at h
  split at h
  · next hleft =>
      rw [hleft]
      rfl
  split at h
  · next hright =>
      rw [hright]
      rfl
  · cases h

theorem name_of_draw? (h : draw? side c = some op) : op.name ≠ "T" := by
  have hnames : "DL" ≠ "T" ∧ "DR" ≠ "T" := by decide
  unfold draw? at h
  split at h
  · cases h
    exact hnames.1
  split at h
  · cases h
    exact hnames.2
  · cases h

/-- A character that draws nothing only changes the turns that are not yet written. -/
theorem stepOps_of_draw?_none (h : draw? side c = none) :
    stepOps side angle turns (c :: cs) = stepOps side angle (turns + sign c) cs := by
  have hleft : c ≠ 'L' := by
    rintro rfl
    cases h
  have hright : c ≠ 'R' := by
    rintro rfl
    cases h
  rw [stepOps, if_neg hleft, if_neg hright]
  unfold sign
  split
  · rfl
  split
  · rfl
  · rw [add_zero]

/-- In front of a segment the turns are written. -/
theorem stepOps_of_draw?_some (h : draw? side c = some op) :
    stepOps side angle turns (c :: cs) = turnOps angle turns ++ op :: stepOps side angle 0 cs := by
  unfold draw? at h
  split at h
  · next hleft =>
      cases h
      subst hleft
      rfl
  split at h
  · next hright =>
      cases h
      subst hright
      rfl
  · cases h

/-- Without segments the turns of the rule become one turn, or none if they cancel. -/
theorem stepOps_of_filterMap_nil (h : cs.filterMap (draw? side) = []) :
    stepOps side angle turns cs = turnOps angle (turns + netSigns cs) := by
  induction cs generalizing turns with
  | nil => exact congrArg (turnOps angle) (add_zero turns).symm
  | cons c cs ih =>
      obtain ⟨hnone, hrest⟩ := List.forall_mem_cons.mp (List.filterMap_eq_nil_iff.mp h)
      rw [stepOps_of_draw?_none hnone, ih (List.filterMap_eq_nil_iff.mpr hrest), netSigns_cons, add_assoc]

end

/-! ### Whole rules -/

/-- What is in front of an item that the first part does not have. -/
theorem exists_of_append_eq {α : Type} {first second before after : List α} {x : α}
    (h : first ++ second = before ++ x :: after) (hx : x ∉ first) :
    ∃ between, before = first ++ between ∧ second = between ++ x :: after := by
  rcases List.append_eq_append_iff.mp h with ⟨between, hbefore, hsecond⟩ | ⟨between, hfirst, hsecond⟩
  · exact ⟨between, hbefore, hsecond⟩
  · cases between with
    | nil => exact ⟨[], by simp [hfirst], hsecond.symm⟩
    | cons y between =>
        obtain ⟨rfl, -⟩ := List.cons.inj hsecond
        exact absurd (by simp [hfirst]) hx

theorem name_of_mem_turnOps {angle : Float} {turns : Int} {op : Operation} (h : op ∈ turnOps angle turns) :
    op.name = "T" := by
  unfold turnOps at h
  split at h
  · cases h
  · rw [List.mem_singleton.mp h]
    rfl

theorem segments_turnOps (angle : Float) (turns : Int) : (turnOps angle turns).segments = [] := by
  unfold turnOps
  split <;> rfl

theorem segments_stepOps (side angle : Float) (turns : Int) (cs : List Char) :
    (stepOps side angle turns cs).segments = cs.filterMap (draw? side) := by
  induction cs generalizing turns with
  | nil => exact segments_turnOps angle turns
  | cons c cs ih =>
      cases hdraw : draw? side c with
      | none => rw [stepOps_of_draw?_none hdraw, ih, List.filterMap_cons_none hdraw]
      | some op =>
          rw [stepOps_of_draw?_some hdraw, Sequence.segments_append, segments_turnOps, List.nil_append,
            Sequence.segments_cons_of_ne (name_of_draw? hdraw), ih, List.filterMap_cons_some hdraw]

/-- Two turns always have a segment between them. -/
theorem turns_apart_stepOps (side angle : Float) (turns : Int) (cs : List Char) :
    (stepOps side angle turns cs).IsChain fun op op' => op.name ≠ "T" ∨ op'.name ≠ "T" := by
  induction cs generalizing turns with
  | nil =>
      unfold stepOps turnOps
      split
      · exact .nil
      · exact .singleton _
  | cons c cs ih =>
      cases hdraw : draw? side c with
      | none =>
          rw [stepOps_of_draw?_none hdraw]
          exact ih _
      | some op =>
          have hname := name_of_draw? hdraw
          have hrest : (op :: stepOps side angle 0 cs).IsChain fun op op' => op.name ≠ "T" ∨ op'.name ≠ "T" :=
            List.isChain_cons.mpr ⟨fun _ _ => Or.inl hname, ih 0⟩
          rw [stepOps_of_draw?_some hdraw]
          unfold turnOps
          split
          · exact hrest
          · exact List.isChain_cons_cons.mpr ⟨Or.inr hname, hrest⟩

/-- So many turns by the angle can be written, each of them as that multiple of the unit. -/
def TurnsBy (angle : Float) (unit : ℚ) (most : Nat) : Prop :=
  ∀ turns : Int, turns ≠ 0 → turns.natAbs ≤ most →
    WritableNumber (Float.ofInt turns * angle) ∧ toRat (Float.ofInt turns * angle) = unit * turns

section

variable {side angle : Float} {unit : ℚ} {most : Nat} (h : TurnsBy angle unit most)

include h

theorem TurnsBy.value? {turns : Int} (hturns : turns ≠ 0) (hle : turns.natAbs ≤ most) :
    (Operation.ofNumber "T" (Float.ofInt turns * angle)).value? = some (unit * turns) := by
  obtain ⟨hwritable, hvalue⟩ := h turns hturns hle
  rw [Operation.value?_ofNumber "T" hwritable, hvalue]

theorem TurnsBy.netTurn?_turnOps {turns : Int} (hle : turns.natAbs ≤ most) :
    (turnOps angle turns).netTurn? = some (unit * turns) := by
  unfold turnOps
  split
  · next hzero =>
      rw [hzero, Int.cast_zero, mul_zero]
      rfl
  · next hturns => exact Sequence.netTurn?_of_value? rfl (h.value? hturns hle)

theorem TurnsBy.netTurn?_stepOps {turns : Int} {cs : List Char} (hle : turns.natAbs + cs.length ≤ most) :
    (stepOps side angle turns cs).netTurn? = some (unit * (turns + netSigns cs : Int)) := by
  induction cs generalizing turns with
  | nil =>
      have hnil : turns + netSigns [] = turns := add_zero turns
      rw [hnil]
      exact h.netTurn?_turnOps hle
  | cons c cs ih =>
      rw [List.length_cons] at hle
      cases hdraw : draw? side c with
      | none =>
          have hsign := natAbs_sign_le c
          rw [stepOps_of_draw?_none hdraw, ih (by omega), netSigns_cons, add_assoc]
      | some op =>
          have hdrawn : Sequence.netTurn? (op :: stepOps side angle 0 cs) = _ := if_neg (name_of_draw? hdraw)
          rw [ih (by omega), Int.zero_add] at hdrawn
          rw [stepOps_of_draw?_some hdraw, Sequence.netTurn?_append (h.netTurn?_turnOps (by omega)) hdrawn,
            netSigns_cons, sign_of_draw? hdraw, Int.zero_add]
          push_cast
          ring_nf

/-- What is in front of a segment stands for what is in front of its character. -/
theorem TurnsBy.heading_stepOps {turns : Int} {cs : List Char} (hle : turns.natAbs + cs.length ≤ most)
    {before : Sequence} {op : Operation} {after : Sequence}
    (hsplit : stepOps side angle turns cs = before ++ op :: after) (hname : op.name ≠ "T") :
    ∃ part c rest, cs = part ++ c :: rest ∧ draw? side c = some op ∧
      before.segments = part.filterMap (draw? side) ∧
      before.netTurn? = some (unit * (turns + netSigns part : Int)) := by
  induction cs generalizing turns before with
  | nil =>
      have hmem : op ∈ turnOps angle turns := by
        rw [stepOps] at hsplit
        simp [hsplit]
      exact absurd (name_of_mem_turnOps hmem) hname
  | cons c cs ih =>
      rw [List.length_cons] at hle
      cases hdraw : draw? side c with
      | none =>
          have hsign := natAbs_sign_le c
          rw [stepOps_of_draw?_none hdraw] at hsplit
          obtain ⟨part, c', rest, rfl, hop, hsegments, hnet⟩ := ih (by omega) hsplit
          refine ⟨c :: part, c', rest, rfl, hop, ?_, ?_⟩
          · rw [hsegments, List.filterMap_cons_none hdraw]
          · rw [hnet, netSigns_cons, add_assoc]
      | some drawn =>
          rw [stepOps_of_draw?_some hdraw] at hsplit
          obtain ⟨between, rfl, hrest⟩ := exists_of_append_eq hsplit fun hmem => hname (name_of_mem_turnOps hmem)
          have hturns := h.netTurn?_turnOps (show turns.natAbs ≤ most by omega)
          cases between with
          | nil =>
              obtain ⟨rfl, -⟩ := List.cons.inj hrest
              refine ⟨[], c, cs, rfl, hdraw, ?_, ?_⟩
              · rw [List.append_nil, segments_turnOps]
                rfl
              · have hnil : turns + netSigns [] = turns := add_zero turns
                rw [List.append_nil, hturns, hnil]
          | cons first between =>
              obtain ⟨rfl, hbehind⟩ := List.cons.inj hrest
              obtain ⟨part, c', rest, rfl, hop, hsegments, hnet⟩ := ih (by omega) hbehind
              refine ⟨c :: part, c', rest, rfl, hop, ?_, ?_⟩
              · rw [Sequence.segments_append, segments_turnOps, List.nil_append,
                  Sequence.segments_cons_of_ne (name_of_draw? hdraw), hsegments, List.filterMap_cons_some hdraw]
              · have hdrawn : Sequence.netTurn? (drawn :: between) = _ := (if_neg (name_of_draw? hdraw)).trans hnet
                rw [Sequence.netTurn?_append hturns hdrawn, netSigns_cons, sign_of_draw? hdraw]
                push_cast
                ring_nf

/-- A turn that is written stands for no more signs than there are. -/
theorem TurnsBy.turns_stepOps {turns : Int} {cs : List Char} (hle : turns.natAbs + cs.length ≤ most) :
    ∀ op ∈ stepOps side angle turns cs, op.name = "T" →
      ∃ count : Int, count ≠ 0 ∧ count.natAbs ≤ most ∧ op.value? = some (unit * count) := by
  have hturnOps : ∀ {turns : Int}, turns.natAbs ≤ most → ∀ op ∈ turnOps angle turns,
      ∃ count : Int, count ≠ 0 ∧ count.natAbs ≤ most ∧ op.value? = some (unit * count) := by
    intro turns hle op hop
    unfold turnOps at hop
    split at hop
    · cases hop
    · next hturns =>
        rw [List.mem_singleton.mp hop]
        exact ⟨turns, hturns, hle, h.value? hturns hle⟩
  induction cs generalizing turns with
  | nil => exact fun op hop _ => hturnOps (Nat.le_of_add_right_le hle) op hop
  | cons c cs ih =>
      rw [List.length_cons] at hle
      intro op hop hname
      cases hdraw : draw? side c with
      | none =>
          have hsign := natAbs_sign_le c
          rw [stepOps_of_draw?_none hdraw] at hop
          exact ih (by omega) op hop hname
      | some drawn =>
          rw [stepOps_of_draw?_some hdraw, List.mem_append, List.mem_cons] at hop
          rcases hop with hop | rfl | hop
          · exact hturnOps (by omega) op hop
          · exact absurd hname (name_of_draw? hdraw)
          · exact ih (by omega) op hop hname

end

/-- Turns by a whole angle are exact up to the limit on lengths. -/
theorem turnsBy_of_isWhole {angle : Float} (hwhole : isWhole angle = true) (hangle : toRat angle ≠ 0) {most : Nat}
    (hmost : |toRat angle| * most ≤ 10 ^ 15) : TurnsBy angle (toRat angle) most := by
  intro turns hturns hle
  have hone : (1 : ℚ) ≤ most := by exact_mod_cast (Int.natAbs_pos.mpr hturns).trans_le hle
  have hfinite : angle.isFinite = true := (Bool.and_eq_true_iff.mp hwhole).1
  have hvalue : (wholeValue angle : ℚ) = toRat angle := cast_wholeValue ((isWhole_iff hfinite).mp hwhole)
  have hzero : wholeValue angle ≠ 0 := by
    rwa [ne_eq, ← Int.cast_eq_zero (α := ℚ), hvalue]
  have hproduct : most * (wholeValue angle).natAbs < 2 ^ 53 := by
    have hcast : ((most * (wholeValue angle).natAbs : Nat) : ℚ) = |toRat angle| * most := by
      rw [Nat.cast_mul, Nat.cast_natAbs, Int.cast_abs, hvalue, mul_comm]
    have hlt : ((most * (wholeValue angle).natAbs : Nat) : ℚ) < (2 ^ 53 : Nat) :=
      (hcast.le.trans hmost).trans_lt (by norm_num)
    exact_mod_cast hlt
  have hsmall : (wholeValue angle).natAbs < 2 ^ 53 :=
    (Nat.le_mul_of_pos_left _ (by omega)).trans_lt hproduct
  have hexact : Float.ofInt (wholeValue angle) = angle :=
    ofInt_wholeValue hwhole hsmall (Nat.pos_of_ne_zero (mt toRat_eq_zero_iff.mpr hangle))
  obtain ⟨hlt, hturn⟩ := ofInt_turns hzero hproduct hturns hle
  rw [hexact] at hturn
  rw [hturn]
  refine ⟨writable_ofInt hlt, ?_⟩
  rw [toRat_ofInt hlt, Int.cast_mul, hvalue, mul_comm]

theorem filterMap_draw?_eq_nil_iff (side : Float) {cs : List Char} :
    cs.filterMap (draw? side) = [] ↔ 'L' ∉ cs ∧ 'R' ∉ cs := by
  rw [List.filterMap_eq_nil_iff]
  constructor
  · intro h
    exact ⟨fun hleft => (nomatch h _ hleft), fun hright => (nomatch h _ hright)⟩
  · rintro ⟨hleft, hright⟩ c hc
    rw [draw?, if_neg (fun heq : c = 'L' => hleft (heq ▸ hc)), if_neg (fun heq : c = 'R' => hright (heq ▸ hc))]

/-- Whatever the characters of a rule, its chain can be read and draws what the rule draws. The chain is empty just
where the rule has no segment and its signs cancel. -/
theorem chainText_draws {rule : String} (hlength : rule.length < 2 ^ 31) {parameter : Parameter} {side : Float}
    (hside : parameter.checkLength side = .ok ()) {angle : Float} (hwhole : isWhole angle = true)
    (hangle : toRat angle ≠ 0) (hmost : |toRat angle| * rule.length ≤ 10 ^ 15) :
    (∃ ops, parse (chainText (numberText side) angle rule) = .ok ops ∧
        Draws side (toRat angle) rule.toList ops) ∧
      (chainText (numberText side) angle rule = "" ↔
        'L' ∉ rule.toList ∧ 'R' ∉ rule.toList ∧ netSigns rule.toList = 0) := by
  rw [← String.length_toList] at hlength hmost
  have hturns := turnsBy_of_isWhole hwhole hangle hmost
  have hroom : (0 : Int).natAbs + rule.toList.length ≤ rule.toList.length := by simp
  have hwritable : ∀ turns : Int, turns ≠ 0 → turns.natAbs ≤ rule.toList.length →
      WritableNumber (Float.ofInt turns * angle) :=
    fun turns hne hle => (hturns turns hne hle).1
  obtain ⟨hwritten, htext⟩ := chainText_eq (Parameter.writable_of_checkLength hside) hwritable
  have hparse : parse (chainText (numberText side) angle rule) = .ok (stepOps side angle 0 rule.toList) := by
    rw [htext]
    exact Sequence.parse_render hwritten
  have hnet : (stepOps side angle 0 rule.toList).netTurn? = _ := hturns.netTurn?_stepOps hroom
  refine ⟨⟨_, hparse, ?_⟩, ?_⟩
  · refine ⟨segments_stepOps .., ?_, by simpa using hnet, ?_, turns_apart_stepOps ..⟩
    · intro before op after hsplit hname
      simpa using hturns.heading_stepOps hroom hsplit hname
    · intro op hop hname
      obtain ⟨count, hcount, hle, hvalue⟩ := hturns.turns_stepOps hroom op hop hname
      exact ⟨count, hcount, hle.trans_lt hlength, hvalue⟩
  · rw [← and_assoc, ← filterMap_draw?_eq_nil_iff side]
    constructor
    · intro hempty
      have hnil : stepOps side angle 0 rule.toList = [] := by
        have hread : parse "" = .ok [] := Sequence.parse_render (List.forall_mem_nil _)
        rw [hempty, hread] at hparse
        exact (Except.ok.inj hparse).symm
      rw [hnil] at hnet
      have hzero : toRat angle * (0 + netSigns rule.toList : Int) = 0 := (Option.some.inj hnet).symm
      rw [Int.zero_add, mul_eq_zero, Int.cast_eq_zero] at hzero
      exact ⟨by rw [← segments_stepOps side angle 0, hnil]; rfl, hzero.resolve_left hangle⟩
    · rintro ⟨hsegments, hsigns⟩
      rw [htext, stepOps_of_filterMap_nil hsegments, hsigns]
      rfl

/-- Signs that cancel, signs that do not, and a letter that is passed over. -/
theorem chainText_draws_cancelled_signs :
    (∃ ops, parse (chainText (numberText 2.5) 45 "x+-L++RL-") = .ok ops ∧ Draws 2.5 45 "x+-L++RL-".toList ops) ∧
      chainText (numberText 2.5) 45 "x+-L++RL-" ≠ "" := by
  have hside : Parameter.sideLength.checkLength 2.5 = .ok () :=
    Parameter.checkLength_eq_ok_iff.mpr (by decide +kernel)
  have hangle : toRat 45 = 45 := toRat_ofInt (n := 45) (by decide)
  have hlength : "x+-L++RL-".length = 9 := by decide
  have hshort : "x+-L++RL-".length < 2 ^ 31 := by decide
  have hwhole : isWhole 45 = true := by decide +kernel
  have hmost : |toRat 45| * "x+-L++RL-".length ≤ 10 ^ 15 := by
    rw [hangle, hlength]
    norm_num
  obtain ⟨hdraws, hempty⟩ := chainText_draws hshort hside hwhole (by rw [hangle]; norm_num) hmost
  rw [hangle] at hdraws
  exact ⟨hdraws, mt hempty.mp (by decide)⟩

end TurtleRule

end TurtleChain
