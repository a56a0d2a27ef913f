import TurtleChain.Proofs.Chain.Acceptance
import TurtleChain.Proofs.Walk.Accepted

/-! The movements of a sequence, counted by the actions of a walker and by a list of names. Two such counts agree on
everything that can be read exactly if they agree on every name. The ant and the names that draw do so on every name
but `M`, which draws by the list and which the ant does not know. -/

namespace TurtleChain

section

variable {C : Type} {map : ActionMap C} {names : List String}

theorem countMoves_eq_countNamed {ops : Sequence}
    (h : ∀ op ∈ ops, ActionMap.isMovement map op.name = names.contains op.name) :
    Walker.countMoves map ops = ops.countNamed names :=
  List.countP_congr fun op hop => by rw [h op hop]

theorem Grammar.Statement.isName {text : List Char} {op : Operation} (h : Statement text op) :
    Name op.name.toList := by
  cases h with
  | bare hname => rwa [String.toList_ofList]
  | applied hname => rwa [String.toList_ofList]

theorem Grammar.parse_of_name {name : String} (h : Name name.toList) : parse name = .ok [⟨name, none⟩] := by
  have hstatement := Statement.bare h
  rw [String.ofList_toList] at hstatement
  exact parse_of_chain hstatement.last

/-- The counts agree on everything that can be read exactly if map and list agree on every name. A name is a text of
its own, so no name can be left out. -/
theorem counts_agree_iff :
    (∀ source ops, parse source = .ok ops → (Walker.ofSequence map ops).movesTotal = ops.countNamed names) ↔
      ∀ name : String, Grammar.Name name.toList → ActionMap.isMovement map name = names.contains name := by
  constructor
  · intro h name hname
    have hcount := h name _ (Grammar.parse_of_name hname)
    change [_].countP _ = [_].countP _ at hcount
    rw [List.countP_singleton, List.countP_singleton] at hcount
    have hinj : ∀ b b' : Bool, ((if b = true then 1 else 0) = if b' = true then 1 else 0) → b = b' := by decide
    exact hinj _ _ hcount
  · intro h source ops hparse
    refine countMoves_eq_countNamed fun op hop => h op.name ?_
    obtain ⟨text, hstatement⟩ := (chain_of_parse hparse).exists_statement hop
    exact hstatement.isName

end

namespace Ant

variable (trig : Trigonometry)

theorem isMovement_actionsBy (name : String) :
    ActionMap.isMovement (actionsBy trig) name = ["D", "D2", "DL", "DR"].contains name := by
  rw [ActionMap.isMovement, ActionMap.kind?, get?_actionsBy]
  by_cases hname : name ∈ ["D", "D2", "DL", "DR"]
  · rw [if_pos hname, List.contains_iff_mem.mpr hname]
    rfl
  · rw [if_neg hname, Bool.eq_false_iff.mpr fun hmem => hname (List.contains_iff_mem.mp hmem)]
    split_ifs <;> rfl

/-- The ant moves along with every name that draws, except for one. -/
theorem contains_drawNames (name : String) :
    drawNames.contains name = (name == "M" || ActionMap.isMovement (actionsBy trig) name) := by
  rw [isMovement_actionsBy]
  exact List.contains_cons

theorem ite_contains_drawNames (name : String) :
    (if drawNames.contains name = true then 1 else 0) =
      (if ActionMap.isMovement (actionsBy trig) name = true then 1 else 0) +
        if ["M"].contains name = true then 1 else 0 := by
  by_cases hname : name = "M"
  · have hstays : ActionMap.isMovement (actionsBy trig) "M" = false := isMovement_actionsBy trig "M"
    rw [hname, hstays]
    rfl
  · rw [contains_drawNames trig]
    simp [hname]

/-- Operations with names that draw are those that move the ant, and those of name `M`. -/
theorem countNamed_drawNames (ops : Sequence) :
    ops.countNamed drawNames = Walker.countMoves (actionsBy trig) ops + ops.countNamed ["M"] := by
  induction ops with
  | nil => rfl
  | cons op ops ih =>
      unfold Sequence.countNamed Walker.countMoves at ih ⊢
      rw [List.countP_cons, List.countP_cons, List.countP_cons, ih, ite_contains_drawNames trig]
      omega

theorem countNamed_eq_zero_iff {name : String} {ops : Sequence} :
    ops.countNamed [name] = 0 ↔ name ∉ ops.map Operation.name := by
  rw [Sequence.countNamed, List.countP_eq_zero, List.mem_map]
  simp

/-- The names that draw are those that the ant moves along with, and `M`. So there is one movement more by these names
for each `M` of a sequence, and the counts agree exactly if there is none. -/
theorem movesTotal_eq_countNamed_iff (trig : Trigonometry) :
    (∀ name, drawNames.contains name = true ↔ ActionMap.isMovement (actionsBy trig) name = true ∨ name = "M") ∧
      ∀ ops : Sequence,
        ops.countNamed drawNames = (Walker.ofSequence (actionsBy trig) ops).movesTotal + ops.countNamed ["M"] ∧
          ((Walker.ofSequence (actionsBy trig) ops).movesTotal = ops.countNamed drawNames ↔
            "M" ∉ ops.map Operation.name) := by
  refine ⟨fun name => ?_, fun ops => ?_⟩
  · rw [contains_drawNames trig, Bool.or_eq_true, beq_iff_eq, or_comm]
  · have hcount := countNamed_drawNames trig ops
    refine ⟨hcount, ?_⟩
    rw [← countNamed_eq_zero_iff, hcount]
    exact Nat.left_eq_add

/-- Nothing is bound to `M`, so it is dropped and not counted by the ant. -/
theorem draw_name_without_action :
    parse "M:1" = .ok [⟨"M", some (.int 1)⟩] ∧
      (Walker.ofSequence actions [⟨"M", some (.int 1)⟩]).movesTotal = 0 ∧
      Sequence.countNamed drawNames [⟨"M", some (.int 1)⟩] = 1 :=
  ⟨by cbv, by decide, by decide⟩

end Ant

/-- What is generated has no `M`, so its draw operations are the movements of the walk along it. -/
theorem Config.movesTotal_of_generateBy {random : RandomWords} {config : Config} {g : Generated}
    (h : config.generateBy random = .ok g) :
    (Walker.ofSequence Ant.actions g.sequence).movesTotal = g.sequence.countNamed drawNames := by
  have hnone : g.sequence.countNamed ["M"] = 0 := by
    refine Ant.countNamed_eq_zero_iff.mpr fun hname => ?_
    obtain ⟨op, hop, hname⟩ := List.mem_map.mp hname
    refine (written_of_generateBy h op hop).not_isDropped (Or.inl ?_)
    rw [hname]
    decide
  rw [Ant.countNamed_drawNames .library, hnone]
  rfl

end TurtleChain
