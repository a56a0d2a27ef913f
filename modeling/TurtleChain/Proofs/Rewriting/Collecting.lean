import Mathlib
import TurtleChain.Rewriting.Generation
import TurtleChain.Proofs.NameMap
import TurtleChain.Proofs.Text.ByteOrder

/-! Tables that are collected from rules. The first rule of a name stays, and one that is refused leaves the table as
it was. So a table is known by the first rule of each name, and the order of rules with different names does not
matter. -/

namespace TurtleChain.Table

/-! ### Runs of insertions -/

theorem run_add (table : Table) (rule : Rule) :
    (add rule).run.run table =
      if table.contains rule.name then (.error (.duplicateRule rule.name), table)
      else (.ok (), ⟨table.rules.put rule.name rule.sequence⟩) := by
  show (if table.contains rule.name then (throw (.duplicateRule rule.name) : ExceptT RewriteError (StateM Table) Unit)
    else set (Table.mk (table.rules.put rule.name rule.sequence))).run.run table = _
  split <;> rfl

theorem insert_eq (table : Table) (rule : Rule) :
    table.insert rule =
      if table.contains rule.name then .error (.duplicateRule rule.name)
      else .ok ⟨table.rules.put rule.name rule.sequence⟩ := by
  rw [insert, run_add]
  by_cases h : table.contains rule.name = true
  · rw [if_pos h, if_pos h]
  · rw [if_neg h, if_neg h]

/-- The answers to one rule after another being put in, some of which may be refused. -/
def addAll (rules : List Rule) : StateM Table (List (Except RewriteError Unit)) :=
  rules.mapM fun rule => (add rule).run

/-- The table behind a run of insertions into an empty one. -/
def collected (rules : List Rule) : Table :=
  ((addAll rules).run empty).2

theorem collected_append (rules : List Rule) (rule : Rule) :
    collected (rules ++ [rule]) = ((add rule).run.run (collected rules)).2 := by
  rw [collected, addAll, List.mapM_append, List.mapM_cons, List.mapM_nil]
  rfl

/-! ### The first rule of each name -/

/-- The table binds each name to the sequence of the first rule of that name. -/
structure HoldsFirst (rules : List Rule) (table : Table) : Prop where
  sorted : table.rules.Sorted
  get?_eq : ∀ name, table.get? name = (rules.find? fun rule => rule.name == name).map Rule.sequence

theorem holdsFirst_empty : HoldsFirst [] empty :=
  ⟨NameMap.sorted_empty, fun _ => rfl⟩

section

variable {rules : List Rule} {table : Table} (h : HoldsFirst rules table)

include h

theorem HoldsFirst.contains_iff {name : String} : table.contains name = true ↔ name ∈ rules.map Rule.name := by
  show (table.get? name).isSome = true ↔ _
  rw [h.get?_eq, Option.isSome_map, List.find?_isSome, List.mem_map]
  simp only [beq_iff_eq]

theorem HoldsFirst.insert_of_mem {rule : Rule} (hmem : rule.name ∈ rules.map Rule.name) :
    table.insert rule = .error (.duplicateRule rule.name) := by
  rw [insert_eq, if_pos (h.contains_iff.mpr hmem)]

/-- A second rule of a name does not count. -/
theorem HoldsFirst.append_of_mem {rule : Rule} (hmem : rule.name ∈ rules.map Rule.name) :
    HoldsFirst (rules ++ [rule]) table := by
  refine ⟨h.sorted, fun name => ?_⟩
  rw [h.get?_eq, List.find?_append]
  cases hfind : rules.find? fun rule => rule.name == name with
  | some first => rfl
  | none =>
      obtain ⟨first, hfirst, hname⟩ := List.mem_map.mp hmem
      have hne : rule.name ≠ name := fun heq =>
        List.find?_eq_none.mp hfind first hfirst (beq_iff_eq.mpr (hname.trans heq))
      rw [List.find?_singleton, if_neg (mt beq_iff_eq.mp hne)]
      rfl

/-- A rule of a new name is the first of its name. -/
theorem HoldsFirst.put_of_not_mem {rule : Rule} (hmem : rule.name ∉ rules.map Rule.name) :
    HoldsFirst (rules ++ [rule]) ⟨table.rules.put rule.name rule.sequence⟩ := by
  refine ⟨h.sorted.put _ _, fun name => ?_⟩
  show (table.rules.put rule.name rule.sequence).get? name = _
  rw [NameMap.get?_put, List.find?_append]
  by_cases hname : name = rule.name
  · have hnone : (rules.find? fun rule => rule.name == name) = none := by
      rw [List.find?_eq_none]
      intro first hfirst heq
      exact hmem (List.mem_map.mpr ⟨first, hfirst, (beq_iff_eq.mp heq).trans hname⟩)
    rw [if_pos hname, hnone, List.find?_singleton, if_pos (beq_iff_eq.mpr hname.symm)]
    rfl
  · rw [if_neg hname, List.find?_singleton, if_neg (mt beq_iff_eq.mp (Ne.symm hname)), Option.or_none]
    exact h.get?_eq name

theorem HoldsFirst.insert_of_not_mem {rule : Rule} (hmem : rule.name ∉ rules.map Rule.name) :
    ∃ next, table.insert rule = .ok next ∧ HoldsFirst (rules ++ [rule]) next := by
  rw [insert_eq, if_neg (mt h.contains_iff.mp hmem)]
  exact ⟨_, rfl, h.put_of_not_mem hmem⟩

/-- A refusal leaves the table as it was, and any other rule is taken in. -/
theorem HoldsFirst.run_add (rule : Rule) :
    rule.name ∈ rules.map Rule.name ∧ (add rule).run.run table = (.error (.duplicateRule rule.name), table) ∨
      rule.name ∉ rules.map Rule.name ∧
        ∃ next, (add rule).run.run table = (.ok (), next) ∧ HoldsFirst (rules ++ [rule]) next := by
  rw [Table.run_add]
  by_cases hmem : rule.name ∈ rules.map Rule.name
  · exact Or.inl ⟨hmem, if_pos (h.contains_iff.mpr hmem)⟩
  · exact Or.inr ⟨hmem, _, if_neg (mt h.contains_iff.mp hmem), h.put_of_not_mem hmem⟩

/-! ### What the table is made of -/

theorem HoldsFirst.mem_names_iff {name : String} : name ∈ table.names ↔ name ∈ rules.map Rule.name :=
  NameMap.mem_names_iff.trans h.contains_iff

theorem HoldsFirst.size_eq : table.size = (rules.map Rule.name).toFinset.card := by
  have hnames : table.names.toFinset = (rules.map Rule.name).toFinset := by
    ext name
    rw [List.mem_toFinset, List.mem_toFinset, h.mem_names_iff]
  rw [← hnames]
  exact (List.length_map Prod.fst).symm.trans (List.toFinset_card_of_nodup h.sorted.nodup_names).symm

theorem HoldsFirst.names_ascend : table.names.Pairwise fun name name' => Text.bytes name < Text.bytes name' :=
  h.sorted.pairwise_names.imp Text.bytes_lt_bytes

end

/-- Of rules with different names the first of a name is the only one. -/
theorem find?_eq_some_iff {rules : List Rule} (h : (rules.map Rule.name).Nodup) {name : String} {rule : Rule} :
    (rules.find? fun rule => rule.name == name) = some rule ↔ rule ∈ rules ∧ rule.name = name := by
  induction rules with
  | nil => simp
  | cons first rules ih =>
      obtain ⟨hfirst, hrest⟩ := List.nodup_cons.mp h
      rw [List.find?_cons, List.mem_cons]
      by_cases hname : first.name = name
      · rw [beq_iff_eq.mpr hname]
        constructor
        · rintro ⟨⟩
          exact ⟨Or.inl rfl, hname⟩
        · rintro ⟨rfl | hmem, hrule⟩
          · rfl
          · exact absurd (List.mem_map.mpr ⟨rule, hmem, hrule.trans hname.symm⟩) hfirst
      · rw [beq_false_of_ne hname]
        refine (ih hrest).trans (and_congr_left fun hrule => ?_)
        exact (or_iff_right fun heq : rule = first => hname (heq ▸ hrule)).symm

/-- The order of rules with different names does not matter. -/
theorem HoldsFirst.eq_of_perm {rules rules' : List Rule} {table table' : Table} (h : HoldsFirst rules table)
    (h' : HoldsFirst rules' table') (hperm : rules.Perm rules') (hnodup : (rules.map Rule.name).Nodup) :
    table = table' := by
  have hnodup' : (rules'.map Rule.name).Nodup := (hperm.map Rule.name).nodup_iff.mp hnodup
  have hmaps : table.rules = table'.rules := by
    refine h.sorted.ext h'.sorted fun name => ?_
    have hfind : (rules.find? fun rule => rule.name == name) = rules'.find? fun rule => rule.name == name := by
      ext rule
      rw [find?_eq_some_iff hnodup, find?_eq_some_iff hnodup', hperm.mem_iff]
    exact (h.get?_eq name).trans (hfind ▸ (h'.get?_eq name).symm)
  obtain ⟨map⟩ := table
  exact congrArg Table.mk hmaps

theorem holdsFirst_collected (rules : List Rule) : HoldsFirst rules (collected rules) := by
  induction rules using List.reverseRecOn with
  | nil => exact holdsFirst_empty
  | append_singleton rules rule ih =>
      rw [collected_append]
      rcases ih.run_add rule with ⟨hmem, hrun⟩ | ⟨-, next, hrun, hfirst⟩
      · rw [hrun]
        exact ih.append_of_mem hmem
      · rw [hrun]
        exact hfirst

/-! ### Tables of whole lists of rules -/

theorem ofRules_append (rules later : List Rule) :
    ofRules (rules ++ later) = ofRules rules >>= fun table => later.foldlM insert table :=
  List.foldlM_append

theorem ofRules_of_nodup {rules : List Rule} (h : (rules.map Rule.name).Nodup) :
    ∃ table, ofRules rules = .ok table ∧ HoldsFirst rules table := by
  induction rules using List.reverseRecOn with
  | nil => exact ⟨empty, rfl, holdsFirst_empty⟩
  | append_singleton rules rule ih =>
      rw [List.map_append, List.map_singleton, List.nodup_append] at h
      obtain ⟨hrules, -, hne⟩ := h
      obtain ⟨table, htable, hfirst⟩ := ih hrules
      obtain ⟨next, hnext, hfirst'⟩ := hfirst.insert_of_not_mem fun hmem =>
        hne _ hmem _ (List.mem_singleton_self _) rfl
      refine ⟨next, ?_, hfirst'⟩
      rw [ofRules_append, htable]
      show (table.insert rule >>= pure) = _
      rw [hnext]
      rfl

/-- Behind the first rules of their names, a second one of a name ends the collecting. -/
theorem ofRules_of_mem {earlier : List Rule} (h : (earlier.map Rule.name).Nodup) {rule : Rule}
    (hmem : rule.name ∈ earlier.map Rule.name) (later : List Rule) :
    ofRules (earlier ++ rule :: later) = .error (.duplicateRule rule.name) := by
  obtain ⟨table, htable, hfirst⟩ := ofRules_of_nodup h
  rw [ofRules_append, htable]
  show (table.insert rule >>= fun next => later.foldlM insert next) = _
  rw [hfirst.insert_of_mem hmem]
  rfl

/-- Rules that share names have a first one whose name already occurred. -/
theorem exists_first_repeated {rules : List Rule} (h : ¬(rules.map Rule.name).Nodup) :
    ∃ earlier rule later, rules = earlier ++ rule :: later ∧ (earlier.map Rule.name).Nodup ∧
      rule.name ∈ earlier.map Rule.name := by
  induction rules using List.reverseRecOn with
  | nil => exact absurd List.nodup_nil h
  | append_singleton rules rule ih =>
      by_cases hrules : (rules.map Rule.name).Nodup
      · refine ⟨rules, rule, [], rfl, hrules, ?_⟩
        by_contra hmem
        refine h ?_
        rw [List.map_append, List.map_singleton]
        exact hrules.append (List.nodup_singleton _) (List.disjoint_singleton.mpr hmem)
      · obtain ⟨earlier, first, later, heq, hnodup, hmem⟩ := ih hrules
        exact ⟨earlier, first, later ++ [rule], by rw [heq, List.append_assoc, List.cons_append], hnodup, hmem⟩

theorem ofRules_eq_error_iff {rules : List Rule} {e : RewriteError} :
    ofRules rules = .error e ↔
      ∃ earlier rule later, rules = earlier ++ rule :: later ∧ (earlier.map Rule.name).Nodup ∧
        rule.name ∈ earlier.map Rule.name ∧ e = .duplicateRule rule.name := by
  constructor
  · intro h
    have hnodup : ¬(rules.map Rule.name).Nodup := fun hnodup => by
      obtain ⟨table, htable, -⟩ := ofRules_of_nodup hnodup
      rw [htable] at h
      cases h
    obtain ⟨earlier, rule, later, rfl, hearlier, hmem⟩ := exists_first_repeated hnodup
    rw [ofRules_of_mem hearlier hmem] at h
    exact ⟨earlier, rule, later, rfl, hearlier, hmem, (Except.error.inj h).symm⟩
  · rintro ⟨earlier, rule, later, rfl, hearlier, hmem, rfl⟩
    exact ofRules_of_mem hearlier hmem later

/-- A table is collected from rules exactly if their names differ, and refused at the first rule whose name already
occurred. The order of the rules does not matter then, not for the table and so not for rewriting. In every run of
insertions a refused one changes nothing, each name keeps the sequence of its first rule, and the names stand in the
table once and in the order of their bytes. -/
theorem first_rule_stays :
    (∀ rules : List Rule,
        ((∃ table, ofRules rules = .ok table) ↔ (rules.map Rule.name).Nodup) ∧
          ∀ e, ofRules rules = .error e ↔
            ∃ earlier rule later, rules = earlier ++ rule :: later ∧ (earlier.map Rule.name).Nodup ∧
              rule.name ∈ earlier.map Rule.name ∧ e = .duplicateRule rule.name) ∧
      (∀ rules rules' : List Rule, rules.Perm rules' → (rules.map Rule.name).Nodup →
        ∃ table table', ofRules rules = .ok table ∧ ofRules rules' = .ok table' ∧ table = table' ∧
          (∀ ops, table.rewrite ops = table'.rewrite ops) ∧
            ∀ limit ops depth, table.expand limit ops depth = table'.expand limit ops depth) ∧
        ∀ rules : List Rule,
          (∀ rule,
            rule.name ∈ rules.map Rule.name ∧
                (add rule).run.run (collected rules) = (.error (.duplicateRule rule.name), collected rules) ∨
              rule.name ∉ rules.map Rule.name ∧ ∃ next, (add rule).run.run (collected rules) = (.ok (), next)) ∧
          (∀ name, (collected rules).get? name =
            (rules.find? fun rule => rule.name == name).map Rule.sequence) ∧
          (collected rules).size = (rules.map Rule.name).toFinset.card ∧
          (∀ name, name ∈ (collected rules).names ↔ name ∈ rules.map Rule.name) ∧
          ((collected rules).names.Pairwise fun name name' => Text.bytes name < Text.bytes name') ∧
          (collected rules).rules.entries.map Prod.fst = (collected rules).names ∧
          ∀ name sequence, (name, sequence) ∈ (collected rules).rules.entries ↔
            (collected rules).get? name = some sequence := by
  refine ⟨fun rules => ⟨⟨?_, ?_⟩, fun e => ofRules_eq_error_iff⟩, ?_, fun rules => ?_⟩
  · rintro ⟨table, htable⟩
    by_contra hnodup
    obtain ⟨earlier, rule, later, rfl, hearlier, hmem⟩ := exists_first_repeated hnodup
    rw [ofRules_of_mem hearlier hmem] at htable
    cases htable
  · intro hnodup
    obtain ⟨table, htable, -⟩ := ofRules_of_nodup hnodup
    exact ⟨table, htable⟩
  · intro rules rules' hperm hnodup
    obtain ⟨table, htable, hfirst⟩ := ofRules_of_nodup hnodup
    obtain ⟨table', htable', hfirst'⟩ := ofRules_of_nodup ((hperm.map Rule.name).nodup_iff.mp hnodup)
    obtain rfl := hfirst.eq_of_perm hfirst' hperm hnodup
    exact ⟨table, table, htable, htable', rfl, fun _ => rfl, fun _ _ _ => rfl⟩
  · have hfirst := holdsFirst_collected rules
    refine ⟨fun rule => ?_, hfirst.get?_eq, hfirst.size_eq, fun _ => hfirst.mem_names_iff, hfirst.names_ascend, rfl,
      fun _ _ => hfirst.sorted.mem_entries_iff⟩
    exact (hfirst.run_add rule).imp_right fun ⟨hmem, next, hrun, _⟩ => ⟨hmem, next, hrun⟩

/-- Two rules in both orders, one of a name outside ASCII. -/
theorem first_rule_stays_both_orders :
    [Rule.mk "£" [⟨"D", none⟩], ⟨"D", []⟩].Perm [⟨"D", []⟩, ⟨"£", [⟨"D", none⟩]⟩] ∧
      (["£", "D"] : List String).Nodup ∧
        ∃ table, ofRules [⟨"£", [⟨"D", none⟩]⟩, ⟨"D", []⟩] = .ok table ∧
          ofRules [⟨"D", []⟩, ⟨"£", [⟨"D", none⟩]⟩] = .ok table := by
  have hperm : [Rule.mk "£" [⟨"D", none⟩], ⟨"D", []⟩].Perm [⟨"D", []⟩, ⟨"£", [⟨"D", none⟩]⟩] :=
    .swap _ _ []
  have hnodup : (["£", "D"] : List String).Nodup := by decide
  obtain ⟨table, table', htable, htable', rfl, -⟩ := first_rule_stays.2.1 _ _ hperm hnodup
  exact ⟨hperm, hnodup, table, htable, htable'⟩

end TurtleChain.Table
