import Mathlib.Data.String.Basic
import TurtleChain.NameMap

/-! Maps from names as functions: putting a value in changes what its name is bound to, and nothing else. The names
ascend, so a map is known by what it binds its names to. -/

namespace TurtleChain.NameMap

variable {α : Type}

theorem get?_empty (name : String) : (empty : NameMap α).get? name = none := rfl

theorem lookup_cons (entry : String × α) (entries : List (String × α)) (name : String) :
    (entry :: entries).lookup name = if name = entry.1 then some entry.2 else entries.lookup name := by
  rw [List.lookup_cons]
  split
  · next h => rw [if_pos (eq_of_beq h)]
  · next h => rw [if_neg (ne_of_beq_false h)]

theorem lookup_insertEntry (name : String) (value : α) (entries : List (String × α)) (name' : String) :
    (insertEntry name value entries).lookup name' = if name' = name then some value else entries.lookup name' := by
  induction entries with
  | nil => exact lookup_cons (name, value) [] name'
  | cons entry entries ih =>
      unfold insertEntry
      split
      · exact lookup_cons (name, value) (entry :: entries) name'
      · split
        · next heq =>
            rw [lookup_cons, lookup_cons, ← heq]
            split <;> rfl
        · next hne =>
            rw [lookup_cons, lookup_cons, ih]
            by_cases h : name' = name
            · rw [if_pos h, if_pos h, if_neg fun heq => hne (h.symm.trans heq)]
            · rw [if_neg h, if_neg h]

/-- What a name is bound to once another or the same is put in. -/
theorem get?_put (map : NameMap α) (name : String) (value : α) (name' : String) :
    (map.put name value).get? name' = if name' = name then some value else map.get? name' :=
  lookup_insertEntry name value map.entries name'

/-- A map that binds a name is not empty. -/
theorem size_pos_of_get? {map : NameMap α} {name : String} {value : α} (h : map.get? name = some value) :
    0 < map.size := by
  obtain ⟨entries, entries', hentries, -⟩ := List.lookup_eq_some_iff.mp h
  rw [size, hentries, List.length_append, List.length_cons]
  omega

/-! ### In the order of the names -/

/-- The names ascend, so none stands twice. -/
def Sorted (map : NameMap α) : Prop :=
  map.entries.Pairwise fun entry entry' => entry.1 < entry'.1

theorem Sorted.pairwise_names {map : NameMap α} (h : map.Sorted) : map.names.Pairwise (· < ·) :=
  List.pairwise_map.mpr h

theorem Sorted.nodup_names {map : NameMap α} (h : map.Sorted) : map.names.Nodup :=
  h.pairwise_names.imp fun hlt => hlt.ne

theorem sorted_empty : (empty : NameMap α).Sorted :=
  List.Pairwise.nil

theorem mem_of_mem_insertEntry {name : String} {value : α} {entries : List (String × α)} {entry : String × α}
    (h : entry ∈ insertEntry name value entries) : entry = (name, value) ∨ entry ∈ entries := by
  induction entries with
  | nil => exact Or.inl (List.mem_singleton.mp h)
  | cons entry' entries ih =>
      unfold insertEntry at h
      split at h
      · exact List.mem_cons.mp h
      · split at h
        · rcases List.mem_cons.mp h with h | h
          · exact Or.inl h
          · exact Or.inr (List.mem_cons_of_mem _ h)
        · rcases List.mem_cons.mp h with rfl | h
          · exact Or.inr List.mem_cons_self
          · exact (ih h).imp_right (List.mem_cons_of_mem _)

theorem sorted_insertEntry {entries : List (String × α)}
    (h : entries.Pairwise fun entry entry' => entry.1 < entry'.1) (name : String) (value : α) :
    (insertEntry name value entries).Pairwise fun entry entry' => entry.1 < entry'.1 := by
  induction entries with
  | nil => exact List.pairwise_singleton _ _
  | cons entry entries ih =>
      obtain ⟨hfirst, hrest⟩ := List.pairwise_cons.mp h
      unfold insertEntry
      split
      · next hlt =>
          refine List.pairwise_cons.mpr ⟨fun entry' hentry' => ?_, h⟩
          rcases List.mem_cons.mp hentry' with rfl | hentry'
          · exact hlt
          · exact lt_trans hlt (hfirst entry' hentry')
      · next hle =>
          split
          · next heq =>
              subst heq
              exact List.pairwise_cons.mpr ⟨hfirst, hrest⟩
          · next hne =>
              refine List.pairwise_cons.mpr ⟨fun entry' hentry' => ?_, ih hrest⟩
              rcases mem_of_mem_insertEntry hentry' with rfl | hentry'
              · exact lt_of_le_of_ne (not_lt.mp hle) (Ne.symm hne)
              · exact hfirst entry' hentry'

theorem Sorted.put {map : NameMap α} (h : map.Sorted) (name : String) (value : α) : (map.put name value).Sorted :=
  sorted_insertEntry h name value

theorem mem_names_iff {map : NameMap α} {name : String} : name ∈ map.names ↔ map.contains name = true := by
  rw [contains, get?, List.lookup_isSome_iff, names, List.mem_map]
  exact exists_congr fun entry => and_congr_right fun _ => eq_comm.trans beq_iff_eq.symm

/-- The pairs of a map are its bindings. -/
theorem Sorted.mem_entries_iff {map : NameMap α} (h : map.Sorted) {name : String} {value : α} :
    (name, value) ∈ map.entries ↔ map.get? name = some value := by
  obtain ⟨entries⟩ := map
  change (name, value) ∈ entries ↔ entries.lookup name = some value
  induction entries with
  | nil => exact iff_of_false List.not_mem_nil (by simp)
  | cons entry entries ih =>
      obtain ⟨hfirst, hrest⟩ := List.pairwise_cons.mp h
      rw [lookup_cons, List.mem_cons, ih hrest]
      by_cases hname : name = entry.1
      · subst hname
        have hnone : entries.lookup entry.1 = none :=
          List.lookup_eq_none_iff.mpr fun entry' hentry' => bne_iff_ne.mpr (hfirst entry' hentry').ne
        rw [if_pos rfl, hnone, Option.some.injEq, Prod.ext_iff]
        simp [eq_comm]
      · rw [if_neg hname, Prod.ext_iff]
        simp [hname]

/-- Maps that bind every name to the same are equal. -/
theorem Sorted.ext {map map' : NameMap α} (h : map.Sorted) (h' : map'.Sorted)
    (hget : ∀ name, map.get? name = map'.get? name) : map = map' := by
  have hperm : map.entries.Perm map'.entries := by
    refine (List.perm_ext_iff_of_nodup ?_ ?_).mpr fun entry => ?_
    · exact h.imp fun hlt heq => absurd (congrArg Prod.fst heq) hlt.ne
    · exact h'.imp fun hlt heq => absurd (congrArg Prod.fst heq) hlt.ne
    · rw [h.mem_entries_iff, h'.mem_entries_iff, hget]
  have hentries : map.entries = map'.entries :=
    hperm.eq_of_pairwise (fun entry entry' _ _ hlt hlt' => absurd (lt_trans hlt hlt') (lt_irrefl _)) h h'
  obtain ⟨entries⟩ := map
  exact congrArg NameMap.mk hentries

end TurtleChain.NameMap
