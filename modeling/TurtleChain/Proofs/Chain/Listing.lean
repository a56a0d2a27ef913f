import TurtleChain.Proofs.Chain.Printing

/-! The lines of a listing. Each operation is written on one line, its index under the other indices, and the line
goes over to the next one only where the content of a text does. So there is one line for each operation exactly if
no text of the sequence has a newline in it. -/

namespace TurtleChain

open Grammar Binary64

/-! ### Lines -/

/-- The text is made of the lines: a newline stands behind each of them, and nowhere else. -/
structure Text.IsLines (lines : List String) (text : String) : Prop where
  text_eq : text = String.join (lines.map (· ++ "\n"))
  unbroken : ∀ line ∈ lines, '\n' ∉ line.toList

/-- The number of newlines of a text. -/
def Text.newlines (text : String) : Nat :=
  text.toList.count '\n'

theorem Text.newlines_append (s t : String) : newlines (s ++ t) = newlines s + newlines t := by
  rw [newlines, String.toList_append, List.count_append]
  rfl

theorem Text.newlines_eq_zero_iff {s : String} : newlines s = 0 ↔ '\n' ∉ s.toList :=
  List.count_eq_zero

theorem Text.newlines_join (texts : List String) : newlines (String.join texts) = (texts.map newlines).sum := by
  rw [newlines, String.toList_join, List.count_flatMap]
  rfl

theorem Text.newlines_line (line : String) : newlines (line ++ "\n") = newlines line + 1 :=
  newlines_append line "\n"

/-- There are as many lines as newlines. -/
theorem Text.IsLines.length_eq {lines : List String} {text : String} (h : IsLines lines text) :
    lines.length = newlines text := by
  have hone : ∀ line ∈ lines, (newlines ∘ (· ++ "\n")) line = 1 := fun line hline => by
    rw [Function.comp_apply, newlines_line, newlines_eq_zero_iff.mpr (h.unbroken line hline)]
  rw [h.text_eq, newlines_join, List.map_map, List.map_congr_left hone, List.map_const', List.sum_replicate_nat,
    Nat.mul_one]

/-! ### Where newlines come from -/

/-- The newlines of the content of a text. -/
def Arg.newlines : Arg → Nat
  | text content => Text.newlines content
  | _ => 0

def Operation.newlines (op : Operation) : Nat :=
  (op.arg.map Arg.newlines).getD 0

theorem Operation.newlines_eq_zero_iff {op : Operation} :
    op.newlines = 0 ↔ ∀ content, op.arg = some (.text content) → '\n' ∉ content.toList := by
  obtain ⟨name, arg⟩ := op
  rcases arg with _ | (_ | _ | _ | _ | content)
  case some.text => simp [newlines, Arg.newlines, Text.newlines_eq_zero_iff]
  all_goals exact iff_of_true rfl (by simp)

theorem newline_not_mem {p : Char → Bool} {cs : List Char} (h : ∀ c ∈ cs, p c = true) (hp : p '\n' = false) :
    '\n' ∉ cs := by
  intro hmem
  rw [h _ hmem] at hp
  cases hp

theorem newline_not_mem_name {cs : List Char} (h : Name cs) : '\n' ∉ cs := by
  obtain ⟨c, tail, rfl, hc, htail⟩ := h.cons_inv
  refine newline_not_mem (p := isNameChar) (fun d hd => ?_) (by decide)
  rcases List.mem_cons.mp hd with rfl | hd
  · exact isNameChar_of_isNameStart hc
  · exact htail d hd

theorem newline_not_mem_integer {cs : List Char} {n : Int} (h : Integer cs n) : '\n' ∉ cs := by
  obtain ⟨negative, ds, rfl, hds, -⟩ := Numeral.integer_signed h
  have hdigits := newline_not_mem hds.2 (by decide)
  cases negative with
  | true => exact List.not_mem_cons_of_ne_of_not_mem (by decide) hdigits
  | false => exact hdigits

theorem count_newline_of_value {cs : List Char} {arg : Arg} (h : Value cs arg) :
    cs.count '\n' = arg.newlines := by
  cases h with
  | int h => exact List.count_eq_zero.mpr (newline_not_mem_integer h)
  | float h =>
      obtain ⟨hwhole, hdigits⟩ := h
      refine List.count_eq_zero.mpr fun hmem => ?_
      rcases List.mem_append.mp hmem with hmem | hmem
      · exact newline_not_mem_integer hwhole hmem
      · exact List.not_mem_cons_of_ne_of_not_mem (by decide) (newline_not_mem hdigits.2 (by decide)) hmem
  | member hobject hfield =>
      refine List.count_eq_zero.mpr fun hmem => ?_
      rcases List.mem_append.mp hmem with hmem | hmem
      · exact newline_not_mem_name hobject hmem
      · exact List.not_mem_cons_of_ne_of_not_mem (by decide) (newline_not_mem_name hfield) hmem
  | ident h => exact List.count_eq_zero.mpr (newline_not_mem_name h)
  | @text content h =>
      rw [List.count_cons_of_ne (by decide), List.count_append, Arg.newlines, Text.newlines, String.toList_ofList]
      rfl

/-- Also the words for the infinities have none. -/
theorem Arg.newlines_render {cs : List Char} {arg : Arg} (h : Value cs arg) :
    Text.newlines arg.render = arg.newlines := by
  rcases wellFormed_or_infinite h with hwellFormed | ⟨negative, rfl⟩
  · exact count_newline_of_value (value_render hwellFormed)
  · cases negative <;> decide +kernel

theorem Arg.newlines_kind (arg : Arg) : Text.newlines arg.kind = 0 := by
  cases arg <;> simp only [kind] <;> decide

/-! ### The lines of a listing -/

/-- The index in decimal, right-aligned to the width of the greatest one. -/
def indexColumn (greatest index : Nat) : String :=
  String.ofList ((toString index).toList.leftpad (toString greatest).length ' ')

/-- The line of an operation: its index, its name, and its argument with the kind of it. -/
def Operation.line (greatest index : Nat) (op : Operation) : String :=
  indexColumn greatest index ++ "  " ++ op.name ++
    match op.arg with
    | none => ""
    | some arg => "  " ++ arg.render ++ " (" ++ arg.kind ++ ")"

def Sequence.lines (ops : Sequence) : List String :=
  ops.mapIdx (Operation.line (ops.length - 1))

theorem length_toString_nat (n : Nat) : (toString n).length = (Nat.toDigits 10 n).length := by
  rw [← String.length_toList, toList_toString_nat]

/-- No index is wider than the greatest one. -/
theorem length_indexColumn {greatest index : Nat} (h : index ≤ greatest) :
    (indexColumn greatest index).length = (toString greatest).length := by
  have hlt : greatest < 10 ^ (Nat.toDigits 10 greatest).length :=
    (Nat.length_toDigits_le_iff (by decide) Nat.length_toDigits_pos).mp (Nat.le_refl _)
  have hle : (Nat.toDigits 10 index).length ≤ (Nat.toDigits 10 greatest).length :=
    (Nat.length_toDigits_le_iff (by decide) Nat.length_toDigits_pos).mpr (h.trans_lt hlt)
  rw [indexColumn, String.length_ofList, List.length_leftpad, toList_toString_nat, length_toString_nat]
  exact max_eq_left hle

theorem newlines_indexColumn (greatest index : Nat) : Text.newlines (indexColumn greatest index) = 0 := by
  refine Text.newlines_eq_zero_iff.mpr fun hmem => ?_
  rw [indexColumn, String.toList_ofList, List.leftpad, toList_toString_nat] at hmem
  rcases List.mem_append.mp hmem with hmem | hmem
  · cases List.eq_of_mem_replicate hmem
  · exact newline_not_mem (digits_toDigits index).2 (by decide) hmem

theorem Sequence.padLeft_eq (greatest index : Nat) :
    padLeft (Nat.toDigits 10 greatest).length index = indexColumn greatest index := by
  rw [padLeft, indexColumn, List.leftpad, toList_toString_nat, length_toString_nat]

theorem Sequence.listingLine_eq (greatest index : Nat) (op : Operation) :
    listingLine (Nat.toDigits 10 greatest).length index op = op.line greatest index ++ "\n" :=
  congrArg (fun column => column ++ "  " ++ op.name ++ _ ++ "\n") (padLeft_eq greatest index)

theorem Sequence.listing_eq (ops : Sequence) : ops.listing = String.join (ops.lines.map (· ++ "\n")) := by
  have hlines : ops.mapIdx (listingLine (Nat.toDigits 10 (ops.length - 1)).length) = ops.lines.map (· ++ "\n") := by
    refine List.ext_getElem (by simp [lines]) fun index hindex hindex' => ?_
    simp only [lines, List.getElem_map, List.getElem_mapIdx, listingLine_eq]
  exact congrArg String.join hlines

/-- A line has the newlines of the content that stands on it. -/
theorem Operation.newlines_line {text : List Char} {op : Operation} (h : Statement text op) (greatest index : Nat) :
    Text.newlines (op.line greatest index) = op.newlines := by
  cases h with
  | bare hname =>
      simp only [line, Text.newlines_append, newlines_indexColumn]
      rw [show Text.newlines (String.ofList text) = 0 from
        Text.newlines_eq_zero_iff.mpr (by rw [String.toList_ofList]; exact newline_not_mem_name hname)]
      rfl
  | @applied name _ _ _ arg hname _ _ hvalue =>
      have hnone : Text.newlines (String.ofList name) = 0 :=
        Text.newlines_eq_zero_iff.mpr (by rw [String.toList_ofList]; exact newline_not_mem_name hname)
      simp only [line, Text.newlines_append, newlines_indexColumn, hnone, Arg.newlines_render hvalue,
        Arg.newlines_kind]
      show 0 + 0 + 0 + (0 + arg.newlines + 0 + 0 + 0) = arg.newlines
      omega

section

variable {source : String} {ops : Sequence} (h : parse source = .ok ops)

include h

theorem Sequence.newlines_lines : ops.lines.map Text.newlines = ops.map Operation.newlines := by
  refine List.ext_getElem (by simp [lines]) fun index hindex hindex' => ?_
  simp only [lines, List.getElem_map, List.getElem_mapIdx]
  obtain ⟨text, hstatement⟩ := (chain_of_parse h).exists_statement (List.getElem_mem _)
  exact Operation.newlines_line hstatement (ops.length - 1) index

theorem Sequence.newlines_listing : Text.newlines ops.listing = ops.length + (ops.map Operation.newlines).sum := by
  have hlines : (ops.lines.map (· ++ "\n")).map Text.newlines = ops.lines.map fun line => Text.newlines line + 1 := by
    rw [List.map_map]
    exact List.map_congr_left fun line _ => Text.newlines_line line
  have hlength : ops.lines.length = ops.length := List.length_mapIdx
  rw [listing_eq, Text.newlines_join, hlines, List.sum_map_add, newlines_lines h, List.map_const',
    List.sum_replicate_nat, Nat.mul_one, hlength, Nat.add_comm]

/-- The lines are those of the operations exactly if no newline is in the content of a text. -/
theorem Sequence.isLines_iff :
    Text.IsLines ops.lines ops.listing ↔
      ∀ op ∈ ops, ∀ content, op.arg = some (.text content) → '\n' ∉ content.toList := by
  have hunbroken : (∀ line ∈ ops.lines, '\n' ∉ line.toList) ↔ ∀ op ∈ ops, op.newlines = 0 := by
    simp only [← Text.newlines_eq_zero_iff]
    rw [← List.forall_mem_map (P := (· = 0)), newlines_lines h, List.forall_mem_map]
  simp only [← Operation.newlines_eq_zero_iff, ← hunbroken]
  exact ⟨Text.IsLines.unbroken, fun hlines => ⟨ops.listing_eq, hlines⟩⟩

/-- The listing of what a text is read as has one line for each operation exactly if no text has a newline in it,
and then the lines are those of the operations, each with its index right-aligned to the width of the greatest one.
In any case there are as many newlines as operations and newlines in texts. -/
theorem listing_lines_iff :
    ((∃ lines, Text.IsLines lines ops.listing ∧ lines.length = ops.length) ↔
        ∀ op ∈ ops, ∀ content, op.arg = some (.text content) → '\n' ∉ content.toList) ∧
      ((∀ op ∈ ops, ∀ content, op.arg = some (.text content) → '\n' ∉ content.toList) →
        Text.IsLines (ops.mapIdx (Operation.line (ops.length - 1))) ops.listing) ∧
      (∀ index < ops.length,
        (indexColumn (ops.length - 1) index).length = (toString (ops.length - 1)).length) ∧
      Text.newlines ops.listing = ops.length + (ops.map Operation.newlines).sum := by
  have hcount := Sequence.newlines_listing h
  refine ⟨⟨?_, fun hunbroken => ?_⟩, (Sequence.isLines_iff h).mpr, fun index hindex => ?_, hcount⟩
  · rintro ⟨lines, hlines, hlength⟩ op hop
    rw [hlines.length_eq, hcount, Nat.add_eq_left, List.sum_eq_zero_iff] at hlength
    exact Operation.newlines_eq_zero_iff.mp (hlength _ (List.mem_map_of_mem hop))
  · exact ⟨ops.lines, (Sequence.isLines_iff h).mpr hunbroken, List.length_mapIdx⟩
  · exact length_indexColumn (Nat.le_sub_one_of_lt hindex)

end

theorem listing_lines_iff_tab :
    parse " A | L : \"x\ty\"|" = .ok [⟨"A", none⟩, ⟨"L", some (.text "x\ty")⟩] ∧
      Text.IsLines ["0  A", "1  L  \"x\ty\" (text)"] (Sequence.listing [⟨"A", none⟩, ⟨"L", some (.text "x\ty")⟩]) := by
  have h : parse " A | L : \"x\ty\"|" = .ok [⟨"A", none⟩, ⟨"L", some (.text "x\ty")⟩] := by cbv
  refine ⟨h, (listing_lines_iff h).2.1 ?_⟩
  intro op hop content hcontent
  simp only [List.mem_cons, List.not_mem_nil, or_false] at hop
  rcases hop with rfl | rfl
  · cases hcontent
  · cases hcontent
    decide

/-- A newline is a blank, so it may stand in a text, and the line of that operation goes on behind it. -/
theorem newline_in_text_breaks_line :
    parse "L:\"a\nb\"" = .ok [⟨"L", some (.text "a\nb")⟩] ∧
      Sequence.listing [⟨"L", some (.text "a\nb")⟩] = "0  L  \"a\nb\" (text)\n" ∧
      ¬∃ lines, Text.IsLines lines (Sequence.listing [⟨"L", some (.text "a\nb")⟩]) ∧ lines.length = 1 := by
  have hlisting : Sequence.listing [⟨"L", some (.text "a\nb")⟩] = "0  L  \"a\nb\" (text)\n" := by decide +kernel
  refine ⟨by cbv, hlisting, ?_⟩
  rintro ⟨lines, hlines, hlength⟩
  have htwo : Text.newlines "0  L  \"a\nb\" (text)\n" = 2 := by decide
  rw [hlines.length_eq, hlisting, htwo] at hlength
  cases hlength

end TurtleChain
