import TurtleChain.Proofs.Json.Scalars

/-! What is written over several lines is read as the value it was written for. The reader skips the blanks that
the writer sets, and its bound on nesting and on the number of items is the length of the text, which is more
than either. -/

namespace TurtleChain.Json

open Grammar

/-! ### Blanks -/

def isBlank (c : Char) : Bool :=
  [' ', '\n', '\t', '\r'].contains c

theorem skipBlanks_of_stops {cs : List Char} (h : Stops isBlank cs) : skipBlanks cs = cs :=
  h.dropWhile

theorem skipBlanks_cons {c : Char} (h : isBlank c = false) (cs : List Char) : skipBlanks (c :: cs) = c :: cs :=
  skipBlanks_of_stops (stops_cons.mpr h)

theorem skipBlanks_append {blanks : List Char} (h : ∀ c ∈ blanks, isBlank c = true) (cs : List Char) :
    skipBlanks (blanks ++ cs) = skipBlanks cs :=
  List.dropWhile_append_of_pos h

theorem skipBlanks_skipBlanks (cs : List Char) : skipBlanks (skipBlanks cs) = skipBlanks cs := by
  refine skipBlanks_of_stops fun c hc => ?_
  have hnot := List.head?_dropWhile_not isBlank cs
  rw [show cs.dropWhile isBlank = skipBlanks cs from rfl, Option.mem_def.mp hc] at hnot
  exact hnot

theorem isBlank_newline (depth : Nat) : ∀ c ∈ (newline depth).toList, isBlank c = true := by
  intro c hc
  rw [newline, String.toList_ofList] at hc
  rcases List.mem_cons.mp hc with rfl | hc
  · decide
  · rw [List.eq_of_mem_replicate hc]
    decide

/-- A number ends where a line does. -/
theorem stops_newline (depth : Nat) (rest : List Char) : Stops continuesNumber ((newline depth).toList ++ rest) := by
  rw [newline, String.toList_ofList, List.cons_append]
  exact stops_cons.mpr (by decide)

/-! ### Brackets -/

/-- Items behind the first one, each on a line of its own behind a comma. -/
def furtherItems (depth : Nat) (texts : List String) : List Char :=
  texts.flatMap fun text => ',' :: ((newline depth).toList ++ text.toList)

theorem furtherItems_cons (depth : Nat) (text : String) (texts : List String) :
    furtherItems depth (text :: texts) =
      ',' :: ((newline depth).toList ++ (text.toList ++ furtherItems depth texts)) := by
  rw [furtherItems, List.flatMap_cons, List.cons_append, List.append_assoc, furtherItems]

theorem toList_intercalate_cons (depth : Nat) (text : String) (texts : List String) :
    (("," ++ newline depth).intercalate (text :: texts)).toList = text.toList ++ furtherItems depth texts := by
  induction texts generalizing text with
  | nil => rw [String.intercalate_singleton, furtherItems, List.flatMap_nil, List.append_nil]
  | cons next texts ih =>
      rw [String.intercalate_cons_cons, String.toList_append, ih, furtherItems_cons]
      simp

/-- The text of a block behind its opening bracket. -/
def blockTail (closing : String) (depth : Nat) (texts : List String) : List Char :=
  match texts with
  | [] => closing.toList
  | text :: texts => (newline (depth + 1)).toList ++ (text.toList ++
      (furtherItems (depth + 1) texts ++ ((newline depth).toList ++ closing.toList)))

theorem toList_block (opening closing : String) (depth : Nat) (texts : List String) :
    (block opening closing depth texts).toList = opening.toList ++ blockTail closing depth texts := by
  cases texts with
  | nil => simp [block, blockTail]
  | cons text texts =>
      rw [block, if_neg (by simp)]
      simp only [String.toList_append, toList_intercalate_cons, blockTail, List.append_assoc]

theorem length_furtherItems (depth : Nat) (texts : List String) :
    (texts.map fun text => text.toList.length + 1).sum ≤ (furtherItems depth texts).length := by
  induction texts with
  | nil => exact Nat.le_refl _
  | cons text texts ih =>
      simp only [furtherItems_cons, List.map_cons, List.sum_cons, List.length_append, List.length_cons]
      omega

theorem length_blockTail (closing : String) (depth : Nat) (texts : List String) :
    (texts.map fun text => text.toList.length + 1).sum ≤ (blockTail closing depth texts).length := by
  cases texts with
  | nil => exact Nat.zero_le _
  | cons text texts =>
      have hfurther := length_furtherItems (depth + 1) texts
      have hnewline : 0 < (newline (depth + 1)).toList.length := by
        rw [newline, String.toList_ofList]
        exact Nat.succ_pos _
      simp only [blockTail, List.map_cons, List.sum_cons, List.length_append]
      omega

/-- There are fewer items than characters, and every item is shorter than the block. -/
theorem bounds_of_length_blockTail {closing : String} {depth : Nat} {texts : List String} {bound : Nat}
    (h : (blockTail closing depth texts).length ≤ bound) :
    texts.length ≤ bound ∧ ∀ text ∈ texts, text.toList.length < bound := by
  have hsum := (length_blockTail closing depth texts).trans h
  constructor
  · have hlength := List.length_le_sum_of_one_le (texts.map fun text => text.toList.length + 1) (by simp)
    rw [List.length_map] at hlength
    exact hlength.trans hsum
  · intro text htext
    have hmem : text.toList.length + 1 ∈ texts.map fun text => text.toList.length + 1 := List.mem_map_of_mem htext
    exact (List.single_le_sum (by simp) _ hmem).trans hsum

section Items

variable {α : Type} {item : List Char → Option (α × List Char)} {closing : Char}

/-- A text that is read as that item wherever it stands, and that is told from the end of a block. -/
structure ReadsAs (item : List Char → Option (α × List Char)) (text : String) (value : α) : Prop where
  starts : ∃ c tail, text.toList = c :: tail ∧ isBlank c = false ∧ c ≠ ']' ∧ c ≠ '\x7d'
  reads : ∀ rest, Stops continuesNumber rest → item (text.toList ++ rest) = some (value, rest)

theorem ReadsAs.skipBlanks_eq {text : String} {value : α} (h : ReadsAs item text value) (rest : List Char) :
    skipBlanks (text.toList ++ rest) = text.toList ++ rest := by
  obtain ⟨c, tail, htext, hblank, -⟩ := h.starts
  rw [htext, List.cons_append]
  exact skipBlanks_cons hblank _

theorem stops_furtherItems (depth depth' : Nat) (texts : List String) (rest : List Char) :
    Stops continuesNumber (furtherItems depth texts ++ ((newline depth').toList ++ rest)) := by
  cases texts with
  | nil => exact stops_newline depth' rest
  | cons text texts => exact stops_cons.mpr (by decide)

theorem skipBlanks_closing (hclosing : closing = ']' ∨ closing = '\x7d') (cs : List Char) :
    skipBlanks (closing :: cs) = closing :: cs := by
  refine skipBlanks_cons ?_ cs
  rcases hclosing with rfl | rfl <;> decide

variable (hitem : ∀ cs, item (skipBlanks cs) = item cs)

include hitem

theorem ReadsAs.reads_line {text : String} {value : α} (h : ReadsAs item text value) (depth : Nat)
    {rest : List Char} (hrest : Stops continuesNumber rest) :
    item ((newline depth).toList ++ (text.toList ++ rest)) = some (value, rest) := by
  rw [← hitem, skipBlanks_append (isBlank_newline depth), hitem, h.reads rest hrest]

variable (hclosing : closing = ']' ∨ closing = '\x7d')

include hclosing

theorem readItems_lines (depth depth' : Nat) {text : String} {texts : List String} {value : α} {values : List α}
    (hvalue : ReadsAs item text value) (hvalues : List.Forall₂ (ReadsAs item) texts values) {fuel : Nat}
    (hfuel : texts.length < fuel) (rest : List Char) :
    readItems item closing fuel ((newline depth).toList ++ (text.toList ++
        (furtherItems depth texts ++ ((newline depth').toList ++ closing :: rest)))) =
      some (value :: values, rest) := by
  induction hvalues generalizing text value fuel with
  | nil =>
      obtain ⟨fuel, rfl⟩ := Nat.exists_eq_succ_of_ne_zero (Nat.ne_zero_of_lt hfuel)
      have hread := hvalue.reads_line hitem depth (stops_newline depth' (closing :: rest))
      -- Behind the last item the bracket is told from a comma.
      have hcomma : closing ≠ ',' := by
        rcases hclosing with rfl | rfl <;> decide
      rw [furtherItems, List.flatMap_nil, List.nil_append, readItems, hread]
      simp [skipBlanks_append (isBlank_newline depth'), skipBlanks_closing hclosing]
  | @cons next _ texts _ hnext hvalues ih =>
      obtain ⟨fuel, rfl⟩ := Nat.exists_eq_succ_of_ne_zero (Nat.ne_zero_of_lt hfuel)
      have hread := hvalue.reads_line hitem depth
        (stops_furtherItems depth depth' (next :: texts) (closing :: rest))
      have hmore := ih hnext (Nat.lt_of_succ_lt_succ hfuel)
      rw [readItems, hread, furtherItems_cons]
      simp [skipBlanks_cons (c := ',') (by decide), hmore]

/-- A block is read as its items. -/
theorem readBlock_blockTail {texts : List String} {values : List α}
    (hvalues : List.Forall₂ (ReadsAs item) texts values) {fuel : Nat} (hfuel : texts.length ≤ fuel) (depth : Nat)
    (rest : List Char) :
    readBlock item closing fuel (blockTail (String.singleton closing) depth texts ++ rest) = some (values, rest) := by
  cases hvalues with
  | nil =>
      rw [blockTail, String.toList_singleton, List.singleton_append, readBlock, skipBlanks_closing hclosing]
      exact if_pos rfl
  | @cons text value texts values hvalue hvalues =>
      have hread := readItems_lines hitem hclosing (depth + 1) depth hvalue hvalues hfuel rest
      obtain ⟨c, tail, htext, -, hbracket, hbrace⟩ := hvalue.starts
      have hopen : c ≠ closing := by
        rcases hclosing with rfl | rfl
        · exact hbracket
        · exact hbrace
      simp only [blockTail, String.toList_singleton, List.append_assoc, List.singleton_append]
      rw [readBlock, skipBlanks_append (isBlank_newline _), hvalue.skipBlanks_eq, hread, htext]
      exact if_neg hopen

end Items

/-! ### Values -/

/-- Values that are written as they are: numbers have spellings, and there is no half of a surrogate pair. -/
inductive Writable : Json → Prop where
  | null : Writable null
  | bool (value : Bool) : Writable (bool value)
  | number {spelling : String} (h : NumberSpelling spelling.toList) : Writable (number spelling)
  | string (content : String) : Writable (string content)
  | array {items : List Json} (h : ∀ item ∈ items, Writable item) : Writable (array items)
  | object {members : List (String × Json)} (h : ∀ member ∈ members, Writable member.2) :
      Writable (object members)

theorem readValue_skipBlanks (fuel : Nat) (cs : List Char) : readValue fuel (skipBlanks cs) = readValue fuel cs := by
  cases fuel with
  | zero => rfl
  | succ fuel => rw [readValue, readValue, skipBlanks_skipBlanks]

theorem readMember_skipBlanks (value : List Char → Option (Json × List Char)) (cs : List Char) :
    readMember value (skipBlanks cs) = readMember value cs := by
  rw [readMember, readMember, skipBlanks_skipBlanks]

theorem prettyItems_eq (depth : Nat) (items : List Json) : prettyItems depth items = items.map (prettyAt depth) := by
  induction items with
  | nil => rfl
  | cons item items ih => rw [prettyItems, ih, List.map_cons]

/-- The text of a member of an object. -/
def memberText (depth : Nat) (member : String × Json) : String :=
  quoted member.1 ++ ": " ++ prettyAt depth member.2

theorem prettyMembers_eq (depth : Nat) (members : List (String × Json)) :
    prettyMembers depth members = members.map (memberText depth) := by
  induction members with
  | nil => rfl
  | cons member members ih => rw [prettyMembers, ih, List.map_cons, memberText]

theorem readWord_append (word : String) (value : Json) (rest : List Char) :
    readWord word value (word.toList ++ rest) = some (value, rest) := by
  rw [readWord, if_pos (List.isPrefixOf_iff_prefix.mpr (List.prefix_append _ _)), List.drop_left]

theorem ReadsAs.member {fuel depth : Nat} {key : String} {value : Json}
    (h : ReadsAs (readValue fuel) (prettyAt depth value) value) :
    ReadsAs (readMember (readValue fuel)) (memberText depth (key, value)) (some key, value) where
  starts := by
    refine ⟨'"', stringTail key ++ (": ".toList ++ (prettyAt depth value).toList), ?_, by decide⟩
    simp [memberText, toList_quoted]
  reads rest hrest := by
    have hvalue : readValue fuel (' ' :: ((prettyAt depth value).toList ++ rest)) = some (value, rest) := by
      rw [← readValue_skipBlanks, ← List.singleton_append, skipBlanks_append (by simp [isBlank]),
        readValue_skipBlanks, h.reads rest hrest]
    have htext : (memberText depth (key, value)).toList ++ rest =
        '"' :: (stringTail key ++ ':' :: ' ' :: ((prettyAt depth value).toList ++ rest)) := by
      simp [memberText, toList_quoted]
    rw [htext, readMember, skipBlanks_cons (by decide)]
    simp [readString_stringTail, skipBlanks_cons (c := ':') (by decide), hvalue]

theorem ofMembers_some (members : List (String × Json)) :
    ofMembers (members.map fun member => (some member.1, member.2)) = object members := by
  have hall : members.mapM some = some members := by
    have hpure := List.mapM_pure (m := Option) (f := id) (l := members)
    rwa [List.map_id] at hpure
  rw [ofMembers, List.mapM_map]
  simp [Function.comp_def, hall]

theorem readsAs_number {spelling : String} (h : NumberSpelling spelling.toList) (fuel : Nat) :
    ReadsAs (readValue (fuel + 1)) spelling (number spelling) := by
  obtain ⟨c, tail, htext, hc⟩ := h.cons_inv
  have hnone : ∀ d : Char, (d = '-' || d.isDigit) = false → c ≠ d := by
    rintro d hd rfl
    rcases hc with rfl | hc
    · simp at hd
    · simp [hc] at hd
  have hblank : isBlank c = false := by
    simp [isBlank, hnone ' ' (by decide), hnone '\n' (by decide), hnone '\t' (by decide), hnone '\r' (by decide)]
  refine ⟨⟨c, tail, htext, hblank, hnone ']' (by decide), hnone '\x7d' (by decide)⟩, fun rest hrest => ?_⟩
  have hread := h.readNumber hrest
  rw [String.ofList_toList, htext, List.cons_append] at hread
  rw [htext, List.cons_append, readValue, skipBlanks_cons hblank]
  simpa [hnone '[' (by decide), hnone '\x7b' (by decide), hnone '"' (by decide), hnone 'n' (by decide),
    hnone 't' (by decide), hnone 'f' (by decide)] using hread

theorem readsAs_word (word : String) (value : Json) (c : Char) {fuel : Nat} {tail : List Char}
    (htext : word.toList = c :: tail) (hstarts : isBlank c = false ∧ c ≠ ']' ∧ c ≠ '\x7d')
    (hword : ∀ cs, skipBlanks (c :: cs) = c :: cs →
      readValue (fuel + 1) (c :: cs) = readWord word value (c :: cs)) :
    ReadsAs (readValue (fuel + 1)) word value where
  starts := ⟨c, tail, htext, hstarts⟩
  reads rest _ := by
    have hread := readWord_append word value rest
    rw [htext, List.cons_append] at hread
    rw [htext, List.cons_append, hword _ (skipBlanks_cons hstarts.1 _), hread]

theorem readsAs_string (content : String) (fuel : Nat) :
    ReadsAs (readValue (fuel + 1)) (quoted content) (string content) where
  starts := ⟨'"', stringTail content, toList_quoted content, by decide⟩
  reads rest _ := by
    rw [toList_quoted, List.cons_append, readValue, skipBlanks_cons (by decide)]
    simp [readString_stringTail, ofString]

/-- The value is read from its text, at any depth, with any bound that is not below the length of the text. -/
def Reads (value : Json) : Prop :=
  ∀ depth fuel, (prettyAt depth value).toList.length ≤ fuel →
    ReadsAs (readValue (fuel + 1)) (prettyAt depth value) value

theorem Reads.of_lt {value : Json} (h : Reads value) {depth fuel : Nat}
    (hlt : (prettyAt depth value).toList.length < fuel) : ReadsAs (readValue fuel) (prettyAt depth value) value := by
  obtain ⟨fuel, rfl⟩ := Nat.exists_eq_succ_of_ne_zero (Nat.ne_zero_of_lt hlt)
  exact h depth fuel (Nat.le_of_lt_succ hlt)

theorem Reads.array {items : List Json} (h : ∀ item ∈ items, Reads item) : Reads (.array items) := by
  intro depth fuel hfuel
  have htext : (prettyAt depth (.array items)).toList =
      '[' :: blockTail (String.singleton ']') depth (items.map (prettyAt (depth + 1))) := by
    rw [prettyAt, toList_block, prettyItems_eq]
    rfl
  rw [htext, List.length_cons] at hfuel
  obtain ⟨hlength, hshorter⟩ := bounds_of_length_blockTail (Nat.le_of_succ_le hfuel)
  have hall : List.Forall₂ (ReadsAs (readValue fuel)) (items.map (prettyAt (depth + 1))) items :=
    List.forall₂_map_left_iff.mpr <| List.forall₂_same.mpr fun item hitem =>
      (h item hitem).of_lt (hshorter _ (List.mem_map_of_mem hitem))
  refine ⟨⟨'[', _, htext, by decide⟩, fun rest _ => ?_⟩
  have hread := readBlock_blockTail (readValue_skipBlanks fuel) (.inl rfl) hall hlength depth rest
  rw [htext, List.cons_append, readValue, skipBlanks_cons (by decide)]
  simp only [hread, Option.map_some]

theorem length_le_memberText (depth : Nat) (member : String × Json) :
    (prettyAt depth member.2).toList.length ≤ (memberText depth member).toList.length := by
  simp only [memberText, String.toList_append, List.length_append]
  omega

theorem Reads.object {members : List (String × Json)} (h : ∀ member ∈ members, Reads member.2) :
    Reads (.object members) := by
  intro depth fuel hfuel
  have htext : (prettyAt depth (.object members)).toList =
      '\x7b' :: blockTail (String.singleton '\x7d') depth (members.map (memberText (depth + 1))) := by
    rw [prettyAt, toList_block, prettyMembers_eq]
    rfl
  rw [htext, List.length_cons] at hfuel
  obtain ⟨hlength, hshorter⟩ := bounds_of_length_blockTail (Nat.le_of_succ_le hfuel)
  have hall : List.Forall₂ (ReadsAs (readMember (readValue fuel))) (members.map (memberText (depth + 1)))
      (members.map fun member => (some member.1, member.2)) := by
    refine List.forall₂_map_left_iff.mpr <| List.forall₂_map_right_iff.mpr <| List.forall₂_same.mpr ?_
    intro member hmember
    have hlt := hshorter _ (List.mem_map_of_mem hmember)
    exact ((h member hmember).of_lt ((length_le_memberText _ member).trans_lt hlt)).member
  refine ⟨⟨'\x7b', _, htext, by decide⟩, fun rest _ => ?_⟩
  have hread := readBlock_blockTail (readMember_skipBlanks (readValue fuel)) (.inr rfl) hall hlength depth rest
  rw [htext, List.cons_append, readValue, skipBlanks_cons (by decide)]
  simp only [hread, Option.map_some, ofMembers_some]

theorem reads_of_writable {value : Json} (h : Writable value) : Reads value := by
  induction h with
  | null =>
      intro _ fuel _
      exact readsAs_word "null" null 'n' rfl (by decide) fun cs hcs => by simp [readValue, hcs]
  | bool value =>
      intro _ fuel _
      cases value with
      | true => exact readsAs_word "true" (.bool true) 't' rfl (by decide) fun cs hcs => by simp [readValue, hcs]
      | false => exact readsAs_word "false" (.bool false) 'f' rfl (by decide) fun cs hcs => by simp [readValue, hcs]
  | number h =>
      intro _ fuel _
      exact readsAs_number h fuel
  | string content =>
      intro _ fuel _
      exact readsAs_string content fuel
  | array _ ih => exact Reads.array ih
  | object _ ih => exact Reads.object ih

/-- Every writable value is read back from its text. -/
theorem read?_pretty {value : Json} (h : Writable value) : read? value.pretty = some value := by
  have hread : readValue (value.pretty.toList.length + 1) value.pretty.toList = some (value, []) := by
    have hreads := (reads_of_writable h 0 _ (Nat.le_refl _)).reads [] Stops.nil
    rwa [List.append_nil] at hreads
  rw [read?]
  simp only [hread, Option.bind_eq_bind, Option.bind_some]
  rfl

end TurtleChain.Json
