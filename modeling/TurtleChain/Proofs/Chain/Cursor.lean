import TurtleChain.Proofs.Chain.Steps

/-! The parser as a cursor that goes over its tokens. It looks a token up at its position without a check and
leaves a trail of the positions, so that a look past the tokens and a step back both show. On tokens with an end
of input among them it reads what the readers of lists read, goes round no more often than there are tokens, and
stops no later than at the first end. -/

namespace TurtleChain

/-- The outcome of a call to `parse`, where all calls before it are made on the same parser. Calls are counted
from zero. -/
def Parser.call (tokens : List Token) : Nat → Except SyntaxError Sequence × Parser
  | 0 => parse ⟨tokens, 0⟩
  | n + 1 => (call tokens n).2.parse

structure Cursor where
  position : Nat := 0
  /-- The positions that it looked at or moved to, the latest first. -/
  trail : List Nat := []

namespace Cursor

/-- There is no outcome where the cursor looks past the tokens or goes round too often. -/
abbrev Reader := ExceptT SyntaxError (StateT Cursor Option)

section

variable (tokens : List Token)

def current : Reader Token := fun cursor =>
  tokens[cursor.position]?.map fun t => (.ok t, { cursor with trail := cursor.position :: cursor.trail })

def isAt (kind : TokenKind) : Reader Bool := do
  return (← current tokens).kind = kind

def advance : Reader Unit := do
  unless ← isAt tokens .eof do
    modify fun cursor => ⟨cursor.position + 1, (cursor.position + 1) :: cursor.trail⟩

def fail {α : Type} (cause : SyntaxError.Cause) : Reader α := do
  throw ((← current tokens).errorAt cause)

def name : Reader String := do
  match (← current tokens).kind with
  | .ident name =>
    advance tokens
    return name
  | _ => fail tokens .noName

/-- The field of a member, from the dot on. -/
def member (object : String) : Reader Arg := do
  let stop := (← current tokens).stop
  advance tokens
  let t ← current tokens
  if t.start ≠ stop then throw ⟨stop, some ' ', .noField⟩
  else
    match t.kind with
    | .ident name =>
      advance tokens
      return .member object name
    | _ => fail tokens .noField

def argument : Reader Arg := do
  let t ← current tokens
  match t.kind with
  | .number text =>
    advance tokens
    liftExcept (Parser.spelled text t.start)
  | .string content =>
    advance tokens
    return .text content
  | .ident name =>
    advance tokens
    if ← isAt tokens .dot then
      if (← current tokens).start = t.stop then member tokens name
      else return .ident name
    else return .ident name
  | _ => fail tokens .noArgument

def argument? : Reader (Option Arg) := do
  if ← isAt tokens .colon then
    advance tokens
    return some (← argument tokens)
  else return none

def operation : Reader Operation := do
  let name ← name tokens
  return ⟨name, ← argument? tokens⟩

/-- One operation after another, behind the reversed `found`, in so many rounds at most. -/
def operations : Nat → List Operation → Reader Sequence
  | 0, _ => fun _ => none
  | rounds + 1, found => do
    let op ← operation tokens
    match (← current tokens).kind with
    | .eof => return (op :: found).reverse
    | .pipe =>
      advance tokens
      if ← isAt tokens .eof then return (op :: found).reverse
      else operations rounds (op :: found)
    | _ => fail tokens .noPipe

/-- A chain, with a round for each token and no more. -/
def parse : Reader Sequence := do
  if ← isAt tokens .eof then return []
  else operations tokens tokens.length []

/-- The outcome of a call to `parse`, where all calls before it are made with the same cursor. -/
def call : Nat → Option (Except SyntaxError Sequence × Cursor)
  | 0 => parse tokens {}
  | n + 1 => do
    let (_, cursor) ← call n
    parse tokens cursor

end

theorem parse_past_tokens {tokens : List Token} {cursor : Cursor} (h : tokens.length ≤ cursor.position) :
    parse tokens cursor = none := by
  have hlook : current tokens cursor = none := by
    rw [current, List.getElem?_eq_none h, Option.map_none]
  show ((current tokens cursor).bind _).bind _ = _
  rw [hlook]
  rfl

/-- The place of the first end of input. -/
def firstEnd (tokens : List Token) : Nat :=
  tokens.findIdx fun t => t.kind = .eof

variable {tokens ts : List Token} {cursor : Cursor} {t : Token}

/-- The cursor stands in front of `ts`, and its trail leads there without a step back or one past the first
end. -/
structure At (tokens : List Token) (cursor : Cursor) (ts : List Token) : Prop where
  drop_eq : tokens.drop cursor.position = ts
  ended : Parser.Ended ts
  le_firstEnd : cursor.position ≤ firstEnd tokens
  in_order : (cursor.position :: cursor.trail).Pairwise (· ≥ ·)

namespace At

theorem start (h : Parser.Ended tokens) : At tokens {} tokens where
  drop_eq := rfl
  ended := h
  le_firstEnd := Nat.zero_le _
  in_order := by simp

theorem getElem?_eq (h : At tokens cursor (t :: ts)) : tokens[cursor.position]? = some t := by
  rw [← List.head?_drop, h.drop_eq, List.head?_cons]

theorem lt_firstEnd (h : At tokens cursor (t :: ts)) (ht : t.kind ≠ .eof) :
    cursor.position < firstEnd tokens := by
  refine Nat.lt_of_le_of_ne h.le_firstEnd fun heq => ht ?_
  have hget : tokens[firstEnd tokens]? = some t := heq ▸ h.getElem?_eq
  obtain ⟨hlt, rfl⟩ := List.getElem?_eq_some_iff.mp hget
  exact of_decide_eq_true (List.findIdx_getElem (w := hlt))

/-- The next entry of the trail. -/
theorem in_order_cons (h : At tokens cursor ts) {i : Nat} (hi : cursor.position ≤ i) :
    (i :: i :: cursor.trail).Pairwise (· ≥ ·) := by
  obtain ⟨hle, htrail⟩ := List.pairwise_cons.mp h.in_order
  have hle' : ∀ j ∈ cursor.trail, i ≥ j := fun j hj => Nat.le_trans (hle j hj) hi
  refine List.pairwise_cons.mpr ⟨fun j hj => ?_, List.pairwise_cons.mpr ⟨hle', htrail⟩⟩
  rcases List.mem_cons.mp hj with rfl | hj
  · exact Nat.le_refl j
  · exact hle' j hj

theorem look (h : At tokens cursor ts) :
    At tokens { cursor with trail := cursor.position :: cursor.trail } ts where
  drop_eq := h.drop_eq
  ended := h.ended
  le_firstEnd := h.le_firstEnd
  in_order := h.in_order_cons (Nat.le_refl _)

theorem move (h : At tokens cursor (t :: ts)) (ht : t.kind ≠ .eof) :
    At tokens ⟨cursor.position + 1, (cursor.position + 1) :: cursor.trail⟩ ts where
  drop_eq := by rw [← List.drop_drop, h.drop_eq, List.drop_one, List.tail_cons]
  ended := h.ended.tail ht
  le_firstEnd := h.lt_firstEnd ht
  in_order := h.in_order_cons (Nat.le_succ _)

/-- As many tokens are left as stand from the position on. -/
theorem position_eq (h : At tokens cursor ts) : cursor.position = tokens.length - ts.length := by
  obtain ⟨t, ht, -⟩ := h.ended
  have hpos : 0 < ts.length := List.length_pos_of_mem ht
  rw [← h.drop_eq, List.length_drop] at hpos ⊢
  omega

end At

/-- The reader ends with an outcome in front of the tokens that are left. -/
def Reaches {α : Type} (tokens : List Token) (reader : Reader α) (cursor : Cursor)
    (reading : Parser.Reading α) : Prop :=
  ∃ cursor', reader cursor = some (reading.1, cursor') ∧ At tokens cursor' reading.2

section

variable {α β : Type} {a : α} {e : SyntaxError} {reader : Reader α} {next : α → Reader β}

theorem At.reaches_pure (h : At tokens cursor ts) (a : α) : Reaches tokens (pure a) cursor (.ok a, ts) :=
  ⟨cursor, rfl, h⟩

theorem At.reaches_throw (h : At tokens cursor ts) (e : SyntaxError) :
    Reaches tokens (throw e : Reader α) cursor (.error e, ts) :=
  ⟨cursor, rfl, h⟩

theorem At.reaches_lift (h : At tokens cursor ts) (result : Except SyntaxError α) :
    Reaches tokens (liftExcept result) cursor (result, ts) := by
  cases result with
  | error e => exact h.reaches_throw e
  | ok a => exact h.reaches_pure a

theorem Reaches.bind {reading : Parser.Reading β} (h : Reaches tokens reader cursor (.ok a, ts))
    (hnext : ∀ cursor', At tokens cursor' ts → Reaches tokens (next a) cursor' reading) :
    Reaches tokens (reader >>= next) cursor reading := by
  obtain ⟨cursor', hread, hat⟩ := h
  obtain ⟨cursor'', hread', hat'⟩ := hnext cursor' hat
  refine ⟨cursor'', ?_, hat'⟩
  rw [← hread']
  show (reader cursor).bind _ = _
  rw [hread]
  rfl

theorem Reaches.bind_error (h : Reaches tokens reader cursor (.error e, ts)) :
    Reaches tokens (reader >>= next) cursor (.error e, ts) := by
  obtain ⟨cursor', hread, hat⟩ := h
  refine ⟨cursor', ?_, hat⟩
  show (reader cursor).bind _ = _
  rw [hread]
  rfl

end

/-! ### Readers -/

theorem current_reaches (h : At tokens cursor (t :: ts)) :
    Reaches tokens (current tokens) cursor (.ok t, t :: ts) :=
  ⟨_, by rw [current, h.getElem?_eq]; rfl, h.look⟩

theorem isAt_reaches (h : At tokens cursor (t :: ts)) (kind : TokenKind) :
    Reaches tokens (isAt tokens kind) cursor (.ok (t.kind = kind), t :: ts) :=
  (current_reaches h).bind fun _ h => h.reaches_pure _

section

variable {α : Type} {kind : TokenKind} {here elsewhere : Reader α} {reading : Parser.Reading α}

theorem isAt_then (h : At tokens cursor (t :: ts)) (ht : t.kind = kind)
    (hnext : ∀ cursor', At tokens cursor' (t :: ts) → Reaches tokens here cursor' reading) :
    Reaches tokens (do if ← isAt tokens kind then here else elsewhere) cursor reading := by
  refine (isAt_reaches h kind).bind fun cursor h => ?_
  rw [decide_eq_true ht, if_pos rfl]
  exact hnext cursor h

theorem isAt_else (h : At tokens cursor (t :: ts)) (ht : t.kind ≠ kind)
    (hnext : ∀ cursor', At tokens cursor' (t :: ts) → Reaches tokens elsewhere cursor' reading) :
    Reaches tokens (do if ← isAt tokens kind then here else elsewhere) cursor reading := by
  refine (isAt_reaches h kind).bind fun cursor h => ?_
  rw [decide_eq_false ht, if_neg Bool.false_ne_true]
  exact hnext cursor h

end

theorem advance_reaches (h : At tokens cursor (t :: ts)) (ht : t.kind ≠ .eof) :
    Reaches tokens (advance tokens) cursor (.ok (), ts) :=
  isAt_else h ht fun _ h => ⟨_, rfl, h.move ht⟩

theorem fail_reaches {α : Type} (h : At tokens cursor (t :: ts)) (cause : SyntaxError.Cause) :
    Reaches tokens (fail tokens cause : Reader α) cursor (.error (t.errorAt cause), t :: ts) :=
  (current_reaches h).bind fun _ h => h.reaches_throw _

theorem name_reaches (h : At tokens cursor (t :: ts)) {name : String} (ht : t.kind = .ident name) :
    Reaches tokens (Cursor.name tokens) cursor (.ok name, ts) := by
  refine (current_reaches h).bind fun cursor h => ?_
  simp only [ht]
  exact (advance_reaches h (by simp [ht])).bind fun _ h => h.reaches_pure name

theorem name_reaches_error (h : At tokens cursor (t :: ts)) (ht : ∀ name, t.kind ≠ .ident name) :
    Reaches tokens (name tokens) cursor (.error (t.errorAt .noName), t :: ts) := by
  refine (current_reaches h).bind fun cursor h => ?_
  split
  · next name hname => exact absurd hname (ht name)
  · exact fail_reaches h .noName

theorem member_reaches {d : Token} (h : At tokens cursor (d :: ts)) (hd : d.kind = .dot) (object : String) :
    Reaches tokens (member tokens object) cursor (Parser.field object d.stop ts) := by
  refine (current_reaches h).bind fun cursor h => (advance_reaches h (by simp [hd])).bind fun cursor h => ?_
  cases ts with
  | nil => exact absurd h.ended Parser.not_ended_nil
  | cons t ts =>
      refine (current_reaches h).bind fun cursor h => ?_
      by_cases hstart : t.start = d.stop
      · rw [if_neg (not_not_intro hstart), ← hstart]
        split
        · next name hname =>
            rw [Parser.field_of_ident ts hname]
            exact (advance_reaches h (by simp [hname])).bind fun _ h => h.reaches_pure _
        · next hname =>
            rw [Parser.field_of_ne_ident ts hname]
            exact fail_reaches h .noField
      · rw [if_pos hstart, Parser.field_of_ne_start ts hstart]
        exact h.reaches_throw _

theorem argument_reaches (h : At tokens cursor ts) :
    Reaches tokens (argument tokens) cursor (Parser.argument ts) := by
  cases ts with
  | nil => exact absurd h.ended Parser.not_ended_nil
  | cons t ts =>
      refine (current_reaches h).bind fun cursor h => ?_
      obtain ⟨kind, start, stop⟩ := t
      cases kind with
      | number text => exact (advance_reaches h (by simp)).bind fun _ h => h.reaches_lift _
      | string content => exact (advance_reaches h (by simp)).bind fun _ h => h.reaches_pure _
      | ident name =>
          refine (advance_reaches h (by simp)).bind fun cursor h => ?_
          cases ts with
          | nil => exact absurd h.ended Parser.not_ended_nil
          | cons d rest =>
              by_cases hd : d.kind = .dot
              · refine isAt_then h hd fun cursor h => (current_reaches h).bind fun cursor h => ?_
                by_cases hstart : d.start = stop
                · rw [if_pos hstart, Parser.argument_member rest ⟨hd, hstart⟩]
                  exact member_reaches h hd name
                · rw [if_neg hstart, Parser.argument_ident rest fun hdot => hstart hdot.2]
                  exact h.reaches_pure _
              · rw [Parser.argument_ident rest fun hdot => hd hdot.1]
                exact isAt_else h hd fun _ h => h.reaches_pure _
      | pipe | colon | dot | eof | error => exact fail_reaches h .noArgument

theorem argument?_reaches (h : At tokens cursor ts) :
    Reaches tokens (argument? tokens) cursor (Parser.argument? ts) := by
  cases ts with
  | nil => exact absurd h.ended Parser.not_ended_nil
  | cons t ts =>
      by_cases ht : t.kind = .colon
      · rw [Parser.argument?_of_colon ts ht]
        refine isAt_then h ht fun cursor h => (advance_reaches h (by simp [ht])).bind fun cursor h => ?_
        have hread := argument_reaches h
        generalize Parser.argument ts = reading at hread
        obtain ⟨e | arg, rest⟩ := reading
        · exact hread.bind_error
        · exact hread.bind fun _ h => h.reaches_pure _
      · rw [Parser.argument?_of_ne_colon ts ht]
        exact isAt_else h ht fun _ h => h.reaches_pure none

theorem operation_reaches {name : String} {arg : Option Arg} {rest : List Token}
    (h : At tokens cursor (t :: ts)) (ht : t.kind = .ident name)
    (hread : Parser.argument? ts = (.ok arg, rest)) :
    Reaches tokens (operation tokens) cursor (.ok ⟨name, arg⟩, rest) := by
  refine (name_reaches h ht).bind fun cursor h => ?_
  have harg := argument?_reaches h
  rw [hread] at harg
  exact harg.bind fun _ h => h.reaches_pure _

theorem operation_reaches_error {name : String} {e : SyntaxError} {rest : List Token}
    (h : At tokens cursor (t :: ts)) (ht : t.kind = .ident name)
    (hread : Parser.argument? ts = (.error e, rest)) :
    Reaches tokens (operation tokens) cursor (.error e, rest) := by
  refine (name_reaches h ht).bind fun cursor h => ?_
  have harg := argument?_reaches h
  rw [hread] at harg
  exact harg.bind_error

/-- The loop over operations reads what the steps over the tokens read. Each step takes a token at least, so that the
rounds do not run out before the tokens. -/
theorem operations_reaches {found : List Operation} {reading : Parser.Reading Sequence}
    (hreads : Parser.Reads found ts reading) {rounds : Nat} (hrounds : ts.length ≤ rounds + 1) {cursor : Cursor}
    (h : At tokens cursor ts) : Reaches tokens (operations tokens (rounds + 1) found) cursor reading := by
  induction hreads generalizing rounds cursor with
  | noName ht => exact ((name_reaches_error h ht).bind_error).bind_error
  | noArgument ht hread => exact (operation_reaches_error h ht hread).bind_error
  | noPipe ht hread heof hpipe =>
      refine (operation_reaches h ht hread).bind fun cursor h => (current_reaches h).bind fun cursor h => ?_
      split
      · next heof' => exact absurd heof' heof
      · next hpipe' => exact absurd hpipe' hpipe
      · exact fail_reaches h .noPipe
  | last ht hread he =>
      refine (operation_reaches h ht hread).bind fun cursor h => (current_reaches h).bind fun cursor h => ?_
      simp only [he]
      exact h.reaches_pure _
  | trailing ht hread he hn =>
      refine (operation_reaches h ht hread).bind fun cursor h => (current_reaches h).bind fun cursor h => ?_
      simp only [he]
      refine (advance_reaches h (by simp [he])).bind fun cursor h => ?_
      exact isAt_then h hn fun _ h => h.reaches_pure _
  | @next _ _ _ _ ts _ _ _ _ ht hread he hn _ ih =>
      refine (operation_reaches h ht hread).bind fun cursor h => (current_reaches h).bind fun cursor h => ?_
      simp only [he]
      refine (advance_reaches h (by simp [he])).bind fun cursor h => isAt_else h hn fun cursor h => ?_
      have hlength := Parser.argument?_length ts
      simp only [hread, List.length_cons] at hlength hrounds
      cases rounds with
      | zero => omega
      | succ rounds => exact ih (by rw [List.length_cons]; omega) h

theorem parse_reaches (h : At tokens cursor ts) :
    Reaches tokens (parse tokens) cursor (Parser.chain ts) := by
  have hlength : ts.length ≤ tokens.length := by
    rw [← h.drop_eq, List.length_drop]
    exact Nat.sub_le _ _
  cases ts with
  | nil => exact absurd h.ended Parser.not_ended_nil
  | cons t ts =>
      rw [Parser.chain]
      by_cases ht : t.kind = .eof
      · rw [if_pos ht]
        exact isAt_then h ht fun _ h => h.reaches_pure []
      · rw [if_neg ht]
        refine isAt_else h ht fun cursor h => ?_
        obtain ⟨rounds, hrounds⟩ := Nat.exists_eq_add_one.mpr (Nat.lt_of_lt_of_le (Nat.succ_pos _) hlength)
        rw [hrounds] at hlength ⊢
        exact operations_reaches (Parser.reads_statements h.ended []) hlength h

end Cursor

/-! ### Calls -/

namespace Parser

def AtEnd (ts : List Token) : Prop :=
  ∃ t rest, ts = t :: rest ∧ t.kind = .eof

theorem Reads.atEnd_of_ok {found ops : List Operation} {ts : List Token} {reading : Reading Sequence}
    (h : Reads found ts reading) (hok : reading.1 = .ok ops) : AtEnd reading.2 := by
  induction h with
  | noName | noArgument | noPipe => cases hok
  | last _ _ he => exact ⟨_, _, rfl, he⟩
  | trailing _ _ _ hn => exact ⟨_, _, rfl, hn⟩
  | next _ _ _ _ _ ih => exact ih hok

theorem chain_atEnd_of_ok {ts : List Token} (h : Ended ts) {ops : Sequence} (hok : (chain ts).1 = .ok ops) :
    AtEnd (chain ts).2 := by
  cases ts with
  | nil => exact absurd h not_ended_nil
  | cons t ts =>
      rw [chain] at hok ⊢
      by_cases ht : t.kind = .eof
      · rw [if_pos ht]
        exact ⟨t, ts, rfl, ht⟩
      · rw [if_neg ht] at hok ⊢
        exact (reads_statements h []).atEnd_of_ok hok

/-- At the end a parser reads nothing and stays. -/
theorem parse_of_atEnd {parser : Parser} (h : AtEnd (parser.tokens.drop parser.position)) :
    parser.parse = (.ok [], parser) := by
  obtain ⟨t, rest, hdrop, ht⟩ := h
  have hlength := congrArg List.length hdrop
  rw [List.length_drop, List.length_cons] at hlength
  have hposition : parser.tokens.length - (t :: rest).length = parser.position := by
    rw [List.length_cons]
    omega
  rw [parse, hdrop, chain, if_pos ht]
  simp only [hposition]

theorem call_of_atEnd {tokens : List Token} {n : Nat}
    (h : AtEnd ((call tokens n).2.tokens.drop (call tokens n).2.position)) {later : Nat} (hlt : n < later) :
    call tokens later = (.ok [], (call tokens n).2) := by
  induction later, hlt using Nat.le_induction with
  | base => rw [call, parse_of_atEnd h]
  | succ later _ ih => rw [call, ih, parse_of_atEnd h]

end Parser

namespace Cursor

variable {tokens ts : List Token} {cursor : Cursor}

/-- The cursor makes the same call as a parser in its place. -/
theorem exists_parse_eq (h : At tokens cursor ts) :
    ∃ cursor' rest, parse tokens cursor = some ((Parser.parse ⟨tokens, cursor.position⟩).1, cursor') ∧
      (Parser.parse ⟨tokens, cursor.position⟩).2 = ⟨tokens, cursor'.position⟩ ∧ At tokens cursor' rest ∧
      ∀ ops, (Parser.parse ⟨tokens, cursor.position⟩).1 = .ok ops → Parser.AtEnd rest := by
  obtain ⟨cursor', hparse, hat⟩ := parse_reaches h
  rw [Parser.parse, h.drop_eq]
  refine ⟨cursor', (Parser.chain ts).2, hparse, ?_, hat, fun ops hok => Parser.chain_atEnd_of_ok h.ended hok⟩
  rw [hat.position_eq]

/-- Every call answers as the parser does, which is in the place of the cursor behind it. -/
theorem exists_call_eq (h : Parser.Ended tokens) (n : Nat) :
    ∃ cursor rest, call tokens n = some ((Parser.call tokens n).1, cursor) ∧
      (Parser.call tokens n).2 = ⟨tokens, cursor.position⟩ ∧ At tokens cursor rest ∧
      ∀ ops, (Parser.call tokens n).1 = .ok ops → Parser.AtEnd rest := by
  induction n with
  | zero => exact exists_parse_eq (At.start h)
  | succ n ih =>
      obtain ⟨cursor, rest, hcall, hparser, hat, -⟩ := ih
      rw [call, hcall, Parser.call, hparser]
      exact exists_parse_eq hat

theorem firstEnd_lt_length (h : Parser.Ended tokens) : firstEnd tokens < tokens.length := by
  obtain ⟨t, ht, hend⟩ := h
  exact List.findIdx_lt_length_of_exists ⟨t, ht, decide_eq_true hend⟩

/-- Every call on tokens with an end of input among them comes to its outcome with all looks at tokens there are.
The positions go forward only and no further than to the first end. Behind a success there is nothing left to
read. -/
theorem call_stays_before_end (h : Parser.Ended tokens) (n : Nat) :
    firstEnd tokens < tokens.length ∧
    (∃ cursor, call tokens n = some ((Parser.call tokens n).1, cursor) ∧
      (Parser.call tokens n).2 = ⟨tokens, cursor.position⟩ ∧
      (cursor.position :: cursor.trail).Pairwise (· ≥ ·) ∧
      ∀ i ∈ cursor.position :: cursor.trail, i ≤ firstEnd tokens) ∧
    ∀ ops, (Parser.call tokens n).1 = .ok ops →
      ∀ later, n < later → Parser.call tokens later = (.ok [], (Parser.call tokens n).2) := by
  obtain ⟨cursor, rest, hcall, hparser, hat, hend⟩ := exists_call_eq h n
  refine ⟨firstEnd_lt_length h, ⟨cursor, hcall, hparser, hat.in_order, fun i hi => ?_⟩, fun ops hok later hlt => ?_⟩
  · rcases List.mem_cons.mp hi with rfl | hi
    · exact hat.le_firstEnd
    · exact Nat.le_trans ((List.pairwise_cons.mp hat.in_order).1 i hi) hat.le_firstEnd
  · refine Parser.call_of_atEnd ?_ hlt
    rw [hparser, hat.drop_eq]
    exact hend ops hok

/-- Two names without a pipe, and tokens behind the end. -/
def namesAlone : List Token :=
  [⟨.ident "A", 0, 1⟩, ⟨.ident "B", 2, 3⟩, ⟨.eof, 3, 3⟩, ⟨.error ⟨4, some '#', .unexpectedCharacter '#'⟩, 4, 5⟩,
    ⟨.pipe, 5, 6⟩]

/-- The first call stops at the second name, which the next one reads. -/
theorem call_stays_before_end_behind_error :
    Parser.Ended namesAlone ∧ (Parser.call namesAlone 0).1 = .error ⟨2, some 'B', .noPipe⟩ ∧
    (∃ cursor, call namesAlone 1 = some (.ok [⟨"B", none⟩], cursor) ∧ cursor.position = 2 ∧
      ∀ i ∈ cursor.trail, i ≤ 2) ∧
    Parser.call namesAlone 2 = (.ok [], ⟨namesAlone, 2⟩) := by
  have hended : Parser.Ended namesAlone := ⟨⟨.eof, 3, 3⟩, by simp [namesAlone], rfl⟩
  have hcall : Parser.call namesAlone 1 = (.ok [⟨"B", none⟩], ⟨namesAlone, 2⟩) := by cbv
  obtain ⟨-, ⟨cursor, hcursor, hparser, -, htrail⟩, hlater⟩ := call_stays_before_end hended 1
  rw [hcall] at hcursor hparser hlater
  refine ⟨hended, by cbv, ⟨cursor, hcursor, ?_, fun i hi => htrail i (List.mem_cons_of_mem _ hi)⟩, ?_⟩
  · exact (congrArg Parser.position hparser).symm
  · exact hlater _ rfl 2 (by decide)

end Cursor

end TurtleChain
