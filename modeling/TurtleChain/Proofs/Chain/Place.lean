import TurtleChain.Number.Range
import TurtleChain.Proofs.Number.Spelling

/-! Where a reader stands in a chain, one character after another and with no tokens. A place decides which
characters can come next, so a text can be gone on from exactly if a reader gets through it. Every chain of
the grammar leads to a place where a chain may end, and from every place some text leads to one. -/

namespace TurtleChain

open Grammar

inductive Place where
  | opening
  | name
  | behindName
  | argument
  | minus
  | zero
  /-- In the whole part of a number that does not start with a zero, as spelled so far. -/
  | whole (spelling : List Char)
  | point
  | fraction
  | string
  /-- In an identifier behind a colon, which may become a member. -/
  | object
  | dot
  | field
  | behindArgument
  deriving DecidableEq

namespace Place

/-- The spelled integer is one of 64 bits with a sign. -/
def inRange (spelling : List Char) : Bool :=
  (Numeral.readInt? spelling).any fitsInt64

def afterName (c : Char) : Option Place :=
  if c = ' ' then some behindName
  else if c = ':' then some argument
  else if c = '|' then some opening
  else none

def afterArgument (c : Char) : Option Place :=
  if c = ' ' then some behindArgument
  else if c = '|' then some opening
  else none

def step : Place → Char → Option Place
  | opening, c => if c = ' ' then some opening else if isNameStart c then some name else none
  | name, c => if isNameChar c then some name else afterName c
  | behindName, c => afterName c
  | argument, c =>
      if c = ' ' then some argument
      else if c = '"' then some string
      else if c = '-' then some minus
      else if c = '0' then some zero
      else if c.isDigit then some (whole [c])
      else if isNameStart c then some object
      else none
  | minus, c => if c ≠ '0' ∧ c.isDigit then some (whole ['-', c]) else none
  | zero, c => if c = '.' then some point else afterArgument c
  | whole spelling, c =>
      if c.isDigit then some (whole (spelling ++ [c]))
      else if c = '.' then some point
      else if inRange spelling then afterArgument c
      else none
  | point, c => if c.isDigit then some fraction else none
  | fraction, c => if c.isDigit then some fraction else afterArgument c
  | string, c => if c = '"' then some behindArgument else if isTextChar c then some string else none
  | object, c => if isNameChar c then some object else if c = '.' then some dot else afterArgument c
  | dot, c => if isNameStart c then some field else none
  | field, c => if isNameChar c then some field else afterArgument c
  | behindArgument, c => afterArgument c

/-- A chain may end here. -/
def accepting : Place → Bool
  | argument | minus | point | string | dot => false
  | whole spelling => inRange spelling
  | _ => true

def run : Place → List Char → Option Place
  | q, [] => some q
  | q, c :: cs => (q.step c).bind fun q' => q'.run cs

/-- A reader gets through the text, to a place where a chain may end. -/
def Accepts (cs : List Char) : Prop :=
  ∃ q, opening.run cs = some q ∧ q.accepting = true

@[simp] theorem run_nil (q : Place) : q.run [] = some q := rfl

theorem run_cons {q q' : Place} {c : Char} (h : q.step c = some q') (cs : List Char) :
    q.run (c :: cs) = q'.run cs := by
  rw [run, h, Option.bind_some]

theorem run_cons_none {q : Place} {c : Char} (h : q.step c = none) (cs : List Char) :
    q.run (c :: cs) = none := by
  rw [run, h, Option.bind_none]

theorem run_append (q : Place) (xs ys : List Char) :
    q.run (xs ++ ys) = (q.run xs).bind fun q' => q'.run ys := by
  induction xs generalizing q with
  | nil => rfl
  | cons c xs ih =>
      rw [List.cons_append, run, run, Option.bind_assoc]
      congr 1
      funext q'
      exact ih q'

theorem run_append_of_run {q q' : Place} {xs : List Char} (h : q.run xs = some q') (ys : List Char) :
    q.run (xs ++ ys) = q'.run ys := by
  rw [run_append, h, Option.bind_some]

/-- What a place goes round on does not move the reader. -/
theorem run_of_step_self {q : Place} {cs : List Char} (h : ∀ c ∈ cs, q.step c = some q) :
    q.run cs = some q := by
  induction cs with
  | nil => rfl
  | cons c cs ih =>
      rw [run_cons (h c List.mem_cons_self)]
      exact ih fun d hd => h d (List.mem_cons_of_mem c hd)

/-- Every place leads to one where a chain may end. -/
theorem exists_run_accepting (q : Place) : ∃ cs q', q.run cs = some q' ∧ q'.accepting = true := by
  cases q with
  | argument => exact ⟨['0'], zero, by decide, rfl⟩
  | minus => exact ⟨['1'], whole ['-', '1'], by decide, by decide⟩
  | whole spelling => exact ⟨['.', '0'], fraction, rfl, rfl⟩
  | point => exact ⟨['0'], fraction, by decide, rfl⟩
  | string => exact ⟨['"'], behindArgument, by decide, rfl⟩
  | dot => exact ⟨['a'], field, by decide, rfl⟩
  | _ => exact ⟨[], _, rfl, rfl⟩

theorem eq_argument_of_step_colon {q q' : Place} (h : q.step ':' = some q') : q' = argument := by
  cases q with
  | name =>
      have hstep : name.step ':' = some argument := by decide
      rw [hstep] at h
      exact (Option.some.inj h).symm
  | behindName => exact (Option.some.inj h).symm
  | whole spelling =>
      rw [step, if_neg (by decide), if_neg (by decide)] at h
      split at h <;> cases h
  | _ => exact absurd h (by decide +revert)

/-! ### Runs over the parts of a chain -/

theorem run_spaces {q : Place} {gap : List Char} (h : Spaces gap) (hq : q.step ' ' = some q) :
    q.run gap = some q :=
  run_of_step_self fun c hc => by rw [h c hc, hq]

theorem run_name {q q' : Place} {cs : List Char} (h : Name cs)
    (hstart : ∀ c, isNameStart c = true → q.step c = some q')
    (hchar : ∀ c, isNameChar c = true → q'.step c = some q') : q.run cs = some q' := by
  obtain ⟨c, tail, rfl, hc, htail⟩ := h.cons_inv
  rw [run_cons (hstart c hc)]
  exact run_of_step_self fun d hd => hchar d (htail d hd)

theorem run_opening_name {cs : List Char} (h : Name cs) : opening.run cs = some name :=
  run_name h (fun c hc => by rw [step, if_neg (ne_of_class hc (by decide)), if_pos hc])
    (fun c hc => by rw [step, if_pos hc])

theorem run_dot_name {cs : List Char} (h : Name cs) : dot.run cs = some field :=
  run_name h (fun c hc => by rw [step, if_pos hc]) (fun c hc => by rw [step, if_pos hc])

theorem run_argument_name {cs : List Char} (h : Name cs) : argument.run cs = some object := by
  refine run_name h (fun c hc => ?_) (fun c hc => by rw [step, if_pos hc])
  have hquote : c ≠ '"' := ne_of_class hc (by decide)
  have hminus : c ≠ '-' := ne_of_class hc (by decide)
  have hzero : c ≠ '0' := ne_of_class hc (by decide)
  have hdigit : ¬c.isDigit = true := by rw [isDigit_eq_false_of_isNameStart hc]; exact Bool.false_ne_true
  rw [step, if_neg (ne_of_class hc (by decide)), if_neg hquote, if_neg hminus, if_neg hzero,
    if_neg hdigit, if_pos hc]

theorem run_whole_digits (spelling : List Char) {ds : List Char} (h : ∀ d ∈ ds, d.isDigit = true) :
    (whole spelling).run ds = some (whole (spelling ++ ds)) := by
  induction ds generalizing spelling with
  | nil => rw [List.append_nil, run_nil]
  | cons d ds ih =>
      have hd : (whole spelling).step d = some (whole (spelling ++ [d])) := by
        rw [step, if_pos (h d List.mem_cons_self)]
      rw [run_cons hd, ih _ fun e he => h e (List.mem_cons_of_mem d he), List.append_assoc]
      rfl

theorem step_argument_leading {c : Char} (hzero : c ≠ '0') (hc : c.isDigit = true) :
    argument.step c = some (whole [c]) := by
  have hspace : c ≠ ' ' := ne_of_class hc (by decide)
  have hquote : c ≠ '"' := ne_of_class hc (by decide)
  have hminus : c ≠ '-' := ne_of_class hc (by decide)
  rw [step, if_neg hspace, if_neg hquote, if_neg hminus, if_neg hzero, if_pos hc]

/-- A spelled integer ends behind a zero alone or in a whole part. -/
theorem run_integer {cs : List Char} {n : Int} (h : Integer cs n) :
    cs = ['0'] ∧ n = 0 ∧ argument.run cs = some zero ∨ argument.run cs = some (whole cs) := by
  cases h with
  | zero => exact Or.inl ⟨rfl, rfl, by decide⟩
  | positive h =>
      obtain ⟨d, ds, rfl, hzero, hd, hds⟩ := h.cons_inv
      apply Or.inr
      rw [run_cons (step_argument_leading hzero hd), run_whole_digits _ hds]
      rfl
  | negative h =>
      obtain ⟨d, ds, rfl, hzero, hd, hds⟩ := h.cons_inv
      apply Or.inr
      have hminus : argument.step '-' = some minus := by decide
      have hstep : minus.step d = some (whole ['-', d]) := by rw [step, if_pos ⟨hzero, hd⟩]
      rw [run_cons hminus, run_cons hstep, run_whole_digits _ hds]
      rfl

theorem run_integer_point {cs : List Char} {n : Int} (h : Integer cs n) :
    argument.run (cs ++ ['.']) = some point := by
  rcases run_integer h with ⟨-, -, hrun⟩ | hrun <;> rw [run_append_of_run hrun] <;> rfl

theorem run_fraction {cs : List Char} (h : Fraction cs) : argument.run cs = some fraction := by
  obtain ⟨hwhole, hnil, hdigits⟩ := h
  rename_i whole digits n
  rw [show whole ++ '.' :: digits = (whole ++ ['.']) ++ digits by simp,
    run_append_of_run (run_integer_point hwhole)]
  cases digits with
  | nil => exact absurd rfl hnil
  | cons d ds =>
      have hd : point.step d = some fraction := by rw [step, if_pos (hdigits d List.mem_cons_self)]
      rw [run_cons hd]
      exact run_of_step_self fun e he => by rw [step, if_pos (hdigits e (List.mem_cons_of_mem d he))]

theorem run_text {cs : List Char} (h : ∀ c ∈ cs, isTextChar c = true) :
    argument.run ('"' :: cs) = some string := by
  have hquote : argument.step '"' = some string := by decide
  rw [run_cons hquote]
  refine run_of_step_self ?_
  intro c hc
  have hne : c ≠ '"' := ne_of_class (h c hc) (by decide)
  rw [step, if_neg hne, if_pos (h c hc)]

theorem run_quoted {cs : List Char} (h : ∀ c ∈ cs, isTextChar c = true) :
    argument.run ('"' :: (cs ++ ['"'])) = some behindArgument := by
  rw [← List.cons_append, run_append_of_run (run_text h)]
  rfl

end Place

end TurtleChain
