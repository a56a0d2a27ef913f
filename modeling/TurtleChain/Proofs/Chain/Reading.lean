import TurtleChain.Chain.Parser
import TurtleChain.Proofs.Chain.Rejection

/-! What the parser makes of the tokens of a text. Each of its readers either takes off a part of the text
that the grammar derives, or reports an error that the place it stands at accounts for. -/

namespace TurtleChain

open Grammar Lexer

namespace Parser

theorem exists_tokensAt_cons (position : Nat) (cs : List Char) :
    ∃ t ts, tokensAt position cs = t :: ts ∧ position ≤ t.start := by
  rcases front_cases cs with hcs | ⟨gap, kind, text, rest, rfl, hgap, h⟩ | ⟨gap, cause, text, rest, rfl, hgap, h⟩
  · exact ⟨_, _, tokensAt_of_spaces hcs position, Nat.le_add_right position cs.length⟩
  · rw [tokensAt_spaces hgap, tokensAt_lexeme h]
    exact ⟨_, _, rfl, Nat.le_add_right position gap.length⟩
  · rw [tokensAt_spaces hgap, tokensAt_malformed h]
    exact ⟨_, _, rfl, Nat.le_add_right position gap.length⟩

theorem field_of_ne_start {object : String} {stop : Nat} {t : Token} (ts : List Token) (h : t.start ≠ stop) :
    field object stop (t :: ts) = (.error ⟨stop, some ' ', .noField⟩, t :: ts) := by
  rw [field, if_pos h]

theorem field_of_ident {object name : String} {t : Token} (ts : List Token) (h : t.kind = .ident name) :
    field object t.start (t :: ts) = (.ok (.member object name), ts) := by
  rw [field, if_neg fun hne => hne rfl]
  simp only [h]

theorem field_of_ne_ident {object : String} {t : Token} (ts : List Token)
    (hkind : ∀ name, t.kind ≠ .ident name) :
    field object t.start (t :: ts) = (.error (t.errorAt .noField), t :: ts) := by
  rw [field, if_neg fun hne => hne rfl]
  split
  · next name hname => exact absurd hname (hkind name)
  · rfl

theorem field_gap (object : String) (position : Nat) (cs : List Char) :
    ∃ ts, field object position (tokensAt position (' ' :: cs)) =
      (.error ⟨position, some ' ', .noField⟩, ts) := by
  obtain ⟨t, ts, htokens, hstart⟩ := exists_tokensAt_cons (position + 1) cs
  have hne : t.start ≠ position := by omega
  exact ⟨t :: ts, by rw [tokensAt_space, htokens, field_of_ne_start ts hne]⟩

/-- The field of a member, from behind the dot. -/
theorem field_outcome (object : String) (position : Nat) (cs : List Char) :
    (∃ name rest, cs = name ++ rest ∧ Name name ∧ Stops isNameChar rest ∧
        field object position (tokensAt position cs) =
          (.ok (.member object (String.ofList name)), tokensAt (position + name.length) rest)) ∨
      ∃ e ts, field object position (tokensAt position cs) = (.error e, ts) ∧
        Place.dot.Rejects position cs e := by
  cases cs with
  | nil =>
      rw [tokensAt_nil]
      exact Or.inr ⟨_, _, field_of_ne_ident [] (by simp), .ended rfl rfl rfl⟩
  | cons c cs =>
      by_cases hc : c = ' '
      · subst hc
        obtain ⟨ts, hfield⟩ := field_gap object position cs
        exact Or.inr ⟨_, _, hfield, .stuck rfl (Place.run_nil _) (by decide) (not_breaksLater_space position cs) rfl⟩
      · by_cases hname : isNameStart c = true
        · obtain ⟨name, rest, rfl, hchars, hrest⟩ := exists_span isNameChar cs
          have hfield : Name (c :: name) := ⟨hname, hchars⟩
          refine Or.inl ⟨c :: name, rest, rfl, hfield, hrest, ?_⟩
          rw [← List.cons_append, tokensAt_lexeme (.ident hfield hrest), field, if_neg fun hne => hne rfl]
        · obtain ⟨t, ts, htokens, rfl, hkind⟩ := exists_token hc position cs
          have hident : ∀ name, t.kind ≠ .ident name := fun _ => kind_ne hkind hname (by simp)
          have hstep : Place.dot.step c = none := by rw [Place.step, if_neg hname]
          refine Or.inr ⟨_, _, by rw [htokens, field_of_ne_ident ts hident], ?_⟩
          exact Place.rejects_token hc hstep rfl htokens

/-- Spaces, an argument and the spaces behind it are taken off the text. -/
def ArgumentRead (position : Nat) (cs : List Char) (arg : Arg) (ts : List Token) : Prop :=
  ∃ gap value gap' rest q, cs = gap ++ (value ++ (gap' ++ rest)) ∧ Spaces gap ∧ Value value arg ∧
    Spaces gap' ∧ Place.argument.run (gap ++ (value ++ gap')) = some q ∧ q.Ready rest ∧
    Passes position (gap ++ (value ++ gap')) rest ∧
    ts = tokensAt (position + (gap ++ (value ++ gap')).length) rest

def ArgumentOutcome (position : Nat) (cs : List Char) : Prop :=
  (∃ arg ts, argument (tokensAt position cs) = (.ok arg, ts) ∧ ArgumentRead position cs arg ts) ∨
    ∃ e ts, argument (tokensAt position cs) = (.error e, ts) ∧ Place.argument.Rejects position cs e

theorem argumentRead_of_value {value rest : List Char} {arg : Arg} {q : Place} (hvalue : Value value arg)
    (hrun : Place.argument.run value = some q) (haccepting : q.accepting = true)
    (hstep : ∀ c ∈ rest.head?, q.step c = Place.afterArgument c) {position : Nat}
    (hpasses : Passes position value rest) :
    ArgumentRead position (value ++ rest) arg (tokensAt (position + value.length) rest) := by
  obtain ⟨gap', rest, q', rfl, hgap', hrun', hready⟩ := Place.exists_ready hrun haccepting hstep
  refine ⟨[], value, gap', rest, q', rfl, Spaces.nil, hvalue, hgap', hrun', hready,
    hpasses.append (passes_spaces hgap' _ rest), ?_⟩
  rw [tokensAt_spaces hgap', List.nil_append, List.length_append, Nat.add_assoc]

theorem ArgumentOutcome.after_spaces {gap cs : List Char} {position : Nat} (hgap : Spaces gap)
    (h : ArgumentOutcome (position + gap.length) cs) : ArgumentOutcome position (gap ++ cs) := by
  have hrun : Place.argument.run gap = some .argument := Place.run_spaces hgap rfl
  rw [ArgumentOutcome, tokensAt_spaces hgap]
  rcases h with ⟨arg, ts, hread, hargument⟩ | ⟨e, ts, herror, hrejects⟩
  · obtain ⟨gap₁, value, gap', rest, q, rfl, hgap₁, hvalue, hgap', hrun₁, hready, hpasses, rfl⟩ := hargument
    refine Or.inl ⟨arg, _, hread, gap ++ gap₁, value, gap', rest, q, ?_, ?_, hvalue, hgap', ?_, hready, ?_, ?_⟩
    · rw [List.append_assoc]
    · intro c hc
      rcases List.mem_append.mp hc with hc | hc
      · exact hgap c hc
      · exact hgap₁ c hc
    · rw [List.append_assoc, Place.run_append_of_run hrun, hrun₁]
    · rw [List.append_assoc]
      refine (passes_spaces hgap position _).append hpasses
    · simp only [List.length_append, Nat.add_assoc]
  · exact Or.inr ⟨e, ts, herror, .after hrun (passes_spaces hgap position cs) hrejects⟩

theorem spelled_integer {cs : List Char} {n : Int} (h : Integer cs n) (start : Nat) :
    spelled (String.ofList cs) start =
      if fitsInt64 n then .ok (.int (Int64.ofInt n))
      else .error ⟨start, cs.head?, .integerOutOfRange (String.ofList cs)⟩ := by
  have hdigits : ∀ {ds : List Char}, Leading ds → '.' ∉ ds :=
    fun hds hmem => absurd (hds.digits.2 _ hmem) (by decide)
  have hpoint : '.' ∉ cs := by
    cases h with
    | zero => decide
    | positive h => exact hdigits h
    | negative h =>
        rw [List.mem_cons, not_or]
        exact ⟨by decide, hdigits h⟩
  have hread : readInt? (String.ofList cs) = some n := by
    rw [readInt?, String.toList_ofList, Numeral.readInt?_integer h]
  rw [spelled, String.toList_ofList, List.contains_eq_mem, decide_eq_false hpoint,
    if_neg Bool.false_ne_true, hread]

theorem spelled_fraction {cs : List Char} (h : Fraction cs) (start : Nat) :
    ∃ x, readFloat? (String.ofList cs) = some x ∧ spelled (String.ofList cs) start = .ok (.float x) := by
  obtain ⟨hwhole, hdigits⟩ := h
  rename_i whole digits n
  obtain ⟨negative, ds, rfl, hds, -, -⟩ := Numeral.integer_signed hwhole
  refine ⟨_, Numeral.readFloat?_signed hds hdigits, ?_⟩
  have hpoint : (Numeral.signed negative ds ++ '.' :: digits).contains '.' = true := by simp
  rw [spelled, String.toList_ofList, if_pos hpoint, Numeral.read?_signed hds hdigits]

theorem argument_number (text : String) (start stop : Nat) (ts : List Token) :
    argument (⟨.number text, start, stop⟩ :: ts) = (spelled text start, ts) := rfl

theorem argument_member {object : String} {start stop : Nat} {d : Token} (ts : List Token)
    (h : d.kind = .dot ∧ d.start = stop) :
    argument (⟨.ident object, start, stop⟩ :: d :: ts) = field object d.stop ts := by
  simp only [argument, if_pos h]

theorem argument_ident {name : String} {start stop : Nat} {d : Token} (ts : List Token)
    (h : ¬(d.kind = .dot ∧ d.start = stop)) :
    argument (⟨.ident name, start, stop⟩ :: d :: ts) = (.ok (.ident name), d :: ts) := by
  simp only [argument, if_neg h]

theorem argument_of_not_value {t : Token} (ts : List Token)
    (h : t.kind = .pipe ∨ t.kind = .colon ∨ t.kind = .dot ∨ t.kind = .eof ∨ ∃ e, t.kind = .error e) :
    argument (t :: ts) = (.error (t.errorAt .noArgument), t :: ts) := by
  unfold argument
  rcases h with h | h | h | h | ⟨e, h⟩ <;> simp only [h]

theorem argument_unwanted {kind : TokenKind} {c : Char} {rest : List Char} (h : Lexeme kind [c] rest)
    (hkind : kind = .pipe ∨ kind = .colon ∨ kind = .dot) (position : Nat) :
    ArgumentOutcome position (c :: rest) := by
  have htokens : tokensAt position (c :: rest) = _ := tokensAt_lexeme h position
  have hc : c ≠ ' ' ∧ Place.argument.step c = none := by
    rcases hkind with rfl | rfl | rfl <;> cases h <;> decide
  rw [ArgumentOutcome, htokens]
  refine Or.inr ⟨_, _, argument_of_not_value _ ?_, Place.rejects_token hc.1 hc.2 rfl htokens⟩
  rcases hkind with rfl | rfl | rfl <;> simp

/-- A dot right behind an identifier is seen by its offset. -/
theorem head_eq_dot {position : Nat} {cs : List Char} {t : Token} {ts : List Token}
    (htokens : tokensAt position cs = t :: ts) (hkind : t.kind = .dot) (hstart : t.start = position) :
    cs.head? = some '.' := by
  cases cs with
  | nil =>
      rw [tokensAt_nil] at htokens
      obtain ⟨rfl, -⟩ := List.cons.inj htokens
      cases hkind
  | cons c cs =>
      by_cases hc : c = ' '
      · subst hc
        obtain ⟨d, ds, hd, hgap⟩ := exists_tokensAt_cons (position + 1) cs
        rw [tokensAt_space, hd] at htokens
        obtain ⟨rfl, -⟩ := List.cons.inj htokens
        omega
      · obtain ⟨d, ds, hd, -, hfirst⟩ := exists_token hc position cs
        rw [hd] at htokens
        obtain ⟨rfl, -⟩ := List.cons.inj htokens
        rw [hkind] at hfirst
        rcases hfirst with hdot | ⟨e, he⟩
        · rw [List.head?_cons, show c = '.' from hdot]
        · cases he

theorem argument_ident_outcome {name rest : List Char} (hname : Name name) (hrest : Stops isNameChar rest)
    (position : Nat) : ArgumentOutcome position (name ++ rest) := by
  have hpasses := passes_lexeme (.ident hname hrest) position
  rw [ArgumentOutcome, tokensAt_lexeme (.ident hname hrest)]
  by_cases hpoint : rest.head? = some '.'
  · obtain ⟨tail, rfl⟩ := List.head?_eq_some_iff.mp hpoint
    have hpasses : Passes position (name ++ ['.']) tail := hpasses.append (passes_lexeme (.dot tail) _)
    have hlength : position + (name ++ ['.']).length = position + name.length + 1 := by
      rw [List.length_append, List.length_singleton, Nat.add_assoc]
    have hrun : Place.argument.run (name ++ ['.']) = some .dot := by
      rw [Place.run_append_of_run (Place.run_argument_name hname)]
      decide
    rw [tokensAt_dot, argument]
    simp only [and_self, if_true]
    rcases field_outcome (String.ofList name) (position + name.length + 1) tail with
      ⟨fieldName, rest, rfl, hfield, hstops, hread⟩ | ⟨e, ts, herror, hrejects⟩
    · refine Or.inl ⟨_, _, hread, ?_⟩
      have hrun' : Place.argument.run (name ++ '.' :: fieldName) = some .field := by
        rw [List.append_cons, Place.run_append_of_run hrun, Place.run_dot_name hfield]
      have hstep : ∀ c ∈ rest.head?, Place.field.step c = Place.afterArgument c := by
        intro c hc
        rw [Place.step, hstops c hc, if_neg Bool.false_ne_true]
      have hpasses : Passes position (name ++ '.' :: fieldName) rest := by
        rw [List.append_cons]
        exact hpasses.append (passes_lexeme (.ident hfield hstops) _)
      have hargument := argumentRead_of_value (.member hname hfield) hrun' rfl hstep hpasses
      rw [List.append_assoc, List.cons_append] at hargument
      rwa [List.length_append, List.length_cons, Nat.add_comm fieldName.length, ← Nat.add_assoc,
        ← Nat.add_assoc] at hargument
    · refine Or.inr ⟨e, ts, herror, ?_⟩
      rw [List.append_cons]
      exact .after hrun hpasses (by rwa [hlength])
  · obtain ⟨d, ds, hd, -⟩ := exists_tokensAt_cons (position + name.length) rest
    have hnot : ¬(d.kind = .dot ∧ d.start = position + name.length) :=
      fun h => hpoint (head_eq_dot hd h.1 h.2)
    have hstep : ∀ c ∈ rest.head?, Place.object.step c = Place.afterArgument c := by
      intro c hc
      have hc' : c ≠ '.' := by rintro rfl; exact hpoint hc
      rw [Place.step, hrest c hc, if_neg Bool.false_ne_true, if_neg hc']
    refine Or.inl ⟨.ident (String.ofList name), tokensAt (position + name.length) rest, ?_,
      argumentRead_of_value (.ident hname) (Place.run_argument_name hname) rfl hstep hpasses⟩
    rw [hd, argument_ident ds hnot]

theorem toInt_ofInt_of_fits {n : Int} (h : fitsInt64 n = true) : (Int64.ofInt n).toInt = n := by
  simp only [fitsInt64, int64Limit, Bool.and_eq_true, decide_eq_true_eq] at h
  exact Int64.toInt_ofInt_of_le h.1 h.2

theorem argument_integer_outcome {cs rest : List Char} {n : Int} (h : Integer cs n)
    (hrest : Stops Char.isDigit rest) (hpoint : rest.head? ≠ some '.') (position : Nat) :
    ArgumentOutcome position (cs ++ rest) := by
  rw [ArgumentOutcome, tokensAt_lexeme (.integer h hrest hpoint), argument_number, spelled_integer h]
  cases hn : fitsInt64 n with
  | false =>
      rw [if_neg Bool.false_ne_true]
      have ht : ⟨.number (String.ofList cs), position, position + cs.length⟩ ∈ tokensAt position (cs ++ rest) := by
        rw [tokensAt_lexeme (.integer h hrest hpoint)]
        exact List.mem_cons_self
      exact Or.inr ⟨_, _, rfl, .range rfl (Place.run_nil _) h hn hrest hpoint ht rfl rfl⟩
  | true =>
      rw [if_pos rfl]
      have hvalue : Value cs (.int (Int64.ofInt n)) := .int (by rwa [toInt_ofInt_of_fits hn])
      have hpoint' : ∀ c ∈ rest.head?, c ≠ '.' := by
        rintro c hc rfl
        exact hpoint hc
      have hpasses := passes_lexeme (.integer h hrest hpoint) position
      refine Or.inl ⟨_, _, rfl, ?_⟩
      rcases Place.run_integer h with ⟨-, -, hrun⟩ | hrun
      · refine argumentRead_of_value hvalue hrun rfl (fun c hc => ?_) hpasses
        rw [Place.step, if_neg (hpoint' c hc)]
      · have hrange : Place.inRange cs = true := by
          rw [Place.inRange, Numeral.readInt?_integer h, Option.any_some, hn]
        refine argumentRead_of_value hvalue hrun hrange (fun c hc => ?_) hpasses
        rw [Place.step, hrest c hc, if_neg Bool.false_ne_true, if_neg (hpoint' c hc), if_pos hrange]

/-- The argument behind a colon. -/
theorem argument_outcome (position : Nat) (cs : List Char) : ArgumentOutcome position cs := by
  rcases front_cases cs with hcs | ⟨gap, kind, text, rest, rfl, hgap, h⟩ | ⟨gap, cause, text, rest, rfl, hgap, h⟩
  · rw [ArgumentOutcome, tokensAt_of_spaces hcs]
    exact Or.inr ⟨_, _, argument_of_not_value [] (by simp), .ended (Place.run_spaces hcs rfl) rfl rfl⟩
  · refine ArgumentOutcome.after_spaces hgap ?_
    generalize position + gap.length = start
    cases h with
    | pipe => exact argument_unwanted (.pipe rest) (Or.inl rfl) start
    | colon => exact argument_unwanted (.colon rest) (Or.inr (Or.inl rfl)) start
    | dot => exact argument_unwanted (.dot rest) (Or.inr (Or.inr rfl)) start
    | ident hname hrest => exact argument_ident_outcome hname hrest start
    | integer hinteger hrest hpoint => exact argument_integer_outcome hinteger hrest hpoint start
    | fraction hfraction hrest =>
        obtain ⟨x, hx, hspelled⟩ := spelled_fraction hfraction start
        rw [ArgumentOutcome, tokensAt_lexeme (.fraction hfraction hrest)]
        refine Or.inl ⟨.float x, _, by rw [argument_number, hspelled], ?_⟩
        refine argumentRead_of_value (.float hfraction hx) (Place.run_fraction hfraction) rfl (fun c hc => ?_)
          (passes_lexeme (.fraction hfraction hrest) start)
        rw [Place.step, hrest c hc, if_neg Bool.false_ne_true]
    | @string content hcontent =>
        rw [ArgumentOutcome, tokensAt_lexeme (.string hcontent rest)]
        exact Or.inl ⟨.text (String.ofList content), _, rfl, argumentRead_of_value (.text hcontent)
          (Place.run_quoted hcontent) rfl (fun _ _ => rfl) (passes_lexeme (.string hcontent rest) start)⟩
  · refine ArgumentOutcome.after_spaces hgap ?_
    rw [ArgumentOutcome, tokensAt_malformed h]
    exact Or.inr ⟨_, _, argument_of_not_value _ (by simp), Place.argument_rejects_malformed h _⟩

/-! ### Operations -/

/-- What may follow a name is taken off the text, with the spaces behind it. -/
def FollowerRead (position : Nat) (cs : List Char) (arg : Option Arg) (ts : List Token) : Prop :=
  ∃ text gap rest q, cs = text ++ (gap ++ rest) ∧
    (∀ name, Name name → Statement (name ++ text) ⟨String.ofList name, arg⟩) ∧ Spaces gap ∧
    Place.name.run (text ++ gap) = some q ∧ q.Ready rest ∧ Passes position (text ++ gap) rest ∧
    ts = tokensAt (position + (text ++ gap).length) rest

theorem argument?_of_colon {t : Token} (ts : List Token) (h : t.kind = .colon) :
    argument? (t :: ts) = ((argument ts).1.map some, (argument ts).2) := by
  rw [argument?, if_pos h]
  rcases argument ts with ⟨error | arg, rest⟩ <;> rfl

theorem argument?_of_ne_colon {t : Token} (ts : List Token) (h : t.kind ≠ .colon) :
    argument? (t :: ts) = (.ok none, t :: ts) := by
  rw [argument?, if_neg h]

/-- What follows the name of an operation, from behind it. -/
theorem argument?_outcome {cs : List Char} (hcs : Stops isNameChar cs) (position : Nat) :
    (∃ arg ts, argument? (tokensAt position cs) = (.ok arg, ts) ∧ FollowerRead position cs arg ts) ∨
      ∃ e ts, argument? (tokensAt position cs) = (.error e, ts) ∧ Place.name.Rejects position cs e := by
  obtain ⟨gap, rest, q, rfl, hgap, hrun, haccepting, hspace, hstep⟩ := Place.exists_ready_name hcs
  have hbare : ∀ name, Name name → Statement (name ++ []) ⟨String.ofList name, none⟩ := by
    intro name hname
    rw [List.append_nil]
    exact .bare hname
  -- With no colon only the spaces are taken.
  have hnone : q.Ready rest → FollowerRead position (gap ++ rest) none (tokensAt (position + gap.length) rest) :=
    fun hready => ⟨[], gap, rest, q, rfl, hbare, hgap, hrun, hready, passes_spaces hgap position rest, rfl⟩
  rw [tokensAt_spaces hgap]
  cases rest with
  | nil =>
      refine Or.inl ⟨none, _, ?_, hnone ⟨haccepting, hspace, by simp⟩⟩
      rw [tokensAt_nil]
      exact argument?_of_ne_colon [] (by simp)
  | cons c tail =>
      by_cases hcolon : c = ':'
      · subst hcolon
        have hrun' : Place.name.run (gap ++ [':']) = some .argument := by
          rw [Place.run_append_of_run hrun, Place.run_cons (hstep ':' rfl), Place.run_nil]
        have hpasses : Passes position (gap ++ [':']) tail :=
          (passes_spaces hgap position _).append (passes_lexeme (.colon tail) _)
        have hlength : position + (gap ++ [':']).length = position + gap.length + 1 := by
          rw [List.length_append, List.length_singleton, Nat.add_assoc]
        rw [tokensAt_colon, argument?, if_pos rfl]
        rcases argument_outcome (position + gap.length + 1) tail with
          ⟨arg, ts, hread, hargument⟩ | ⟨e, ts, herror, hrejects⟩
        · obtain ⟨gap₁, value, gap₂, rest, q', rfl, hgap₁, hvalue, hgap₂, hrun₁, hready, hpasses₁, rfl⟩ := hargument
          have htext : gap ++ ':' :: (gap₁ ++ value) ++ gap₂ = (gap ++ [':']) ++ (gap₁ ++ (value ++ gap₂)) := by
            simp only [List.append_assoc, List.cons_append, List.nil_append]
          refine Or.inl ⟨some arg, _, by rw [hread], gap ++ ':' :: (gap₁ ++ value), gap₂, rest, q', ?_, ?_,
            hgap₂, ?_, hready, ?_, ?_⟩
          · simp only [List.append_assoc, List.cons_append]
          · intro name hname
            exact .applied hname hgap hgap₁ hvalue
          · rw [htext, Place.run_append_of_run hrun', hrun₁]
          · rw [show gap₁ ++ (value ++ (gap₂ ++ rest)) = (gap₁ ++ (value ++ gap₂)) ++ rest by
              simp only [List.append_assoc]] at hpasses
            rw [htext]
            exact hpasses.append (by rwa [hlength])
          · rw [htext, ← hlength, Nat.add_assoc, ← List.length_append]
        · refine Or.inr ⟨e, ts, by rw [herror], ?_⟩
          rw [List.append_cons]
          exact .after hrun' hpasses (by rwa [hlength])
      · obtain ⟨t, ts, htokens, -, hkind⟩ := exists_token (hspace c rfl) (position + gap.length) tail
        have hne : t.kind ≠ .colon := kind_ne hkind hcolon (by simp)
        refine Or.inl ⟨none, _, by rw [htokens, argument?_of_ne_colon ts hne, ← htokens],
          hnone ⟨haccepting, hspace, fun d hd => ?_⟩⟩
        cases hd
        rw [hstep c rfl, Place.afterName, if_neg (hspace c rfl), if_neg hcolon]

/-- Reading on behind an operation, where the operations so far are `found`, the last one first. -/
def behind (found : List Operation) : List Token → Reading Sequence
  | [] => (.error ranOut, [])
  | e :: rest =>
    match e.kind with
    | .eof => (.ok found.reverse, e :: rest)
    | .pipe =>
      match rest.head? with
      | none => (.error ranOut, [])
      | some n => if n.kind = .eof then (.ok found.reverse, rest) else statements found rest
    | _ => (.error (e.errorAt .noPipe), e :: rest)

section

variable {found : List Operation} {t e n : Token} {ts rest : List Token}

theorem statements_of_ne_ident (h : ∀ name, t.kind ≠ .ident name) :
    statements found (t :: ts) = (.error (t.errorAt .noName), t :: ts) := by
  unfold statements
  split
  · next name hname => exact absurd hname (h name)
  · rfl

theorem statements_error {name : String} {error : SyntaxError} (ht : t.kind = .ident name)
    (h : argument? ts = (.error error, rest)) : statements found (t :: ts) = (.error error, rest) := by
  unfold statements
  simp only [ht]
  split <;> simp_all

theorem statements_ident {name : String} {arg : Option Arg} (ht : t.kind = .ident name)
    (h : argument? ts = (.ok arg, rest)) : statements found (t :: ts) = behind (⟨name, arg⟩ :: found) rest := by
  unfold statements
  simp only [ht]
  split
  all_goals
    next h' =>
      rw [h] at h'
      cases h'
      try rfl

theorem behind_eof (he : e.kind = .eof) : behind found (e :: rest) = (.ok found.reverse, e :: rest) := by
  simp only [behind, he]

theorem behind_trailing (he : e.kind = .pipe) (hn : n.kind = .eof) :
    behind found (e :: n :: rest) = (.ok found.reverse, n :: rest) := by
  simp only [behind, he, List.head?_cons, if_pos hn]

theorem behind_pipe (he : e.kind = .pipe) (hn : n.kind ≠ .eof) :
    behind found (e :: n :: rest) = statements found (n :: rest) := by
  simp only [behind, he, List.head?_cons, if_neg hn]

theorem behind_noPipe (heof : e.kind ≠ .eof) (hpipe : e.kind ≠ .pipe) :
    behind found (e :: rest) = (.error (e.errorAt .noPipe), e :: rest) := by
  rw [behind]
  split
  · next h => exact absurd h heof
  · next h => exact absurd h hpipe
  · rfl

end

/-- A text that is not spaces alone has a token to read. -/
theorem exists_tokensAt_ne_eof {cs : List Char} (h : ¬Spaces cs) (position : Nat) :
    ∃ t ts, tokensAt position cs = t :: ts ∧ t.kind ≠ .eof := by
  obtain ⟨gap, rest, rfl, hgap, hrest⟩ := exists_spaces_append cs
  cases rest with
  | nil => exact absurd hgap (by rwa [List.append_nil] at h)
  | cons c tail =>
      obtain ⟨t, ts, htokens, -, hkind⟩ := exists_token (hrest c rfl) (position + gap.length) tail
      exact ⟨t, ts, by rw [tokensAt_spaces hgap, htokens], kind_ne hkind id (by simp)⟩

theorem behind_outcome {q : Place} {rest : List Char} (hrest : q.Ready rest) (found : List Operation)
    (position : Nat) :
    (∃ ts, behind found (tokensAt position rest) = (.ok found.reverse, ts) ∧
        (rest = [] ∨ ∃ tail, rest = '|' :: tail ∧ Spaces tail)) ∨
      (∃ tail, rest = '|' :: tail ∧ ¬Spaces tail ∧
        behind found (tokensAt position rest) = statements found (tokensAt (position + 1) tail)) ∨
      ∃ e ts, behind found (tokensAt position rest) = (.error e, ts) ∧ q.Rejects position rest e := by
  cases rest with
  | nil =>
      rw [tokensAt_nil, behind_eof rfl]
      exact Or.inl ⟨_, rfl, Or.inl rfl⟩
  | cons c tail =>
      have hc : c ≠ ' ' := hrest.ne_space c rfl
      by_cases hpipe : c = '|'
      · subst hpipe
        rw [tokensAt_pipe]
        by_cases htail : Spaces tail
        · rw [tokensAt_of_spaces htail, behind_trailing rfl rfl]
          exact Or.inl ⟨_, rfl, Or.inr ⟨tail, rfl, htail⟩⟩
        · obtain ⟨t, ts, hts, ht⟩ := exists_tokensAt_ne_eof htail (position + 1)
          rw [hts, behind_pipe rfl ht]
          exact Or.inr (Or.inl ⟨tail, rfl, htail, by rw [hts]⟩)
      · have hstep : q.step c = none := by rw [hrest.step c rfl, if_neg hpipe]
        obtain ⟨t, ts, htokens, -, hkind⟩ := exists_token hc position tail
        have heof : t.kind ≠ .eof := kind_ne hkind id (by simp)
        have hpipe' : t.kind ≠ .pipe := kind_ne hkind hpipe (by simp)
        rw [htokens, behind_noPipe heof hpipe']
        exact Or.inr (Or.inr ⟨_, _, rfl, Place.rejects_token hc hstep rfl htokens⟩)

/-- One operation is taken off the text, with the spaces around it. -/
theorem operation_outcome {cs : List Char} (hcs : ¬Spaces cs) (found : List Operation) (position : Nat) :
    (∃ gap text gap' rest op q, cs = gap ++ (text ++ (gap' ++ rest)) ∧ Spaces gap ∧ Statement text op ∧
        Spaces gap' ∧ Place.opening.run (gap ++ (text ++ gap')) = some q ∧ q.Ready rest ∧
        Passes position (gap ++ (text ++ gap')) rest ∧
        statements found (tokensAt position cs) =
          behind (op :: found) (tokensAt (position + (gap ++ (text ++ gap')).length) rest)) ∨
      ∃ e ts, statements found (tokensAt position cs) = (.error e, ts) ∧
        Place.opening.Rejects position cs e := by
  obtain ⟨gap, rest, rfl, hgap, hhead⟩ := exists_spaces_append cs
  have hrun : Place.opening.run gap = some .opening := Place.run_spaces hgap rfl
  rw [tokensAt_spaces hgap]
  cases rest with
  | nil => exact absurd hgap (by rwa [List.append_nil] at hcs)
  | cons c tail =>
      have hc : c ≠ ' ' := hhead c rfl
      by_cases hstart : isNameStart c = true
      · obtain ⟨name, rest, heq, hname, hrest⟩ :
            ∃ name rest, c :: tail = name ++ rest ∧ Name name ∧ Stops isNameChar rest := by
          obtain ⟨chars, rest, rfl, hchars, hrest⟩ := exists_span isNameChar tail
          exact ⟨c :: chars, rest, rfl, ⟨hstart, hchars⟩, hrest⟩
        have hname' := Place.run_opening_name hname
        have hpasses := passes_lexeme (.ident hname hrest) (position + gap.length)
        rw [heq, tokensAt_lexeme (.ident hname hrest)]
        rcases argument?_outcome hrest (position + gap.length + name.length) with
          ⟨arg, ts, hread, hfollower⟩ | ⟨e, ts, herror, hrejects⟩
        · obtain ⟨text, gap', rest, q, rfl, hstatement, hgap', hrun', hready, hpasses', rfl⟩ := hfollower
          refine Or.inl ⟨gap, name ++ text, gap', rest, _, q, ?_, hgap, hstatement name hname, hgap', ?_,
            hready, ?_, ?_⟩
          · rw [List.append_assoc]
          · rw [Place.run_append_of_run hrun, List.append_assoc, Place.run_append_of_run hname', hrun']
          · rw [← List.append_assoc text] at hpasses
            rw [List.append_assoc]
            exact (passes_spaces hgap position _).append (hpasses.append hpasses')
          · rw [statements_ident rfl hread]
            simp only [List.length_append, Nat.add_assoc]
        · exact Or.inr ⟨e, ts, statements_error rfl herror,
            .after hrun (passes_spaces hgap position _) (.after hname' hpasses hrejects)⟩
      · have hstep : Place.opening.step c = none := by rw [Place.step, if_neg hc, if_neg hstart]
        obtain ⟨t, ts, htokens, -, hkind⟩ := exists_token hc (position + gap.length) tail
        have hident : ∀ name, t.kind ≠ .ident name := fun _ => kind_ne hkind hstart (by simp)
        rw [htokens, statements_of_ne_ident hident]
        exact Or.inr ⟨_, _, rfl,
          .after hrun (passes_spaces hgap position _) (Place.rejects_token hc hstep rfl htokens)⟩

/-- A text that is not spaces alone is read as a chain, or rejected where it first breaks the form of one. -/
theorem statements_outcome {cs : List Char} (hcs : ¬Spaces cs) (found : List Operation) (position : Nat) :
    (∃ ops ts, statements found (tokensAt position cs) = (.ok (found.reverse ++ ops), ts) ∧ Chain cs ops ∧
        Place.Accepts cs) ∨
      ∃ e ts, statements found (tokensAt position cs) = (.error e, ts) ∧
        Place.opening.Rejects position cs e := by
  -- Behind a pipe the rest is read in the same way, unless it is spaces alone.
  induction hn : cs.length using Nat.strongRecOn generalizing position cs found with
  | ind n ih =>
      rcases operation_outcome hcs found position with
        ⟨gap, text, gap', rest, op, q, rfl, hgap, htext, hgap', hrun, hready, hpasses, hread⟩ | herror
      · have hfront : gap ++ (text ++ (gap' ++ rest)) = (gap ++ (text ++ gap')) ++ rest := by
          simp only [List.append_assoc]
        rw [hread]
        rcases behind_outcome hready (op :: found) (position + (gap ++ (text ++ gap')).length) with
          ⟨ts, hbehind, hend⟩ | ⟨tail, rfl, htail, hbehind⟩ | ⟨e, ts, hbehind, hrejects⟩
        · refine Or.inl ⟨[op], ts, by rw [hbehind, List.reverse_cons], ?_⟩
          rcases hend with rfl | ⟨tail, rfl, htail⟩
          · rw [List.append_nil]
            exact ⟨.last hgap htext hgap', q, hrun, hready.accepting⟩
          · refine ⟨.cons hgap htext hgap' (.spaces htail), .opening, ?_, rfl⟩
            rw [hfront, Place.run_append_of_run hrun, Place.run_cons (hready.step '|' rfl)]
            exact Place.run_spaces htail rfl
        · have hlt : tail.length < n := by
            rw [← hn]
            simp only [List.length_append, List.length_cons]
            omega
          have hopening : Place.opening.run (gap ++ (text ++ gap') ++ ['|']) = some .opening := by
            rw [Place.run_append_of_run hrun, Place.run_cons (hready.step '|' rfl), Place.run_nil]
          rw [hbehind]
          rcases ih tail.length hlt htail (op :: found) (position + (gap ++ (text ++ gap')).length + 1) rfl with
            ⟨ops, ts, hops, hchain, q', hrun', haccepting⟩ | ⟨e, ts, herror, hrejects⟩
          · refine Or.inl ⟨op :: ops, ts, by rw [hops, List.reverse_cons, List.append_assoc]; rfl,
              .cons hgap htext hgap' hchain, q', ?_, haccepting⟩
            rw [hfront, List.append_cons, Place.run_append_of_run hopening, hrun']
          · refine Or.inr ⟨e, ts, herror, ?_⟩
            have hpasses' : Passes position (gap ++ (text ++ gap') ++ ['|']) tail :=
              hpasses.append (passes_lexeme (.pipe tail) _)
            rw [hfront, List.append_cons]
            refine .after hopening hpasses' ?_
            rwa [List.length_append, List.length_singleton, ← Nat.add_assoc]
        · refine Or.inr ⟨e, ts, hbehind, ?_⟩
          rw [hfront]
          exact .after hrun hpasses hrejects
      · exact Or.inr herror

theorem chain_eq_statements {cs : List Char} (h : ¬Spaces cs) (position : Nat) :
    chain (tokensAt position cs) = statements [] (tokensAt position cs) := by
  obtain ⟨t, ts, htokens, ht⟩ := exists_tokensAt_ne_eof h position
  rw [htokens, chain, if_neg ht]

end Parser

/-- A source is read as the operations that the grammar derives, or is refused for what a reader that stands
in front of it meets. -/
theorem parse_outcome (source : String) :
    (∃ ops, parse source = .ok ops ∧ Chain source.toList ops ∧ Place.Accepts source.toList) ∨
      ∃ e, parse source = .error e ∧ Place.opening.Rejects 0 source.toList e := by
  rw [parse, tokens_eq_tokensAt]
  by_cases hspaces : Spaces source.toList
  · rw [tokensAt_of_spaces hspaces]
    exact Or.inl ⟨[], rfl, .spaces hspaces, .opening, Place.run_spaces hspaces rfl, rfl⟩
  · rw [Parser.chain_eq_statements hspaces]
    rcases Parser.statements_outcome hspaces [] 0 with ⟨ops, ts, hread, hops⟩ | ⟨e, ts, hread, hrejects⟩
    · exact Or.inl ⟨ops, by rw [hread]; rfl, hops⟩
    · exact Or.inr ⟨e, by rw [hread], hrejects⟩

end TurtleChain
