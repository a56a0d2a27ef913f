import TurtleChain.Proofs.Walk.Dropped
import TurtleChain.Proofs.Walk.Hilbert
import TurtleChain.Proofs.Walk.History

/-! Ants with a limit to their moves. A limit that is set on a new ant cuts its walk short and changes nothing else. One
that is set later stops the ant only if the ant has not got there yet. -/

namespace TurtleChain

namespace Ant

/-! ### A walk with a limit and the same walk without -/

/-- An ant with a limit to its moves, beside one without that did the same things. -/
structure Shortens (most : Nat) (limited free : Ant) : Prop where
  angle : limited.angle = free.angle
  scale : limited.scale = free.scale
  stroke : limited.stroke = free.stroke
  maxLife : limited.maxLife = some most
  free_maxLife : free.maxLife = none
  alive : limited.alive = decide (free.life < most)
  free_alive : free.alive = true
  life : limited.life = min most free.life
  trail : limited.trail = free.trail.drop (free.life - most)
  position : free.life ≤ most → limited.position = free.position

theorem shortens_start (most : Nat) (x y : Int) : Shortens most ((start x y).limitLife most) (start x y) :=
  ⟨rfl, rfl, rfl, rfl, rfl, rfl, rfl, (Nat.min_zero most).symm, (congrArg (List.drop · _) (Nat.zero_sub most)).symm,
    fun _ => rfl⟩

section

variable {most : Nat} {limited free : Ant} (h : Shortens most limited free)

include h

theorem Shortens.moveTo_both (hlife : free.life < most) (cell : Cell) :
    Shortens most (limited.moveTo cell) (free.moveTo cell) := by
  have hlimited : limited.life = free.life := h.life.trans (Nat.min_eq_right hlife.le)
  have hbefore : free.life - most = 0 := by omega
  have hbehind : free.life + 1 - most = 0 := by omega
  refine ⟨h.angle, h.scale, h.stroke, h.maxLife, h.free_maxLife, ?_, ?_, ?_, ?_, fun _ => rfl⟩
  · have hended : (!decide (most ≤ free.life + 1)) = decide (free.life + 1 < most) := by
      rw [← decide_not]
      exact decide_eq_decide.mpr Nat.not_le
    unfold moveTo
    rw [h.maxLife, h.alive, hlimited, decide_eq_true hlife]
    exact hended
  · unfold moveTo
    rw [h.free_maxLife, h.free_alive]
    rfl
  · show limited.life + 1 = min most (free.life + 1)
    omega
  · show cell :: limited.trail = List.drop (free.life + 1 - most) (cell :: free.trail)
    rw [h.trail, hbefore, hbehind, List.drop_zero, List.drop_zero]

/-- The limited ant has stopped. -/
theorem Shortens.moveTo_free (hlife : most ≤ free.life) (cell : Cell) :
    Shortens most limited (free.moveTo cell) := by
  refine ⟨h.angle, h.scale, h.stroke, h.maxLife, h.free_maxLife, ?_, ?_, ?_, ?_, ?_⟩
  · show limited.alive = decide (free.life + 1 < most)
    rw [h.alive, decide_eq_false (by omega), decide_eq_false (by omega)]
  · unfold moveTo
    rw [h.free_maxLife, h.free_alive]
    rfl
  · show limited.life = min most (free.life + 1)
    rw [h.life]
    omega
  · show limited.trail = List.drop (free.life + 1 - most) (cell :: free.trail)
    rw [h.trail, Nat.sub_add_comm hlife, List.drop_succ_cons]
  · intro hle
    exact absurd (show free.life + 1 ≤ most from hle) (by omega)

theorem Shortens.advanceBy (trig : Trigonometry) (distance : Float) :
    Shortens most (limited.advanceBy trig distance).2 (free.advanceBy trig distance).2 := by
  unfold Ant.advanceBy
  rw [h.alive, h.free_alive]
  cases hfinite : distance.isFinite with
  | false => simpa using h
  | true =>
      rcases Nat.lt_or_ge free.life most with hlife | hlife
      · have hposition := h.position hlife.le
        have htarget : limited.target trig distance = free.target trig distance := by
          unfold target headingInRadians
          rw [hposition, h.angle]
        rw [decide_eq_true hlife, htarget, hposition]
        simp only [Bool.not_true, Bool.or_false, Bool.false_eq_true, if_false]
        split
        · exact h
        · exact h.moveTo_both hlife _
      · rw [decide_eq_false (Nat.not_lt_of_ge hlife)]
        simp only [Bool.not_true, Bool.not_false, Bool.or_false, Bool.false_eq_true, if_false, if_true]
        split
        · exact h
        · exact h.moveTo_free hlife _

theorem Shortens.apply (trig : Trigonometry) (pace : Pace) (deed : Deed) :
    Shortens most (deed.apply trig pace limited).2 (deed.apply trig pace free).2 := by
  cases deed with
  | draw amount =>
      rw [Deed.apply, Deed.apply, h.scale]
      exact h.advanceBy trig _
  | turn degrees => exact { h with angle := congrArg (· + degrees) h.angle }
  | rescale factor => exact { h with scale := congrArg (· * factor) h.scale }
  | paint tag => exact { h with stroke := rfl }
  | rest => exact h

theorem Shortens.applyOperation (trig : Trigonometry) (pace : Pace) (op : Operation) :
    Shortens most (TurtleChain.applyOperation (actionsBy trig) pace op limited).2
      (TurtleChain.applyOperation (actionsBy trig) pace op free).2 := by
  rw [(performs_deed trig pace op limited).context, (performs_deed trig pace op free).context]
  cases deed? op with
  | none => exact h
  | some deed => exact h.apply trig pace deed

end

/-- One walk stays cut short of the other. -/
theorem Shortens.contextAfter (trig : Trigonometry) (pace : Pace) (ops : Sequence) {most : Nat} {limited free : Ant}
    (h : Shortens most limited free) :
    Shortens most (Walker.contextAfter (actionsBy trig) pace ops limited)
      (Walker.contextAfter (actionsBy trig) pace ops free) := by
  induction ops generalizing limited free with
  | nil => exact h
  | cons op ops ih =>
      rw [Walker.contextAfter_cons, Walker.contextAfter_cons]
      exact ih (h.applyOperation trig pace op)

end Ant

namespace Walk

variable (trig : Trigonometry)

theorem Options.consistent_ant (options : Walk.Options) : options.ant.Consistent ⟨0, 0⟩ 0 := by
  have hstart := Ant.consistent_start 0 0
  unfold Options.ant
  cases options.maxLife with
  | none => exact hstart
  | some most => exact hstart.effect (Ant.Event.effect .library (.limitLife most) _)

theorem consistent_alongBy (options : Walk.Options) (ops : Sequence) :
    (alongBy trig options ops).ant.Consistent ⟨0, 0⟩ (alongBy trig options ops).report.tally.moves := by
  have hwalk := options.consistent_ant.contextAfter trig ⟨options.distance⟩ ops
  rw [Nat.zero_add] at hwalk
  rw [tally_alongBy, alongBy_eq]
  exact hwalk

theorem shortens_alongBy (distance : Option Float) (ops : Sequence) (most : Nat) :
    Ant.Shortens most (alongBy trig { maxLife := some most, distance := distance } ops).ant
      (alongBy trig { distance := distance } ops).ant := by
  rw [alongBy_eq, alongBy_eq]
  exact (Ant.shortens_start most 0 0).contextAfter trig ⟨distance⟩ ops

/-- A limit to the moves of an ant cuts its walk short, and changes nothing else. -/
theorem limit_truncates (distance : Option Float) (ops : Sequence) (most : Nat) :
    let free := alongBy trig { distance := distance } ops
    let limited := alongBy trig { maxLife := some most, distance := distance } ops
    let moves := min most free.report.tally.moves
    limited.ant.path = free.ant.path.take (moves + 1) ∧ limited.report.tally.moves = moves ∧
      limited.report.pathLength = moves + 1 ∧ limited.ant.path.getLast? = some limited.report.position ∧
      limited.report.alive = decide (free.report.tally.moves < most) ∧
      limited.report.heading = free.report.heading ∧ limited.ant.scale = free.ant.scale ∧
      limited.ant.stroke = free.ant.stroke ∧ limited.report.tally.steps = free.report.tally.steps ∧
      limited.report.tally.skipped = free.report.tally.skipped := by
  intro free limited moves
  have hshort : Ant.Shortens most limited.ant free.ant := shortens_alongBy trig distance ops most
  have hfree : free.ant.Consistent ⟨0, 0⟩ free.report.tally.moves := consistent_alongBy trig _ ops
  have hlimited : limited.ant.Consistent ⟨0, 0⟩ limited.report.tally.moves := consistent_alongBy trig _ ops
  have hmoves : limited.report.tally.moves = moves := by
    rw [← hlimited.life, hshort.life, hfree.life]
  have hlength : limited.report.pathLength = moves + 1 := by
    have hpath := hlimited.length_path
    rw [hlimited.life, hmoves, Ant.path, List.length_reverse] at hpath
    exact hpath
  have hpath : limited.ant.path = free.ant.path.take (moves + 1) := by
    have hfree_length := hfree.length_path
    rw [hfree.life, Ant.path, List.length_reverse] at hfree_length
    rw [Ant.path, Ant.path, hshort.trail, List.reverse_drop, hfree_length, hfree.life]
    congr 1
    omega
  refine ⟨hpath, hmoves, hlength, hlimited.last_path, ?_, hshort.angle, hshort.scale, hshort.stroke, ?_, ?_⟩
  · rw [← hfree.life]
    exact hshort.alive
  · exact (steps_alongBy trig _ ops).trans (steps_alongBy trig _ ops).symm
  · exact (skipped_alongBy trig _ ops).trans (skipped_alongBy trig _ ops).symm

end Walk

namespace Ant

/-! ### Limits that are set on the way -/

/-- The ant has made as many moves as its limit. -/
def Spent (ant : Ant) : Prop :=
  ∃ most, ant.maxLife = some most ∧ most ≤ ant.life

section

variable (trig : Trigonometry)

theorem Event.limits_or_acts (event : Event) (ant : Ant) :
    (∃ most, event = .limitLife most) ∨ ant.Acts (event.apply trig ant).1 (event.apply trig ant).2 := by
  cases event with
  | limitLife most => exact Or.inl ⟨most, rfl⟩
  | advance distance => exact Or.inr (acts_advanceBy trig ant distance)
  | dispatch op pace =>
      dsimp only [Event.apply]
      exact Or.inr (acts_applyOperation trig pace op ant)

/-- No limit is set that the ant has already reached, other than one of no moves at all. -/
def Timely (events : List Event) (ant : Ant) : Prop :=
  ∀ earlier most later, events = earlier ++ .limitLife most :: later →
    most = 0 ∨ (after trig earlier ant).life < most

/-- Once it has made as many moves as its limit, the ant is not alive, and nothing that does not raise the limit above
its moves makes it move. -/
def StopsAtLimit (later : List Event) (ant : Ant) : Prop :=
  ant.Spent → ant.alive = false ∧
    ((∀ most, .limitLife most ∈ later → most ≤ ant.life) → ∀ moved ∈ reports trig later ant, moved = none)

end

section

variable {trig : Trigonometry} {ant ant' : Ant} {moved : Moved}

theorem alive_moveTo_of_spent {cell : Cell} (h : (ant.moveTo cell).Spent) : (ant.moveTo cell).alive = false := by
  obtain ⟨most, hmost, hlife⟩ := h
  change ant.maxLife = some most at hmost
  change most ≤ ant.life + 1 at hlife
  unfold moveTo
  rw [hmost]
  simp [hlife]

theorem Acts.alive_of_spent (h : ant.Acts moved ant') (hant : ant.Spent → ant.alive = false) (hspent : ant'.Spent) :
    ant'.alive = false := by
  cases h with
  | adjust angle scale stroke => exact hant hspent
  | move halive hcell => exact alive_moveTo_of_spent hspent

theorem alive_limitLife_of_spent {most : Nat} (htimely : most = 0 ∨ ant.life < most)
    (hspent : (ant.limitLife most).Spent) : (ant.limitLife most).alive = false := by
  obtain ⟨most', hmost, hlife⟩ := hspent
  cases hmost
  change most ≤ ant.life at hlife
  exact decide_eq_false (by omega)

theorem after_append (earlier later : List Event) (ant : Ant) :
    after trig (earlier ++ later) ant = after trig later (after trig earlier ant) :=
  List.foldl_append

theorem Timely.of_append {earlier later : List Event} (h : Timely trig (earlier ++ later) ant) :
    Timely trig earlier ant ∧ Timely trig later (after trig earlier ant) := by
  constructor
  · intro first most rest hsplit
    exact h first most (rest ++ later) (by rw [hsplit, List.append_assoc, List.cons_append])
  · intro first most rest hsplit
    rw [← after_append]
    exact h (earlier ++ first) most rest (by rw [hsplit, List.append_assoc])

theorem Timely.of_cons {event : Event} {events : List Event} (h : Timely trig (event :: events) ant) :
    Timely trig events (event.apply trig ant).2 := by
  have hparts : Timely trig ([event] ++ events) ant := h
  exact hparts.of_append.2

/-- Under timely limits an ant that has spent its life has stopped. -/
theorem Timely.alive_of_spent {events : List Event} (h : Timely trig events ant)
    (hant : ant.Spent → ant.alive = false) (hspent : (after trig events ant).Spent) :
    (after trig events ant).alive = false := by
  induction events generalizing ant with
  | nil => exact hant hspent
  | cons event events ih =>
      refine ih h.of_cons (fun hspent => ?_) hspent
      rcases event.limits_or_acts trig ant with ⟨most, rfl⟩ | hacts
      · exact alive_limitLife_of_spent (h [] most events rfl) hspent
      · exact hacts.alive_of_spent hant hspent

theorem Acts.of_not_alive (h : ant.Acts moved ant') (halive : ant.alive = false) :
    moved = none ∧ ant'.alive = false ∧ ant'.life = ant.life := by
  cases h with
  | adjust angle scale stroke => exact ⟨rfl, halive, rfl⟩
  | move hmoves hcell =>
      rw [halive] at hmoves
      cases hmoves

/-- An ant that has stopped makes no more moves, unless a limit above its moves is set. -/
theorem Timely.reports_of_not_alive {events : List Event} (h : Timely trig events ant) (halive : ant.alive = false)
    (hlimits : ∀ most, .limitLife most ∈ events → most ≤ ant.life) :
    ∀ moved ∈ reports trig events ant, moved = none := by
  -- Limits that are neither late nor above the moves are limits of no moves.
  induction events generalizing ant with
  | nil => exact fun _ hmoved => absurd hmoved List.not_mem_nil
  | cons event events ih =>
      have hnext : (event.apply trig ant).1 = none ∧ (event.apply trig ant).2.alive = false ∧
          (event.apply trig ant).2.life = ant.life := by
        rcases event.limits_or_acts trig ant with ⟨most, rfl⟩ | hacts
        · have htimely := h [] most events rfl
          have hle := hlimits most List.mem_cons_self
          change most = 0 ∨ ant.life < most at htimely
          exact ⟨rfl, decide_eq_false (by omega), rfl⟩
        · exact hacts.of_not_alive halive
      obtain ⟨hmoved, halive', hlife⟩ := hnext
      refine List.forall_mem_cons.mpr ⟨hmoved, ih h.of_cons halive' fun most hmost => ?_⟩
      rw [hlife]
      exact hlimits most (List.mem_cons_of_mem event hmost)

end

/-- An ant stops at its limit in every state of a run exactly if every limit of the run is set in time. -/
theorem stops_at_limit_iff_timely (trig : Trigonometry) (x y : Int) (events : List Event) :
    (∀ earlier later rest, events = earlier ++ later ++ rest →
        StopsAtLimit trig later (after trig earlier (start x y))) ↔
      Timely trig events (start x y) := by
  constructor
  · intro hstops earlier most later hsplit
    by_contra hlate
    rw [not_or, Nat.not_lt] at hlate
    have hstopped := hstops (earlier ++ [.limitLife most]) [] later (by rw [hsplit]; simp)
    rw [after_append] at hstopped
    have halive := (hstopped ⟨most, rfl, hlate.2⟩).1
    exact hlate.1 (Nat.eq_zero_of_not_pos (of_decide_eq_false halive))
  · rintro htimely earlier later rest rfl
    obtain ⟨htimely, -⟩ := htimely.of_append
    obtain ⟨hearlier, hlater⟩ := htimely.of_append
    intro hspent
    have halive := hearlier.alive_of_spent (fun hstart => by obtain ⟨most, hmost, -⟩ := hstart; cases hmost) hspent
    exact ⟨halive, hlater.reports_of_not_alive halive⟩

/-- A limit of one move that is set behind two moves leaves the ant alive, and it moves once more. -/
theorem late_limit_does_not_stop :
    let ant := after .halfTurn [.advance 1, .advance 1, .limitLife 1] (start 0 0)
    ant.maxLife = some 1 ∧ ant.life = 2 ∧ ant.alive = true ∧ (ant.advanceBy .halfTurn 1).1 = some ⟨3, 0⟩ := by
  decide +kernel

end Ant

end TurtleChain
