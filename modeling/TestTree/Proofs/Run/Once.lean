import TestTree.Proofs.Run.Log

namespace TestTree

theorem Branch.Settled.unique {branch : Branch} {front other : Nat} (settled : branch.Settled front)
    (again : branch.Settled other) : front = other := by
  have no_less : ∀ {less more : Nat}, branch.Settled less → branch.Settled more → ¬ less < more := by
    intro less more first second before
    have inside : less < branch.steps.length := Nat.lt_of_lt_of_le before second.inside
    have found := List.getElem?_eq_getElem inside
    have completed := (second.outcome less _ found).mpr before
    exact Nat.lt_irrefl _ ((first.outcome less _ found).mp completed)
  have forward := no_less settled again
  have backward := no_less again settled
  omega

theorem Branch.Settled.advances {branch after : Branch} {front : Nat} {taken : Option Nat}
    (settled : branch.Settled front) (advances : branch.Advances taken after) : after.Settled front := by
  cases advances with
  | ended => exact settled
  | exhausted | blocked => exact settled.finish
  | advanced => exact settled.advanceTo _

namespace Run

variable {Call Env : Type}

/-- Whether the body of the step that a cursor stands at was handed over. -/
def Stage.begun : Stage → Nat
  | .within _ | .behind _ _ => 1
  | _ => 0

/-- Whether any body was handed over for the step that a cursor stands at. -/
def Stage.reached : Stage → Nat
  | .before _ | .within _ | .behind _ _ => 1
  | _ => 0

/-- Whether a run may have paused in front of the step that a cursor stands at. -/
def Stage.faced (cursor : Cursor) : Stage → Nat
  | .skipping _ | .before _ | .within _ | .behind _ _ => 1
  | _ => if cursor.pending.isSome then 1 else 0

/-- What is noted of a branch that goes on reaches as far as its cursor came. -/
def Stage.Keeps (log : Log) (cursor : Cursor) (branch : Branch) (stage : Stage) : Prop :=
  branch.status.isCompleted = true ∨ ∃ front, branch.Settled front ∧
    log.Below cursor.branch (front + stage.begun) (front + stage.reached) front
      (front + stage.faced cursor)

/-- From `front` to `front'` a cursor comes as far as it is noted. -/
structure Gains (stage : Stage) (cursor : Cursor) (front : Nat) (walker : Walker) (front' : Nat) :
    Prop where
  forward : front ≤ front'
  begun : front + stage.begun ≤ front' + walker.2.begun
  reached : front + stage.reached ≤ front' + walker.2.reached
  faced : front + stage.faced cursor ≤ front' + walker.2.faced walker.1
  skips : ∀ step, stage = .skipping step → step < front'

section

variable {setting : Setting Call Env} {purpose : Purpose} {cursor next : Cursor}
  {shared after : Shared Env} {stage : Stage} {arrival : Arrival} {branch branch' : Branch}
  {walker : Walker} {log new : Log} {front : Nat}

theorem Stage.faced_le (cursor : Cursor) (stage : Stage) : stage.faced cursor ≤ 1 := by
  cases stage with
  | skipping | before | within | behind => exact Nat.le_refl _
  | opening | entering | refused | looping | taking | lookingAhead | closing | faulted =>
      change (if cursor.pending.isSome then 1 else 0) ≤ 1
      split
      · exact Nat.le_refl _
      · exact Nat.zero_le _

theorem Stage.begun_le (stage : Stage) : stage.begun ≤ 1 := by
  cases stage <;> simp [begun]

theorem Stage.reached_le (stage : Stage) : stage.reached ≤ 1 := by
  cases stage <;> simp [reached]

/-- A cursor that turns to a step leaves the front in front of it. -/
theorem gains_ahead (begun : stage.begun ≤ walker.2.begun) (reached : stage.reached ≤ walker.2.reached)
    (faces : walker.2.faced walker.1 = 1) (elsewhere : ∀ step, stage ≠ .skipping step) :
    Gains stage cursor front walker front where
  forward := Nat.le_refl _
  begun := Nat.add_le_add_left begun front
  reached := Nat.add_le_add_left reached front
  faced := Nat.add_le_add_left (faces ▸ stage.faced_le cursor) front
  skips step skipping := absurd skipping (elsewhere step)

/-- With the front moved beyond a step, the cursor may go anywhere. -/
theorem gains_passed (skips : ∀ step, stage = .skipping step → step = front) :
    Gains stage cursor front walker (front + 1) where
  forward := Nat.le_succ _
  begun := Nat.le_trans (Nat.add_le_add_left stage.begun_le front) (Nat.le_add_right _ _)
  reached := Nat.le_trans (Nat.add_le_add_left stage.reached_le front) (Nat.le_add_right _ _)
  faced := Nat.le_trans (Nat.add_le_add_left (stage.faced_le cursor) front) (Nat.le_add_right _ _)
  skips step skipping := skips step skipping ▸ Nat.lt_succ_self _

/-- A turn of a walk moves the front of its branch as far as the cursor leaves its stage behind. -/
theorem Walk.gains (walk : Walk setting purpose cursor shared stage after next arrival)
    (found : shared.suite.branch? cursor.branch = some branch) (stands : stage.Stands cursor branch)
    (treads : Treads cursor shared.suite branch after.suite next arrival branch')
    (settled : branch.Settled front) (remains : next.remains arrival = some walker) :
    branch'.status.isCompleted = true ∨
      ∃ front', branch'.Settled front' ∧ Gains stage cursor front walker front' := by
  have stays : after.suite.branch? cursor.branch = some branch →
      Gains stage cursor front walker front →
      ∃ front', branch'.Settled front' ∧ Gains stage cursor front walker front' := by
    intro same gains
    obtain rfl : branch' = branch := Option.some.inj (treads.found.symm.trans same)
    exact ⟨front, settled, gains⟩
  have advances : ∀ {taken suite},
      shared.suite.nextStep cursor.branch true setting.skipRepeat = (taken, suite) →
      suite.branch? cursor.branch = some branch' → branch'.Settled front := by
    intro taken suite next present
    obtain ⟨reached, advances, located, _⟩ := Suite.nextStep_advances found setting.skipRepeat
    rw [next] at advances located
    obtain rfl : branch' = reached := Option.some.inj (present.symm.trans located)
    exact settled.advances advances
  have takes : ∀ {step suite}, cursor.Takes setting shared.suite step suite →
      suite.branch? cursor.branch = some branch' → branch'.Settled front := by
    intro step suite takes present
    rcases takes with ⟨_, rfl⟩ | ⟨_, next⟩
    · obtain rfl : branch' = branch := Option.some.inj (present.symm.trans found)
      exact settled
    · exact advances next present
  have left := treads.stands walker remains
  cases walk with
  | opened | unguarded | entering | admitted | refused | interrupted | continued =>
      cases remains
      exact .inr (stays found ⟨Nat.le_refl _, Nat.le_refl _, Nat.le_refl _, Nat.le_refl _, nofun⟩)
  | preparing | sleeping | trailing =>
      cases remains
      exact .inr (stays found ⟨Nat.le_refl _, Nat.le_refl _, Nat.le_refl _, Nat.le_refl _, nofun⟩)
  | begun | unbegun | ended =>
      cases remains
      exact .inr (stays found ⟨Nat.le_refl _, by simp [Stage.begun], Nat.le_refl _, Nat.le_refl _,
        nofun⟩)
  | turnedAway | exhausted | atEnd | leaving | tarnished =>
      cases remains
      exact .inl left
  | halted | left => cases remains
  | taken _ _ taken | passedOver _ _ taken | paused _ _ taken =>
      cases remains
      exact .inr ⟨front, takes taken treads.found,
        gains_ahead (Nat.zero_le _) (Nat.zero_le _) rfl nofun⟩
  | facing step suite next =>
      cases remains
      exact .inr ⟨front, advances next treads.found,
        gains_ahead (Nat.zero_le _) (Nat.zero_le _) rfl nofun⟩
  | skipped step =>
      cases remains
      obtain ⟨_, at_⟩ := stands
      obtain rfl : front = step := settled.unique at_.faces.settled
      have located := Suite.branch?_modify_self found (Cursor.skipStepAt front)
      obtain rfl : branch' = _ := Option.some.inj (treads.found.symm.trans located)
      refine .inr ⟨front + 1, at_.faces.skipStepAt.settled, gains_passed ?_⟩
      rintro _ ⟨⟩
      rfl
  | marked step error =>
      obtain ⟨_, at_⟩ := stands
      obtain rfl : front = step := settled.unique at_.faces.settled
      obtain ⟨located, _⟩ := Suite.markStep_marks found front
        (outcomeOf (shared.branch cursor.branch) front error)
        (!error.isNone && !(shared.branch cursor.branch).hasDebugStep) setting.skipRepeat
      obtain rfl : branch' = _ := Option.some.inj (treads.found.symm.trans located)
      obtain ⟨_, completed | ⟨_, passes⟩⟩ := follows_markAt at_.faces at_.active
        (outcomeOf (shared.branch cursor.branch) front error)
        (!error.isNone && !(shared.branch cursor.branch).hasDebugStep)
      · exact .inl completed
      · exact .inr ⟨front + 1, passes.settled, gains_passed nofun⟩
  | recorded index error arrival goes =>
      rcases goes with rfl | rfl <;> cases remains
      exact .inl left

/-- What a turn notes of its branch reaches no further than its cursor. -/
theorem Notes.below (notes : Notes cursor next stage arrival new)
    (remains : next.remains arrival = some walker) (stands : walker.2.Stands next branch)
    (settled : branch.Settled front) (skips : ∀ step, stage = .skipping step → step < front) :
    new.Below cursor.branch (front + walker.2.begun) (front + walker.2.reached) front
      (front + walker.2.faced next) := by
  have reaches : ∀ {step}, next.At branch step → step = front :=
    fun at_ => at_.faces.settled.unique settled
  refine ⟨?_, ?_, ?_, ?_⟩
  · intro step member
    obtain ⟨_, _, arrives⟩ := notes.bodies _ _ member
    cases arrives
    cases remains
    obtain rfl := reaches stands.2
    exact Nat.lt_succ_self _
  · intro role member step place
    rcases notes.roles role member with none | ⟨number, own, arrives⟩
    · simp [none] at place
    · obtain rfl : number = step := by
        rw [own] at place
        cases place
        rfl
      rcases arrives with arrives | arrives | ⟨_, arrives⟩
      · cases arrives
        cases remains
        obtain rfl := reaches stands.2
        exact Nat.lt_succ_self _
      · cases arrives
        cases remains
        obtain rfl := reaches stands.2
        exact Nat.lt_succ_self _
      · cases arrives
        cases remains
        obtain rfl := reaches stands.2
        exact Nat.lt_succ_self _
  · intro step member
    exact skips step (notes.skips _ _ member).2
  · intro step member
    obtain ⟨_, _, arrives, pending⟩ := notes.pauses _ _ member
    cases arrives
    cases remains
    obtain ⟨_, ⟨waited, same, waits⟩ | ⟨absent, _⟩⟩ := stands
    · obtain rfl : waited = step := Option.some.inj (same.symm.trans pending)
      obtain rfl := waits.faces.settled.unique settled
      simp [Stage.faced, Cursor.resting, pending]
    · simp [pending] at absent

/-- A turn of a walk keeps its notes within reach of its cursor. -/
theorem Walk.keeps (walk : Walk setting purpose cursor shared stage after next arrival)
    (found : shared.suite.branch? cursor.branch = some branch) (stands : stage.Stands cursor branch)
    (treads : Treads cursor shared.suite branch after.suite next arrival branch')
    (keeps : stage.Keeps log cursor branch) (notes : Notes cursor next stage arrival new)
    (remains : next.remains arrival = some walker) :
    walker.2.Keeps (log.append new) next branch' := by
  rcases keeps with completed | ⟨front, settled, below⟩
  · exact .inl (treads.follows.ends completed)
  · rcases walk.gains found stands treads settled remains with completed | ⟨front', reached, gains⟩
    · exact .inl completed
    · have same := Cursor.of_remains remains
      have faced := gains.faced
      rw [same] at faced
      refine .inr ⟨front', reached, ?_⟩
      rw [treads.own]
      exact (below.mono gains.begun gains.reached gains.forward faced).append
        (notes.below remains (treads.stands walker remains) reached gains.skips)

theorem Notes.spares {index : Nat} (notes : Notes cursor next stage arrival new)
    (different : index ≠ cursor.branch) : new.Spares index := by
  refine ⟨?_, ?_, ?_, ?_⟩
  · intro step member
    exact absurd (notes.bodies _ _ member).1 different
  · intro role member step place
    rcases notes.roles role member with none | ⟨number, own, _⟩
    · simp [none] at place
    · rw [own] at place
      cases place
      exact absurd rfl different
  · intro step member
    exact absurd (notes.skips _ _ member).1 different
  · intro step member
    exact absurd (notes.pauses _ _ member).1 different

/-- A run pauses in front of a step that it takes only if the cursor is to pause there. -/
theorem Walk.decides (walk : Walk setting purpose cursor shared stage after next arrival)
    (taking : stage = .taking) (pauses : arrival = .away .paused) :
    ∃ step, next.pending = some step ∧ cursor.Takes setting shared.suite step after.suite ∧
      ({ cursor with pending := none } : Cursor).pausesAt
        ((after.suite.branch? cursor.branch).getD {}) step = true := by
  cases walk with
  | paused step suite takes _ decided => exact ⟨step, rfl, takes, decided⟩
  | exhausted | taken | passedOver => cases pauses
  | opened | unguarded | entering | admitted | refused | turnedAway | halted | interrupted | continued
  | skipped | preparing | begun | unbegun | sleeping | ended | trailing | marked | facing | atEnd
  | leaving | tarnished | left | recorded => cases taking

theorem Cursor.Waits.not_pausesAt {step : Nat} (waits : cursor.Waits branch step) (other : Branch) :
    ({ cursor with pending := none } : Cursor).pausesAt other step = false := by
  simp [Cursor.pausesAt, waits.calm, waits.paused]

theorem Walk.pauses_new (walk : Walk setting purpose cursor shared stage after next arrival)
    (found : shared.suite.branch? cursor.branch = some branch) (stands : stage.Stands cursor branch)
    (keeps : stage.Keeps log cursor branch) (notes : Notes cursor next stage arrival new)
    {place : Nat × Nat} (member : place ∈ new.pauses) : place ∉ log.pauses := by
  obtain ⟨index, step⟩ := place
  obtain ⟨rfl, taking, arrives, pending⟩ := notes.pauses _ _ member
  obtain ⟨decided, same, takes, pauses⟩ := walk.decides taking arrives
  obtain rfl : decided = step := Option.some.inj (same.symm.trans pending)
  subst taking
  rcases takes with ⟨waiting, _⟩ | ⟨absent, taken⟩
  · obtain ⟨_, ⟨waited, same, waits⟩ | ⟨absent, _⟩⟩ := stands
    · obtain rfl : waited = decided := Option.some.inj (same.symm.trans waiting)
      rw [waits.not_pausesAt] at pauses
      cases pauses
    · simp [waiting] at absent
  · obtain ⟨_, ⟨_, same, _⟩ | ⟨_, between⟩⟩ := stands
    · simp [absent] at same
    · obtain ⟨reached, advances, _, _⟩ := Suite.nextStep_advances found setting.skipRepeat
      rw [taken] at advances
      obtain ⟨_, faces, _⟩ := faces_of_advances between advances
      rcases keeps with completed | ⟨front, settled, below⟩
      · cases advances with
        | advanced unfinished => simp [completed] at unfinished
      · obtain rfl := (settled.advances advances).unique faces.settled
        intro noted
        have less := below.pauses _ noted
        simp [Stage.faced, absent] at less

end

/-- The bodies of each branch are handed over in the order of its steps, no body is run for a step that
is skipped, and no run decides twice to pause in front of one step. -/
structure Log.Proper (log : Log) : Prop where
  ascending : log.roles.Pairwise fun earlier later => ∀ branch step next,
    earlier = .step branch step → later = .step branch next → step < next
  apart : ∀ role ∈ log.roles, ∀ place, role.place? = some place → place ∉ log.skips
  once : log.pauses.Nodup

/-- What holds of a process and of the notes made so far. -/
structure Tracked (process : Process Call Env) (log : Log) : Prop where
  order : process.InOrder
  kept : ∀ walker ∈ process.walkers, ∃ branch, process.suite.branch? walker.1.branch = some branch ∧
    walker.2.Keeps log walker.1 branch
  unused : process.runner.control.phase = .stopped ∨ ∀ index branch,
    process.suite.branch? index = some branch → branch.isIdle = true → log.Spares index
  proper : log.Proper

theorem Stage.Keeps.append_spares {cursor : Cursor} {branch : Branch} {stage : Stage} {log new : Log}
    (keeps : stage.Keeps log cursor branch) (spares : new.Spares cursor.branch) :
    stage.Keeps (log.append new) cursor branch := by
  rcases keeps with completed | ⟨front, settled, below⟩
  · exact .inl completed
  · exact .inr ⟨front, settled, below.append_spares spares⟩

theorem Stage.Keeps.of_same {cursor : Cursor} {branch other : Branch} {stage : Stage} {log : Log}
    (keeps : stage.Keeps log cursor branch) (status : other.status = branch.status)
    (steps : other.steps = branch.steps) : stage.Keeps log cursor other := by
  rcases keeps with completed | ⟨front, settled, below⟩
  · exact .inl (by rw [status]; exact completed)
  · exact .inr ⟨front, settled.of_steps steps, below⟩

namespace Tracked

variable {setting : Setting Call Env} {process between : Process Call Env} {action : Action}
  {log : Log}

/-- A walk's turn, with all that is known of it. -/
structure Trodden (setting : Setting Call Env) (process : Process Call Env) (log : Log) (thread : Nat)
    (purpose : Purpose) (cursor : Cursor) (activity : Activity Call) (before after : Branch) :
    Prop where
  found : process.suite.branch? cursor.branch = some before
  stands : activity.stage.Stands cursor before
  keeps : activity.stage.Keeps log cursor before
  treads : Treads cursor process.suite before
    (cursor.turn setting purpose process.runner.shared activity).shared.suite
    (cursor.turn setting purpose process.runner.shared activity).cursor
    (cursor.turn setting purpose process.runner.shared activity).turn.arrival after
  notes : Notes cursor (cursor.turn setting purpose process.runner.shared activity).cursor
    activity.stage (cursor.turn setting purpose process.runner.shared activity).turn.arrival
    (process.noted setting (.turn thread))

theorem trodden (tracked : Tracked process log) (setting : Setting Call Env) {thread : Nat} {purpose : Purpose} {cursor : Cursor}
    {activity : Activity Call} {rest : List Walker}
    (walking : process.walk? thread = some (purpose, cursor, activity))
    (held : process.walkers.Perm ((cursor, activity.stage) :: rest)) :
    ∃ before after, Trodden setting process log thread purpose cursor activity before after := by
  have orderly := tracked.order.orderly.perm rfl held.symm
  obtain ⟨before, after, found, stands, treads⟩ := orderly.treads setting purpose
  obtain ⟨other, present, keeps⟩ := tracked.kept _ (held.mem_iff.mpr List.mem_cons_self)
  obtain rfl : other = before := Option.some.inj (present.symm.trans found)
  exact ⟨other, after, found, stands, keeps, treads, Process.notes_of_walk treads.own walking⟩

end Tracked

theorem Cursor.At.below {cursor : Cursor} {branch : Branch} {stage : Stage} {step : Nat} {log : Log}
    (at_ : cursor.At branch step) (keeps : stage.Keeps log cursor branch) :
    log.Below cursor.branch (step + stage.begun) (step + stage.reached) step
      (step + stage.faced cursor) := by
  rcases keeps with completed | ⟨front, settled, below⟩
  · simp [(Branch.isActive_iff.mp at_.active).2] at completed
  · obtain rfl := settled.unique at_.faces.settled
    exact below

namespace Tracked.Trodden

variable {setting : Setting Call Env} {process : Process Call Env} {log : Log} {thread : Nat}
  {purpose : Purpose} {cursor : Cursor} {activity : Activity Call} {before after : Branch}

theorem remains (trodden : Trodden setting process log thread purpose cursor activity before after)
    {walker : Walker}
    (remains : (cursor.turn setting purpose process.runner.shared activity).cursor.remains
      (cursor.turn setting purpose process.runner.shared activity).turn.arrival = some walker) :
    walker.2.Keeps (log.append (process.noted setting (.turn thread)))
      (cursor.turn setting purpose process.runner.shared activity).cursor after :=
  (Cursor.turn_walks setting purpose cursor process.runner.shared activity).keeps trodden.found
    trodden.stands trodden.treads trodden.keeps trodden.notes remains

theorem ascends (trodden : Trodden setting process log thread purpose cursor activity before after)
    {earlier later : Role} (noted : earlier ∈ log.roles)
    (new : later ∈ (process.noted setting (.turn thread)).roles) {branch step next : Nat}
    (first : earlier = .step branch step) (second : later = .step branch next) : step < next := by
  subst first second
  obtain ⟨rfl, stage, _⟩ := trodden.notes.bodies _ _ new
  have stands := trodden.stands
  have keeps := trodden.keeps
  rw [stage] at stands keeps
  exact (stands.2.below keeps).bodies step noted

theorem skips_new (trodden : Trodden setting process log thread purpose cursor activity before after)
    {place : Nat × Nat} (new : place ∈ (process.noted setting (.turn thread)).skips) {role : Role}
    (noted : role ∈ log.roles) : role.place? ≠ some place := by
  intro same
  obtain ⟨index, step⟩ := place
  obtain ⟨rfl, stage⟩ := trodden.notes.skips _ _ new
  have stands := trodden.stands
  have keeps := trodden.keeps
  rw [stage] at stands keeps
  exact Nat.lt_irrefl _ ((stands.2.below keeps).touched role noted step same)

theorem unskipped (trodden : Trodden setting process log thread purpose cursor activity before after)
    {role : Role} (new : role ∈ (process.noted setting (.turn thread)).roles) {place : Nat × Nat}
    (same : role.place? = some place) :
    place ∉ (log.append (process.noted setting (.turn thread))).skips := by
  rcases trodden.notes.roles role new with none | ⟨step, own, arrives⟩
  · simp [none] at same
  · obtain rfl : (cursor.branch, step) = place := Option.some.inj (own.symm.trans same)
    have reached : ∃ stage, (cursor.turn setting purpose process.runner.shared activity).turn.arrival =
        .at stage ∧ ∀ next branch, stage.Stands next branch → next.At branch step := by
      rcases arrives with arrives | arrives | ⟨_, arrives⟩
      · exact ⟨_, arrives, fun _ _ stands => stands.2⟩
      · exact ⟨_, arrives, fun _ _ stands => stands.2⟩
      · exact ⟨_, arrives, fun _ _ stands => stands.2⟩
    obtain ⟨stage, arrives, stands⟩ := reached
    have treads := trodden.treads
    have left : (cursor.turn setting purpose process.runner.shared activity).cursor.remains
        (cursor.turn setting purpose process.runner.shared activity).turn.arrival =
        some ((cursor.turn setting purpose process.runner.shared activity).cursor, stage) := by
      rw [arrives]
      rfl
    have below := (stands _ _ (treads.stands _ left)).below (trodden.remains left)
    rw [treads.own] at below
    intro skipped
    exact Nat.lt_irrefl _ (below.skips step skipped)

theorem pauses_new (trodden : Trodden setting process log thread purpose cursor activity before after)
    {place : Nat × Nat} (new : place ∈ (process.noted setting (.turn thread)).pauses) :
    place ∉ log.pauses :=
  (Cursor.turn_walks setting purpose cursor process.runner.shared activity).pauses_new trodden.found
    trodden.stands trodden.keeps trodden.notes new

end Tracked.Trodden

namespace Tracked

variable {setting : Setting Call Env} {process between : Process Call Env} {action : Action}
  {log : Log}

theorem proper_of_spares (tracked : Tracked process log)
    (spares : ∀ index, (process.noted setting action).Spares index) :
    (log.append (process.noted setting action)).Proper := by
  have unskipped : ∀ place, place ∉ (process.noted setting action).skips :=
    fun place member => Nat.not_lt_zero _ ((spares place.1).skips place.2 member)
  have unpaused : ∀ place, place ∉ (process.noted setting action).pauses :=
    fun place member => Nat.not_lt_zero _ ((spares place.1).pauses place.2 member)
  refine ⟨?_, ?_, ?_⟩
  · refine List.pairwise_append.mpr ⟨tracked.proper.ascending, ?_, ?_⟩
    · simp only [Process.noted]
      cases process.handed setting action <;> simp
    · rintro earlier _ later new branch step next _ rfl
      exact absurd ((spares branch).bodies next new) (Nat.not_lt_zero _)
  · intro role member place same skipped
    rcases List.mem_append.mp skipped with old | new
    · rcases List.mem_append.mp member with noted | fresh
      · exact tracked.proper.apart role noted place same old
      · exact Nat.not_lt_zero _ ((spares place.1).touched role fresh place.2 same)
    · exact unskipped place new
  · rw [Log.append, List.eq_nil_iff_forall_not_mem.mpr unpaused, List.append_nil]
    exact tracked.proper.once

/-- What a turn of a walk notes is new. -/
theorem proper_of_trodden (tracked : Tracked process log) {thread : Nat} {purpose : Purpose}
    {cursor : Cursor} {activity : Activity Call} {before after : Branch}
    (trodden : Trodden setting process log thread purpose cursor activity before after) :
    (log.append (process.noted setting (.turn thread))).Proper := by
  refine ⟨?_, ?_, ?_⟩
  · refine List.pairwise_append.mpr ⟨tracked.proper.ascending, ?_, ?_⟩
    · simp only [Process.noted]
      cases process.handed setting (.turn thread) <;> simp
    · intro earlier noted later new branch step next first second
      exact trodden.ascends noted new first second
  · intro role member place same skipped
    rcases List.mem_append.mp member with noted | fresh
    · rcases List.mem_append.mp skipped with old | new
      · exact tracked.proper.apart role noted place same old
      · exact trodden.skips_new new noted same
    · exact trodden.unskipped fresh same skipped
  · refine List.nodup_append.mpr ⟨tracked.proper.once, ?_, ?_⟩
    · simp only [Process.noted]
      cases process.pausedBefore setting (.turn thread) <;> simp
    · rintro place noted _ new rfl
      exact trodden.pauses_new new noted

theorem proper_moves (tracked : Tracked process log) (moves : Moves setting process action between) :
    (log.append (process.noted setting action)).Proper := by
  cases moves with
  | walked purpose cursor activity rest walking held suite holds =>
      obtain ⟨before, after, trodden⟩ := tracked.trodden setting walking held
      exact tracked.proper_of_trodden trodden
  | claimed index claims still =>
      exact tracked.proper_of_spares (Process.spares_of_still (by rintro _ ⟨⟩; exact still))
  | restaged cursor scope stage rest still => exact tracked.proper_of_spares (Process.spares_of_still still)
  | stayed still => exact tracked.proper_of_spares (Process.spares_of_still still)
  | prepared still =>
      exact tracked.proper_of_spares (Process.spares_of_still fun thread same => absurd same (still thread))
  | swept still => exact tracked.proper_of_spares (Process.spares_of_still still)

theorem kept_aside (tracked : Tracked process log) {walker : Walker} (member : walker ∈ process.walkers)
    {index : Nat} (keeps : Suite.KeepsOthers index process.suite between.suite)
    (different : walker.1.branch ≠ index) {new : Log} (spares : new.Spares walker.1.branch) :
    ∃ branch, between.suite.branch? walker.1.branch = some branch ∧
      walker.2.Keeps (log.append new) walker.1 branch := by
  obtain ⟨branch, found, kept⟩ := tracked.kept walker member
  obtain ⟨other, present, stands⟩ := tracked.order.orderly.stands walker member
  obtain rfl : other = branch := Option.some.inj (present.symm.trans found)
  refine ⟨other, ?_, kept.append_spares spares⟩
  rcases keeps.others _ different with same | ⟨skipped, line, located, idle, _⟩
  · exact same.trans found
  · obtain rfl : skipped = other := Option.some.inj (located.symm.trans found)
    simp [stands.busy] at idle

theorem kept_moves (tracked : Tracked process log) (moves : Moves setting process action between) :
    ∀ walker ∈ between.walkers, ∃ branch, between.suite.branch? walker.1.branch = some branch ∧
      walker.2.Keeps (log.append (process.noted setting action)) walker.1 branch := by
  intro walker member
  cases moves with
  | walked purpose cursor activity rest walking held suite holds =>
      obtain ⟨before, after, trodden⟩ := tracked.trodden setting walking held
      have treads := trodden.treads
      rcases List.mem_append.mp (holds.mem_iff.mp member) with own | other
      · have remains := Option.mem_toList.mp own
        have same := Cursor.of_remains remains
        rw [same, suite, treads.own]
        exact ⟨after, treads.found, trodden.remains remains⟩
      · have different := (tracked.order.orderly.perm rfl held.symm).ne_of_mem other
        rw [← suite] at treads
        exact tracked.kept_aside (held.mem_iff.mpr (List.mem_cons_of_mem _ other)) treads.others
          different (trodden.notes.spares different)
  | claimed index claims still suite holds =>
      have spares : ∀ other, (process.noted setting (.turn _)).Spares other :=
        Process.spares_of_still (by rintro _ ⟨⟩; exact still)
      obtain ⟨branch, found, idle, untouched, elsewhere⟩ := tracked.order.fresh claims
      have keeps := Suite.keepsOthers_modify index process.suite Suite.markRunning
      rw [← suite] at keeps
      rcases List.mem_cons.mp (holds.mem_iff.mp member) with rfl | other
      · have unused := (tracked.unused.resolve_left (tracked.order.running_of_claimed claims)) index
          branch found idle
        refine ⟨Suite.markRunning branch, ?_, .inr ⟨0, untouched.settled.of_steps rfl, ?_⟩⟩
        · rw [suite]
          exact Suite.branch?_modify_self found _
        · exact unused.append_spares (spares index)
      · exact tracked.kept_aside other keeps (elsewhere _ other) (spares _)
  | restaged cursor scope stage rest still unclaimed held branches taken holds =>
      have spares : ∀ index, (process.noted setting _).Spares index := Process.spares_of_still still
      rcases List.mem_cons.mp (holds.mem_iff.mp member) with rfl | other
      · obtain ⟨branch, found, kept⟩ :=
          tracked.kept cursor.resting (held.mem_iff.mpr List.mem_cons_self)
        refine ⟨branch, (Suite.branch?_congr branches _).trans found, ?_⟩
        have kept := kept.append_spares (spares cursor.branch)
        rcases taken with rfl | rfl
        · exact kept
        · exact kept
      · obtain ⟨branch, found, kept⟩ :=
          tracked.kept walker (held.mem_iff.mpr (List.mem_cons_of_mem _ other))
        exact ⟨branch, (Suite.branch?_congr branches _).trans found, kept.append_spares (spares _)⟩
  | stayed still unclaimed branches holds =>
      obtain ⟨branch, found, kept⟩ := tracked.kept walker (holds.mem_iff.mp member)
      exact ⟨branch, (Suite.branch?_congr branches _).trans found,
        kept.append_spares (Process.spares_of_still still _)⟩
  | prepared still fresh branches holds =>
      obtain ⟨branch, found, kept⟩ := tracked.kept walker (holds.mem_iff.mp member)
      have spares : (process.noted setting _).Spares walker.1.branch :=
        Process.spares_of_still (fun thread same => absurd same (still thread)) _
      refine ⟨_, (Suite.branch?_map branches _).trans (congrArg _ found), ?_⟩
      exact (kept.append_spares spares).of_same rfl rfl
  | swept still unclaimed branches dropped =>
      rw [dropped] at member
      cases member

theorem unused_moves (tracked : Tracked process log) (moves : Moves setting process action between)
    (unused : ∀ index branch, process.suite.branch? index = some branch → branch.isIdle = true →
      log.Spares index) :
    between.runner.control.phase = .stopped ∨ ∀ index branch,
      between.suite.branch? index = some branch → branch.isIdle = true →
        (log.append (process.noted setting action)).Spares index := by
  cases moves with
  | walked purpose cursor activity rest walking held suite holds =>
      obtain ⟨before, after, trodden⟩ := tracked.trodden setting walking held
      have treads := trodden.treads
      rw [← suite] at treads
      refine .inr fun index branch found idle => ?_
      by_cases same : index = cursor.branch
      · subst same
        obtain rfl : after = branch := Option.some.inj (treads.found.symm.trans found)
        simp [treads.follows.busy] at idle
      · rcases treads.others.others index same with unchanged | ⟨skipped, line, _, _, located⟩
        · exact (unused index branch (unchanged.symm.trans found) idle).append_spares
            (trodden.notes.spares same)
        · obtain rfl : Suite.skip line skipped = branch := Option.some.inj (located.symm.trans found)
          simp [Branch.isIdle_skip] at idle
  | claimed index claims still suite holds =>
      have spares : ∀ other, (process.noted setting (.turn _)).Spares other :=
        Process.spares_of_still (by rintro _ ⟨⟩; exact still)
      obtain ⟨before, present, _⟩ := tracked.order.fresh claims
      refine .inr fun other branch found idle => ?_
      rw [suite] at found
      by_cases same : other = index
      · subst same
        rw [Suite.branch?_modify_self present] at found
        obtain rfl := Option.some.inj found
        simp [Suite.markRunning, Branch.isIdle] at idle
      · rw [Suite.branch?_modify_of_ne same] at found
        exact (unused other branch found idle).append_spares (spares other)
  | restaged cursor scope stage rest still unclaimed held branches =>
      refine .inr fun index branch found idle => ?_
      rw [Suite.branch?_congr branches] at found
      exact (unused index branch found idle).append_spares (Process.spares_of_still still index)
  | stayed still unclaimed branches =>
      refine .inr fun index branch found idle => ?_
      rw [Suite.branch?_congr branches] at found
      exact (unused index branch found idle).append_spares (Process.spares_of_still still index)
  | prepared still fresh branches =>
      refine .inr fun index branch found idle => ?_
      rw [Suite.branch?_map branches] at found
      obtain ⟨before, present, rfl⟩ := Option.map_eq_some_iff.mp found
      exact (unused index before present idle).append_spares
        (Process.spares_of_still (fun thread same => absurd same (still thread)) index)
  | swept still unclaimed branches dropped stopped => exact .inl stopped

theorem perform (tracked : Tracked process log) (action : Action) :
    Tracked (process.perform setting action) (log.append (process.noted setting action)) := by
  obtain ⟨between, moves, settles⟩ :=
    Process.perform_moves setting tracked.order.sound tracked.order.started action
  have same := Suite.branch?_congr settles.branches
  refine ⟨tracked.order.perform action, ?_, ?_, tracked.proper_moves moves⟩
  · intro walker member
    rcases settles.walkers with kept | ⟨_, dropped⟩
    · obtain ⟨branch, found, keeps⟩ := tracked.kept_moves moves walker (kept.mem_iff.mp member)
      exact ⟨branch, (same _).trans found, keeps⟩
    · rw [dropped] at member
      cases member
  · rcases tracked.unused with stopped | unused
    · exact .inl (Process.stopped_perform tracked.order.sound stopped action)
    · refine (tracked.unused_moves moves unused).imp settles.final fun unused index branch found => ?_
      exact unused index branch ((same _).symm.trans found)

theorem after (setting : Setting Call Env) (runner : Runner Env) (schedule : List Action) :
    Tracked ((runner.ready setting).after setting schedule)
      ((runner.ready setting).log setting schedule) := by
  induction schedule using List.reverseRecOn with
  | nil =>
      have none : ∀ index, (Log.mk [] [] []).Spares index := fun index => ⟨nofun, nofun, nofun, nofun⟩
      refine ⟨Process.inOrder_ready setting runner, ?_, ?_, ⟨.nil, nofun, .nil⟩⟩
      · intro walker member
        rw [Process.after_nil, Process.walkers_ready] at member
        cases member
      · exact .inr fun index _ _ _ => none index
  | append_singleton schedule action ih =>
      rw [Process.after_concat, Process.log_concat]
      exact ih.perform action

end Tracked

end Run

end TestTree
