import Mathlib.Data.List.Infix
import TestTree.Proofs.Run.Load

/-!
Scheduling safety. While nobody raises the stop token, every branch under way is owned by exactly one
cursor, there are no more owners than workers, no two branches under way share an id, no branch is
claimed twice, and the branches of one id are claimed in their order.
-/
namespace TestTree.Run

variable {Call Env : Type}

/-- Nobody raised the stop token, at any moment of a schedule. -/
def Process.Unstopped (setting : Setting Call Env) (process : Process Call Env)
    (schedule : List Action) : Prop :=
  ∀ moment, moment <+: schedule → (process.after setting moment).isStopped = false

instance (setting : Setting Call Env) (process : Process Call Env) (schedule : List Action) :
    Decidable (process.Unstopped setting schedule) :=
  decidable_of_iff
    (∀ moment ∈ schedule.inits, (process.after setting moment).isStopped = false)
    (by simp only [Process.Unstopped, List.mem_inits])

/-- What is safe about a process at a moment, and about the claims made until then. -/
structure Process.Safe (setting : Setting Call Env) (process : Process Call Env)
    (claims : List Nat) : Prop where
  exclusive : process.owned.Nodup
  covered : ∀ index branch, process.suite.branch? index = some branch →
    branch.isActive = true → index ∈ process.owned
  bounded : process.owned.length ≤ max setting.maxParallel 1
  separate : ∀ index other branch fellow id, process.suite.branch? index = some branch →
    process.suite.branch? other = some fellow → branch.isActive = true → fellow.isActive = true →
    branch.nonParallelId = some id → fellow.nonParallelId = some id → index = other
  once : claims.Nodup
  ascending : claims.Pairwise fun earlier later => ∀ branch fellow id,
    process.suite.branch? earlier = some branch → process.suite.branch? later = some fellow →
    branch.nonParallelId = some id → fellow.nonParallelId = some id → earlier < later

/-- A walk leaves its branch only at its end, in front of a step, or when the run is to stop. -/
theorem Walk.isStopped_of_stopped {setting : Setting Call Env} {purpose : Purpose}
    {cursor next : Cursor} {shared after : Shared Env} {stage : Stage}
    (walk : Walk setting purpose cursor shared stage after next (.away .stopped)) :
    shared.world.isStopped = true := by
  cases walk with
  | halted stopped => exact stopped
  | recorded index error arrival goes => simp at goes

namespace Process

variable {setting : Setting Call Env} {process between : Process Call Env} {action : Action}

theorem ending?_join (runner : Runner Env) (paused : List Cursor) :
    (join runner paused : Process Call Env).operation.ending? ≠ some .stop := by
  unfold join
  split
  · simp [ending?_enterAfterEverything]
  · split
    · simp [ending?_enterAfterEverything]
    · nofun

theorem ending?_afterSingle (runner : Runner Env) (cursor : Cursor) (departure : Departure) :
    (afterSingle runner cursor departure : Process Call Env).operation.ending? ≠ some .stop := by
  unfold afterSingle
  split
  · nofun
  · split
    · nofun
    · split
      · nofun
      · simp [ending?_enterAfterEverything]

theorem ending?_turn {thread : Nat} {after : Process Call Env}
    (turns : Turns setting process thread after) (stopping : after.operation.ending? = some .stop) :
    process.operation.ending? = some .stop := by
  cases turns with
  | rested => exact stopping
  | tended runner operation tended was aside ending => exact ending.mp stopping
  | joined => exact absurd stopping (ending?_join _ _)
  | departed => exact absurd stopping (ending?_afterSingle _ _ _)
  | concluded ending => cases ending <;> cases stopping
  | started | worked | walked | delayed | injected => cases stopping

theorem ending?_launch {runner : Runner Env} {request : Request} {after : Process Call Env}
    (launches : Launches setting runner request after)
    (stopping : after.operation.ending? = some .stop) : after.isStopped = true := by
  cases launches with
  | begun operation running opens => rcases opens with rfl | rfl <;> cases stopping
  | stopped => exact isStopped_enterAfterEverything _ _
  | refused | prepared | single | injecting | injected => cases stopping

/-- Only a request to stop makes a process one that stops, and that raises the stop token. -/
theorem ending?_perform
    (stopping : (process.perform setting action).operation.ending? = some .stop) :
    process.operation.ending? = some .stop ∨ (process.perform setting action).isStopped = true := by
  cases action with
  | turn thread => exact .inl (ending?_turn (turn_turns setting process thread) stopping)
  | request request =>
      simp only [perform] at stopping ⊢
      split
      · next finished =>
        rw [if_pos finished] at stopping
        exact .inr (ending?_launch (launch_launches setting process.runner request) stopping)
      · next busy =>
        rw [if_neg busy] at stopping
        exact .inl stopping
  | raiseStop => exact .inl stopping
  | wait milliseconds => exact .inl stopping

def Covered (process : Process Call Env) : Prop :=
  ∀ index branch, process.suite.branch? index = some branch → branch.isActive = true →
    index ∈ process.owned

theorem mem_owned {index : Nat} :
    index ∈ process.owned ↔ ∃ walker ∈ process.walkers, walker.1.branch = index := by
  simp only [owned, List.mem_map]

theorem owned_perm {other : Process Call Env} (permuted : other.walkers.Perm process.walkers) :
    other.owned.Perm process.owned :=
  permuted.map _

/-- The owner of a branch keeps it until the branch is at its end, or the run is to stop. -/
theorem InOrder.covered_moves (order : process.InOrder) (moves : Moves setting process action between)
    (onward : ∀ thread purpose cursor activity, action = .turn thread →
      process.walk? thread = some (purpose, cursor, activity) →
      (cursor.turn setting purpose process.runner.shared activity).turn.arrival ≠ .away .stopped)
    (covered : process.Covered) :
    between.Covered ∨
      process.operation.ending? = some .stop ∧ between.runner.control.phase = .stopped := by
  rw [or_iff_not_imp_right]
  intro going index after found active
  obtain ⟨before, present, evolves⟩ := order.evolves moves found
  have earlier := evolves.active active
  cases moves with
  | walked purpose cursor activity rest walking held suite holds =>
      obtain ⟨_, own, _, _, treads⟩ := (order.orderly.perm rfl held.symm).treads setting purpose
      rw [mem_owned]
      by_cases same : index = cursor.branch
      · subst same
        rw [suite] at found
        obtain rfl : own = after := Option.some.inj (treads.found.symm.trans found)
        have unfinished := (Branch.isActive_iff.mp active).2
        cases arrives : (cursor.turn setting purpose process.runner.shared activity).turn.arrival with
        | «at» stage =>
            rw [arrives] at holds
            exact ⟨_, holds.mem_iff.mpr List.mem_cons_self, treads.own⟩
        | away departure =>
            rw [arrives] at holds treads
            cases departure with
            | done => simp [treads.done rfl] at unfinished
            | paused => exact ⟨_, holds.mem_iff.mpr List.mem_cons_self, treads.own⟩
            | stopped => exact absurd arrives (onward _ purpose cursor activity rfl walking)
      · have running := earlier.resolve_right fun claims => by
          simp [claimed_of_walk walking] at claims
        obtain ⟨owner, member, owns⟩ := mem_owned.mp (covered index before present running)
        rcases List.mem_cons.mp (held.mem_iff.mp member) with rfl | inside
        · exact absurd owns.symm same
        · exact ⟨owner, holds.mem_iff.mpr (List.mem_append_right _ inside), owns⟩
  | claimed claim claims still suite holds =>
      rw [mem_owned]
      rcases earlier with running | now
      · obtain ⟨owner, member, owns⟩ := mem_owned.mp (covered index before present running)
        exact ⟨owner, holds.mem_iff.mpr (List.mem_cons_of_mem _ member), owns⟩
      · obtain rfl : claim = index := Option.some.inj (claims.symm.trans now)
        exact ⟨_, holds.mem_iff.mpr List.mem_cons_self, rfl⟩
  | restaged cursor scope stage rest still unclaimed held branches taken holds =>
      have running := earlier.resolve_right fun claims => by simp [unclaimed] at claims
      obtain ⟨owner, member, owns⟩ := mem_owned.mp (covered index before present running)
      rw [mem_owned]
      rcases List.mem_cons.mp (held.mem_iff.mp member) with rfl | inside
      · exact ⟨_, holds.mem_iff.mpr List.mem_cons_self, owns⟩
      · exact ⟨owner, holds.mem_iff.mpr (List.mem_cons_of_mem _ inside), owns⟩
  | stayed still unclaimed branches holds =>
      have running := earlier.resolve_right fun claims => by simp [unclaimed] at claims
      exact (owned_perm holds).mem_iff.mpr (covered index before present running)
  | prepared still fresh branches holds =>
      have running := earlier.resolve_right fun claims => by
        cases action with
        | turn thread => exact still thread rfl
        | request | raiseStop | wait => simp [claimed] at claims
      exact (owned_perm holds).mem_iff.mpr (covered index before present running)
  | swept still unclaimed branches dropped stopped stopping => exact absurd ⟨stopping, stopped⟩ going

theorem InOrder.covered_perform (order : process.InOrder)
    (going : process.operation.ending? ≠ some .stop) (unstopped : process.isStopped = false)
    (calm : (process.perform setting action).isStopped = false) (covered : process.Covered) :
    (process.perform setting action).Covered := by
  obtain ⟨between, moves, settles⟩ := perform_moves setting order.sound order.started action
  have onward (purpose : Purpose) (cursor : Cursor) (activity : Activity Call) :
      (cursor.turn setting purpose process.runner.shared activity).turn.arrival ≠ .away .stopped := by
    intro arrives
    have walk := Cursor.turn_walks setting purpose cursor process.runner.shared activity
    dsimp only at walk
    rw [arrives] at walk
    exact Bool.false_ne_true (unstopped.symm.trans walk.isStopped_of_stopped)
  have covered := (order.covered_moves moves (fun _ purpose cursor activity _ _ =>
    onward purpose cursor activity) covered).resolve_right fun stopping => going stopping.1
  intro index after found active
  rw [Suite.branch?_congr settles.branches] at found
  rcases settles.walkers with kept | ⟨stopped, -⟩
  · exact (owned_perm kept).mem_iff.mpr (covered index after found active)
  · simp [stopped] at calm

/-- What holds of a process and the claims made so far, while nobody raises the stop token. -/
structure Guarded (setting : Setting Call Env) (process : Process Call Env) (claims : List Nat) :
    Prop where
  order : process.InOrder
  load : process.load ≤ max setting.maxParallel 1
  going : process.operation.ending? ≠ some .stop
  fresh : setting.skipPassed = false → ∀ index branch, process.suite.branch? index = some branch →
    branch.passedLastTime = false
  safe : process.Safe setting claims
  /-- What was claimed is never idle again. -/
  taken : ∀ claim ∈ claims, ∀ branch, process.suite.branch? claim = some branch →
    branch.isIdle = false
  /-- No branch waits that shares its id with a later one that was claimed. -/
  passed : ∀ later ∈ claims, ∀ earlier < later, ∀ branch fellow id,
    process.suite.branch? earlier = some branch → process.suite.branch? later = some fellow →
    branch.nonParallelId = some id → fellow.nonParallelId = some id → branch.isWaiting = false

theorem Moves.of_claimed {index : Nat} (moves : Moves setting process action between)
    (claims : process.claimed action = some index) :
    between.suite = process.suite.modify index Suite.markRunning := by
  cases moves with
  | walked purpose cursor activity rest walking held suite holds =>
      simp [claimed_of_walk walking] at claims
  | claimed claim chosen still suite holds =>
      obtain rfl : claim = index := Option.some.inj (chosen.symm.trans claims)
      exact suite
  | restaged cursor scope stage rest still unclaimed => simp [unclaimed] at claims
  | stayed still unclaimed => simp [unclaimed] at claims
  | prepared still =>
      cases action with
      | turn thread => exact absurd rfl (still thread)
      | request | raiseStop | wait => simp [claimed] at claims
  | swept still unclaimed => simp [unclaimed] at claims

/-- No branch waits whose id is that of the branch claimed, and that stands in front of it. -/
theorem not_isWaiting_of_claimed {earlier later : Nat} {branch fellow : Branch} {id : Text}
    (claims : process.claimed action = some later) (before : earlier < later)
    (found : process.suite.branch? earlier = some branch)
    (present : process.suite.branch? later = some fellow)
    (own : branch.nonParallelId = some id) (shared : fellow.nonParallelId = some id) :
    branch.isWaiting = false := by
  obtain ⟨chosen, located, _, free, first⟩ := Suite.nextBranch_eq_some (claimed_eq_some claims).1
  obtain rfl : chosen = fellow := Option.some.inj (located.symm.trans present)
  have refused := first earlier branch before found
  have idle := free id shared
  simpa [Suite.mayStart, own, idle] using refused

theorem Guarded.not_isWaiting {claims : List Nat} (guarded : process.Guarded setting claims)
    {index : Nat} {claim : Prop} {before after : Branch}
    (found : process.suite.branch? index = some before)
    (evolves : Evolves setting (process.operation.ending? ≠ some .stop) claim before after)
    (settled : before.isWaiting = false) : after.isWaiting = false := by
  rw [Branch.isWaiting, Bool.and_eq_false_iff] at settled ⊢
  rcases settled with busy | known
  · exact .inl (evolves.busy guarded.going busy)
  · rcases evolves.known with same | ⟨keeps, _⟩
    · exact .inr (same ▸ known)
    · simp [guarded.fresh keeps index before found] at known

/-- A branch that is claimed shares its id with no active one. -/
theorem not_claimed_of_active {index other : Nat} {branch fellow : Branch} {id : Text}
    (found : process.suite.branch? index = some branch)
    (present : process.suite.branch? other = some fellow) (active : branch.isActive = true)
    (own : branch.nonParallelId = some id) (shared : fellow.nonParallelId = some id) :
    process.claimed action ≠ some other := by
  intro claims
  obtain ⟨chosen, located, _, free, _⟩ := Suite.nextBranch_eq_some (claimed_eq_some claims).1
  obtain rfl : chosen = fellow := Option.some.inj (located.symm.trans present)
  exact free id shared (Suite.mem_busyIds.mpr ⟨index, branch, found, active, own⟩)

section Guarded

variable {claims : List Nat}

theorem InOrder.evolves_perform (order : process.InOrder) {index : Nat} {after : Branch}
    (found : (process.perform setting action).suite.branch? index = some after) :
    ∃ before, process.suite.branch? index = some before ∧
      Evolves setting (process.operation.ending? ≠ some .stop) (process.claimed action = some index)
        before after := by
  obtain ⟨between, moves, settles⟩ := perform_moves setting order.sound order.started action
  rw [Suite.branch?_congr settles.branches] at found
  exact order.evolves moves found

theorem Guarded.separate_perform (guarded : process.Guarded setting claims)
    {index other : Nat} {branch fellow : Branch} {id : Text}
    (found : (process.perform setting action).suite.branch? index = some branch)
    (present : (process.perform setting action).suite.branch? other = some fellow)
    (active : branch.isActive = true) (running : fellow.isActive = true)
    (own : branch.nonParallelId = some id) (shared : fellow.nonParallelId = some id) :
    index = other := by
  obtain ⟨before, found, first⟩ := guarded.order.evolves_perform found
  obtain ⟨mate, present, second⟩ := guarded.order.evolves_perform present
  rw [first.id] at own
  rw [second.id] at shared
  rcases first.active active with active | claims
  · rcases second.active running with running | claims
    · exact guarded.safe.separate index other before mate id found present active running own shared
    · exact absurd claims (not_claimed_of_active found present active own shared)
  · rcases second.active running with running | again
    · exact absurd claims (not_claimed_of_active present found running shared own)
    · exact Option.some.inj (claims.symm.trans again)

/-- A branch is claimed behind all those claimed before it that share its id. -/
theorem Guarded.lt_of_claimed (guarded : process.Guarded setting claims) {earlier later : Nat}
    {branch fellow : Branch} {id : Text} (member : earlier ∈ claims)
    (claimed : process.claimed action = some later)
    (found : process.suite.branch? earlier = some branch)
    (present : process.suite.branch? later = some fellow)
    (own : branch.nonParallelId = some id) (shared : fellow.nonParallelId = some id) :
    earlier < later := by
  obtain ⟨chosen, located, waiting, _⟩ := Suite.nextBranch_eq_some (claimed_eq_some claimed).1
  obtain rfl : chosen = fellow := Option.some.inj (located.symm.trans present)
  rcases Nat.lt_trichotomy earlier later with less | rfl | greater
  · exact less
  · have busy := guarded.taken earlier member chosen present
    simp [Branch.isWaiting, busy] at waiting
  · have settled :=
      guarded.passed earlier member later greater chosen branch id present found shared own
    simp [settled] at waiting

theorem Guarded.perform (guarded : process.Guarded setting claims)
    (unstopped : process.isStopped = false)
    (calm : (process.perform setting action).isStopped = false) :
    (process.perform setting action).Guarded setting
      (claims ++ (process.claimed action).toList) := by
  have order : (process.perform setting action).InOrder := guarded.order.perform action
  have load := load_perform guarded.load action
  have covered : (process.perform setting action).Covered :=
    guarded.order.covered_perform guarded.going unstopped calm guarded.safe.covered
  refine ⟨order, load, ?going, ?fresh, ⟨order.orderly.distinct, covered, ?bounded, ?separate, ?once,
    ?ascending⟩, ?taken, ?passed⟩
  case going =>
    intro stopping
    rcases ending?_perform stopping with earlier | stopped
    · exact guarded.going earlier
    · simp [stopped] at calm
  case fresh =>
    intro keeps index after found
    obtain ⟨before, present, evolves⟩ := guarded.order.evolves_perform found
    rcases evolves.known with same | ⟨_, known⟩
    · exact same.trans (guarded.fresh keeps index before present)
    · exact known
  case bounded => exact Nat.le_trans (length_owned_le _) load
  case separate =>
    intro index other branch fellow id found present active running own shared
    exact guarded.separate_perform found present active running own shared
  case once =>
    rw [List.nodup_append]
    refine ⟨guarded.safe.once, by cases process.claimed action <;> simp, ?_⟩
    rintro claim member _ claims rfl
    obtain ⟨branch, found, idle, _⟩ := guarded.order.fresh (Option.mem_toList.mp claims)
    simp [guarded.taken claim member branch found] at idle
  case ascending =>
    rw [List.pairwise_append]
    refine ⟨?_, by cases process.claimed action <;> simp, ?_⟩
    · refine guarded.safe.ascending.imp ?_
      intro earlier later ascends branch fellow id found present own shared
      obtain ⟨before, found, first⟩ := guarded.order.evolves_perform found
      obtain ⟨mate, present, second⟩ := guarded.order.evolves_perform present
      exact ascends before mate id found present (first.id ▸ own) (second.id ▸ shared)
    · intro earlier member later claims branch fellow id found present own shared
      obtain ⟨before, found, first⟩ := guarded.order.evolves_perform found
      obtain ⟨mate, present, second⟩ := guarded.order.evolves_perform present
      exact guarded.lt_of_claimed member (Option.mem_toList.mp claims) found present
        (first.id ▸ own) (second.id ▸ shared)
  case taken =>
    intro claim member after found
    obtain ⟨before, present, evolves⟩ := guarded.order.evolves_perform found
    rcases List.mem_append.mp member with old | new
    · exact evolves.busy guarded.going (guarded.taken claim old before present)
    · obtain ⟨between, moves, settles⟩ :=
        perform_moves setting guarded.order.sound guarded.order.started action
      rw [Suite.branch?_congr settles.branches, Moves.of_claimed moves (Option.mem_toList.mp new),
        Suite.branch?_modify_self present] at found
      obtain rfl := Option.some.inj found
      simp [Suite.markRunning, Branch.isIdle]
  case passed =>
    intro later member earlier less branch fellow id found present own shared
    obtain ⟨before, found, first⟩ := guarded.order.evolves_perform found
    obtain ⟨mate, present, second⟩ := guarded.order.evolves_perform present
    rw [first.id] at own
    rw [second.id] at shared
    refine guarded.not_isWaiting found first ?_
    rcases List.mem_append.mp member with old | new
    · exact guarded.passed later old earlier less before mate id found present own shared
    · exact not_isWaiting_of_claimed (Option.mem_toList.mp new) less found present own shared

end Guarded

theorem guarded_ready (setting : Setting Call Env) (runner : Runner Env) :
    (runner.ready setting).Guarded setting [] := by
  have order := inOrder_ready setting runner
  have idle : ∀ index branch, (runner.ready setting).suite.branch? index = some branch →
      branch.isActive = false := by
    intro index branch found
    obtain ⟨before, known, _, rfl, _⟩ := branch?_ready found
    simp [Branch.reset, Branch.isActive]
  have load := load_after setting runner []
  refine ⟨order, load, fun stops => (by cases stops), ?_,
    ⟨order.orderly.distinct, ?_, ?_, ?_, .nil, .nil⟩, by simp, by simp⟩
  · intro keeps index branch found
    obtain ⟨before, known, _, rfl, fresh⟩ := branch?_ready found
    exact fresh keeps
  · intro index branch found active
    simp [idle index branch found] at active
  · exact Nat.le_trans (length_owned_le _) load
  · intro index other branch fellow id found present active
    simp [idle index branch found] at active

theorem guarded_after (setting : Setting Call Env) (runner : Runner Env) {schedule : List Action}
    (unstopped : (runner.ready setting).Unstopped setting schedule) :
    ((runner.ready setting).after setting schedule).Guarded setting
      ((runner.ready setting).history setting claimed schedule) := by
  induction schedule using List.reverseRecOn with
  | nil => exact guarded_ready setting runner
  | append_singleton schedule action ih =>
      have now := unstopped _ (List.prefix_rfl)
      rw [after_concat] at now
      rw [after_concat, history_concat]
      refine (ih fun moment earlier => unstopped moment ?_).perform
        (unstopped schedule (List.prefix_append _ _)) now
      exact earlier.trans (List.prefix_append _ _)

/-- After every schedule of requests and turns in which nobody raises the stop token, the process is
safe. -/
theorem safe_after (setting : Setting Call Env) (runner : Runner Env) (schedule : List Action)
    (unstopped : (runner.ready setting).Unstopped setting schedule) :
    ((runner.ready setting).after setting schedule).Safe setting
      ((runner.ready setting).history setting claimed schedule) :=
  (guarded_after setting runner unstopped).safe

/-- Bodies that end at once and change nothing. -/
def silent : Executor Variables Unit where
  start _ scope := scope
  advance scope world := (.done (.ok none) scope, world)

/-- Two branches with one id. -/
def twins : Runner Unit :=
  let twin : Branch := { steps := [.ofStep {} 0], nonParallelId := some "shared".toList }
  .initial { branches := [twin, twin] } ()

/-- Two workers start, the second walks along the first branch, and then the first claims the other. -/
def relay : List Action :=
  .request .run :: List.replicate 3 (.turn 0) ++ List.replicate 7 (.turn 1) ++ [.turn 0]

theorem safe_after_relay :
    let setting := { executor := silent, tree := .empty, maxParallel := 2 }
    (twins.ready setting).Unstopped setting relay ∧
      ((twins.ready setting).after setting relay).Safe setting [0, 1] := by
  intro setting
  have unstopped : (twins.ready setting).Unstopped setting relay := by decide
  have claims : (twins.ready setting).history setting claimed relay = [0, 1] := by decide
  have safe := safe_after setting twins relay unstopped
  rw [claims] at safe
  exact ⟨unstopped, safe⟩

end Process

end TestTree.Run
