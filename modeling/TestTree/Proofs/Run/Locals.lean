import TestTree.Proofs.Branch.Nesting
import TestTree.Run.Cursor

/-!
Where local variables come from. Frames are kept by level, and a frame is dropped when a step of a shallower
level is begun. So what a frame holds was put there by a step that was begun, with none begun since that is
shallower than the frame: its parameters by the call one level up, anything else by an assignment.
-/
namespace TestTree

open Run

/-- Whether a step sets a local variable of this name. -/
def BranchStep.SetsLocal (step : BranchStep) (name : Text) : Prop :=
  ∃ assignment ∈ step.assignments, assignment.isLocal = true ∧ Text.trim assignment.name = name

def BranchStep.HasParameter (step : BranchStep) (name : Text) : Prop :=
  name ∈ step.bindings.map (·.name)

/-- A local of the frame at level `depth` comes from a step that was begun: it is its parameter or was set by
it, and no later step that was begun is shallower than the frame. -/
structure Stems (steps : List BranchStep) (begun : Nat → Prop) (depth : Nat) (name : Text) (index : Nat)
    (step : BranchStep) : Prop where
  found : steps[index]? = some step
  counted : begun index
  since : ∀ later other, begun later → index < later → steps[later]? = some other →
    depth ≤ other.branchIndents
  gives : step.branchIndents + 1 = depth ∧ step.HasParameter name ∨
    step.branchIndents = depth ∧ step.SetsLocal name

/-- All that the frames hold comes from steps that were begun. -/
def Accounts (steps : List BranchStep) (begun : Nat → Prop) (scope : Variables) : Prop :=
  ∀ depth frame, scope.frames[depth]? = some frame → ∀ name ∈ frame.map Prod.fst,
    ∃ index step, Stems steps begun depth name index step

namespace Bindings

variable {bindings inner : Bindings} {name other value : Text}

theorem mem_names_set : name ∈ (bindings.set other value).map Prod.fst ↔
    name = other ∨ name ∈ bindings.map Prod.fst := by
  induction bindings with
  | nil => simp [set]
  | cons binding rest ih =>
      rw [set]
      split
      · next same => simp [same]
      · next different => simp only [List.map_cons, List.mem_cons, ih, or_left_comm]

theorem mem_names_override (listed : name ∈ (override bindings inner).map Prod.fst) :
    name ∈ bindings.map Prod.fst ∨ name ∈ inner.map Prod.fst := by
  induction inner generalizing bindings with
  | nil => exact .inl listed
  | cons binding rest ih =>
      rcases ih listed with here | there
      · rcases mem_names_set.mp here with rfl | before
        · exact .inr (.head _)
        · exact .inl before
      · exact .inr (.tail _ there)

theorem mem_names_of_get? (found : bindings.get? name = some value) : name ∈ bindings.map Prod.fst := by
  obtain ⟨binding, first, rfl⟩ := Option.map_eq_some_iff.mp found
  have same := List.find?_some first
  rw [← beq_iff_eq.mp same]
  exact List.mem_map_of_mem (List.mem_of_find?_eq_some first)

end Bindings

namespace Variables

variable {scope : Variables} {depth level : Nat} {frame : Bindings} {name value : Text}

theorem frames_padded {frames : List Bindings} (found : (padded frames depth)[level]? = some frame) :
    frame = [] ∨ frames[level]? = some frame := by
  rw [padded, List.getElem?_append] at found
  split at found
  · exact .inr found
  · exact .inl (List.eq_of_mem_replicate (List.mem_of_getElem? found))

/-- Entering a level adds empty frames only, and keeps none deeper. -/
theorem frames_enter (entered : (scope.enter depth).frames[level]? = some frame) :
    frame = [] ∨ level ≤ depth ∧ scope.frames[level]? = some frame := by
  refine (frames_padded entered).imp_right fun kept => ?_
  rw [List.getElem?_take] at kept
  split at kept
  · exact ⟨by omega, kept⟩
  · cases kept

theorem length_enter (scope : Variables) (depth : Nat) : (scope.enter depth).frames.length = depth + 1 := by
  simp only [enter, padded, List.length_append, List.length_take, List.length_replicate]
  omega

theorem take_padded (frames : List Bindings) {level depth : Nat} (shallow : level ≤ depth) :
    (padded (frames.take (depth + 1)) depth).take (level + 1) = padded (frames.take (level + 1)) level := by
  rw [padded, padded, List.take_append, List.take_take, List.take_replicate, List.length_take, List.length_take]
  congr 2
  · omega
  · omega

/-- To enter a level and then one that is not deeper is to enter that one. -/
theorem enter_enter (scope : Variables) {level depth : Nat} (shallow : level ≤ depth) :
    (scope.enter depth).enter level = scope.enter level := by
  have full := scope.length_enter level
  simp only [enter] at full ⊢
  rw [take_padded _ shallow, padded, full]
  simp

/-- Setting a local gives a name to one frame only. -/
theorem names_setLocalAt (changed : (scope.setLocalAt depth name value).frames[level]? = some frame)
    {listed : Text} (member : listed ∈ frame.map Prod.fst) :
    level = depth ∧ listed = Text.trim name ∨
      ∃ before, scope.frames[level]? = some before ∧ listed ∈ before.map Prod.fst := by
  have kept {before : Bindings} (found : (padded scope.frames depth)[level]? = some before)
      (member : listed ∈ before.map Prod.fst) :
      ∃ before, scope.frames[level]? = some before ∧ listed ∈ before.map Prod.fst := by
    rcases frames_padded found with rfl | found
    · cases member
    · exact ⟨before, found, member⟩
  rw [setLocalAt, List.getElem?_modify] at changed
  obtain ⟨before, found, rfl⟩ := Option.map_eq_some_iff.mp changed
  split at member
  · next same =>
      rcases Bindings.mem_names_set.mp member with own | old
      · exact .inl ⟨same.symm, own⟩
      · exact .inr (kept found old)
  · exact .inr (kept found member)

theorem names_resolveBindings {bindings : List ParamBinding} {resolved : Bindings}
    (resolves : scope.resolveBindings bindings = .ok resolved) :
    resolved.map Prod.fst = bindings.map (·.name) := by
  induction bindings generalizing resolved with
  | nil =>
      cases resolves
      rfl
  | cons binding rest ih =>
      rw [resolveBindings] at resolves
      cases found : scope.resolveInput binding.input with
      | error unknown =>
          rw [found] at resolves
          cases resolves
      | ok value =>
          rw [found] at resolves
          cases others : scope.resolveBindings rest with
          | error unknown =>
              simp only [others, bind, Except.bind] at resolves
              cases resolves
          | ok more =>
              simp only [others, bind, Except.bind, pure, Except.pure] at resolves
              obtain rfl := Except.ok.inj resolves
              rw [List.map_cons, List.map_cons, ih others]

/-- A local that can be read stands in a frame. -/
theorem exists_frame_of_get? (read : scope.get? name true = some value) :
    ∃ (depth : Nat) (frame : Bindings), scope.frames[depth]? = some frame ∧
      Text.trim name ∈ frame.map Prod.fst := by
  rw [get?, if_pos rfl] at read
  obtain ⟨frame, listed, found⟩ := List.exists_of_findSome?_eq_some read
  obtain ⟨depth, placed⟩ := List.getElem?_of_mem (List.mem_reverse.mp listed)
  exact ⟨depth, frame, placed, Bindings.mem_names_of_get? found⟩

end Variables

/-- The variables that a step is prepared with: those up to its level, and the frame of its parameters if all of
them are known. -/
theorem BranchStep.prepare_cases (step : BranchStep) (scope : Variables) :
    (step.prepare scope).1 = scope.enter step.branchIndents ∨
      ∃ resolved, (scope.enter step.branchIndents).resolveBindings step.bindings = .ok resolved ∧
        (step.prepare scope).1 = { scope.enter step.branchIndents with
          frames := (scope.enter step.branchIndents).frames ++ [Bindings.override [] resolved] } := by
  simp only [prepare]
  split
  · exact .inl rfl
  · split
    · next bound bindsAll =>
      rw [Variables.bindParams, Variables.enter_enter _ (Nat.le_refl _)] at bindsAll
      cases resolves : (scope.enter step.branchIndents).resolveBindings step.bindings with
      | error unknown =>
          rw [resolves] at bindsAll
          cases bindsAll
      | ok resolved =>
          rw [resolves] at bindsAll
          exact .inr ⟨resolved, rfl, (Except.ok.inj bindsAll).symm⟩
    · exact .inl rfl

section Accounting

variable {steps : List BranchStep} {begun : Nat → Prop} {scope after : Variables} {index : Nat}
  {step : BranchStep} {depth level : Nat} {frame : Bindings} {name : Text} {value : Option Text}

theorem accounts_nil (steps : List BranchStep) (begun : Nat → Prop) : Accounts steps begun {} :=
  fun _ _ absent => by cases absent

theorem Accounts.congr {others : Nat → Prop} (accounts : Accounts steps begun scope)
    (same : ∀ index, others index ↔ begun index) : Accounts steps others scope := by
  obtain rfl : others = begun := funext fun index => propext (same index)
  exact accounts

/-- What the frames hold in front of the body of a step that is just begun: its parameters, and what was there
before, at no deeper level than that of the step. -/
theorem frames_prepare (prepared : (step.prepare scope).1.frames[level]? = some frame)
    (listed : name ∈ frame.map Prod.fst) :
    level = step.branchIndents + 1 ∧ step.HasParameter name ∨
      level ≤ step.branchIndents ∧ scope.frames[level]? = some frame := by
  have entered (found : (scope.enter step.branchIndents).frames[level]? = some frame) :
      level ≤ step.branchIndents ∧ scope.frames[level]? = some frame := by
    refine (Variables.frames_enter found).resolve_left ?_
    rintro rfl
    cases listed
  rcases step.prepare_cases scope with bare | ⟨resolved, resolves, bound⟩
  · rw [bare] at prepared
    exact .inr (entered prepared)
  · rw [bound, List.getElem?_append, Variables.length_enter] at prepared
    split at prepared
    · exact .inr (entered prepared)
    · next behind =>
        obtain rfl := List.mem_singleton.mp (List.mem_of_getElem? prepared)
        have bound := (List.getElem?_eq_some_iff.mp prepared).1
        rw [List.length_singleton] at bound
        have own := (Bindings.mem_names_override listed).resolve_left List.not_mem_nil
        rw [Variables.names_resolveBindings resolves] at own
        exact .inl ⟨by omega, own⟩

/-- To begin a step behind all that were begun keeps account of the frames. -/
theorem Accounts.prepare (accounts : Accounts steps begun scope) (found : steps[index]? = some step)
    (ascending : ∀ earlier, begun earlier → earlier < index) :
    Accounts steps (fun other => begun other ∨ other = index) (step.prepare scope).1 := by
  intro depth frame prepared name listed
  rcases frames_prepare prepared listed with ⟨rfl, parameter⟩ | ⟨shallow, before⟩
  · refine ⟨index, step, found, .inr rfl, ?_, .inl ⟨rfl, parameter⟩⟩
    rintro later other (earlier | rfl) behind
    · have before := ascending later earlier
      omega
    · exact absurd behind (Nat.lt_irrefl _)
  · obtain ⟨source, giver, stems⟩ := accounts depth frame before name listed
    refine ⟨source, giver, stems.found, .inl stems.counted, ?_, stems.gives⟩
    rintro later other (earlier | rfl) behind present
    · exact stems.since later other earlier behind present
    · obtain rfl := Option.some.inj (found.symm.trans present)
      exact shallow

/-- A local that the last step begun sets is accounted for. -/
theorem Accounts.setLocalAt (accounts : Accounts steps begun scope) (found : steps[index]? = some step)
    (counted : begun index) (last : ∀ other, begun other → other ≤ index)
    (sets : step.SetsLocal (Text.trim name)) (text : Text) :
    Accounts steps begun (scope.setLocalAt step.branchIndents name text) := by
  intro depth frame changed listed member
  rcases Variables.names_setLocalAt changed member with ⟨rfl, rfl⟩ | ⟨before, kept, old⟩
  · refine ⟨index, step, found, counted, ?_, .inr ⟨rfl, sets⟩⟩
    intro later other earlier behind
    exact absurd (last later earlier) (Nat.not_le_of_lt behind)
  · exact accounts depth before kept listed old

theorem Accounts.assignOne {assignment : Assignment} (accounts : Accounts steps begun scope)
    (found : steps[index]? = some step) (counted : begun index) (last : ∀ other, begun other → other ≤ index)
    (listed : assignment ∈ step.assignments) (assigned : step.assignOne value assignment scope = .ok after) :
    Accounts steps begun after := by
  obtain ⟨text, rfl⟩ : ∃ text, after =
      if assignment.isLocal then scope.setLocalAt step.branchIndents assignment.name text
      else scope.set assignment.name text false := by
    rw [BranchStep.assignOne] at assigned
    split at assigned
    · next literal _ =>
        cases resolves : scope.substitute literal with
        | error unknown =>
            rw [resolves] at assigned
            cases assigned
        | ok text =>
            rw [resolves] at assigned
            exact ⟨text, (Except.ok.inj assigned).symm⟩
    · exact ⟨value.getD [], (Except.ok.inj assigned).symm⟩
  split
  · next isLocal => exact accounts.setLocalAt found counted last ⟨assignment, listed, isLocal, rfl⟩ text
  · exact accounts

/-- What the last step begun assigns is accounted for. -/
theorem Accounts.assign (accounts : Accounts steps begun scope) (found : steps[index]? = some step)
    (counted : begun index) (last : ∀ other, begun other → other ≤ index) (value : Option Text) :
    Accounts steps begun (step.assign value scope).1 := by
  have assigns : ∀ assignments : List Assignment,
      (∀ assignment ∈ assignments, assignment ∈ step.assignments) → ∀ scope, Accounts steps begun scope →
        Accounts steps begun (step.assignAll value assignments scope).1 := by
    intro assignments
    induction assignments with
    | nil => exact fun _ _ accounts => accounts
    | cons assignment rest ih =>
        intro among scope accounts
        obtain ⟨own, others⟩ := List.forall_mem_cons.mp among
        rw [BranchStep.assignAll]
        split
        · next assigned => exact ih others _ (accounts.assignOne found counted last own assigned)
        · exact accounts
  exact assigns step.assignments (fun _ listed => listed) scope accounts

end Accounting

/-- Whether a call is active for a later step: what comes behind it, up to that step, is deeper. Of the steps in
between only those count for which `counts` holds. -/
structure Active (steps : List BranchStep) (counts : Nat → Prop) (outer : Nat) (call : BranchStep)
    (index : Nat) : Prop where
  found : steps[outer]? = some call
  earlier : outer < index
  between : ∀ later step, outer < later → later < index → counts later → steps[later]? = some step →
    call.branchIndents < step.branchIndents
  inside : ∀ step, steps[index]? = some step → call.branchIndents < step.branchIndents

/-- A local that a step may read: a parameter of its own or of a call that is active for it, or a variable that an
earlier step set, inside the body of such a call or at the top. -/
inductive MayRead (steps : List BranchStep) (counts : Nat → Prop) (index : Nat) (name : Text) : Prop
  | own (step : BranchStep) (found : steps[index]? = some step) (parameter : step.HasParameter name)
  | parameter (outer : Nat) (call : BranchStep) (active : Active steps counts outer call index)
      (parameter : call.HasParameter name)
  | within (outer inner : Nat) (call step : BranchStep) (active : Active steps counts outer call index)
      (body : Active steps (fun _ => True) outer call inner) (earlier : inner < index)
      (found : steps[inner]? = some step) (sets : step.SetsLocal name)
  | top (inner : Nat) (step : BranchStep) (earlier : inner < index) (found : steps[inner]? = some step)
      (level : step.branchIndents = 0) (sets : step.SetsLocal name)

/-- Where steps nest, a step that is not at the top stands in the body of a call. -/
theorem NestsAll.active {steps : List BranchStep} (nests : NestsAll [] steps) {inner : Nat} {step : BranchStep}
    (found : steps[inner]? = some step) (deep : 0 < step.branchIndents) :
    ∃ outer call, Active steps (fun _ => True) outer call inner ∧
      ∀ later other, outer < later → later < inner → steps[later]? = some other →
        step.branchIndents ≤ other.branchIndents := by
  obtain ⟨bound, rfl⟩ := List.getElem?_eq_some_iff.mp found
  generalize same : steps[inner] = step at deep
  have split : steps = steps.take inner ++ step :: steps.drop (inner + 1) := by
    rw [← same, ← List.drop_eq_getElem_cons bound, List.take_append_drop]
  rw [split] at nests
  obtain ⟨declarations, listed, -, count, -⟩ := nests.nests
  cases around : enclosing step.branchIndents (steps.take inner).reverse with
  | nil =>
      rw [around, List.map_nil] at listed
      have none := congrArg List.length listed
      rw [List.length_map, count] at none
      exact absurd deep (Nat.not_lt_of_le (Nat.le_of_eq none.symm))
  | cons call outer =>
      obtain ⟨behind, older, passed, shallower, deeper⟩ := enclosing_eq_cons around
      have before : steps.take inner = older.reverse ++ call :: behind.reverse := by
        rw [← List.reverse_inj, passed]
        simp
      have length := congrArg List.length before
      rw [List.length_take, Nat.min_eq_left (Nat.le_of_lt bound), List.length_append, List.length_cons] at length
      have between : ∀ later other, older.length < later → later < inner → steps[later]? = some other →
          step.branchIndents ≤ other.branchIndents := by
        intro later other after early present
        rw [← List.getElem?_take_of_lt early, before, List.getElem?_append_right (by simp; omega)] at present
        obtain ⟨distance, apart⟩ : ∃ distance, later - older.reverse.length = distance + 1 :=
          ⟨later - older.length - 1, by simp; omega⟩
        rw [apart, List.getElem?_cons_succ] at present
        exact deeper other (List.mem_reverse.mp (List.mem_of_getElem? present))
      refine ⟨older.length, call, ⟨?_, ?_, ?_, ?_⟩, between⟩
      · have early : older.length < inner := by
          rw [length, List.length_reverse]
          omega
        rw [← List.getElem?_take_of_lt early, before, List.getElem?_append_right (by simp)]
        simp
      · rw [length, List.length_reverse]
        omega
      · intro later other after early _ present
        exact Nat.lt_of_lt_of_le shallower (between later other after early present)
      · intro other present
        rw [List.getElem?_eq_getElem bound, same] at present
        obtain rfl := Option.some.inj present
        exact shallower

/-- Outcomes tell nothing of where a local comes from. -/
theorem Stems.of_reset {steps : List BranchStep} {begun : Nat → Prop} {depth index : Nat} {name : Text}
    {step : BranchStep} (stems : Stems (steps.map BranchStep.reset) begun depth name index step) :
    ∃ own, Stems steps begun depth name index own := by
  have found := stems.found
  rw [List.getElem?_map] at found
  obtain ⟨own, present, rfl⟩ := Option.map_eq_some_iff.mp found
  refine ⟨own, present, stems.counted, ?_, stems.gives⟩
  intro later other counted behind listed
  refine stems.since later other.reset counted behind ?_
  rw [List.getElem?_map, listed]
  rfl

/-- What a step finds in the frames that are kept for it, it may read. -/
theorem Stems.mayRead {steps : List BranchStep} {begun : Nat → Prop} {depth index source : Nat} {name : Text}
    {step giver : BranchStep} (stems : Stems steps begun depth name source giver) (nests : NestsAll [] steps)
    (found : steps[index]? = some step) (earlier : source < index) (kept : depth ≤ step.branchIndents) :
    MayRead steps begun index name := by
  have inside : ∀ other, steps[index]? = some other → depth ≤ other.branchIndents := by
    intro other present
    obtain rfl := Option.some.inj (found.symm.trans present)
    exact kept
  rcases stems.gives with ⟨rfl, parameter⟩ | ⟨rfl, sets⟩
  · refine .parameter source giver ⟨stems.found, earlier, ?_, inside⟩ parameter
    exact fun later other behind _ counted present => stems.since later other counted behind present
  · rcases Nat.eq_zero_or_pos giver.branchIndents with level | deep
    · exact .top source giver earlier stems.found level sets
    · obtain ⟨outer, call, body, between⟩ := nests.active stems.found deep
      have shallower := body.inside giver stems.found
      refine .within outer source call giver ⟨body.found, Nat.lt_trans body.earlier earlier, ?_, ?_⟩ body
        earlier stems.found sets
      · intro later other behind _ counted present
        rcases Nat.lt_trichotomy later source with before | rfl | after
        · exact Nat.lt_of_lt_of_le shallower (between later other behind before present)
        · exact body.inside other present
        · exact Nat.lt_of_lt_of_le shallower (stems.since later other counted after present)
      · exact fun other present => Nat.lt_of_lt_of_le shallower (inside other present)

end TestTree
