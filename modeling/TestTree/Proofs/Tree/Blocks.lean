import TestTree.Tree.Source

namespace TestTree.Source

namespace Block

variable {block : Block} {line : Line} {closed : Bool}

/-- No line of a block is a hook, unless it is the only one. -/
def Unhooked (block : Block) : Prop :=
  block.others = [] ∨ ∀ line ∈ block.lines, line.step.hook = none

theorem unhooked_lone (first : Line) (closed : Bool) : Unhooked { first, closed } := .inl rfl

theorem Unhooked.join (before : block.Unhooked) (admitted : block.admits line = true) :
    Unhooked { block with others := block.others ++ [line], closed } := by
  simp only [admits, Bool.and_eq_true, Option.isNone_iff_eq_none] at admitted
  obtain ⟨⟨⟨-, first⟩, last⟩, -⟩ := admitted
  refine .inr fun member listed => ?_
  simp only [lines, List.mem_cons, List.mem_append, List.not_mem_nil, or_false] at listed
  rcases listed with rfl | old | rfl
  · exact first
  · rcases before with lone | unhooked
    · rw [lone] at old
      cases old
    · exact unhooked member (List.mem_cons_of_mem _ old)
  · exact last

/-- The lines of a block have one depth, and only a lone line is a marker. -/
structure Even (block : Block) : Prop where
  depth : ∀ line ∈ block.others, line.indents = block.indents
  unmarked : block.others ≠ [] → ∀ line ∈ block.lines, line.step.isMarker = false

theorem even_lone (first : Line) (closed : Bool) : Even { first, closed } :=
  ⟨fun _ listed => (by cases listed), fun several => absurd rfl several⟩

theorem Even.join (before : block.Even) (admitted : block.admits line = true) :
    Even { block with others := block.others ++ [line], closed } := by
  simp only [admits, Bool.and_eq_true, beq_iff_eq, Bool.not_eq_true'] at admitted
  obtain ⟨⟨⟨⟨⟨depth, -⟩, lone⟩, -⟩, -⟩, last⟩ := admitted
  have first : ∀ other ∈ block.lines, other.step.isMarker = false := by
    cases others : block.others with
    | nil =>
        rw [isMarker, others, List.isEmpty_nil, Bool.true_and] at lone
        simpa [lines, others] using lone
    | cons => exact before.unmarked (by simp [others])
  refine ⟨fun other listed => ?_, fun _ other listed => ?_⟩
  · rcases List.mem_append.mp listed with old | new
    · exact before.depth other old
    · obtain rfl := List.mem_singleton.mp new
      exact depth.symm
  · rcases List.mem_append.mp (show other ∈ block.lines ++ [line] from listed) with old | new
    · exact first other old
    · obtain rfl := List.mem_singleton.mp new
      exact last

theorem Even.indents (even : block.Even) : ∀ line ∈ block.lines, line.indents = block.indents := by
  intro line listed
  rcases List.mem_cons.mp listed with rfl | other
  · rfl
  · exact even.depth line other

/-- Lines that may stand together in a block node. -/
def Plain (block : Block) : Prop :=
  ∀ line ∈ block.lines, line.step.identifiers.isDeclaration = false ∧ line.step.codeBlock = none ∧
    line.step.hook = none

end Block

/-- What holds of a lone line, and still holds when a block admits a line and when a blank line follows,
holds of every block. -/
theorem forall_mem_groupFrom {P : Block → Prop} (lone : ∀ first closed, P { first, closed })
    (join : ∀ block line closed, P block → block.admits line = true →
      P { block with others := block.others ++ [line], closed })
    (blank : ∀ block, P block → P { block with blankAfter := true })
    (entries : List Entry) (current : Option Block)
    (started : ∀ block, current = some block → P block) :
    ∀ block ∈ groupFrom current entries, P block := by
  fun_induction groupFrom current entries with
  | case1 current => simpa using started
  | case2 rest block ih =>
      intro other listed
      rcases List.mem_cons.mp listed with rfl | later
      · exact blank block (started block rfl)
      · exact ih (fun _ absent => by cases absent) other later
  | case3 rest ih => exact ih fun _ absent => by cases absent
  | case4 line closesCode rest block admitted ih =>
      refine ih fun grown same => ?_
      obtain rfl := Option.some.inj same
      exact join block line closesCode (started block rfl) admitted
  | case5 line closesCode rest block refused ih =>
      intro other listed
      rcases List.mem_cons.mp listed with rfl | later
      · exact started _ rfl
      · refine ih (fun grown same => ?_) other later
        obtain rfl := Option.some.inj same
        exact lone line closesCode
  | case6 line closesCode rest ih =>
      refine ih fun grown same => ?_
      obtain rfl := Option.some.inj same
      exact lone line closesCode

theorem unhooked_of_group (entries : List Entry) : ∀ block ∈ group entries, block.Unhooked :=
  forall_mem_groupFrom (P := Block.Unhooked) Block.unhooked_lone
    (fun _ _ _ before admitted => before.join admitted) (fun _ before => before) entries none
    (fun _ absent => by cases absent)

theorem even_of_group (entries : List Entry) : ∀ block ∈ group entries, block.Even :=
  forall_mem_groupFrom (P := Block.Even) Block.even_lone
    (fun _ _ _ before admitted => before.join admitted)
    (fun _ before => ⟨before.depth, before.unmarked⟩) entries none (fun _ absent => by cases absent)

theorem plain_of_checkSeveral {block : Block} {next : Option Block} (unhooked : block.Unhooked)
    (several : block.others ≠ []) (checked : checkSeveral block next = .ok ()) : block.Plain := by
  rw [checkSeveral, if_neg (by simpa using several)] at checked
  split at checked
  · cases checked
  · next none =>
      intro line listed
      have innocent := List.find?_eq_none.mp none line listed
      simp only [Bool.or_eq_true, not_or, Bool.not_eq_true, Option.isSome_eq_false_iff,
        Option.isNone_iff_eq_none] at innocent
      exact ⟨innocent.1, innocent.2, unhooked.resolve_left several line listed⟩

theorem several_of_checkMarker {block : Block} {next : Option Block} (marker : block.isMarker = true)
    (checked : checkMarker block next = .ok ()) :
    ∃ follower, next = some follower ∧ follower.others ≠ [] := by
  have waiting : ¬ (!block.isMarker) = true := by simp [marker]
  unfold checkMarker at checked
  rw [if_neg waiting] at checked
  cases next with
  | none => cases checked
  | some follower =>
      refine ⟨follower, rfl, fun lone => ?_⟩
      simp only [lone, List.isEmpty_nil, Bool.or_true, if_true] at checked
      split at checked
      · cases checked
      · split at checked <;> cases checked

/-- Blocks that may be attached in order, the first of them below a marker if `isSequential`. -/
def Fit : Bool → List Block → Prop
  | _, [] => True
  | isSequential, block :: rest =>
      block.Even ∧ (isSequential = true → block.others ≠ []) ∧ (block.others ≠ [] → block.Plain) ∧
        Fit block.isMarker rest

theorem checkBlocks_cons_eq_ok {block : Block} {rest : List Block}
    (checked : checkBlocks (block :: rest) = .ok ()) :
    checkSeveral block rest.head? = .ok () ∧ checkMarker block rest.head? = .ok () ∧
      checkBlocks rest = .ok () := by
  rw [checkBlocks] at checked
  cases severals : checkSeveral block rest.head? with
  | error fault => simp [severals, bind, Except.bind] at checked
  | ok =>
      cases markers : checkMarker block rest.head? with
      | error fault => simp [severals, markers, bind, Except.bind] at checked
      | ok =>
          simp only [severals, markers, bind, Except.bind] at checked
          exact ⟨rfl, rfl, checked⟩

theorem fit_of_checkBlocks (blocks : List Block) (isSequential : Bool)
    (unhooked : ∀ block ∈ blocks, block.Unhooked) (even : ∀ block ∈ blocks, block.Even)
    (checked : checkBlocks blocks = .ok ())
    (sequel : isSequential = true →
      ∃ follower, blocks.head? = some follower ∧ follower.others ≠ []) :
    Fit isSequential blocks := by
  induction blocks generalizing isSequential with
  | nil => trivial
  | cons block rest ih =>
      obtain ⟨severals, markers, others⟩ := checkBlocks_cons_eq_ok checked
      refine ⟨even block (.head _), fun behind => ?_,
        fun several => plain_of_checkSeveral (unhooked block (.head _)) several severals,
        ih _ (fun other listed => unhooked other (.tail _ listed))
          (fun other listed => even other (.tail _ listed)) others
          fun marker => several_of_checkMarker marker markers⟩
      obtain ⟨follower, same, several⟩ := sequel behind
      obtain rfl := Option.some.inj same
      exact several

theorem blocks_eq_ok {filename : Option Text} {text : Text} {read : List Block}
    (accepted : blocks filename text = .ok read) :
    ∃ entries, scan filename text = .ok entries ∧ read = group entries ∧
      checkBlocks (group entries) = .ok () := by
  rw [blocks] at accepted
  cases scanned : scan filename text with
  | error error => simp [scanned, bind, Except.bind] at accepted
  | ok entries =>
      simp only [scanned, bind, Except.bind] at accepted
      split at accepted
      · next checked => exact ⟨entries, rfl, (Except.ok.inj accepted).symm, checked⟩
      · cases accepted

theorem fit_of_blocks {filename : Option Text} {text : Text} {read : List Block}
    (accepted : blocks filename text = .ok read) : Fit false read := by
  obtain ⟨entries, -, rfl, checked⟩ := blocks_eq_ok accepted
  exact fit_of_checkBlocks _ false (unhooked_of_group entries) (even_of_group entries) checked
    fun absurdity => by cases absurdity

end TestTree.Source
