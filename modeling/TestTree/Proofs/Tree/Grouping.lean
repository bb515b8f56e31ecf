import TestTree.Proofs.Tree.Blocks
import TestTree.Proofs.Tree.Reading
import Mathlib.Data.List.Chain
import Mathlib.Data.List.Forall2

namespace TestTree.Source

variable {source : List Text} {filename : Option Text} {index next : Nat} {line : Line}
  {entries : List Entry} {block : Block} {before : Option Line} {isBelow : Bool}

section Places

variable (source)

/-- Whether the last line above line `index` that is no comment is a marker. -/
def isBelowMarker (index : Nat) : Bool :=
  ((source.take index).filter fun line => !isCommentLine line).getLast?.any isMarkerLine

/-- Steps that may share a block: no hooks, the first without code below it, and no line between them that is
blank or a marker. -/
structure Adjoins (first second : Step) : Prop where
  unhooked : first.hook = none ∧ second.hook = none
  straight : opensCode (lineAt source (first.lineNumber - 1)) = false
  between : ∀ index, first.lineNumber ≤ index → index + 1 < second.lineNumber →
    isBlankLine (lineAt source index) = false ∧ isMarkerLine (lineAt source index) = false

/-- Lines that belong to one block if they come one after the other. -/
def Joins (first second : Line) : Prop :=
  first.indents = second.indents ∧ Adjoins source first.step second.step

/-- A blank line or a marker stands below a line, and above line `index`. -/
def Severed (index : Nat) (line : Line) : Prop :=
  ∃ inner, line.step.lineNumber ≤ inner ∧ inner < index ∧
    (isBlankLine (lineAt source inner) = true ∨ isMarkerLine (lineAt source inner) = true)

end Places

theorem isBelowMarker_succ (inside : index < source.length) :
    isBelowMarker source (index + 1) =
      if isCommentLine (lineAt source index) then isBelowMarker source index
      else isMarkerLine (lineAt source index) := by
  have here : source[index] = lineAt source index := by simp [lineAt, inside]
  rw [isBelowMarker, isBelowMarker, List.take_succ_eq_append_getElem inside, List.filter_append, here]
  split
  · next comment => simp [comment]
  · next spoken => simp [spoken]

theorem not_marker_of_opensCode {text : Text} (opens : opensCode text = true) :
    isMarkerLine text = false := by
  rw [opensCode, decide_eq_true_eq] at opens
  rw [isMarkerLine, decide_eq_false_iff_not]
  intro dots
  rw [dots] at opens
  exact absurd opens (by decide)

theorem Follows.isBelowMarker_eq (follows : Follows source index next) (inside : index < source.length)
    (spoken : isCommentLine (lineAt source index) = false) :
    isBelowMarker source next = isMarkerLine (lineAt source index) := by
  rw [Follows] at follows
  split at follows
  · next opens =>
      obtain ⟨last, rfl, -, bounded, closed, -⟩ := follows
      obtain ⟨plain, unmarked⟩ := plain_of_closes closed
      rw [isBelowMarker_succ bounded, if_neg (by simp [plain]), unmarked,
        not_marker_of_opensCode opens]
  · rw [follows, isBelowMarker_succ inside, if_neg (by simp [spoken])]

theorem Severed.mono {later : Nat} (severed : Severed source index line) (le : index ≤ later) :
    Severed source later line := by
  obtain ⟨inner, behind, bounded, gap⟩ := severed
  exact ⟨inner, behind, Nat.lt_of_lt_of_le bounded le, gap⟩

theorem Severed.apart {second : Line} (severed : Severed source index line)
    (number : second.step.lineNumber = index + 1) : ¬Joins source line second := by
  intro joins
  obtain ⟨inner, behind, bounded, gap⟩ := severed
  obtain ⟨filled, unmarked⟩ := joins.2.between inner behind (number ▸ Nat.succ_lt_succ bounded)
  cases gap with
  | inl blank => exact Bool.noConfusion (blank.symm.trans filled)
  | inr marker => exact Bool.noConfusion (marker.symm.trans unmarked)

/-- The last line of a block. -/
def Block.last (block : Block) : Line := block.others.getLastD block.first

theorem Block.getLast?_lines (block : Block) : block.lines.getLast? = some block.last := by
  rw [Block.lines, List.getLast?_cons, Block.last, List.getLastD_eq_getLast?]

/-- Blocks that stand where the lines of a file are to be cut, `before` being the last line above them and
`isBelow` telling whether they stand right below a marker. -/
def Cut (source : List Text) : Option Line → Bool → List Block → Prop
  | _, _, [] => True
  | before, isBelow, block :: rest =>
      if block.isMarker then Cut source before (!block.blankAfter) rest
      else
        block.lines.IsChain (Joins source) ∧ (∀ line ∈ before, ¬Joins source line block.first) ∧
          isBelow = isBelowMarker source (block.lineNumber - 1) ∧
          Cut source (some block.last) false rest

/-- The place `index` is between two blocks, behind a blank line or at the start. -/
structure Waits (source : List Text) (before : Option Line) (index : Nat) : Prop where
  severed : ∀ line ∈ before, Severed source index line
  unmarked : isBelowMarker source index = false

/-- The place `index` is behind the last line of a block so far, and the block may go on. -/
structure Stands (source : List Text) (before : Option Line) (isBelow : Bool) (index : Nat)
    (block : Block) : Prop where
  fresh : block.blankAfter = false
  chain : block.lines.IsChain (Joins source)
  apart : block.isMarker = false → ∀ line ∈ before, ¬Joins source line block.first
  below : isBelow = isBelowMarker source (block.lineNumber - 1)
  marker : block.isMarker = isBelowMarker source index
  severed : block.isMarker = true → ∀ line ∈ before, Severed source index line
  depth : block.last.indents = block.indents
  hook : block.last.step.hook = none ↔ block.first.step.hook = none
  bound : block.last.step.lineNumber ≤ index
  closed : block.closed = opensCode (lineAt source (block.last.step.lineNumber - 1))
  clear : block.isMarker = false → block.closed = false → ∀ inner,
    block.last.step.lineNumber ≤ inner → inner < index →
      isBlankLine (lineAt source inner) = false ∧ isMarkerLine (lineAt source inner) = false

theorem Waits.comment (waits : Waits source before index) (inside : index < source.length)
    (comment : isCommentLine (lineAt source index) = true) : Waits source before (index + 1) where
  severed := fun line listed => (waits.severed line listed).mono (Nat.le_succ index)
  unmarked := by rw [isBelowMarker_succ inside, if_pos comment, waits.unmarked]

theorem Stands.comment (stands : Stands source before isBelow index block)
    (inside : index < source.length) (comment : isCommentLine (lineAt source index) = true) :
    Stands source before isBelow (index + 1) block where
  fresh := stands.fresh
  chain := stands.chain
  apart := stands.apart
  below := stands.below
  marker := by rw [isBelowMarker_succ inside, if_pos comment, stands.marker]
  severed := fun marker line listed => (stands.severed marker line listed).mono (Nat.le_succ index)
  depth := stands.depth
  hook := stands.hook
  bound := Nat.le_succ_of_le stands.bound
  closed := stands.closed
  clear := by
    intro unmarked straight inner behind bounded
    rcases Nat.eq_or_lt_of_le (Nat.le_of_lt_succ bounded) with rfl | earlier
    · obtain ⟨filled, plain, -⟩ := plain_of_comment comment
      exact ⟨filled, plain⟩
    · exact stands.clear unmarked straight inner behind earlier

theorem isBelowMarker_of_blank (inside : index < source.length)
    (blank : isBlankLine (lineAt source index) = true) :
    isBelowMarker source (index + 1) = false := by
  obtain ⟨spoken, unmarked, -⟩ := plain_of_blank blank
  rw [isBelowMarker_succ inside, if_neg (by simp [spoken]), unmarked]

theorem Waits.blank (waits : Waits source before index) (inside : index < source.length)
    (blank : isBlankLine (lineAt source index) = true) : Waits source before (index + 1) where
  severed := fun line listed => (waits.severed line listed).mono (Nat.le_succ index)
  unmarked := isBelowMarker_of_blank inside blank

/-- A line that starts a block. -/
theorem stands_first (inside : index < source.length)
    (spoken : isCommentLine (lineAt source index) = false) (reads : Reads source filename index line)
    (follows : Follows source index next) (below : isBelow = isBelowMarker source index)
    (apart : line.step.isMarker = false → ∀ earlier ∈ before, ¬Joins source earlier line)
    (severed : line.step.isMarker = true → ∀ earlier ∈ before, Severed source next earlier) :
    Stands source before isBelow next
      { first := line, closed := opensCode (lineAt source index) } := by
  have number := reads.lineNumber
  have here : line.step.lineNumber - 1 = index := by rw [number, Nat.add_sub_cancel]
  exact
    { fresh := rfl
      chain := .singleton _
      apart := apart
      below := by rw [below, Block.lineNumber, here]
      marker := by
        rw [follows.isBelowMarker_eq inside spoken, ← reads.isMarker]
        rfl
      severed := severed
      depth := rfl
      hook := .rfl
      bound := number ▸ follows.lt
      closed := congrArg (fun index => opensCode (lineAt source index)) here.symm
      clear := by
        intro _ straight inner behind bounded
        rw [Follows, if_neg (by simpa using straight)] at follows
        rw [follows] at bounded
        exact absurd (Nat.lt_of_lt_of_le bounded (number ▸ behind)) (Nat.lt_irrefl _) }

theorem admits_iff : block.admits line = true ↔ block.indents = line.indents ∧ block.closed = false ∧
    block.isMarker = false ∧ block.first.step.hook = none ∧ line.step.hook = none ∧
      line.step.isMarker = false := by
  simp [Block.admits, and_assoc]

theorem Stands.joins (stands : Stands source before isBelow index block)
    (number : line.step.lineNumber = index + 1) (admitted : block.admits line = true) :
    Joins source block.last line := by
  obtain ⟨level, straight, unmarked, unhooked, plain, -⟩ := admits_iff.mp admitted
  refine ⟨stands.depth.trans level, ⟨stands.hook.mpr unhooked, plain⟩, ?_, ?_⟩
  · exact stands.closed.symm.trans straight
  · intro inner behind bounded
    rw [number] at bounded
    exact stands.clear unmarked straight inner behind (Nat.lt_of_succ_lt_succ bounded)

theorem Stands.join (stands : Stands source before isBelow index block) (inside : index < source.length)
    (spoken : isCommentLine (lineAt source index) = false) (reads : Reads source filename index line)
    (follows : Follows source index next) (admitted : block.admits line = true) :
    Stands source before isBelow next
      { block with
        others := block.others ++ [line]
        closed := opensCode (lineAt source index) } := by
  have number := reads.lineNumber
  have here : line.step.lineNumber - 1 = index := by rw [number, Nat.add_sub_cancel]
  have joins := stands.joins number admitted
  obtain ⟨level, -, unmarked, unhooked, plain, ordinary⟩ := admits_iff.mp admitted
  have several (closed : Bool) :
      ({ block with others := block.others ++ [line], closed } : Block).isMarker = false := by
    simp [Block.isMarker]
  have last (closed : Bool) :
      ({ block with others := block.others ++ [line], closed } : Block).last = line := by
    simp [Block.last]
  refine
    { fresh := stands.fresh
      chain := ?_
      apart := fun _ => stands.apart unmarked
      below := stands.below
      marker := ?_
      severed := ?_
      depth := ?_
      hook := ?_
      bound := ?_
      closed := ?_
      clear := ?_ }
  · rw [show ({ block with others := block.others ++ [line], closed := _ } : Block).lines =
      block.lines ++ [line] from rfl]
    apply List.isChain_append.mpr ⟨stands.chain, .singleton _, ?_⟩
    intro earlier isLast second isSecond
    rw [Block.getLast?_lines, Option.mem_some_iff] at isLast
    rw [List.head?_cons, Option.mem_some_iff] at isSecond
    exact isLast ▸ isSecond ▸ joins
  · rw [several, follows.isBelowMarker_eq inside spoken, ← reads.isMarker, ordinary]
  · intro marker
    rw [several] at marker
    cases marker
  · rw [last]
    exact level.symm
  · rw [last]
    exact ⟨fun _ => unhooked, fun _ => plain⟩
  · rw [last, number]
    exact follows.lt
  · rw [last, here]
  · intro _ straight inner behind bounded
    rw [last, number] at behind
    rw [Follows, if_neg (by simpa using straight)] at follows
    rw [follows] at bounded
    exact absurd (Nat.lt_of_lt_of_le bounded behind) (Nat.lt_irrefl _)

/-- Nothing but what keeps two lines apart makes a block refuse a line that is no marker. -/
theorem Stands.apart_of_refused (stands : Stands source before isBelow index block)
    (unmarked : block.isMarker = false) (refused : ¬block.admits line = true)
    (ordinary : line.step.isMarker = false) : ¬Joins source block.last line := by
  intro joins
  apply refused
  apply admits_iff.mpr
  refine ⟨stands.depth.symm.trans joins.1, stands.closed.trans joins.2.straight, unmarked, ?_,
    joins.2.unhooked.2, ordinary⟩
  exact stands.hook.mp joins.2.unhooked.1

/-- A block that has ended, before what comes behind it. -/
theorem Stands.cut (stands : Stands source before isBelow index block) {blankAfter : Bool}
    {rest : List Block}
    (marked : block.isMarker = true → Cut source before (!blankAfter) rest)
    (unmarked : block.isMarker = false → Cut source (some block.last) false rest) :
    Cut source before isBelow ({ block with blankAfter } :: rest) := by
  rw [Cut]
  cases marker : block.isMarker with
  | true =>
      rw [if_pos (show ({ block with blankAfter } : Block).isMarker = true from marker)]
      exact marked marker
  | false =>
      have other : ¬({ block with blankAfter } : Block).isMarker = true := Bool.eq_false_iff.mp marker
      rw [if_neg other]
      exact ⟨stands.chain, stands.apart marker, stands.below, unmarked marker⟩

theorem cut_of_scans (scans : Scans source filename index entries) :
    (∀ before, Waits source before index → Cut source before false (groupFrom none entries)) ∧
      ∀ before isBelow block, Stands source before isBelow index block →
        Cut source before isBelow (groupFrom (some block) entries) := by
  induction scans with
  | done =>
      constructor
      · intro before waits
        trivial
      · intro before isBelow block stands
        exact stands.cut (fun _ => trivial) (fun _ => trivial)
  | comment inside comment rest ih =>
      constructor
      · intro before waits
        exact ih.1 before (waits.comment inside comment)
      · intro before isBelow block stands
        exact ih.2 before isBelow block (stands.comment inside comment)
  | @blank index entries inside blank rest ih =>
      constructor
      · intro before waits
        exact ih.1 before (waits.blank inside blank)
      · intro before isBelow block stands
        have unmarked := isBelowMarker_of_blank inside blank
        rw [groupFrom]
        apply stands.cut
        · intro marker
          apply ih.1
          refine ⟨fun line listed => ?_, unmarked⟩
          exact (stands.severed marker line listed).mono (Nat.le_succ index)
        · intro _
          apply ih.1
          refine ⟨fun line listed => ?_, unmarked⟩
          obtain rfl := Option.mem_some_iff.mp listed
          exact ⟨index, stands.bound, Nat.lt_succ_self index, .inl blank⟩
  | @line index next line entries inside filled spoken reads follows rest ih =>
      have number := reads.lineNumber
      constructor
      · intro before waits
        rw [groupFrom]
        apply ih.2
        apply stands_first inside spoken reads follows waits.unmarked.symm
        · intro _ earlier listed
          exact (waits.severed earlier listed).apart number
        · intro _ earlier listed
          exact (waits.severed earlier listed).mono (Nat.le_of_lt follows.lt)
      · intro before isBelow block stands
        rw [groupFrom]
        split
        · next admitted => exact ih.2 _ _ _ (stands.join inside spoken reads follows admitted)
        · next refused =>
            have same : block = { block with blankAfter := false } := by rw [← stands.fresh]
            rw [same]
            apply stands.cut
            · intro marker
              apply ih.2
              apply stands_first inside spoken reads follows (marker.symm.trans stands.marker)
              · intro _ earlier listed
                exact (stands.severed marker earlier listed).apart number
              · intro _ earlier listed
                exact (stands.severed marker earlier listed).mono (Nat.le_of_lt follows.lt)
            · intro unmarked
              apply ih.2
              apply stands_first inside spoken reads follows (unmarked.symm.trans stands.marker)
              · intro ordinary earlier listed
                obtain rfl := Option.mem_some_iff.mp listed
                exact stands.apart_of_refused unmarked refused ordinary
              · intro marker earlier listed
                obtain rfl := Option.mem_some_iff.mp listed
                exact ⟨index, stands.bound, follows.lt, .inr (reads.isMarker ▸ marker)⟩

/-- The line that an entry holds. -/
def Entry.line? : Entry → Option Line
  | .blank => none
  | .line line _ => some line

theorem lines_groupFrom (current : Option Block) (entries : List Entry) :
    (groupFrom current entries).flatMap Block.lines =
      current.toList.flatMap Block.lines ++ entries.filterMap Entry.line? := by
  fun_induction groupFrom current entries with
  | case1 current => simp
  | case2 rest block ih =>
      rw [List.flatMap_cons, ih, List.filterMap_cons_none (f := Entry.line?) rfl]
      simp [Block.lines]
  | case3 rest ih => rw [ih, List.filterMap_cons_none (f := Entry.line?) rfl]
  | case4 line closesCode rest block admitted ih =>
      rw [ih, List.filterMap_cons_some (f := Entry.line?) rfl]
      simp [Block.lines]
  | case5 line closesCode rest block refused ih =>
      rw [List.flatMap_cons, ih, List.filterMap_cons_some (f := Entry.line?) rfl]
      simp [Block.lines]
  | case6 line closesCode rest ih =>
      rw [ih, List.filterMap_cons_some (f := Entry.line?) rfl]
      simp [Block.lines]

theorem range'_eq_cons (inside : index < source.length) :
    List.range' index (source.length - index) =
      index :: List.range' (index + 1) (source.length - (index + 1)) := by
  obtain ⟨count, size⟩ := Nat.exists_eq_add_of_lt inside
  rw [size, show index + count + 1 - index = count + 1 by omega,
    show index + count + 1 - (index + 1) = count by omega]
  rfl

theorem filter_range'_of_follows (follows : Follows source index next) (inside : index < source.length)
    (outside : opener source index = none) (bounded : next ≤ source.length) :
    (List.range' (index + 1) (source.length - (index + 1))).filter (isRead source) =
      (List.range' next (source.length - next)).filter (isRead source) := by
  have split : List.range' (index + 1) (source.length - (index + 1)) =
      List.range' (index + 1) (next - (index + 1)) ++ List.range' next (source.length - next) := by
    have after := follows.lt
    rw [show source.length - (index + 1) = next - (index + 1) + (source.length - next) by omega,
      ← List.range'_append_1, show index + 1 + (next - (index + 1)) = next by omega]
  have skipped : (List.range' (index + 1) (next - (index + 1))).filter (isRead source) = [] := by
    apply List.filter_eq_nil_iff.mpr
    intro inner listed
    obtain ⟨behind, before⟩ := List.mem_range'_1.mp listed
    rw [isRead, follows.opener_between outside behind (by omega)]
    exact Bool.false_ne_true
  rw [split, List.filter_append, skipped, List.nil_append]

theorem Scans.le (scans : Scans source filename index entries) : index ≤ source.length := by
  cases scans with
  | done => exact Nat.le_refl _
  | comment inside => exact Nat.le_of_lt inside
  | blank inside => exact Nat.le_of_lt inside
  | line inside => exact Nat.le_of_lt inside

/-- The lines outside code blocks that are neither blank nor comments are read, each once and in order. -/
theorem reads_of_scans (scans : Scans source filename index entries)
    (outside : opener source index = none) :
    List.Forall₂ (Reads source filename)
      ((List.range' index (source.length - index)).filter (isRead source))
      (entries.filterMap Entry.line?) := by
  induction scans with
  | done =>
      rw [Nat.sub_self]
      exact .nil
  | @comment index entries inside comment rest ih =>
      have passed : isRead source index = false := by simp [isRead, comment]
      have closed : opener source (index + 1) = none := by
        rw [opener, outside]
        exact if_neg (by simp [plain_of_comment comment])
      rw [range'_eq_cons inside, List.filter_cons, passed]
      exact ih closed
  | @blank index entries inside blank rest ih =>
      have passed : isRead source index = false := by simp [isRead, blank]
      have closed : opener source (index + 1) = none := by
        rw [opener, outside]
        exact if_neg (by simp [plain_of_blank blank])
      rw [range'_eq_cons inside, List.filter_cons, passed]
      exact ih closed
  | @line index next line entries inside filled spoken reads follows rest ih =>
      have taken : isRead source index = true := by simp [isRead, outside, filled, spoken]
      rw [range'_eq_cons inside, List.filter_cons, taken,
        filter_range'_of_follows follows inside outside rest.le]
      exact .cons reads (ih (follows.opener_eq outside))

section Places

variable (source)

/-- Whether a line is a step: it is in no code block and ends none, and it is not blank, no comment and no
marker. -/
def isStepLine (index : Nat) : Bool := isRead source index && !isMarkerLine (lineAt source index)

/-- The lines that are steps. -/
def stepLines : List Nat := (List.range source.length).filter (isStepLine source)

end Places

theorem spoken_of_mem_stepLines (listed : index ∈ stepLines source) :
    isBlankLine (lineAt source index) = false ∧ isCommentLine (lineAt source index) = false := by
  have isStep := (List.mem_filter.mp listed).2
  simp only [isStepLine, isRead, Bool.and_eq_true, Bool.not_eq_eq_eq_not, Bool.not_true] at isStep
  exact ⟨isStep.1.1.2, isStep.1.2⟩

theorem stepLines_eq (source : List Text) : stepLines source =
    ((List.range' 0 (source.length - 0)).filter (isRead source)).filter fun index =>
      !isMarkerLine (lineAt source index) := by
  rw [stepLines, List.range_eq_range', List.filter_filter]
  apply List.filter_congr
  intro index _
  rw [isStepLine, Bool.and_comm]

theorem filter_lines (even : block.Even) :
    block.lines.filter (fun line => !line.step.isMarker) =
      if block.isMarker then [] else block.lines := by
  cases others : block.others with
  | nil =>
      cases marker : block.first.step.isMarker with
      | true => simp [Block.isMarker, Block.lines, others, marker]
      | false => simp [Block.isMarker, Block.lines, others, marker]
  | cons second rest =>
      have several : block.others ≠ [] := by simp [others]
      rw [if_neg (by simp [Block.isMarker, others]), List.filter_eq_self]
      intro line listed
      rw [even.unmarked several line listed]
      rfl

theorem filter_flatMap_lines {blocks : List Block} (even : ∀ block ∈ blocks, block.Even) :
    (blocks.flatMap Block.lines).filter (fun line => !line.step.isMarker) =
      (blocks.filter fun block => !block.isMarker).flatMap Block.lines := by
  induction blocks with
  | nil => rfl
  | cons block rest ih =>
      obtain ⟨first, others⟩ := List.forall_mem_cons.mp even
      rw [List.flatMap_cons, List.filter_append, ih others, filter_lines first, List.filter_cons]
      cases marker : block.isMarker with
      | true => rfl
      | false => rfl

theorem checkMarker_of_checkBlocks {blocks : List Block} (checked : checkBlocks blocks = .ok ()) :
    ∀ block ∈ blocks, ∃ next, checkMarker block next = .ok () := by
  induction blocks with
  | nil =>
      intro block absent
      cases absent
  | cons first rest ih =>
      obtain ⟨-, marker, others⟩ := checkBlocks_cons_eq_ok checked
      exact List.forall_mem_cons.mpr ⟨⟨_, marker⟩, ih others⟩

theorem blankAfter_of_checkMarker {next : Option Block} (marker : block.isMarker = true)
    (checked : checkMarker block next = .ok ()) : block.blankAfter = false := by
  unfold checkMarker at checked
  rw [if_neg (by simp [marker])] at checked
  split at checked
  · cases checked
  · split at checked
    · cases checked
    · split at checked
      · cases checked
      · split at checked
        · cases checked
        · next sound =>
            rw [Bool.or_eq_true, Bool.or_eq_true, not_or, not_or] at sound
            exact Bool.eq_false_iff.mpr sound.1.1

/-- The blocks of a file hold what its lines say, in order, and are cut where the lines say so. -/
theorem blocks_cases {text : Text} {read : List Block} (accepted : blocks filename text = .ok read) :
    Cut (Text.lines text) none false read ∧
      (∀ block ∈ read, block.isMarker = true → block.blankAfter = false) ∧
      List.Forall₂ (Reads (Text.lines text) filename) (stepLines (Text.lines text))
        ((read.filter fun block => !block.isMarker).flatMap Block.lines) := by
  obtain ⟨entries, scanned, rfl, checked⟩ := blocks_eq_ok accepted
  have scans := scans_of_scan scanned
  refine ⟨?_, ?_, ?_⟩
  · apply (cut_of_scans scans).1
    refine ⟨fun line absent => ?_, rfl⟩
    cases absent
  · intro block listed marker
    obtain ⟨next, sound⟩ := checkMarker_of_checkBlocks checked block listed
    exact blankAfter_of_checkMarker marker sound
  · rw [stepLines_eq, ← filter_flatMap_lines (even_of_group entries), group,
      lines_groupFrom none entries]
    apply List.rel_filter
    · intro index line reads
      dsimp only
      rw [reads.isMarker]
    · exact reads_of_scans scans rfl

end TestTree.Source
