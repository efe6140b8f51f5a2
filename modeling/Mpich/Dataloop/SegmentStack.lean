import Mathlib.Data.List.MinMax
import Mpich.Dataloop.Segment

/-!
# The stack of a segment

Every element of the stack holds a loop that is as deep as the stack still has room
for: a loop that is pushed is less deep than the one it is pushed on. So the stack
never overflows once `Segment_init` has filled it in without an overflow. That fails
for one instance of a type with more loops on the way down through its first blocks
than the stack has elements, and for no other.
-/

namespace Mpich.Dataloop

open Function

/-! ## Results that are no overflow -/

/-- There is no overflow, and what results has a property. -/
def Fine {α : Type*} (property : α → Prop) : Except Halt α → Prop
  | .ok result => property result
  | .error halt => halt ≠ .overflow

section

variable {α β : Type}

theorem Fine.bind
    {property : α → Prop} {next : β → Prop} {first : Except Halt α}
    {second : α → Except Halt β}
    (fine : Fine property first)
    (continued : ∀ result, property result → Fine next (second result)) :
    Fine next (first >>= second) := by
  cases first with
  | ok result => exact continued result fine
  | error halt => exact fine

theorem Fine.mono
    {property next : α → Prop} {first : Except Halt α}
    (fine : Fine property first)
    (weaker : ∀ result, property result → next result) :
    Fine next first := by
  cases first with
  | ok result => exact weaker result fine
  | error halt => exact fine

theorem Fine.ne_overflow
    {property : α → Prop} {first : Except Halt α}
    (fine : Fine property first) :
    first ≠ .error .overflow := by
  rintro rfl
  exact fine rfl

end

/-! ## The invariant -/

theorem Loop.depth_pos (loop : Loop) : 0 < loop.depth := by
  cases loop <;> exact Nat.succ_pos _

/-- The loops of the stack fit in what is left of it. An element that is not loaded
again holds the loop above which its successor was loaded. -/
structure Shallow (maxDepth : Nat) (segment : Segment) : Prop where
  positive : 0 < maxDepth
  top : segment.curSp < maxDepth
  levels : ∀ index elm, segment.stackelm index = some elm →
    ((index : Int) ≤ segment.curSp ∨ index = 0) → index + elm.loopP.depth ≤ maxDepth
  chain : ∀ index elm next, segment.stackelm index = some elm →
    elm.mayRequireReloading = false → segment.stackelm (index + 1) = some next →
      next.loopP.depth < elm.loopP.depth
  reload : ∀ index elm, segment.stackelm index = some elm →
    elm.loopP.kind = .struct → elm.mayRequireReloading = true

/-- The two elements are for the same loop. -/
structure SameLoop (first second : Stackelm) : Prop where
  loopP : second.loopP = first.loopP
  mayRequireReloading : second.mayRequireReloading = first.mayRequireReloading

theorem SameLoop.refl (elm : Stackelm) : SameLoop elm elm := ⟨rfl, rfl⟩

section

variable {maxDepth : Nat} {segment : Segment}

theorem Shallow.get
    {index : Int}
    (below : index < maxDepth) :
    Fine (fun elm => 0 ≤ index ∧ segment.stackelm index.toNat = some elm)
      (segment.get maxDepth index) := by
  unfold Segment.get
  split
  · exact Halt.noConfusion
  rw [if_neg (by omega)]
  split
  · next found => exact ⟨by omega, found⟩
  · exact Halt.noConfusion

theorem set_eq
    {index : Int}
    (nonneg : 0 ≤ index)
    (below : index < maxDepth)
    (elm : Stackelm) :
    segment.set maxDepth index elm = .ok { segment with
      stackelm := Function.update segment.stackelm index.toNat (some elm) } := by
  rw [Segment.set, if_neg (by omega), if_neg (by omega)]

section

variable (shallow : Shallow maxDepth segment)

include shallow

/-- Values of an element change, its loop stays. -/
theorem Shallow.update
    {index : Nat} {cur elm : Stackelm}
    (found : segment.stackelm index = some cur)
    (same : SameLoop cur elm) :
    Shallow maxDepth { segment with
      stackelm := Function.update segment.stackelm index (some elm) } := by
  have stored (place : Nat) (other : Stackelm)
      (holds : Function.update segment.stackelm index (some elm) place = some other) :
      ∃ old, segment.stackelm place = some old ∧ SameLoop old other := by
    by_cases here : place = index
    · subst here
      rw [update_self] at holds
      obtain rfl := Option.some.inj holds
      exact ⟨cur, found, same⟩
    · rw [update_of_ne here] at holds
      exact ⟨other, holds, .refl other⟩
  refine ⟨shallow.positive, shallow.top, ?_, ?_, ?_⟩
  · intro place other holds within
    obtain ⟨old, before, kept⟩ := stored place other holds
    rw [kept.loopP]
    exact shallow.levels place old before within
  · intro place other next holds notReloaded above
    obtain ⟨old, before, kept⟩ := stored place other holds
    obtain ⟨oldNext, beforeNext, keptNext⟩ := stored (place + 1) next above
    rw [kept.loopP, keptNext.loopP]
    exact shallow.chain place old oldNext before
      (kept.mayRequireReloading.symm.trans notReloaded) beforeNext
  · intro place other holds isStruct
    obtain ⟨old, before, kept⟩ := stored place other holds
    rw [kept.mayRequireReloading]
    exact shallow.reload place old before (by rw [← kept.loopP]; exact isStruct)

/-- The current element is stored again. -/
theorem Shallow.set
    {cur elm : Stackelm}
    (nonneg : 0 ≤ segment.curSp)
    (found : segment.stackelm segment.curSp.toNat = some cur)
    (same : SameLoop cur elm) :
    Fine (Shallow maxDepth) (segment.set maxDepth segment.curSp elm) := by
  rw [set_eq nonneg shallow.top]
  exact shallow.update found same

theorem Shallow.pop : Shallow maxDepth segment.pop.segment := by
  have top := shallow.top
  refine ⟨shallow.positive, ?_, fun index elm found within => ?_, shallow.chain, shallow.reload⟩
  · change segment.curSp - 1 < _
    omega
  · refine shallow.levels index elm found (within.imp_left fun below => ?_)
    change (index : Int) ≤ segment.curSp - 1 at below
    omega

end

end

/-! ## Pieces -/

theorem choosePiece_fine (fns : PieceFns) (cur : Stackelm) (beyond : Int) :
    Fine (fun _ => True) (cur.choosePiece fns beyond) := by
  unfold Stackelm.choosePiece
  dsimp only
  split
  · trivial
  · split <;> trivial
  · split <;> trivial
  · split <;> trivial
  · exact Halt.noConfusion

theorem takeBlocks_fine
    (next : Stackelm → Int)
    (steps : Nat)
    (myblocks : Int)
    (elm : Stackelm) :
    Fine (fun result => SameLoop elm result.2) (Stackelm.takeBlocks next steps myblocks elm) := by
  induction steps generalizing myblocks elm with
  | zero => exact Halt.noConfusion
  | succ steps ih =>
    unfold Stackelm.takeBlocks
    dsimp only
    split
    · split
      · exact Halt.noConfusion
      · exact (ih _ _).mono fun result same =>
          ⟨same.loopP, same.mayRequireReloading⟩
    · exact .refl elm

theorem advance_fine (cur : Stackelm) (myblocks localElSize beyond : Int) :
    Fine (fun result => SameLoop cur result.1) (cur.advance myblocks localElSize beyond) := by
  unfold Stackelm.advance
  split
  · refine (takeBlocks_fine _ _ _ _).bind fun result same => ?_
    dsimp only
    split
    · split
      · exact same
      · exact Halt.noConfusion
    · exact ⟨same.loopP, same.mayRequireReloading⟩
  · dsimp only
    split
    · split
      · exact ⟨rfl, rfl⟩
      · exact Halt.noConfusion
    · exact ⟨rfl, rfl⟩
  · split
    · exact .refl cur
    · exact Halt.noConfusion
  · refine (takeBlocks_fine _ _ _ _).bind fun result same => ?_
    dsimp only
    split
    · split
      · exact same
      · exact Halt.noConfusion
    · exact ⟨same.loopP, same.mayRequireReloading⟩
  · exact .refl cur

/-! ## Steps -/

section

variable {maxDepth : Nat} {segment : Segment} {cur : Stackelm}
variable (fns : PieceFns) (last : Option Int) (answer : Answer) (beyond : Int)

/-- What is current: the stack is not empty, and this is its topmost element. -/
structure Current (segment : Segment) (cur : Stackelm) : Prop where
  nonneg : 0 ≤ segment.curSp
  found : segment.stackelm segment.curSp.toNat = some cur

variable (shallow : Shallow maxDepth segment)

include shallow in
theorem Shallow.current :
    Fine (Current segment) (segment.get maxDepth segment.curSp) :=
  (Shallow.get shallow.top).mono fun _ found => ⟨found.1, found.2⟩

section

variable
    (shallow : Shallow maxDepth segment)
    (current : Current segment cur)

include shallow current

theorem finishPiece_fine (exit myblocks streamElSize : Int) :
    Fine (fun progress => Shallow maxDepth progress.segment)
      (segment.finishPiece maxDepth beyond cur exit myblocks streamElSize) := by
  have moved : Shallow maxDepth { segment with
      streamOff := segment.streamOff + myblocks * streamElSize } :=
    ⟨shallow.positive, shallow.top, shallow.levels, shallow.chain, shallow.reload⟩
  unfold Segment.finishPiece
  split
  · exact Halt.noConfusion
  split
  · exact moved
  split
  · refine (moved.set current.nonneg current.found ?_).bind fun stored kept => ?_
    · exact ⟨rfl, rfl⟩
    · exact kept
  · refine (advance_fine _ _ _ _).bind fun advanced same => ?_
    refine (moved.set current.nonneg current.found same).bind fun stored kept => ?_
    split
    · exact kept.pop
    · exact kept

theorem workPiece_fine :
    Fine (fun progress => Shallow maxDepth progress.segment)
      (segment.workPiece maxDepth fns last answer cur) := by
  refine (choosePiece_fine _ _ _).bind fun chosen _ => ?_
  dsimp only
  split
  · exact shallow
  split
  · exact Halt.noConfusion
  split
  · exact finishPiece_fine _ shallow current _ _ _
  · exact finishPiece_fine _ shallow current _ _ _

theorem endBlock_fine :
    Fine (fun progress => Shallow maxDepth progress.segment)
      (segment.endBlock maxDepth beyond cur) := by
  refine (shallow.set current.nonneg current.found ?_).bind fun stored kept => ?_
  · exact ⟨rfl, rfl⟩
  split
  · exact kept.pop
  · exact kept

end

theorem Loop.childAt_fine (loop : Loop) (index : Int) :
    Fine (fun child => ∀ under ∈ child, under.depth < loop.depth) (loop.childAt index) := by
  cases loop with
  | leaf shape element => exact nofun
  | inner shape element child =>
    rintro under ⟨⟩
    exact Nat.lt_succ_self _
  | struct count blocksizes offsets elExtents children =>
    rw [Loop.childAt]
    split
    · rintro under ⟨⟩
      exact Nat.lt_succ_of_le (List.le_max_of_le' 0 (List.mem_ofFn.mpr ⟨_, rfl⟩) le_rfl)
    · exact Halt.noConfusion

theorem Loop.two_le_depth
    {loop : Loop}
    (notFinal : loop.isFinal = false)
    (notStruct : loop.kind ≠ .struct) :
    2 ≤ loop.depth := by
  cases loop with
  | leaf shape element => cases notFinal
  | inner shape element child => exact Nat.succ_le_succ child.depth_pos
  | struct count blocksizes offsets elExtents children => exact absurd rfl notStruct

/-- What may be pushed: an element for a loop that is less deep. One that is not
loaded again is already there. -/
structure Above (segment : Segment) (cur next : Stackelm) : Prop where
  shallower : next.loopP.depth < cur.loopP.depth
  there : next.mayRequireReloading = false → segment.stackelm (segment.curSp.toNat + 1) = some next
  reload : next.loopP.kind = .struct → next.mayRequireReloading = true

include shallow in
/-- The element that is pushed holds a loop that is less deep. -/
theorem nextElm_fine
    (current : Current segment cur)
    (notFinal : cur.loopP.isFinal = false) :
    Fine (Above segment cur) (segment.nextElm maxDepth beyond cur) := by
  have nonneg := current.nonneg
  have room := shallow.levels _ cur current.found (.inl (by omega))
  unfold Segment.nextElm
  split
  · refine (Loop.childAt_fine _ _).bind fun child under => ?_
    cases child with
    | none => exact Halt.noConfusion
    | some loop => exact ⟨under loop rfl, nofun, fun _ => rfl⟩
  · next kept =>
      have deep := Loop.two_le_depth notFinal
        fun isStruct => kept (shallow.reload _ cur current.found isStruct)
      refine (Shallow.get (by omega)).mono fun next found => ?_
      have above : segment.stackelm (segment.curSp.toNat + 1) = some next := by
        rw [← found.2]
        congr 1
        omega
      exact ⟨shallow.chain _ cur next current.found (Bool.eq_false_iff.mpr kept) above,
        fun _ => above, shallow.reload _ next above⟩

include shallow in
theorem Shallow.pushed
    (current : Current segment cur)
    {next elm : Stackelm}
    (above : Above segment cur next)
    (same : SameLoop next elm) :
    Shallow maxDepth { segment with
      stackelm := Function.update segment.stackelm (segment.curSp.toNat + 1) (some elm)
      curSp := segment.curSp + 1 } := by
  have nonneg := current.nonneg
  have room := shallow.levels _ cur current.found (.inl (by omega))
  have nextPos := next.loopP.depth_pos
  have shallower := above.shallower
  have stored (place : Nat) (other : Stackelm)
      (holds : Function.update segment.stackelm (segment.curSp.toNat + 1) (some elm)
        place = some other) :
      (place = segment.curSp.toNat + 1 ∧ other = elm) ∨
        (place ≠ segment.curSp.toNat + 1 ∧ segment.stackelm place = some other) := by
    by_cases here : place = segment.curSp.toNat + 1
    · subst here
      rw [update_self] at holds
      exact .inl ⟨rfl, (Option.some.inj holds).symm⟩
    · rw [update_of_ne here] at holds
      exact .inr ⟨here, holds⟩
  refine ⟨shallow.positive, ?_, ?_, ?_, ?_⟩
  · change segment.curSp + 1 < _
    omega
  · intro place other holds within
    rcases stored place other holds with ⟨rfl, rfl⟩ | ⟨different, before⟩
    · rw [same.loopP]
      omega
    · change (place : Int) ≤ segment.curSp + 1 ∨ place = 0 at within
      exact shallow.levels place other before (by omega)
  · intro place other upper holds notReloaded higher
    rcases stored (place + 1) upper higher with ⟨topmost, rfl⟩ | ⟨-, upperBefore⟩
    · obtain rfl : place = segment.curSp.toNat := by omega
      rcases stored _ other holds with ⟨wrong, -⟩ | ⟨-, before⟩
      · omega
      · obtain rfl := Option.some.inj (current.found.symm.trans before)
        rw [same.loopP]
        exact shallower
    · rcases stored place other holds with ⟨rfl, rfl⟩ | ⟨-, before⟩
      · rw [same.loopP]
        exact shallow.chain _ next upper
          (above.there (same.mayRequireReloading.symm.trans notReloaded))
          (same.mayRequireReloading.symm.trans notReloaded) upperBefore
      · exact shallow.chain place other upper before notReloaded upperBefore
  · intro place other holds isStruct
    rcases stored place other holds with ⟨rfl, rfl⟩ | ⟨-, before⟩
    · rw [same.mayRequireReloading]
      exact above.reload (by rw [← same.loopP]; exact isStruct)
    · exact shallow.reload place other before isStruct

theorem Stackelm.start_same (elm : Stackelm) (origOffset beyond : Int) :
    SameLoop elm (elm.start origOffset beyond) := by
  unfold Stackelm.start
  split <;> exact ⟨rfl, rfl⟩

include shallow in
/-- A loop that is less deep is pushed. -/
theorem push_fine
    (current : Current segment cur)
    (notFinal : cur.loopP.isFinal = false) :
    Fine (fun progress => Shallow maxDepth progress.segment)
      (segment.push maxDepth beyond cur) := by
  have nonneg := current.nonneg
  have room := shallow.levels _ cur current.found (.inl (by omega))
  refine (nextElm_fine beyond shallow current notFinal).bind fun next above => ?_
  have nextPos := next.loopP.depth_pos
  have shallower := above.shallower
  have pushed := shallow.pushed current above (next.start_same (cur.nextOffset beyond) beyond)
  have place : (segment.curSp + 1).toNat = segment.curSp.toNat + 1 := by omega
  rw [set_eq (by omega) (by omega), place]
  have still : Function.update segment.stackelm (segment.curSp.toNat + 1)
      (some (next.start (cur.nextOffset beyond) beyond)) segment.curSp.toNat =
      some cur := by
    rw [update_of_ne (by omega)]
    exact current.found
  change Fine _ ((Segment.set _ _ segment.curSp _) >>= _)
  rw [set_eq nonneg shallow.top]
  exact pushed.update still ⟨rfl, rfl⟩

include shallow in
/-- One step of the loop keeps the stack shallow. -/
theorem step_fine :
    Fine (fun progress => Shallow maxDepth progress.segment)
      (segment.step maxDepth fns last answer) := by
  refine shallow.current.bind fun cur current => ?_
  split
  · split
    · dsimp only
      split
      · exact shallow.pop
      · refine shallow.pop.current.bind fun below belowCurrent => ?_
        exact workPiece_fine fns last answer shallow.pop belowCurrent
    · exact workPiece_fine fns last answer shallow current
  · next notFinal =>
      split
      · exact endBlock_fine answer.beyond shallow current
      · exact push_fine answer.beyond shallow current (Bool.eq_false_iff.mpr notFinal)

end

/-! ## Calls -/

section

variable {maxDepth : Nat} {segment : Segment}

variable (shallow : Shallow maxDepth segment)

section

include shallow

/-- All steps of a call keep the stack shallow. -/
theorem run_fine
    (fns : PieceFns)
    (last : Option Int)
    (answers : Nat → Answer)
    (steps : Nat) :
    Fine (Shallow maxDepth) (segment.run maxDepth fns last answers steps) := by
  induction steps generalizing segment with
  | zero => exact Halt.noConfusion
  | succ steps ih =>
    refine (step_fine fns last (answers steps) shallow).bind fun progress kept => ?_
    split
    · exact kept
    · exact ih kept

theorem reset_fine (beyond : Int) :
    Fine (Shallow maxDepth) (segment.reset maxDepth beyond) := by
  refine (Shallow.get (Int.natCast_pos.mpr shallow.positive)).bind fun elm found => ?_
  rw [set_eq le_rfl (Int.natCast_pos.mpr shallow.positive)]
  have based : Shallow maxDepth { segment with streamOff := 0, curSp := 0 } := by
    refine ⟨shallow.positive, Int.natCast_pos.mpr shallow.positive,
      fun index other holds within => ?_, shallow.chain, shallow.reload⟩
    refine shallow.levels index other holds (.inr ?_)
    change (index : Int) ≤ 0 ∨ index = 0 at within
    omega
  exact based.update found.2 ⟨rfl, rfl⟩

theorem rewind_fine (call : Call) :
    Fine (Shallow maxDepth) (segment.rewind maxDepth call) := by
  unfold Segment.rewind
  split
  · exact reset_fine shallow _
  · exact shallow

theorem reposition_fine (call : Call) :
    Fine (Shallow maxDepth) (segment.reposition maxDepth call) := by
  unfold Segment.reposition
  split
  · exact shallow
  refine (rewind_fine shallow call).bind fun begun kept => ?_
  split
  · exact kept
  refine (run_fine kept _ _ _ _).bind fun moved still => ?_
  split
  · exact still
  · exact Halt.noConfusion

theorem manipulate_fine (call : Call) :
    Fine (Shallow maxDepth) (segment.manipulate maxDepth call) := by
  unfold Segment.manipulate
  split
  · exact shallow
  · exact (reposition_fine shallow call).bind fun positioned kept =>
      run_fine kept _ _ _ _

/-- No call after another overflows the stack. -/
theorem manipulateAll_fine (calls : List Call) :
    Fine (Shallow maxDepth) (segment.manipulateAll maxDepth calls) := by
  induction calls generalizing segment with
  | nil => exact shallow
  | cons call rest ih =>
    exact (manipulate_fine shallow call).bind fun next kept => ih kept

end

end

/-! ## `Segment_init` -/

/-- The number of loops on the way down through the first blocks. -/
def Loop.firstPath : Loop → Nat
  | .leaf _ _ => 1
  | .inner _ _ child => child.firstPath + 1
  | .struct count _ _ _ children =>
    if nonempty : 0 < count then (children ⟨0, nonempty⟩).firstPath + 1 else 1

theorem Loop.firstPath_pos (loop : Loop) : 0 < loop.firstPath := by
  cases loop with
  | struct count blocksizes offsets elExtents children =>
    rw [Loop.firstPath]
    split <;> exact Nat.succ_pos _
  | _ => exact Nat.succ_pos _

theorem Loop.firstPath_le_depth (loop : Loop) : loop.firstPath ≤ loop.depth := by
  induction loop with
  | leaf shape element => exact le_rfl
  | inner shape element child ih => exact Nat.succ_le_succ ih
  | struct count blocksizes offsets elExtents children ih =>
    rw [Loop.firstPath]
    split
    · next nonempty =>
        exact Nat.succ_le_succ ((ih ⟨0, nonempty⟩).trans
          (List.le_max_of_le' 0 (List.mem_ofFn.mpr ⟨_, rfl⟩) le_rfl))
    · exact Nat.succ_pos _

/-- What follows a loop on the way down. -/
inductive Loop.Next (loop : Loop) : Option Loop → Prop
  | leaf (isFinal : loop.isFinal = true) (single : loop.firstPath = 1) : Next loop none
  | child {child : Loop}
      (notFinal : loop.isFinal = false)
      (shallower : child.depth < loop.depth)
      (longer : loop.firstPath = child.firstPath + 1) : Next loop (some child)

theorem Loop.next_fine (loop : Loop) : Fine loop.Next (loop.childAt 0) := by
  cases loop with
  | leaf shape element => exact .leaf rfl rfl
  | inner shape element child => exact .child rfl (Nat.lt_succ_self _) rfl
  | struct count blocksizes offsets elExtents children =>
    have under := (Loop.struct count blocksizes offsets elExtents children).childAt_fine 0
    rw [Loop.childAt] at under ⊢
    split
    · next bound =>
        rw [dif_pos bound] at under
        refine .child rfl (under _ rfl) ?_
        exact dif_pos bound.2
    · exact Halt.noConfusion

/-- A loop that goes on has a next one. -/
theorem Loop.exists_next
    {loop : Loop}
    (long : 1 < loop.firstPath) :
    ∃ child, loop.childAt 0 = .ok (some child) ∧ loop.isFinal = false ∧
      loop.firstPath = child.firstPath + 1 := by
  cases loop with
  | leaf shape element => exact absurd long (lt_irrefl _)
  | inner shape element child => exact ⟨child, rfl, rfl, rfl⟩
  | struct count blocksizes offsets elExtents children =>
    rw [Loop.firstPath] at long ⊢
    split at long
    · next nonempty =>
        exact ⟨children ⟨0, nonempty⟩, dif_pos ⟨le_rfl, nonempty⟩, rfl, dif_pos nonempty⟩
    · exact absurd long (lt_irrefl _)

section

variable {maxDepth : Nat} (beyond : Int)

theorem load_reload
    {dlp : Loop}
    (isStruct : dlp.kind = .struct)
    (branch : Bool) :
    (Stackelm.load dlp branch beyond).mayRequireReloading = true := by
  change (branch || decide (dlp.kind = .struct)) = true
  rw [decide_eq_true isStruct, Bool.or_true]

/-- The first elements of the stack are filled in. -/
structure Filled (segment : Segment) (index : Nat) : Prop where
  curSp : segment.curSp = 0
  free : ∀ place, index ≤ place → segment.stackelm place = none
  chain : ∀ place elm next, segment.stackelm place = some elm →
    elm.mayRequireReloading = false → segment.stackelm (place + 1) = some next →
      next.loopP.depth < elm.loopP.depth
  reload : ∀ place elm, segment.stackelm place = some elm →
    elm.loopP.kind = .struct → elm.mayRequireReloading = true

theorem filled_empty : Filled ⟨fun _ => none, 0, 0, 0⟩ 0 where
  curSp := rfl
  free := fun _ _ => rfl
  chain := fun _ _ _ found => absurd found (Option.some_ne_none _).symm
  reload := fun _ _ found => absurd found (Option.some_ne_none _).symm

/-- One more element is filled in. -/
theorem Filled.add
    {segment : Segment} {index : Nat}
    (filled : Filled segment index)
    {elm : Stackelm}
    (reload : elm.loopP.kind = .struct → elm.mayRequireReloading = true)
    (shallower : ∀ place previous, index = place + 1 →
      segment.stackelm place = some previous → elm.loopP.depth < previous.loopP.depth) :
    Filled { segment with
      stackelm := Function.update segment.stackelm index (some elm) } (index + 1) := by
  have stored (place : Nat) (other : Stackelm)
      (holds : Function.update segment.stackelm index (some elm) place = some other) :
      (place = index ∧ other = elm) ∨ (place < index ∧ segment.stackelm place = some other) := by
    by_cases here : place = index
    · subst here
      rw [update_self] at holds
      exact .inl ⟨rfl, (Option.some.inj holds).symm⟩
    · rw [update_of_ne here] at holds
      refine .inr ⟨Nat.lt_of_not_le fun after => ?_, holds⟩
      rw [filled.free place after] at holds
      cases holds
  refine ⟨filled.curSp, ?_, ?_, ?_⟩
  · intro place after
    change Function.update segment.stackelm index (some elm) place = none
    rw [update_of_ne (by omega)]
    exact filled.free place (by omega)
  · intro place other upper holds notReloaded higher
    rcases stored (place + 1) upper higher with ⟨topmost, rfl⟩ | ⟨below, upperBefore⟩
    · rcases stored place other holds with ⟨wrong, -⟩ | ⟨-, before⟩
      · omega
      · exact shallower place other topmost.symm before
    · rcases stored place other holds with ⟨wrong, -⟩ | ⟨-, before⟩
      · omega
      · exact filled.chain place other upper before notReloaded upperBefore
  · intro place other holds isStruct
    rcases stored place other holds with ⟨-, rfl⟩ | ⟨-, before⟩
    · exact reload isStruct
    · exact filled.reload place other before isStruct

/-- The elements behind the first one are filled in, when the way down is as long as
the depth says and fits. -/
theorem initLevels_fine
    {left index : Nat}
    (more : 0 < left)
    {dlp : Loop}
    (fits : index + dlp.firstPath ≤ maxDepth)
    {branch : Bool} {segment : Segment}
    (positive : 0 < index)
    (filled : Filled segment index)
    (shallower : ∀ place previous, index = place + 1 →
      segment.stackelm place = some previous → dlp.depth < previous.loopP.depth) :
    Fine (fun next => Filled next (index + left) ∧
        next.stackelm 0 = segment.stackelm 0 ∧ left = dlp.firstPath)
      (initLevels maxDepth beyond left index (some dlp) branch segment) := by
  induction left generalizing index dlp branch segment with
  | zero => exact absurd more (lt_irrefl 0)
  | succ left ih =>
    have pathPos := dlp.firstPath_pos
    unfold initLevels
    rw [if_neg (by omega)]
    dsimp only
    rw [set_eq (Int.natCast_nonneg _) (by omega)]
    have added := @Filled.add segment index filled (Stackelm.load dlp branch beyond)
      (fun isStruct => load_reload beyond isStruct branch) shallower
    split
    · split
      · exact Halt.noConfusion
      refine dlp.next_fine.bind fun next follows => ?_
      cases follows with
      | leaf isFinal single => contradiction
      | @child under notFinal below longer =>
        have rest := @ih (index + 1) (by omega) under (by omega)
          (Stackelm.load dlp branch beyond).mayRequireReloading _
          (Nat.succ_pos index) added (by
            intro place previous same holds
            obtain rfl : place = index := by omega
            have loaded := (update_self _ _ _).symm.trans holds
            obtain rfl := Option.some.inj loaded
            exact below)
        refine rest.mono fun last reached => ⟨?_, ?_, by omega⟩
        · have same : index + (left + 1) = index + 1 + left := by omega
          rw [same]
          exact reached.1
        · rw [reached.2.1]
          exact update_of_ne (by omega) _ _
    · next finished =>
        obtain rfl : left = 0 := by omega
        split
        · next isFinal =>
            refine ⟨added, update_of_ne (by omega) _ _, ?_⟩
            cases dlp with
            | leaf shape element => rfl
            | _ => cases isFinal
        · exact Halt.noConfusion

/-- `Segment_init` fills the stack in without an overflow where the way down through
the first blocks fits, and the stack is shallow then. -/
theorem initStack_fine
    {dlp : Loop} {depth : Nat}
    (recorded : depth = dlp.depth)
    (fits : dlp.firstPath ≤ maxDepth) :
    Fine (Shallow maxDepth) (initStack maxDepth beyond dlp depth) := by
  have pathPos := dlp.firstPath_pos
  have started := filled_empty.add
    (fun isStruct => load_reload beyond isStruct false :
      (Stackelm.first dlp beyond).loopP.kind = .struct → _)
    (fun _ _ same => absurd same (Nat.succ_ne_zero _).symm)
  have here : Function.update (fun _ => none) 0 (some (Stackelm.first dlp beyond)) 0 =
      some (Stackelm.first dlp beyond) := update_self _ _ _
  unfold initStack
  dsimp only
  rw [set_eq le_rfl (by omega)]
  have finish
      {segment : Segment}
      (index : Nat)
      (filled : Filled segment index)
      (first : segment.stackelm 0 = some (Stackelm.first dlp beyond))
      (small : dlp.depth ≤ maxDepth)
      (validSp : Int) :
      Shallow maxDepth { segment with validSp := validSp } := by
    refine ⟨by omega, ?_, ?_, filled.chain, filled.reload⟩
    · change segment.curSp < maxDepth
      rw [filled.curSp]
      omega
    · intro place other holds within
      rw [filled.curSp] at within
      obtain rfl : place = 0 := by omega
      obtain rfl := Option.some.inj (first.symm.trans holds)
      rw [zero_add]
      exact small
  refine dlp.next_fine.bind fun next follows => ?_
  cases follows with
  | leaf isFinal single =>
    cases dlp with
    | leaf shape element =>
      subst recorded
      exact finish 1 started here fits _
    | _ => cases isFinal
  | @child under notFinal below longer =>
    have underPos := under.depth_pos
    have levels := @initLevels_fine maxDepth beyond (depth - 1) 1 (by omega) under
      (by omega) (Stackelm.first dlp beyond).mayRequireReloading _ one_pos started
      (by
        intro place previous same holds
        obtain rfl : place = 0 := by omega
        obtain rfl := Option.some.inj (here.symm.trans holds)
        exact below)
    refine levels.bind fun segment reached => ?_
    exact finish _ reached.1 (reached.2.1.trans here) (by omega) _

/-- The elements behind the first one overflow the stack, when the way down is too
long for it. -/
theorem initLevels_overflow
    {left index : Nat} {dlp : Loop}
    (inside : index ≤ maxDepth)
    (long : maxDepth < index + dlp.firstPath)
    (deep : maxDepth < index + left)
    (branch : Bool)
    (segment : Segment) :
    initLevels maxDepth beyond left index (some dlp) branch segment = .error .overflow := by
  induction left generalizing index dlp branch segment with
  | zero => omega
  | succ left ih =>
    unfold initLevels
    by_cases full : maxDepth ≤ index
    · exact if_pos full
    rw [if_neg full]
    dsimp only
    rw [set_eq (Int.natCast_nonneg _) (by omega)]
    obtain ⟨child, next, notFinal, longer⟩ := Loop.exists_next (show 1 < dlp.firstPath by omega)
    change (if left ≠ 0 then _ else _) = _
    rw [if_pos (by omega), if_neg (by rw [notFinal]; exact Bool.false_ne_true), next]
    exact ih (by omega) (by omega) (by omega) _ _

/-- `Segment_init` overflows the stack, when the way down is too long for it. -/
theorem initStack_overflow
    {dlp : Loop} {depth : Nat}
    (recorded : depth = dlp.depth)
    (positive : 0 < maxDepth)
    (long : maxDepth < dlp.firstPath) :
    initStack maxDepth beyond dlp depth = .error .overflow := by
  have deep := dlp.firstPath_le_depth
  obtain ⟨child, next, notFinal, longer⟩ := Loop.exists_next (show 1 < dlp.firstPath by omega)
  unfold initStack
  dsimp only
  rw [set_eq le_rfl (by omega), next]
  change (initLevels maxDepth beyond (depth - 1) 1 (some child) _ _ >>= _) = _
  rw [initLevels_overflow beyond (by omega) (by omega) (by omega)]
  rfl

end

/-! ## When the stack is large enough -/

/-- `Segment_init` fails or fills in no element behind the end of the stack, and then
no later call of `Segment_manipulate` uses one. -/
structure StackFits
    (maxDepth : Nat)
    (beyond : Int)
    (count : Nat)
    (handle : Handle) : Prop where
  init : segmentInit maxDepth beyond count handle ≠ .error .overflow
  manipulate : ∀ segment calls, segmentInit maxDepth beyond count handle = .ok (some segment) →
      segment.manipulateAll maxDepth calls ≠ .error .overflow

/-- The depth that is recorded for a type is a number of elements that is enough for
one instance of it. -/
def Handle.DepthSuffices (beyond : Int) (handle : Handle) : Prop :=
  ∀ made ∈ handle.loop, StackFits made.2 beyond 1 handle

section

variable {maxDepth : Nat} (beyond : Int)

theorem Fine.mapSome
    {α : Type} {property : α → Prop} {first : Except Halt α}
    (fine : Fine property first) :
    Fine (fun result => ∀ value, result = some value → property value) (first.map some) := by
  cases first with
  | ok value =>
    rintro result same
    obtain rfl := Option.some.inj same
    exact fine
  | error halt => exact fine

variable {handle : Handle}

theorem stackFits_of_fine
    {count : Nat}
    (fine : Fine (fun result => ∀ segment, result = some segment →
      Shallow maxDepth segment) (segmentInit maxDepth beyond count handle)) :
    StackFits maxDepth beyond count handle := by
  refine ⟨fine.ne_overflow, fun segment calls made => ?_⟩
  rw [made] at fine
  exact (manipulateAll_fine (fine segment rfl) calls).ne_overflow

/-- A stack as long as the way down through the first blocks is long enough for one
instance, and one of eight elements for any other number. -/
theorem segmentInit_fine
    (recorded : handle.Recorded)
    (positive : 0 < maxDepth)
    {count : Nat}
    (fits : ∀ made ∈ handle.loop, count = 1 → made.1.firstPath ≤ maxDepth) :
    Fine (fun result => ∀ segment, result = some segment → Shallow maxDepth segment)
      (segmentInit maxDepth beyond count handle) := by
  have single (shape : Shape) (element : Element) :
      Fine (Shallow maxDepth) (initStack maxDepth beyond (.leaf shape element) 1) :=
    initStack_fine beyond rfl positive
  unfold segmentInit
  cases found : handle.loop with
  | none => exact (single _ _).mapSome
  | some made =>
    obtain ⟨loop, depth⟩ := made
    have depth_eq : depth = loop.depth := recorded _ found
    dsimp only
    split
    · exact (single _ _).mapSome
    split
    · next one => exact (initStack_fine beyond depth_eq (fits _ found one)).mapSome
    split
    · exact nofun
    split
    · split
      · exact (single _ _).mapSome
      · exact (single _ _).mapSome
    · refine (initStack_fine beyond (congrArg (· + 1) depth_eq) ?_).mapSome
      have path := loop.firstPath_le_depth
      change loop.firstPath + 1 ≤ maxDepth
      omega

/-- The stack fits but for one instance of a type with a longer way down. -/
theorem stackFits_iff
    (recorded : handle.Recorded)
    (positive : 0 < maxDepth)
    (count : Nat) :
    StackFits maxDepth beyond count handle ↔
      ∀ made ∈ handle.loop, count = 1 → made.1.firstPath ≤ maxDepth := by
  refine ⟨fun fits made found one => ?_, fun fits =>
    stackFits_of_fine beyond (segmentInit_fine beyond recorded positive fits)⟩
  by_contra long
  refine fits.init ?_
  have overflow := initStack_overflow beyond (recorded _ found) positive (Nat.lt_of_not_le long)
  subst one
  unfold segmentInit
  rw [found]
  dsimp only
  rw [if_neg Nat.one_ne_zero, if_pos rfl, overflow]
  rfl

end

/-- For a datatype that the create functions have made and for any count, the stack
never overflows and the recorded depth suffices, unless the count is one and there
are more loops on the way down through the first blocks than the stack has
elements: that case is not checked. -/
theorem stackFits_of_created
    {flag : Flag} {handle : Handle}
    (created : Created flag handle)
    (beyond : Int)
    (count : Nat) :
    StackFits maxDatatypeDepth beyond count handle ∧ handle.DepthSuffices beyond ↔
      ∀ made ∈ handle.loop, count = 1 → made.1.firstPath ≤ maxDatatypeDepth := by
  have recorded := created.recorded flag
  have enough : handle.DepthSuffices beyond := by
    intro made found
    have depth_eq := recorded made found
    refine (stackFits_iff beyond recorded ?_ 1).mpr fun other otherFound _ => ?_
    · rw [depth_eq]
      exact made.1.depth_pos
    · obtain rfl := Option.some.inj (found.symm.trans otherFound)
      rw [depth_eq]
      exact made.1.firstPath_le_depth
  rw [and_iff_left enough]
  exact stackFits_iff beyond recorded (by decide) count

/-- Vectors of vectors of integers. -/
def nestedVectors : Nat → Handle
  | 0 => mpiInt
  | levels + 1 => {
      value := 3 + levels
      size := 2 * (nestedVectors levels).size
      extent := 3 * (nestedVectors levels).extent
      basicType := mpiInt.value
      loop := some (createVector .homogeneous 2 1 (2 * (nestedVectors levels).extent) true
        (nestedVectors levels)) }

theorem created_nestedVectors (levels : Nat) :
    Created .homogeneous (nestedVectors levels) := by
  induction levels with
  | zero => exact .builtin rfl
  | succ levels ih =>
    exact .vector 2 1 (2 * (nestedVectors levels).extent) true ih rfl

theorem threeNestedVectors_fit :
    StackFits maxDatatypeDepth 0 3 (nestedVectors 2) ∧ (nestedVectors 2).DepthSuffices 0 :=
  (stackFits_of_created (created_nestedVectors 2) 0 3).mpr
    fun _ _ one => absurd one (by decide)

/-- One instance of nine vectors inside one another. -/
theorem nineNestedVectors_overflow :
    Created .homogeneous (nestedVectors 9) ∧
      segmentInit maxDatatypeDepth 0 1 (nestedVectors 9) = .error .overflow ∧
      ¬ StackFits maxDatatypeDepth 0 1 (nestedVectors 9) := by
  have overflow : segmentInit maxDatatypeDepth 0 1 (nestedVectors 9) = .error .overflow := rfl
  exact ⟨created_nestedVectors 9, overflow, fun fits => fits.init overflow⟩

end Mpich.Dataloop
