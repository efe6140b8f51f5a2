import Mpich.Foundation.LinkedQueue
import Mpich.Foundation.TransitionSystem

/-!
# The nemesis queue

Cells are linked through their `next` pointers. An enqueuer swaps its cell into
`tail` and then links it behind the cell that it found there, or into `head` when
it found none. The one dequeuer takes cells from a head of its own, `my_head`,
which it fills from `head` when it is null. Every load, store, swap and
compare-and-swap is a step of its own.
-/

namespace Mpich.Nemesis.Queue

open Function

/-- Where a process is in `MPID_nem_queue_enqueue`. -/
inductive Enqueuer (Cell : Type*)
  | idle
  /-- About to swap the cell into `tail`. -/
  | swapping (element : Cell)
  /-- About to link the cell behind `r_prev`. -/
  | linking (prev : Option Cell) (element : Cell)

/-- Where the dequeuer is in `MPID_nem_queue_empty` or `MPID_nem_queue_dequeue`.
A call of `MPID_nem_queue_empty` is marked as `settled` if it starts when all
enqueues have finished and the queue holds a cell. -/
inductive Dequeuer (Cell : Type*)
  | idle
  | testMyHead (settled : Bool)
  | testHead (settled : Bool)
  | readHead
  | writeMyHead (value : Option Cell)
  | clearHead
  | reportedEmpty (settled : Bool)
  | reportedNonempty
  | readMyHead
  | testNext (element : Cell)
  | readNext (element : Cell)
  | moveMyHead (element : Cell) (value : Option Cell)
  | dropMyHead (element : Cell)
  | casTail (element : Cell)
  | spin (element : Cell)
  | clearNext (element : Cell)
  | returned (element : Cell)

/-- The memory, the places of the processes, and what has happened so far. -/
structure State (Process Cell : Type*) where
  head : Option Cell
  tail : Option Cell
  myHead : Option Cell
  next : Cell → Option Cell
  enqueuer : Process → Enqueuer Cell
  dequeuer : Dequeuer Cell
  /-- The cells in the order of their swaps on `tail`. -/
  swapped : List Cell
  /-- The cells in the order in which they were returned. -/
  dequeued : List Cell

inductive Action (Process Cell : Type*)
  | enqueue (process : Process) (element : Cell)
  /-- The process makes its next step in `MPID_nem_queue_enqueue`. -/
  | proceed (process : Process)
  | queueEmpty (settled : Bool)
  | dequeue
  /-- The dequeuer makes its next step. -/
  | advance

namespace State

variable {Process Cell : Type*} [DecidableEq Process] [DecidableEq Cell]

/-- The cells that have been swapped in and not yet returned. -/
def queue
    (state : State Process Cell) : List Cell :=
  state.swapped.drop state.dequeued.length

/-- All enqueues have finished. -/
def Quiet
    (state : State Process Cell) : Prop :=
  ∀ process, state.enqueuer process = .idle

/-- The next step of an enqueuer. -/
def proceed
    (state : State Process Cell)
    (process : Process) : Option (State Process Cell) :=
  match state.enqueuer process with
  | .idle => none
  | .swapping element =>
    some { state with
      tail := some element
      enqueuer := update state.enqueuer process
        (.linking state.tail element)
      swapped := state.swapped ++ [element] }
  | .linking none element =>
    some { state with
      head := some element
      enqueuer := update state.enqueuer process .idle }
  | .linking (some prev) element =>
    some { state with
      next := update state.next prev (some element)
      enqueuer := update state.enqueuer process .idle }

/-- The next step of the dequeuer; `none` where it follows a null pointer. -/
def advance
    (state : State Process Cell) : Option (State Process Cell) :=
  match state.dequeuer with
  | .testMyHead settled =>
    some { state with
      dequeuer :=
        if state.myHead = none then .testHead settled else .reportedNonempty }
  | .testHead settled =>
    some { state with
      dequeuer :=
        if state.head = none then .reportedEmpty settled else .readHead }
  | .readHead => some { state with dequeuer := .writeMyHead state.head }
  | .writeMyHead value =>
    some { state with myHead := value, dequeuer := .clearHead }
  | .clearHead => some { state with head := none, dequeuer := .reportedNonempty }
  | .readMyHead =>
    state.myHead.map fun element =>
      { state with dequeuer := .testNext element }
  | .testNext element =>
    some { state with
      dequeuer :=
        if state.next element = none then .dropMyHead element
        else .readNext element }
  | .readNext element =>
    some { state with dequeuer := .moveMyHead element (state.next element) }
  | .moveMyHead element value =>
    some { state with myHead := value, dequeuer := .clearNext element }
  | .dropMyHead element =>
    some { state with myHead := none, dequeuer := .casTail element }
  | .casTail element =>
    if state.tail = some element then
      some { state with tail := none, dequeuer := .clearNext element }
    else some { state with dequeuer := .spin element }
  | .spin element =>
    some { state with
      dequeuer :=
        if state.next element = none then .spin element
        else .readNext element }
  | .clearNext element =>
    some { state with
      next := update state.next element none
      dequeuer := .returned element
      dequeued := state.dequeued ++ [element] }
  | .idle | .reportedEmpty _ | .reportedNonempty | .returned _ => none

/-- The dequeuer is between two calls. -/
def Between
    (state : State Process Cell) : Prop :=
  match state.dequeuer with
  | .idle | .reportedEmpty _ | .reportedNonempty | .returned _ => True
  | _ => False

end State

variable {Process Cell : Type*} [DecidableEq Process] [DecidableEq Cell]

/-- What the processes may do. A cell that is enqueued has a null `next` and is
not in the queue, nor about to be; the queue is asked before a cell is
dequeued. -/
def enabled
    (state : State Process Cell) : Action Process Cell → Prop
  | .enqueue process element =>
    state.enqueuer process = .idle ∧ state.next element = none ∧ element ∉ state.queue ∧
        ∀ other, state.enqueuer other ≠ .swapping element
  | .proceed process => state.enqueuer process ≠ .idle
  | .queueEmpty settled =>
    state.Between ∧ (settled = true → state.Quiet ∧ state.queue ≠ [])
  | .dequeue => state.dequeuer = .reportedNonempty
  | .advance => ¬ state.Between

def step
    (state : State Process Cell) :
    Action Process Cell → Option (State Process Cell)
  | .enqueue process element =>
    some { state with
      enqueuer := update state.enqueuer process (.swapping element) }
  | .proceed process => state.proceed process
  | .queueEmpty settled => some { state with dequeuer := .testMyHead settled }
  | .dequeue => some { state with dequeuer := .readMyHead }
  | .advance => state.advance

/-- `MPID_nem_queue_init`: an empty queue, and nobody in a call. -/
def Initial
    (state : State Process Cell) : Prop :=
  state.head = none ∧ state.tail = none ∧ state.myHead = none ∧ state.Quiet ∧
    state.dequeuer = .idle ∧ state.swapped = [] ∧ state.dequeued = []

/-- Any number of enqueuers and one dequeuer. -/
def system : TransitionSystem (State Process Cell) (Action Process Cell) where
  initial := Initial
  enabled := enabled
  step := step

end Mpich.Nemesis.Queue

/-!
## The invariant of the nemesis queue

Two cells that follow each other in the queue are linked, or the enqueuer of the
second one is about to link them. The first cell is in `my_head`, or in `head`,
or its enqueuer is about to put it there.
-/

namespace Mpich.Nemesis.Queue

open List

variable {Process Cell : Type*}

variable {cells : List Cell}

theorem neighbours_concat {first second last : Cell} :
    [first, second] <:+: cells ++ [last] ↔
      [first, second] <:+: cells ∨ cells.getLast? = some first ∧ second = last := by
  rw [infix_concat_iff, or_comm]
  apply or_congr_right
  constructor
  · rintro ⟨before, same⟩
    have split : (before ++ [first]) ++ [second] = cells ++ [last] := by
      rw [← same, append_assoc]
      rfl
    obtain ⟨rfl, isLast⟩ := append_inj' split rfl
    exact ⟨getLast?_concat, head_eq_of_cons_eq isLast⟩
  · rintro ⟨isLast, rfl⟩
    obtain ⟨before, rfl⟩ := getLast?_eq_some_iff.mp isLast
    refine ⟨before, ?_⟩
    rw [append_assoc]
    rfl

theorem neighbours_cons {first second head : Cell} :
    [first, second] <:+: head :: cells ↔
      first = head ∧ cells.head? = some second ∨ [first, second] <:+: cells := by
  rw [infix_cons_iff]
  apply or_congr_left
  rw [cons_prefix_cons]
  apply and_congr_right
  cases cells with
  | nil => simp
  | cons element rest => simp [cons_prefix_cons, eq_comm]

theorem mem_of_neighbours
    {first second : Cell}
    (neighbours : [first, second] <:+: cells) :
    first ∈ cells ∧ second ∈ cells :=
  ⟨neighbours.subset (by simp), neighbours.subset (by simp)⟩

/-- A cell has one successor. -/
theorem neighbours_unique
    {first second other : Cell}
    (nodup : cells.Nodup)
    (one : [first, second] <:+: cells)
    (two : [first, other] <:+: cells) :
    second = other := by
  induction cells with
  | nil => exact absurd (mem_of_neighbours one).1 not_mem_nil
  | cons head rest ih =>
    obtain ⟨fresh, distinct⟩ := nodup_cons.mp nodup
    rcases neighbours_cons.mp one with ⟨rfl, isSecond⟩ | oneInside
    · rcases neighbours_cons.mp two with ⟨-, isOther⟩ | twoInside
      · exact Option.some.inj (isSecond.symm.trans isOther)
      · exact absurd (mem_of_neighbours twoInside).1 fresh
    · rcases neighbours_cons.mp two with ⟨rfl, -⟩ | twoInside
      · exact absurd (mem_of_neighbours oneInside).1 fresh
      · exact ih distinct oneInside twoInside

/-- The last cell has no successor. -/
theorem getLast?_ne_of_neighbours
    {first second : Cell}
    (nodup : cells.Nodup)
    (neighbours : [first, second] <:+: cells) :
    cells.getLast? ≠ some first := by
  intro isLast
  obtain ⟨before, rfl⟩ := getLast?_eq_some_iff.mp isLast
  rw [nodup_append_comm] at nodup
  have fresh := (nodup_cons.mp nodup).1
  rcases neighbours_concat.mp neighbours with inside | ⟨also, -⟩
  · exact fresh (mem_of_neighbours inside).1
  · exact fresh (mem_of_getLast? also)

/-- The cells are linked, up to the links that enqueuers are about to make. -/
structure Joined
    (state : State Process Cell)
    (cells : List Cell) : Prop where
  nodup : cells.Nodup
  tail : state.tail = cells.getLast?
  last : ∀ element, cells.getLast? = some element → state.next element = none
  joined : ∀ prev element, [prev, element] <:+: cells → state.next prev = some element ∨
      ∃ process, state.enqueuer process = .linking (some prev) element
  linking : ∀ process prev element, state.enqueuer process = .linking (some prev) element →
      state.next prev = none ∧ [prev, element] <:+: cells
  once : ∀ process other prev element, state.enqueuer process = .linking (some prev) element →
      state.enqueuer other = .linking (some prev) element → process = other

/-- No cell is about to be put into `head`. -/
def NoFirst
    (state : State Process Cell) : Prop :=
  ∀ process element, state.enqueuer process ≠ .linking none element

/-- Where the first cell is. -/
inductive Anchored
    (state : State Process Cell)
    (cells : List Cell) : Prop
  | mine :
      state.myHead = cells.head? → state.head = none → NoFirst state → Anchored state cells
  | shared :
      state.myHead = none → state.head = cells.head? → NoFirst state → Anchored state cells
  | coming (process : Process) (element : Cell) :
      state.myHead = none → state.head = none → cells.head? = some element →
        state.enqueuer process = .linking none element →
          (∀ other later, state.enqueuer other = .linking none later →
            other = process) → Anchored state cells

/-- The dequeuer has taken the first cell from `my_head`. -/
structure Held
    (state : State Process Cell)
    (cells : List Cell)
    (element : Cell) : Prop where
  first : cells.head? = some element
  head : state.head = none
  noFirst : NoFirst state

/-- The first cell has been enqueued. -/
def Arrived
    (state : State Process Cell)
    (cells : List Cell) : Prop :=
  cells ≠ [] ∧ NoFirst state

/-- What the dequeuer knows; `cells` are the cells of the queue but for one whose
`next` it is about to clear. -/
def Stage
    (state : State Process Cell)
    (cells : List Cell) : Prop :=
  match state.dequeuer with
  | .idle | .returned _ | .clearNext _ => Anchored state cells
  | .testMyHead settled =>
    Anchored state cells ∧ (settled = true → Arrived state cells)
  | .testHead settled =>
    Anchored state cells ∧ state.myHead = none ∧ (settled = true → Arrived state cells)
  | .reportedEmpty settled => Anchored state cells ∧ settled = false
  | .readHead =>
    state.myHead = none ∧ state.head = cells.head? ∧ Arrived state cells
  | .writeMyHead value => value = cells.head? ∧ Arrived state cells
  | .clearHead => state.myHead = cells.head? ∧ Arrived state cells
  | .reportedNonempty | .readMyHead =>
    state.myHead = cells.head? ∧ state.head = none ∧ Arrived state cells
  | .testNext element | .dropMyHead element => Held state cells element
  | .readNext element => Held state cells element ∧ state.next element ≠ none
  | .moveMyHead element value =>
    Held state cells element ∧ state.next element ≠ none ∧ value = state.next element
  | .casTail element => Held state cells element ∧ state.myHead = none
  | .spin element =>
    Held state cells element ∧ state.myHead = none ∧ cells.getLast? ≠ some element

/-- The cell whose `next` is about to be cleared. -/
def Dequeuer.leaving : Dequeuer Cell → List Cell
  | .clearNext element => [element]
  | _ => []

/-- The invariant. -/
structure Consistent
    (state : State Process Cell)
    (cells : List Cell) : Prop where
  joined : Joined state cells
  stage : Stage state cells
  swapped : state.swapped = state.dequeued ++ (state.dequeuer.leaving ++ cells)
  gone : ∀ element ∈ state.dequeuer.leaving, element ∉ cells
  swapping : ∀ process element, state.enqueuer process = .swapping element →
    state.next element = none ∧ element ∉ state.dequeuer.leaving ++ cells
  unique : ∀ first second element, state.enqueuer first = .swapping element →
    state.enqueuer second = .swapping element → first = second
  clean : ∀ element ∈ state.dequeued,
    element ∉ state.dequeuer.leaving ++ cells → state.next element = none

theorem Consistent.queue
    {state : State Process Cell}
    (consistent : Consistent state cells) :
    state.queue = state.dequeuer.leaving ++ cells := by
  rw [State.queue, consistent.swapped, drop_left]

/-- A step of an enqueuer keeps what the dequeuer knows. -/
theorem Stage.mono
    {state next : State Process Cell} {cells later : List Cell}
    (stage : Stage state cells)
    (sameDequeuer : next.dequeuer = state.dequeuer)
    (sameMyHead : next.myHead = state.myHead)
    (anchored : Anchored state cells → Anchored next later)
    (arrived : Arrived state cells →
      Arrived next later ∧ later.head? = cells.head? ∧ next.head = state.head)
    (held : ∀ element, Held state cells element → Held next later element)
    (sameNext : ∀ element, state.next element ≠ none → next.next element = state.next element)
    (sameEnd : ∀ element, Held state cells element →
      cells.getLast? ≠ some element → later.getLast? ≠ some element) :
    Stage next later := by
  unfold Stage at stage ⊢
  rw [sameDequeuer, sameMyHead]
  cases isDequeuer : state.dequeuer with
  | idle | returned | clearNext =>
    rw [isDequeuer] at stage
    exact anchored stage
  | testMyHead settled =>
    rw [isDequeuer] at stage
    exact ⟨anchored stage.1, fun isSettled => (arrived (stage.2 isSettled)).1⟩
  | testHead settled =>
    rw [isDequeuer] at stage
    exact ⟨anchored stage.1, stage.2.1, fun isSettled => (arrived (stage.2.2 isSettled)).1⟩
  | reportedEmpty settled =>
    rw [isDequeuer] at stage
    exact ⟨anchored stage.1, stage.2⟩
  | readHead =>
    rw [isDequeuer] at stage
    obtain ⟨noMyHead, isHead, isArrived⟩ := stage
    obtain ⟨stillArrived, sameFirst, sameHead⟩ := arrived isArrived
    rw [sameFirst, sameHead]
    exact ⟨noMyHead, isHead, stillArrived⟩
  | writeMyHead value =>
    rw [isDequeuer] at stage
    obtain ⟨stillArrived, sameFirst, _⟩ := arrived stage.2
    rw [sameFirst]
    exact ⟨stage.1, stillArrived⟩
  | clearHead =>
    rw [isDequeuer] at stage
    obtain ⟨stillArrived, sameFirst, _⟩ := arrived stage.2
    rw [sameFirst]
    exact ⟨stage.1, stillArrived⟩
  | reportedNonempty | readMyHead =>
    rw [isDequeuer] at stage
    obtain ⟨isMyHead, noHead, isArrived⟩ := stage
    obtain ⟨stillArrived, sameFirst, sameHead⟩ := arrived isArrived
    rw [sameFirst, sameHead]
    exact ⟨isMyHead, noHead, stillArrived⟩
  | testNext element | dropMyHead element =>
    rw [isDequeuer] at stage
    exact held element stage
  | readNext element =>
    rw [isDequeuer] at stage
    refine ⟨held element stage.1, ?_⟩
    rw [sameNext element stage.2]
    exact stage.2
  | moveMyHead element value =>
    rw [isDequeuer] at stage
    obtain ⟨isHeld, isLinked, isValue⟩ := stage
    have same := sameNext element isLinked
    refine ⟨held element isHeld, ?_, ?_⟩
    · rw [same]
      exact isLinked
    · rw [same]
      exact isValue
  | casTail element =>
    rw [isDequeuer] at stage
    exact ⟨held element stage.1, stage.2⟩
  | spin element =>
    rw [isDequeuer] at stage
    obtain ⟨isHeld, noMyHead, notLast⟩ := stage
    exact ⟨held element isHeld, noMyHead, sameEnd element isHeld notLast⟩

/-- An empty queue has nothing in its heads. -/
theorem Anchored.nil
    {state : State Process Cell}
    (anchored : Anchored state []) :
    state.myHead = none ∧ state.head = none ∧ NoFirst state := by
  cases anchored with
  | mine isMyHead noHead noFirst => exact ⟨isMyHead, noHead, noFirst⟩
  | shared noMyHead isHead noFirst => exact ⟨noMyHead, isHead, noFirst⟩
  | coming _ _ _ _ impossible => exact absurd impossible (by simp)

end Mpich.Nemesis.Queue
