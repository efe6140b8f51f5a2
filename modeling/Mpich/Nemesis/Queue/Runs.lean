import Mpich.Nemesis.Queue.Enqueue

/-!
# The nemesis queue is first in, first out

The steps of the dequeuer keep the invariant, so it holds in every state that any
number of enqueuers and the dequeuer reach.
-/

namespace Mpich.Nemesis.Queue

open List Function

variable {Process Cell : Type*} {state : State Process Cell} {cells : List Cell}

variable (consistent : Consistent state cells)

include consistent in
theorem Consistent.restage
    (head myHead : Option Cell)
    (dequeuer : Dequeuer Cell)
    (sameLeaving : dequeuer.leaving = state.dequeuer.leaving)
    (stage : Stage { state with head, myHead, dequeuer } cells) :
    Consistent { state with head, myHead, dequeuer } cells where
  joined :=
    have joined := consistent.joined
    ⟨joined.nodup, joined.tail, joined.last, joined.joined, joined.linking, joined.once⟩
  stage := stage
  swapped := sameLeaving ▸ consistent.swapped
  gone := sameLeaving ▸ consistent.gone
  swapping := sameLeaving ▸ consistent.swapping
  unique := consistent.unique
  clean := sameLeaving ▸ consistent.clean

theorem Between.leaving (between : state.Between) :
    state.dequeuer.leaving = [] := by
  unfold State.Between at between
  cases isDequeuer : state.dequeuer with
  | clearNext element =>
    rw [isDequeuer] at between
    exact between.elim
  | _ => rfl

include consistent in
/-- Between two calls the first cell is in a head, or on its way there. -/
theorem Consistent.anchored
    (between : state.Between) :
    Anchored state cells := by
  have stage := consistent.stage
  unfold Stage at stage
  unfold State.Between at between
  cases isDequeuer : state.dequeuer with
  | idle | returned =>
    rw [isDequeuer] at stage
    exact stage
  | reportedEmpty settled =>
    rw [isDequeuer] at stage
    exact stage.1
  | reportedNonempty =>
    rw [isDequeuer] at stage
    exact .mine stage.1 stage.2.1 stage.2.2.2
  | _ =>
    rw [isDequeuer] at between
    exact between.elim

/-- Where the first cell is does not depend on the dequeuer. -/
theorem Anchored.congr
    {next : State Process Cell}
    (anchored : Anchored state cells)
    (sameHead : next.head = state.head)
    (sameMyHead : next.myHead = state.myHead)
    (sameEnqueuer : next.enqueuer = state.enqueuer) :
    Anchored next cells := by
  have noFirst (before : NoFirst state) : NoFirst next := by
    unfold NoFirst
    rw [sameEnqueuer]
    exact before
  cases anchored with
  | mine isMyHead noHead before =>
    exact .mine (sameMyHead.trans isMyHead) (sameHead.trans noHead) (noFirst before)
  | shared noMyHead isHead before =>
    exact .shared (sameMyHead.trans noMyHead) (sameHead.trans isHead) (noFirst before)
  | coming process element noMyHead noHead isFirst links only =>
    refine .coming process element (sameMyHead.trans noMyHead)
      (sameHead.trans noHead) isFirst ?_ ?_
    · rw [sameEnqueuer]
      exact links
    · rw [sameEnqueuer]
      exact only

include consistent in
theorem Consistent.queueEmpty
    {settled : Bool}
    (between : state.Between)
    (isSettled : settled = true → state.Quiet ∧ state.queue ≠ []) :
    Consistent { state with dequeuer := .testMyHead settled } cells := by
  have noneLeaves := Between.leaving between
  apply consistent.restage state.head state.myHead (.testMyHead settled) noneLeaves.symm
  refine ⟨(consistent.anchored between).congr rfl rfl rfl, ?_⟩
  intro marked
  obtain ⟨quiet, nonempty⟩ := isSettled marked
  rw [consistent.queue, noneLeaves] at nonempty
  refine ⟨nonempty, ?_⟩
  intro process element links
  nomatch (quiet process).symm.trans links

include consistent in
theorem Consistent.dequeue
    (reported : state.dequeuer = .reportedNonempty) :
    Consistent { state with dequeuer := .readMyHead } cells := by
  apply consistent.restage state.head state.myHead .readMyHead
  · rw [reported]
    rfl
  · have stage := consistent.stage
    unfold Stage at stage
    rw [reported] at stage
    exact stage

variable {element : Cell}

/-- A first cell with a link has the second cell as its `next`. -/
theorem Joined.next_first
    {rest : List Cell}
    (joined : Joined state (element :: rest))
    (linked : state.next element ≠ none) :
    state.next element = rest.head? ∧ rest ≠ [] := by
  cases rest with
  | nil => exact absurd (joined.last element rfl) linked
  | cons second later =>
    have neighbours : [element, second] <:+: element :: second :: later :=
      neighbours_cons.mpr (.inl ⟨rfl, rfl⟩)
    refine ⟨?_, cons_ne_nil second later⟩
    rcases joined.joined element second neighbours with isNext | ⟨process, links⟩
    · exact isNext
    · exact absurd (joined.linking process element second links).1 linked

/-- The cells behind a first cell with a link. -/
theorem Joined.rest
    {rest : List Cell}
    (joined : Joined state (element :: rest))
    (linked : state.next element ≠ none) :
    Joined state rest := by
  obtain ⟨-, nonempty⟩ := joined.next_first linked
  have sameLast : (element :: rest).getLast? = rest.getLast? := by
    obtain ⟨second, later, rfl⟩ := exists_cons_of_ne_nil nonempty
    exact getLast?_cons_cons
  constructor
  case nodup => exact joined.nodup.of_cons
  case tail => exact joined.tail.trans sameLast
  case last =>
    intro last isLast
    exact joined.last last (sameLast.trans isLast)
  case joined =>
    intro prev second neighbours
    exact joined.joined prev second (neighbours_cons.mpr (.inr neighbours))
  case linking =>
    intro process prev second links
    obtain ⟨isNone, neighbours⟩ := joined.linking process prev second links
    refine ⟨isNone, (neighbours_cons.mp neighbours).resolve_left ?_⟩
    rintro ⟨rfl, -⟩
    exact linked isNone
  case once => exact joined.once

section

include consistent

theorem Consistent.moveMyHead
    {value : Option Cell}
    (isDequeuer : state.dequeuer = .moveMyHead element value) :
    ∃ rest, Consistent
      { state with myHead := value, dequeuer := .clearNext element } rest := by
  have stage := consistent.stage
  unfold Stage at stage
  rw [isDequeuer] at stage
  obtain ⟨⟨isFirst, noHead, noFirst⟩, linked, rfl⟩ := stage
  obtain ⟨rest, rfl⟩ := head?_eq_some_iff.mp isFirst
  have joined := consistent.joined
  have after := joined.rest linked
  refine ⟨rest, ?_⟩
  have swapped := consistent.swapped
  have swapping := consistent.swapping
  have clean := consistent.clean
  rw [isDequeuer] at swapped swapping clean
  constructor
  case joined =>
    exact ⟨after.nodup, after.tail, after.last, after.joined, after.linking, after.once⟩
  case stage => exact .mine (joined.next_first linked).1 noHead noFirst
  case swapped => exact swapped
  case gone =>
    intro leaving isLeaving
    rw [mem_singleton.mp isLeaving]
    exact (nodup_cons.mp joined.nodup).1
  case swapping => exact swapping
  case unique => exact consistent.unique
  case clean => exact clean

/-- The compare-and-swap succeeds when the first cell is the only one. -/
theorem Consistent.casTail
    (isDequeuer : state.dequeuer = .casTail element)
    (isTail : state.tail = some element) :
    Consistent { state with tail := none, dequeuer := .clearNext element } [] := by
  have stage := consistent.stage
  unfold Stage at stage
  rw [isDequeuer] at stage
  obtain ⟨⟨isFirst, noHead, noFirst⟩, noMyHead⟩ := stage
  obtain ⟨rest, rfl⟩ := head?_eq_some_iff.mp isFirst
  have joined := consistent.joined
  have only : rest = [] := by
    by_contra nonempty
    obtain ⟨second, later, rfl⟩ := exists_cons_of_ne_nil nonempty
    rw [joined.tail, getLast?_cons_cons] at isTail
    exact (nodup_cons.mp joined.nodup).1 (mem_of_getLast? isTail)
  subst only
  have noLink (process : Process) (prev second : Cell) :
      state.enqueuer process ≠ .linking (some prev) second := by
    intro links
    have neighbours := (joined.linking process prev second links).2
    rcases neighbours_cons.mp neighbours with ⟨-, impossible⟩ | inside
    · nomatch impossible
    · exact absurd (mem_of_neighbours inside).1 not_mem_nil
  have swapped := consistent.swapped
  have swapping := consistent.swapping
  have clean := consistent.clean
  rw [isDequeuer] at swapped swapping clean
  constructor
  case joined =>
    constructor
    case nodup => exact nodup_nil
    case tail => rfl
    case last => exact fun _ impossible => nomatch impossible
    case joined =>
      intro prev second neighbours
      exact absurd (mem_of_neighbours neighbours).1 not_mem_nil
    case linking =>
      intro process prev second links
      exact absurd links (noLink process prev second)
    case once => exact joined.once
  case stage => exact .shared noMyHead noHead noFirst
  case swapped => exact swapped
  case gone => exact fun _ _ => not_mem_nil
  case swapping => exact swapping
  case unique => exact consistent.unique
  case clean => exact clean

theorem Consistent.clearNext
    [DecidableEq Cell]
    (isDequeuer : state.dequeuer = .clearNext element) :
    Consistent { state with
      next := update state.next element none
      dequeuer := .returned element
      dequeued := state.dequeued ++ [element] } cells := by
  have stage := consistent.stage
  unfold Stage at stage
  have swapped := consistent.swapped
  have gone := consistent.gone
  have swapping := consistent.swapping
  have clean := consistent.clean
  rw [isDequeuer] at stage swapped gone swapping clean
  have fresh : element ∉ cells := gone element (mem_singleton_self element)
  have joined := consistent.joined
  have other {later : Cell} (inside : later ∈ cells) : later ≠ element := by
    rintro rfl
    exact fresh inside
  constructor
  case joined =>
    constructor
    case nodup => exact joined.nodup
    case tail => exact joined.tail
    case last =>
      intro last isLast
      rw [← joined.last last isLast]
      exact update_of_ne (other (mem_of_getLast? isLast)) ..
    case joined =>
      intro prev second neighbours
      apply (joined.joined prev second neighbours).imp_left
      exact (update_of_ne (other (mem_of_neighbours neighbours).1) ..).trans
    case linking =>
      intro process prev second links
      obtain ⟨isNone, neighbours⟩ := joined.linking process prev second links
      refine ⟨?_, neighbours⟩
      rw [← isNone]
      exact update_of_ne (other (mem_of_neighbours neighbours).1) ..
    case once => exact joined.once
  case stage => exact Anchored.congr stage rfl rfl rfl
  case swapped =>
    rw [swapped, append_assoc]
    rfl
  case gone => exact fun _ impossible => absurd impossible not_mem_nil
  case swapping =>
    intro process later isSwapping
    obtain ⟨isNone, outside⟩ := swapping process later isSwapping
    refine ⟨?_, fun inside => outside (mem_append_right _ inside)⟩
    rw [← isNone]
    apply update_of_ne
    rintro rfl
    exact outside (mem_append_left _ (mem_singleton_self later))
  case unique => exact consistent.unique
  case clean =>
    intro later isDequeued outside
    by_cases same : later = element
    · subst same
      exact update_self ..
    · refine (update_of_ne same ..).trans (clean later ?_ ?_)
      · exact (mem_append.mp isDequeued).resolve_right fun also =>
          same (mem_singleton.mp also)
      · intro inside
        rcases mem_append.mp inside with also | inside
        · exact same (mem_singleton.mp also)
        · exact outside inside

end

end Mpich.Nemesis.Queue

/-!
## Runs of the nemesis queue

The invariant holds in every state that any number of enqueuers and the dequeuer
reach, whatever the order of their loads, stores, swaps and compare-and-swaps.
The queue loses no cell, hands out none twice, and keeps the order of the swaps.
-/

namespace Mpich.Nemesis.Queue

open List Option

variable {Process Cell : Type*} {state : State Process Cell} {cells : List Cell}

/-- A step of the dequeuer inside a call can be made, and keeps the invariant. -/
theorem Consistent.advance
    [DecidableEq Cell]
    (consistent : Consistent state cells)
    (inside : ¬ state.Between) :
    ∃ next rest, state.advance = some next ∧ Consistent next rest := by
  have stage := consistent.stage
  unfold Stage at stage
  unfold State.Between at inside
  unfold State.advance
  cases isDequeuer : state.dequeuer with
  | idle | reportedEmpty | reportedNonempty | returned =>
    rw [isDequeuer] at inside
    exact absurd trivial inside
  | testMyHead settled =>
    rw [isDequeuer] at stage
    refine ⟨_, cells, rfl, ?_⟩
    apply consistent.restage state.head state.myHead
    case sameLeaving =>
      rw [isDequeuer]
      split <;> rfl
    case stage =>
      split
      case isTrue noMyHead => exact ⟨stage.1.congr rfl rfl rfl, noMyHead, stage.2⟩
      case isFalse isMyHead =>
        cases stage.1 with
        | mine isFirst noHead noFirst =>
          refine ⟨isFirst, noHead, ?_, noFirst⟩
          rintro rfl
          exact isMyHead isFirst
        | shared noMyHead => exact absurd noMyHead isMyHead
        | coming _ _ noMyHead => exact absurd noMyHead isMyHead
  | testHead settled =>
    rw [isDequeuer] at stage
    obtain ⟨anchored, noMyHead, isSettled⟩ := stage
    refine ⟨_, cells, rfl, ?_⟩
    apply consistent.restage state.head state.myHead
    case sameLeaving =>
      rw [isDequeuer]
      split <;> rfl
    case stage =>
      split
      case isTrue noHead =>
        refine ⟨anchored.congr rfl rfl rfl, ?_⟩
        -- with both heads null, a queue with a cell waits for its first link
        rw [← Bool.not_eq_true]
        intro marked
        obtain ⟨nonempty, noFirst⟩ := isSettled marked
        cases anchored with
        | mine isFirst => exact nonempty (head?_eq_none_iff.mp (isFirst ▸ noMyHead))
        | shared _ isFirst => exact nonempty (head?_eq_none_iff.mp (isFirst ▸ noHead))
        | coming process element _ _ _ links => exact noFirst process element links
      case isFalse isHead =>
        cases anchored with
        | mine _ noHead => exact absurd noHead isHead
        | shared _ isFirst noFirst =>
          refine ⟨noMyHead, isFirst, ?_, noFirst⟩
          rintro rfl
          exact isHead isFirst
        | coming _ _ _ noHead => exact absurd noHead isHead
  | readHead =>
    rw [isDequeuer] at stage
    refine ⟨_, cells, rfl, ?_⟩
    apply consistent.restage state.head state.myHead (.writeMyHead state.head)
    case sameLeaving =>
      rw [isDequeuer]
      rfl
    case stage => exact stage.2
  | writeMyHead value =>
    rw [isDequeuer] at stage
    refine ⟨_, cells, rfl, ?_⟩
    apply consistent.restage state.head value .clearHead
    case sameLeaving =>
      rw [isDequeuer]
      rfl
    case stage => exact stage
  | clearHead =>
    rw [isDequeuer] at stage
    refine ⟨_, cells, rfl, ?_⟩
    apply consistent.restage none state.myHead .reportedNonempty
    case sameLeaving =>
      rw [isDequeuer]
      rfl
    case stage => exact ⟨stage.1, rfl, stage.2⟩
  | readMyHead =>
    rw [isDequeuer] at stage
    obtain ⟨isMyHead, noHead, nonempty, noFirst⟩ := stage
    obtain ⟨element, rest, rfl⟩ := exists_cons_of_ne_nil nonempty
    refine ⟨{ state with dequeuer := .testNext element }, element :: rest, ?_, ?_⟩
    · rw [isMyHead]
      rfl
    · apply consistent.restage state.head state.myHead (.testNext element)
      case sameLeaving =>
        rw [isDequeuer]
        rfl
      case stage => exact ⟨rfl, noHead, noFirst⟩
  | testNext element =>
    rw [isDequeuer] at stage
    refine ⟨_, cells, rfl, ?_⟩
    apply consistent.restage state.head state.myHead
    case sameLeaving =>
      rw [isDequeuer]
      split <;> rfl
    case stage =>
      split
      case isTrue => exact ⟨stage.first, stage.head, stage.noFirst⟩
      case isFalse linked => exact ⟨⟨stage.first, stage.head, stage.noFirst⟩, linked⟩
  | readNext element =>
    rw [isDequeuer] at stage
    obtain ⟨held, linked⟩ := stage
    refine ⟨_, cells, rfl, ?_⟩
    apply consistent.restage state.head state.myHead (.moveMyHead element (state.next element))
    case sameLeaving =>
      rw [isDequeuer]
      rfl
    case stage => exact ⟨⟨held.first, held.head, held.noFirst⟩, linked, rfl⟩
  | moveMyHead element value =>
    obtain ⟨rest, after⟩ := consistent.moveMyHead isDequeuer
    exact ⟨_, rest, rfl, after⟩
  | dropMyHead element =>
    rw [isDequeuer] at stage
    refine ⟨_, cells, rfl, ?_⟩
    apply consistent.restage state.head none (.casTail element)
    case sameLeaving =>
      rw [isDequeuer]
      rfl
    case stage => exact ⟨⟨stage.first, stage.head, stage.noFirst⟩, rfl⟩
  | casTail element =>
    by_cases isTail : state.tail = some element
    · exact ⟨_, [], if_pos isTail, consistent.casTail isDequeuer isTail⟩
    · rw [isDequeuer] at stage
      obtain ⟨held, noMyHead⟩ := stage
      refine ⟨_, cells, if_neg isTail, ?_⟩
      apply consistent.restage state.head state.myHead (.spin element)
      case sameLeaving =>
        rw [isDequeuer]
        rfl
      case stage =>
        refine ⟨⟨held.first, held.head, held.noFirst⟩, noMyHead, ?_⟩
        rw [← consistent.joined.tail]
        exact isTail
  | spin element =>
    rw [isDequeuer] at stage
    obtain ⟨held, noMyHead, notLast⟩ := stage
    refine ⟨_, cells, rfl, ?_⟩
    apply consistent.restage state.head state.myHead
    case sameLeaving =>
      rw [isDequeuer]
      split <;> rfl
    case stage =>
      split
      case isTrue =>
        exact ⟨⟨held.first, held.head, held.noFirst⟩, noMyHead, notLast⟩
      case isFalse linked => exact ⟨⟨held.first, held.head, held.noFirst⟩, linked⟩
  | clearNext element => exact ⟨_, cells, rfl, consistent.clearNext isDequeuer⟩

theorem Initial.consistent (initial : Initial state) :
    Consistent state [] := by
  obtain ⟨noHead, noTail, noMyHead, quiet, isIdle, noneSwapped, noneDequeued⟩ := initial
  have noFirst : NoFirst state := by
    intro process element links
    nomatch (quiet process).symm.trans links
  constructor
  case joined =>
    constructor
    case nodup => exact nodup_nil
    case tail => exact noTail
    case last => exact fun _ impossible => nomatch impossible
    case joined =>
      intro prev element neighbours
      exact absurd (mem_of_neighbours neighbours).1 not_mem_nil
    case linking =>
      intro process prev element links
      nomatch (quiet process).symm.trans links
    case once =>
      intro process other prev element links
      nomatch (quiet process).symm.trans links
  case stage =>
    unfold Stage
    rw [isIdle]
    exact .mine noMyHead noHead noFirst
  case swapped =>
    rw [noneSwapped, noneDequeued, isIdle]
    rfl
  case gone => exact fun _ _ => not_mem_nil
  case swapping =>
    intro process element isSwapping
    nomatch (quiet process).symm.trans isSwapping
  case unique =>
    intro first second element isSwapping
    nomatch (quiet first).symm.trans isSwapping
  case clean =>
    intro element isDequeued
    rw [noneDequeued] at isDequeued
    exact absurd isDequeued not_mem_nil

/-- What the queue promises in every state. -/
structure Fifo
    (state : State Process Cell) : Prop where
  /-- The cells come out in the order of their swaps, none lost, none twice. -/
  order : state.swapped = state.dequeued ++ state.queue
  distinct : state.queue.Nodup
  /-- A cell that is out of the queue has a null `next`. -/
  clean : ∀ element ∈ state.dequeued, element ∉ state.queue → state.next element = none
  /-- With all enqueues finished, a queue with a cell is never reported empty. -/
  settled : state.dequeuer ≠ .reportedEmpty true
  /-- With nobody in a call, the pointers hold the cells of the queue. -/
  kept : state.Quiet → state.Between → LinkedQueue.Represents state.next
      ⟨state.myHead.or state.head, state.tail⟩ state.queue
  /-- While the dequeuer waits for a link, a process is about to make it. -/
  waiting : ∀ element, state.dequeuer = .spin element → state.next element ≠ none ∨
      ∃ process second, state.enqueuer process = .linking (some element) second

/-- Cells that are all linked form a chain. -/
theorem chain_of_neighbours
    {next : Cell → Option Cell}
    (linked : ∀ prev element, [prev, element] <:+: cells → next prev = some element)
    (last : ∀ element, cells.getLast? = some element → next element = none) :
    LinkedQueue.Chain next cells.head? cells := by
  induction cells with
  | nil => rfl
  | cons element rest ih =>
    refine ⟨rfl, ?_⟩
    cases rest with
    | nil => exact last element rfl
    | cons second later =>
      rw [linked element second (neighbours_cons.mpr (.inl ⟨rfl, rfl⟩))]
      apply ih
      · intro prev following neighbours
        exact linked prev following (neighbours_cons.mpr (.inr neighbours))
      · intro final isLast
        exact last final (getLast?_cons_cons.trans isLast)

theorem Consistent.kept
    (consistent : Consistent state cells)
    (quiet : state.Quiet)
    (between : state.Between) :
    LinkedQueue.Represents state.next ⟨state.myHead.or state.head, state.tail⟩ cells := by
  have joined := consistent.joined
  have first : state.myHead.or state.head = cells.head? := by
    cases consistent.anchored between with
    | mine isMyHead noHead => rw [noHead, or_none, isMyHead]
    | shared noMyHead isHead => rw [noMyHead, none_or, isHead]
    | coming process _ _ _ _ links => nomatch (quiet process).symm.trans links
  constructor
  case chain =>
    rw [first]
    apply chain_of_neighbours _ joined.last
    intro prev element neighbours
    apply (joined.joined prev element neighbours).resolve_right
    rintro ⟨process, links⟩
    nomatch (quiet process).symm.trans links
  case tail_eq => exact joined.tail
  case nodup => exact joined.nodup

/-- The dequeuer waits for the second cell, which is in `tail` or before it. -/
theorem Consistent.waiting
    {element : Cell}
    (consistent : Consistent state cells)
    (isDequeuer : state.dequeuer = .spin element) :
    state.next element ≠ none ∨
      ∃ process second, state.enqueuer process = .linking (some element) second := by
  have stage := consistent.stage
  unfold Stage at stage
  rw [isDequeuer] at stage
  obtain ⟨held, -, notLast⟩ := stage
  obtain ⟨rest, rfl⟩ := head?_eq_some_iff.mp held.first
  cases rest with
  | nil => exact absurd rfl notLast
  | cons second later =>
    rcases consistent.joined.joined element second
        (neighbours_cons.mpr (.inl ⟨rfl, rfl⟩)) with linked | ⟨process, links⟩
    · left
      rw [linked]
      exact some_ne_none second
    · exact .inr ⟨process, second, links⟩

theorem Consistent.fifo (consistent : Consistent state cells) :
    Fifo state := by
  have isQueue := consistent.queue
  constructor
  case order =>
    rw [isQueue]
    exact consistent.swapped
  case distinct =>
    rw [isQueue]
    refine nodup_append'.mpr ⟨?_, consistent.joined.nodup, consistent.gone⟩
    cases state.dequeuer with
    | clearNext element => exact nodup_singleton element
    | _ => exact nodup_nil
  case clean =>
    rw [isQueue]
    exact consistent.clean
  case settled =>
    intro isDequeuer
    have stage := consistent.stage
    unfold Stage at stage
    rw [isDequeuer] at stage
    nomatch stage.2
  case kept =>
    intro quiet between
    rw [isQueue, Between.leaving between]
    exact consistent.kept quiet between
  case waiting => exact fun _ => consistent.waiting

variable [DecidableEq Process] [DecidableEq Cell]

theorem Consistent.proceed
    {process : Process}
    (consistent : Consistent state cells)
    (busy : state.enqueuer process ≠ .idle) :
    ∃ next later, state.proceed process = some next ∧ Consistent next later := by
  unfold State.proceed
  cases isEnqueuer : state.enqueuer process with
  | idle => exact absurd isEnqueuer busy
  | swapping element =>
    exact ⟨_, cells ++ [element], rfl, consistent.swap isEnqueuer⟩
  | linking prev element =>
    cases prev with
    | none => exact ⟨_, cells, rfl, consistent.linkHead isEnqueuer⟩
    | some prev => exact ⟨_, cells, rfl, consistent.linkNext isEnqueuer⟩

/-- An enabled step can be made, and keeps the invariant. -/
theorem Consistent.step
    {action : Action Process Cell}
    (consistent : Consistent state cells)
    (enabled : enabled state action) :
    ∃ next later, step state action = some next ∧ Consistent next later := by
  cases action with
  | enqueue process element =>
    obtain ⟨idle, clean, outside, alone⟩ := enabled
    exact ⟨_, cells, rfl, consistent.enqueue idle clean outside alone⟩
  | proceed process => exact consistent.proceed enabled
  | queueEmpty settled =>
    exact ⟨_, cells, rfl, consistent.queueEmpty enabled.1 enabled.2⟩
  | dequeue => exact ⟨_, cells, rfl, consistent.dequeue enabled⟩
  | advance => exact consistent.advance enabled

/-- The invariant holds in every reachable state. -/
theorem inductive_consistent :
    system.Inductive
      fun state : State Process Cell => ∃ cells, Consistent state cells where
  initial := fun _ initial => ⟨[], Initial.consistent initial⟩
  step := by
    rintro state action next ⟨cells, consistent⟩ enabled stepped
    obtain ⟨other, later, isOther, after⟩ := consistent.step enabled
    obtain rfl := Option.some.inj (isOther.symm.trans stepped)
    exact ⟨later, after⟩

/-- In every run of any number of enqueuers and one dequeuer the queue is first in,
first out, and no step of the dequeuer follows a null pointer. -/
theorem queue_fifo
    {Process Cell : Type*} [DecidableEq Process] [DecidableEq Cell]
    {state : State Process Cell}
    (reachable : system.Reachable state) :
    Fifo state ∧ system.Responsive state := by
  obtain ⟨cells, consistent⟩ := inductive_consistent.reachable reachable
  refine ⟨consistent.fifo, ?_⟩
  intro action enabled
  obtain ⟨next, -, stepped, -⟩ := consistent.step enabled
  exact isSome_of_eq_some stepped

/-- An empty queue, which one process enqueues into. -/
def sampleStart : State Unit Nat where
  head := none
  tail := none
  myHead := none
  next := fun _ => none
  enqueuer := fun _ => .idle
  dequeuer := .idle
  swapped := []
  dequeued := []

/-- A cell is enqueued, found by a call that starts after the link, and dequeued. -/
theorem queue_fifo_sample :
    ∃ state : State Unit Nat, state.dequeued = [1] ∧ Fifo state ∧ system.Responsive state := by
  have start : system.Reachable sampleStart := .initial ⟨rfl, rfl, rfl, fun _ => rfl, rfl, rfl, rfl⟩
  have enqueued := start.step (Action.enqueue () 1) ⟨rfl, rfl, not_mem_nil, fun _ => nofun⟩ rfl
  have swapped := enqueued.step (Action.proceed ()) nofun rfl
  have linked := swapped.step (Action.proceed ()) nofun rfl
  have asked := linked.step (Action.queueEmpty true)
    ⟨trivial, fun _ => ⟨fun _ => rfl, cons_ne_nil 1 []⟩⟩ rfl
  have testedMine := asked.step Action.advance id rfl
  have testedHead := testedMine.step Action.advance id rfl
  have readHead := testedHead.step Action.advance id rfl
  have wroteMine := readHead.step Action.advance id rfl
  have reported := wroteMine.step Action.advance id rfl
  have called := reported.step Action.dequeue rfl rfl
  have readMine := called.step Action.advance id rfl
  have testedNext := readMine.step Action.advance id rfl
  have dropped := testedNext.step Action.advance id rfl
  have emptied := dropped.step Action.advance id rfl
  have returned := emptied.step Action.advance id rfl
  exact ⟨_, rfl, queue_fifo returned⟩

end Mpich.Nemesis.Queue
