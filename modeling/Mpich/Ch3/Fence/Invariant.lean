import Mathlib.Algebra.Order.BigOperators.Group.Finset
import Mpich.Ch3.Rma.Flow

/-!
# Runs of fences

All processes of a window execute the same fences with the same assertions, and each
queues operations for other processes before each fence. A fence that performs the
collective learns from it how many processes have queued operations for its window,
issues its own operations and waits until its own requests and the operations of the
others are complete. No process is the target of passive target operations here, so
that every completion decrements the counter.
-/

namespace Mpich.Ch3.Fence

open Finset Function
open Rma (Op Packet Pipe Event nopsToProc)

/-- What the processes of a window call. -/
structure Program where
  size : Nat
  /-- The operations that a process queues before a fence. -/
  accesses : Nat → Nat → List Op
  /-- The assertion of a fence. -/
  assert : Nat → BitVec 32
  /-- Operations on the own window are not queued. -/
  remote : ∀ round, ∀ rank < size, ∀ op ∈ accesses round rank, op.target < size ∧ op.target ≠ rank

/-- Where a process is. -/
inductive Phase
  | outside
  /-- In the Reduce_scatter of a fence. -/
  | collective
  /-- After the Reduce_scatter, with the operations that are still to be issued. -/
  | issuing (currOpsCnt : Nat → Nat) (currPtr : List Op)

/-- A process, with the fields of its window. -/
structure Process where
  /-- The number of fences from which the process has returned. -/
  round : Nat
  phase : Phase
  fenceCnt : Nat
  rmaOpsList : List Op
  myCounter : Int
  /-- The origin and the epoch of each operation that has decremented the counter.
  The source does not keep them. -/
  decrements : List (Nat × Nat)

structure State where
  procs : Nat → Process
  /-- What is between an origin and a target. -/
  pipes : Nat → Nat → Pipe
  /-- What each process has passed to the Reduce_scatter of a fence for each process. -/
  rmaTargetProc : Nat → Nat → Nat → Nat

/-- Before the first fence. -/
def State.init : State where
  procs := fun _ =>
    { round := 0, phase := .outside, fenceCnt := 0, rmaOpsList := [], myCounter := 0,
      decrements := [] }
  pipes := fun _ _ => .create
  rmaTargetProc := fun _ _ _ => 0

/-- A fence performs the collective. -/
def performs (fenceCnt : Nat) (assert : BitVec 32) : Bool :=
  (Win.fence { fenceCnt := fenceCnt, rmaOpsList := [] } assert).1

/-- The fence counter after a fence. -/
def fenceCntAfter (fenceCnt : Nat) (assert : BitVec 32) : Nat :=
  (Win.fence { fenceCnt := fenceCnt, rmaOpsList := [] } assert).2.fenceCnt

namespace Process

/-- The process has called a fence. -/
def Entered (process : Process) (round : Nat) : Prop :=
  match process.phase with
  | .outside => round < process.round
  | _ => round ≤ process.round

instance (process : Process) (round : Nat) : Decidable (process.Entered round) :=
  match found : process.phase with
  | .outside => decidable_of_iff (round < process.round) (by rw [Entered, found])
  | .collective => decidable_of_iff (round ≤ process.round) (by rw [Entered, found])
  | .issuing _ _ => decidable_of_iff (round ≤ process.round) (by rw [Entered, found])

variable (program : Program) (rank : Nat) (process : Process)

/-- A fence that does not perform the collective only sets the fence counter. -/
def skip : Process :=
  { process with
    round := process.round + 1
    rmaOpsList := process.rmaOpsList ++ program.accesses process.round rank
    fenceCnt := fenceCntAfter process.fenceCnt (program.assert process.round) }

/-- The completion counter is set before the Reduce_scatter. -/
def enter : Process :=
  { process with
    phase := .collective
    rmaOpsList := process.rmaOpsList ++ program.accesses process.round rank
    myCounter := program.size }

/-- The completion counter is set to the result of the Reduce_scatter, less the
decrements so far. -/
def leave (result : Nat) : Process :=
  { process with
    phase := .issuing (fun _ => 0) process.rmaOpsList
    myCounter := process.myCounter - program.size + result }

/-- An operation has been issued. -/
def issued (currOpsCnt : Nat → Nat) (op : Op) (currPtr : List Op) : Process :=
  { process with
    phase := .issuing
      (update currOpsCnt op.target (currOpsCnt op.target + 1)) currPtr }

/-- A fence that has performed the collective returns. -/
def finish : Process :=
  { process with
    round := process.round + 1
    phase := .outside
    rmaOpsList := []
    fenceCnt := fenceCntAfter process.fenceCnt (program.assert process.round) }

/-- The counter is decremented. -/
def decrement (origin epoch : Nat) : Process :=
  { process with
    myCounter := process.myCounter - 1
    decrements := process.decrements ++ [(origin, epoch)] }

/-- The packet for an operation. Only the last one of those towards a target passes
the `source_win_handle`. -/
def packet (currOpsCnt : Nat → Nat) (op : Op) : Packet where
  epoch := process.round
  body := .op op
  last := currOpsCnt op.target = nopsToProc process.rmaOpsList op.target - 1

end Process

namespace State

variable (program : Program) (state : State)

def setProc (rank : Nat) (process : Process) : State :=
  { state with procs := update state.procs rank process }

def setPipe (origin target : Nat) (pipe : Pipe) : State :=
  { state with
    pipes := update state.pipes origin
      (update (state.pipes origin) target pipe) }

/-- A process passes to the Reduce_scatter which processes it has operations for. -/
def contribute (rank round : Nat) (rmaOpsList : List Op) : State :=
  { state with
    rmaTargetProc := update state.rmaTargetProc round
      (update (state.rmaTargetProc round) rank fun target =>
        if nopsToProc rmaOpsList target = 0 then 0 else 1) }

/-- `MPIDI_Win_fence` up to the Reduce_scatter, or to the end if the fence does not
perform it. The operations before the fence are queued first. -/
def fence (rank : Nat) : Option State :=
  match (state.procs rank).phase with
  | .outside =>
    if performs (state.procs rank).fenceCnt
        (program.assert (state.procs rank).round) then
      some ((state.setProc rank ((state.procs rank).enter program rank)).contribute
        rank (state.procs rank).round
        ((state.procs rank).enter program rank).rmaOpsList)
    else some (state.setProc rank ((state.procs rank).skip program rank))
  | _ => none

/-- The Reduce_scatter returns once all processes have called it. -/
def leave (rank : Nat) : Option State :=
  match (state.procs rank).phase with
  | .collective =>
    if ∀ other < program.size, (state.procs other).Entered (state.procs rank).round then
      some (state.setProc rank ((state.procs rank).leave program
        (∑ other ∈ range program.size, state.rmaTargetProc (state.procs rank).round other rank)))
    else none
  | _ => none

/-- The next operation of the list is issued. -/
def issue (rank : Nat) : Option State :=
  match (state.procs rank).phase with
  | .issuing currOpsCnt (op :: currPtr) =>
    some ((state.setProc rank
        ((state.procs rank).issued currOpsCnt op currPtr)).setPipe rank op.target
      ((state.pipes rank op.target).issue ((state.procs rank).packet currOpsCnt op)))
  | _ => none

/-- `MPIDI_Win_fence` returns when the requests of the process and the operations of
the others are complete. -/
def finish (rank : Nat) : Option State :=
  match (state.procs rank).phase with
  | .issuing _ [] =>
    if (∀ target < program.size, (state.pipes rank target).RequestsDone) ∧
        (state.procs rank).myCounter = 0 then
      some (state.setProc rank ((state.procs rank).finish program))
    else none
  | _ => none

/-- A completed operation decrements the counter of its target if it is marked as
the last one. -/
def complete (origin target : Nat) (out : Option Packet) : State :=
  match out with
  | none => state
  | some packet =>
    if packet.last then
      state.setProc target ((state.procs target).decrement origin packet.epoch)
    else state

/-- Something happens between an origin and a target. -/
def progress (origin target : Nat) (event : Event) : Option State :=
  ((state.pipes origin target).step event).map fun result =>
    (state.setPipe origin target result.1).complete origin target result.2

end State

/-- What can happen in a run. -/
inductive Action
  | fence (rank : Nat)
  | leave (rank : Nat)
  | issue (rank : Nat)
  | finish (rank : Nat)
  | progress (origin target : Nat) (event : Event)

/-- A step of a run. -/
def step (program : Program) (state : State) : Action → Option State
  | .fence rank => if rank < program.size then state.fence program rank else none
  | .leave rank => if rank < program.size then state.leave program rank else none
  | .issue rank => if rank < program.size then state.issue rank else none
  | .finish rank => if rank < program.size then state.finish program rank else none
  | .progress origin target event =>
    if origin < program.size ∧ target < program.size then
      state.progress origin target event
    else none

/-- A run from a state. -/
def run (program : Program) : State → List Action → Option State
  | state, [] => some state
  | state, action :: actions =>
    (step program state action).bind fun next => run program next actions

/-- A state that a run reaches. -/
def Reachable (program : Program) (state : State) : Prop :=
  ∃ actions, run program .init actions = some state

namespace Program

variable (program : Program)

/-- The fence counter of each process before a fence. -/
def fenceCnt : Nat → Nat
  | 0 => 0
  | round + 1 => fenceCntAfter (fenceCnt round) (program.assert round)

/-- A fence performs the collective. -/
def Collective (round : Nat) : Prop :=
  performs (program.fenceCnt round) (program.assert round) = true

instance : DecidablePred program.Collective :=
  fun _ => inferInstanceAs (Decidable (_ = true))

/-- The operations that a process has queued since the last fence that performs the
collective, when it calls a fence. -/
def queued (rank : Nat) : Nat → List Op
  | 0 => program.accesses 0 rank
  | round + 1 =>
    (if program.Collective round then [] else queued rank round) ++
      program.accesses (round + 1) rank

/-- The operations of an epoch from an origin towards a target. -/
def opsTo (round origin target : Nat) : List Op :=
  (program.queued origin round).filter (·.target = target)

end Program

/-- A fence completes exactly its own epoch. -/
structure Exact (program : Program) (state : State) : Prop where
  /-- The counter is never negative. -/
  nonnegative : ∀ target < program.size, 0 ≤ (state.procs target).myCounter
  /-- All decrements are due to the processes of the window. -/
  origins : ∀ target < program.size, ∀ decrement ∈ (state.procs target).decrements,
    decrement.1 < program.size
  /-- No operation decrements the counter before it is set for the fence. -/
  before : ∀ origin < program.size, ∀ target < program.size, ∀ round,
    ¬ (state.procs target).Entered round → (state.procs target).decrements.count (origin, round) = 0
  /-- At any time an origin has decremented the counter at most once for a fence, and
  only if it has operations for the target. -/
  during : ∀ origin < program.size, ∀ target < program.size, ∀ round,
    (state.procs target).decrements.count (origin, round) ≤
      if program.Collective round ∧ program.opsTo round origin target ≠ [] then 1 else 0
  /-- When a fence has returned, each origin with operations has decremented the
  counter once. -/
  after : ∀ origin < program.size, ∀ target < program.size, ∀ round,
    round < (state.procs target).round → program.Collective round →
    (state.procs target).decrements.count (origin, round) =
      if program.opsTo round origin target ≠ [] then 1 else 0
  /-- When a fence has returned, all operations of its epoch have been performed: the
  data of puts and accumulates have been applied and the responses to gets have been
  sent completely. -/
  performed : ∀ origin < program.size, ∀ target < program.size, ∀ round,
    round < (state.procs target).round → program.Collective round →
    (((state.pipes origin target).finished.filter (·.epoch = round)).map (·.body)).Perm
      ((program.opsTo round origin target).map .op)

/-- The operations for which a fence works: the data of every put and accumulate
reach the handler that applies them, and an origin whose last operation towards a
target is a put or an accumulate has no get for it. -/
structure Program.Safe (program : Program) : Prop where
  delivered : ∀ round, ∀ origin < program.size, ∀ op ∈ program.accesses round origin,
    op.type = .get ∨ Rma.Delivered op.pieces
  notOvertaken : ∀ round, ∀ origin < program.size, ∀ target < program.size,
    program.Collective round → ∀ op ∈ (program.opsTo round origin target).getLast?, op.type ≠ .get →
    ∀ other ∈ program.opsTo round origin target, other.type ≠ .get

end Mpich.Ch3.Fence

/-!
## The invariant of runs of fences

The counter of a process in a fence is the number of origins whose last operation has
not been performed, and no packet of an epoch can exist before its target has set the
counter for it, since the collective ends only after all processes have called it.
-/

namespace Mpich.Ch3.Fence

open Finset
open Rma

namespace Program

variable (program : Program)

/-- The packets of an epoch from an origin to a target. -/
def total (round origin target : Nat) : List Packet :=
  if program.Collective round then
    packets round (nopsToProc (program.queued origin round) target) 0
      (program.opsTo round origin target)
  else []

/-- The packets of an epoch that a process has still to issue to a target. -/
def unsent (process : Process) (round origin target : Nat) : List Packet :=
  if process.round < round then program.total round origin target
  else if round < process.round then []
  else
    match process.phase with
    | .issuing currOpsCnt currPtr =>
      packets round (nopsToProc (program.queued origin round) target)
        (currOpsCnt target) (currPtr.filter (·.target = target))
    | _ => program.total round origin target

/-- The number of origins with operations for a target. -/
def targeters (round target : Nat) : Nat :=
  ∑ origin ∈ range program.size, if program.opsTo round origin target = [] then 0 else 1

end Program

/-- A process has left the collective of a fence. -/
def Process.Left (process : Process) (round : Nat) : Prop :=
  match process.phase with
  | .issuing _ _ => round ≤ process.round
  | _ => round < process.round

/-- The packets of an epoch whose operations have not been performed. -/
def State.remaining
    (program : Program)
    (state : State)
    (origin target round : Nat) : List Packet :=
  (state.pipes origin target).outstanding round
    (program.unsent (state.procs origin) round origin target)

/-- The number of origins whose last operation for a target has not been performed in
the fence that the target is in. -/
def State.awaited (program : Program) (state : State) (target : Nat) : Nat :=
  ∑ origin ∈ range program.size,
    lasts (state.remaining program origin target (state.procs target).round)

/-- The fields of a process follow from the program and where the process is. -/
structure Process.Follows (program : Program) (rank : Nat) (process : Process) :
    Prop where
  fenceCnt : process.fenceCnt = program.fenceCnt process.round
  queued :
    match process.phase with
    | .outside => process.rmaOpsList ++ program.accesses process.round rank =
        program.queued rank process.round
    | .collective => program.Collective process.round ∧
        process.rmaOpsList = program.queued rank process.round
    | .issuing currOpsCnt currPtr => program.Collective process.round ∧
        process.rmaOpsList = program.queued rank process.round ∧
        ∃ issued, process.rmaOpsList = issued ++ currPtr ∧
          ∀ target, currOpsCnt target = nopsToProc issued target

/-- What the counter of a process says. -/
def Process.Counts (program : Program) (rank : Nat) (process : Process)
    (awaited : Nat) : Prop :=
  match process.phase with
  | .outside => process.myCounter = 0
  | .collective => process.myCounter =
      program.size - program.targeters process.round rank + awaited
  | .issuing _ _ => process.myCounter = awaited

/-- The invariant of a run. -/
structure Inv (program : Program) (state : State) : Prop where
  follows : ∀ rank < program.size, (state.procs rank).Follows program rank
  barrier : ∀ origin < program.size, ∀ target < program.size, ∀ round,
    program.Collective round → (state.procs origin).Left round → (state.procs target).Entered round
  contributed : ∀ origin < program.size, ∀ round, program.Collective round →
    (state.procs origin).Entered round → ∀ target, state.rmaTargetProc round origin target =
      if program.opsTo round origin target = [] then 0 else 1
  sound : ∀ origin < program.size, ∀ target < program.size, (state.pipes origin target).Sound
  flows : ∀ origin < program.size, ∀ target < program.size, ∀ round,
    (state.pipes origin target).Flows round (program.total round origin target)
      (program.unsent (state.procs origin) round origin target)
  drained : ∀ origin < program.size, ∀ target < program.size,
    ∀ round < (state.procs target).round, state.remaining program origin target round = []
  counts : ∀ rank < program.size,
    (state.procs rank).Counts program rank (state.awaited program rank)
  decrements : ∀ origin < program.size, ∀ target < program.size, ∀ round,
    (state.procs target).decrements.count (origin, round) =
      lasts (slice round (state.pipes origin target).finished)
  origins : ∀ target < program.size, ∀ decrement ∈ (state.procs target).decrements,
    decrement.1 < program.size

section

variable {program : Program} {round origin target : Nat}

theorem length_opsTo :
    (program.opsTo round origin target).length = nopsToProc (program.queued origin round) target :=
  List.countP_eq_length_filter.symm

theorem total_of_collective (collective : program.Collective round) :
    program.total round origin target =
      packets round (nopsToProc (program.queued origin round) target) 0
        (program.opsTo round origin target) :=
  if_pos collective

theorem total_of_not_collective (collective : ¬ program.Collective round) :
    program.total round origin target = [] :=
  if_neg collective

theorem lasts_total (collective : program.Collective round) :
    lasts (program.total round origin target) =
      if program.opsTo round origin target = [] then 0 else 1 := by
  rw [total_of_collective collective, lasts_packets]
  rw [zero_add, length_opsTo]

theorem marked_total : Marked (program.total round origin target) := by
  unfold Program.total
  split
  · apply marked_packets
    rw [zero_add, length_opsTo]
  · trivial

theorem notOvertaken_total
    (safe : program.Safe)
    (originInSize : origin < program.size)
    (targetInSize : target < program.size) :
    NotOvertaken (program.total round origin target) := by
  unfold Program.total
  split
  · next collective =>
      apply notOvertaken_packets
      · rw [zero_add, length_opsTo]
      · exact safe.notOvertaken round origin originInSize target targetInSize collective
  · intro packet member
    cases member

end

section

variable {program : Program} {process : Process} {round origin target : Nat}

/-- Before it has left the collective a process has issued nothing. -/
theorem unsent_of_not_left (notLeft : ¬ process.Left round) :
    program.unsent process round origin target = program.total round origin target := by
  unfold Process.Left at notLeft
  unfold Program.unsent
  split
  · rfl
  · next later =>
      cases found : process.phase with
      | outside =>
        rw [found] at notLeft
        rw [if_neg notLeft]
      | collective =>
        rw [found] at notLeft
        rw [if_neg notLeft]
      | issuing currOpsCnt currPtr =>
        rw [found] at notLeft
        exact absurd (not_lt.mp later) notLeft

theorem unsent_of_gt (earlier : process.round < round) :
    program.unsent process round origin target = program.total round origin target :=
  if_pos earlier

theorem unsent_of_not_issuing
    (notIssuing : ∀ currOpsCnt currPtr, process.phase ≠ .issuing currOpsCnt currPtr) :
    program.unsent process round origin target =
      if process.round ≤ round then program.total round origin target else [] := by
  unfold Program.unsent
  rcases lt_trichotomy process.round round with earlier | same | later
  · rw [if_pos earlier, if_pos (le_of_lt earlier)]
  · rw [if_neg (by omega), if_neg (by omega), if_pos (by omega)]
    split
    · next found => exact absurd found (notIssuing _ _)
    · rfl
  · rw [if_neg (by omega), if_pos later, if_neg (by omega)]

theorem unsent_of_issuing
    {currOpsCnt : Nat → Nat} {currPtr : List Op}
    (issuing : process.phase = .issuing currOpsCnt currPtr) :
    program.unsent process process.round origin target =
      packets process.round (nopsToProc (program.queued origin process.round) target)
        (currOpsCnt target) (currPtr.filter (·.target = target)) := by
  unfold Program.unsent
  rw [if_neg (lt_irrefl _), if_neg (lt_irrefl _), issuing]

theorem unsent_of_lt (later : round < process.round) :
    program.unsent process round origin target = [] := by
  unfold Program.unsent
  rw [if_neg (Nat.lt_asymm later), if_pos later]

end

section

variable {program : Program} {state : State} {rank : Nat}

section

variable
    (inv : Inv program state)
    {round origin target : Nat}
    (originInSize : origin < program.size)
    (targetInSize : target < program.size)

include inv originInSize targetInSize

/-- Nothing remains of a round without a collective. -/
theorem Inv.remaining_of_not_collective
    (notCollective : ¬ program.Collective round) :
    state.remaining program origin target round = [] := by
  have performed := Pipe.perm_outstanding (inv.flows origin originInSize target targetInSize round)
  rw [total_of_not_collective notCollective] at performed
  exact (List.append_eq_nil_iff.mp performed.nil_eq.symm).2

/-- Before a process calls a fence, no operation of the epoch has been issued to it. -/
theorem Inv.remaining_of_not_entered
    (collective : program.Collective round)
    (notEntered : ¬ (state.procs target).Entered round) :
    state.remaining program origin target round = program.total round origin target := by
  have notLeft : ¬ (state.procs origin).Left round := fun left => notEntered
    (inv.barrier origin originInSize target targetInSize round collective left)
  have flows := inv.flows origin originInSize target targetInSize round
  rw [State.remaining, unsent_of_not_left notLeft]
  rw [unsent_of_not_left notLeft] at flows
  exact Pipe.outstanding_of_unissued flows

end

/-- Nothing remains of an epoch when the counter of its target is zero. -/
theorem Inv.remaining_eq_nil
    (inv : Inv program state)
    (safe : program.Safe)
    (inSize : rank < program.size)
    (awaited : state.awaited program rank = 0)
    {origin : Nat}
    (originInSize : origin < program.size) :
    state.remaining program origin rank (state.procs rank).round = [] := by
  have none := sum_eq_zero_iff.mp awaited origin (mem_range.mpr originInSize)
  exact Pipe.outstanding_eq_nil (inv.flows origin originInSize rank inSize _)
    marked_total (notOvertaken_total safe originInSize inSize) none

end

end Mpich.Ch3.Fence
