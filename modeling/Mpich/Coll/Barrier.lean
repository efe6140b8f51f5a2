import Mathlib.Algebra.Order.Ring.Nat
import Mpich.Foundation.Cyclic
import Mpich.Foundation.TransitionSystem

/-!
# The dissemination barrier

`MPIR_Barrier` of `barrier.c`: in the round of a mask, a process sends an empty
message the mask ahead and waits for one from the mask behind, in one
`MPIC_Sendrecv`. The processes may call the barrier any number of times and run at
their own pace. All messages have the same tag, and a receive matches the oldest
message from its source. The mask and the number of the call that a message belongs
to are not sent; they are there to speak about it.
-/

namespace Mpich.Coll.Barrier

open Cyclic List Function

/-- Where a process is. -/
inductive Point
  | outside
  /-- In `MPIC_Sendrecv`, with the receive posted: whether it has matched a message,
  and whether the message has been sent. -/
  | exchanging (mask : Nat) (received sent : Bool)
  deriving DecidableEq

/-- A process, with the numbers of calls of `MPIR_Barrier` it has begun and of those
that have returned. -/
structure Process where
  entered : Nat
  returned : Nat
  point : Point
  deriving DecidableEq

/-- An empty message with the call and the round it has been sent in. -/
structure Message where
  call : Nat
  mask : Nat
  deriving DecidableEq

/-- A message and the call and the round it has been received in. -/
structure Receipt where
  message : Message
  call : Nat
  mask : Nat
  deriving DecidableEq

structure State where
  process : Nat → Process
  /-- The messages from one rank to another, the oldest first. -/
  channel : Nat → Nat → List Message
  receipts : List Receipt

/-- The head of the loop. -/
def Process.loop (size mask : Nat) (process : Process) : Process :=
  if mask < size then
    { process with point := .exchanging mask false false }
  else
    { process with returned := process.returned + 1, point := .outside }

/-- `MPIR_Barrier` up to the first `MPIC_Sendrecv`. -/
def Process.enter (size : Nat) (process : Process) : Process :=
  if size = 1 then
    { process with
      entered := process.entered + 1
      returned := process.returned + 1 }
  else
    Process.loop size 1 { process with entered := process.entered + 1 }

/-- What a rank does next. -/
inductive Action
  | enter (rank : Nat)
  | isend (rank : Nat)
  | receive (rank : Nat)
  /-- `MPIC_Sendrecv` returns. -/
  | finish (rank : Nat)

def Action.rank : Action → Nat
  | .enter rank => rank
  | .isend rank => rank
  | .receive rank => rank
  | .finish rank => rank

/-- Replace one process. -/
def State.setProcess (state : State) (rank : Nat) (process : Process) : State :=
  { state with process := Function.update state.process rank process }

/-- Replace the messages from one rank to another. -/
def State.setChannel
    (state : State)
    (src dst : Nat)
    (messages : List Message) : State :=
  { state with
    channel := Function.update state.channel src
      (Function.update (state.channel src) dst messages) }

/-- One action; `none` when the rank cannot do it now. -/
def step (size : Nat) (state : State) : Action → Option State
  | .enter rank =>
    match (state.process rank).point with
    | .outside => some (state.setProcess rank ((state.process rank).enter size))
    | .exchanging _ _ _ => none
  | .isend rank =>
    match (state.process rank).point with
    | .exchanging mask received false =>
      let dst := ahead size rank mask
      let message := {
        call := (state.process rank).entered
        mask := mask }
      some ((state.setProcess rank
          { state.process rank with point := .exchanging mask received true })
        |>.setChannel rank dst (state.channel rank dst ++ [message]))
    | _ => none
  | .receive rank =>
    match (state.process rank).point with
    | .exchanging mask false sent =>
      let src := behind size rank mask
      match state.channel src rank with
      | [] => none
      | message :: messages =>
        let receipt := {
          message := message
          call := (state.process rank).entered
          mask := mask }
        some { ((state.setProcess rank
              { state.process rank with point := .exchanging mask true sent })
            |>.setChannel src rank messages) with
          receipts := receipt :: state.receipts }
    | _ => none
  | .finish rank =>
    match (state.process rank).point with
    | .exchanging mask true true =>
      some (state.setProcess rank ((state.process rank).loop size (2 * mask)))
    | _ => none

/-- The processes of a communicator, from the first call on. -/
def system (size : Nat) : TransitionSystem State Action where
  initial := fun state =>
    (∀ rank, state.process rank = {
      entered := 0
      returned := 0
      point := .outside }) ∧
    (∀ src dst, state.channel src dst = []) ∧ state.receipts = []
  enabled := fun _ action => action.rank < size
  step := step size

/-- A process between two calls has returned from all it has begun; otherwise it is
in one of the rounds of the last one. -/
def Process.InStep (size : Nat) (process : Process) : Prop :=
  match process.point with
  | .outside => process.returned = process.entered
  | .exchanging mask _ _ =>
    process.returned + 1 = process.entered ∧ mask < size ∧ ∃ round, mask = 2 ^ round

/-- How many processes, itself and those behind it, the process has heard of in this
call. -/
def Process.heard (process : Process) : Nat :=
  match process.point with
  | .outside => 0
  | .exchanging mask received _ => if received then 2 * mask else mask

/-- The processes a process has heard of have entered. -/
structure Witnessing (size : Nat) (process : Nat → Process) : Prop where
  inStep : ∀ rank < size, (process rank).InStep size
  witnessed : ∀ rank < size, ∀ steps < size, steps < (process rank).heard →
    (process rank).entered ≤ (process (behind size rank steps)).entered
  separated : ∀ rank < size, ∀ other < size, (process rank).returned ≤ (process other).entered

namespace Witnessing

variable {size : Nat} {process : Nat → Process} {rank : Nat}

theorem update
    (witnessing : Witnessing size process)
    {changed : Process}
    (grows : (process rank).entered ≤ changed.entered)
    (inStep : changed.InStep size)
    (witnessed : ∀ steps < size, steps < changed.heard → changed.entered ≤
        (Function.update process rank changed (behind size rank steps)).entered)
    (separated : ∀ other < size,
      changed.returned ≤ (Function.update process rank changed other).entered) :
    Witnessing size (Function.update process rank changed) := by
  have more : ∀ other,
      (process other).entered ≤ (Function.update process rank changed other).entered := by
    intro other
    rw [update_apply]
    split
    case isTrue same => rwa [same]
    case isFalse => exact le_refl _
  refine ⟨?_, ?_, ?_⟩
  · intro other otherBound
    rw [update_apply]
    split
    case isTrue => exact inStep
    case isFalse => exact witnessing.inStep other otherBound
  · intro other otherBound
    rw [update_apply]
    split
    case isTrue same =>
      rw [same]
      exact witnessed
    case isFalse =>
      intro steps bound heard
      exact (witnessing.witnessed other otherBound steps bound heard).trans (more _)
  · intro other otherBound
    rw [update_apply process rank changed other]
    split
    case isTrue => exact separated
    case isFalse =>
      intro third thirdBound
      exact (witnessing.separated other otherBound third thirdBound).trans (more _)

end Witnessing

/-- In how many calls a process is behind one half of the exchange of a round. -/
def Process.count
    (half : Bool → Bool → Bool)
    (process : Process)
    (mask : Nat) : Nat :=
  match process.point with
  | .outside => process.entered
  | .exchanging current received sent =>
    if current < mask ∨ current = mask ∧ half received sent = false then
      process.entered - 1
    else
      process.entered

/-- In how many calls the process has received the message of a round. -/
def Process.receivedCount : Process → Nat → Nat :=
  Process.count fun received _ => received

/-- In how many calls the process has sent the message of a round. -/
def Process.sentCount : Process → Nat → Nat :=
  Process.count fun _ sent => sent

/-- Between two processes are the messages of one round: those of the calls in which
one has been sent and not yet received. -/
def Queued
    (size : Nat)
    (process : Nat → Process)
    (channel : Nat → Nat → List Message) : Prop :=
  ∀ src < size, ∀ round, 2 ^ round < size → let mask := 2 ^ round
    let dst := ahead size src mask
    (process dst).receivedCount mask ≤ (process src).sentCount mask ∧ channel src dst =
        (range' ((process dst).receivedCount mask + 1)
          ((process src).sentCount mask - (process dst).receivedCount mask)).map
            fun call => { call := call, mask := mask }

namespace Process

variable {size : Nat} {process : Process} {half : Bool → Bool → Bool}

variable {mask : Nat}

theorem count_exchanging
    {current : Nat} {received sent : Bool}
    (point : process.point = .exchanging current received sent) :
    process.count half mask = if current < mask ∨ current = mask ∧ half received sent = false then
        process.entered - 1
      else process.entered := by
  rw [count, point]

/-- The next round of the same call, or the end of the call, counts as the end of the
round. -/
theorem count_loop
    {round other : Nat}
    (point : process.point = .exchanging (2 ^ round) true true)
    (done : half true true = true)
    (undone : half false false = false)
    (bound : 2 ^ other < size) :
    (process.loop size (2 * 2 ^ round)).count half (2 ^ other) =
      process.count half (2 ^ other) := by
  have doubled : 2 * 2 ^ round = 2 ^ (round + 1) := (pow_succ' 2 round).symm
  have next : 2 ^ (round + 1) ≤ 2 ^ other ↔ 2 ^ round < 2 ^ other := by
    rw [Nat.pow_le_pow_iff_right (by decide), Nat.pow_lt_pow_iff_right (by decide)]
    exact Nat.succ_le_iff
  rw [count_exchanging point, done, doubled]
  unfold loop
  split
  case isTrue inside =>
    rw [count_exchanging rfl, undone]
    have either : (2 ^ (round + 1) < 2 ^ other ∨ 2 ^ (round + 1) = 2 ^ other ∧ false = false) ↔
        2 ^ round < 2 ^ other ∨ 2 ^ round = 2 ^ other ∧ true = false := by
      rw [← next]
      simp only [and_true, Bool.true_eq_false, and_false, or_false]
      exact le_iff_lt_or_eq.symm
    exact if_congr either rfl rfl
  case isFalse outside =>
    have notBehind : ¬(2 ^ round < 2 ^ other ∨ 2 ^ round = 2 ^ other ∧ true = false) := by
      simp only [Bool.true_eq_false, and_false, or_false]
      omega
    rw [if_neg notBehind]
    rfl

/-- The call that has begun counts for no round yet. -/
theorem count_enter
    {other : Nat}
    (point : process.point = .outside)
    (undone : half false false = false)
    (several : 1 < size) :
    (process.enter size).count half (2 ^ other) = process.count half (2 ^ other) := by
  have positive := Nat.one_le_two_pow (n := other)
  have first : (process.enter size).point = .exchanging 1 false false := by
    rw [enter, if_neg (by omega), loop, if_pos several]
  have entered : (process.enter size).entered = process.entered + 1 := by
    rw [enter, if_neg (by omega), loop, if_pos several]
  rw [count_exchanging first, undone, entered, count, point]
  simp only [and_true]
  rw [if_pos (Nat.lt_or_eq_of_le positive)]
  rfl

end Process

variable {mask : Nat}

/-- A message that has been sent shows that the processes its sender had heard of
have entered the call. -/
theorem Witnessing.of_sent
    {size : Nat} {process : Nat → Process}
    (witnessing : Witnessing size process)
    {src : Nat}
    (srcBound : src < size)
    (maskBound : mask < size)
    {steps : Nat}
    (within : steps < mask) :
    (process src).sentCount mask ≤ (process (behind size src steps)).entered := by
  have inStep := witnessing.inStep src srcBound
  have returned := witnessing.separated src srcBound (behind size src steps) (behind_lt srcBound)
  have heard := witnessing.witnessed src srcBound steps (within.trans maskBound)
  unfold Process.InStep at inStep
  unfold Process.heard at heard
  unfold Process.sentCount Process.count
  cases point : (process src).point with
  | outside =>
    rw [point] at inStep
    exact (le_of_eq inStep.symm).trans returned
  | exchanging current received sent =>
    rw [point] at inStep heard
    dsimp only at inStep heard ⊢
    split
    case isTrue => omega
    case isFalse notBehind =>
      apply heard
      split <;> omega

/-- Nothing is sent or received. -/
theorem Queued.update
    {size : Nat} {process : Nat → Process} {channel : Nat → Nat → List Message}
    (queued : Queued size process channel)
    {rank : Nat} {changed : Process}
    (sameCount : ∀ half : Bool → Bool → Bool,
      half true true = true → half false false = false → ∀ round, 2 ^ round < size →
          changed.count half (2 ^ round) = (process rank).count half (2 ^ round)) :
    Queued size (Function.update process rank changed) channel := by
  have same : ∀ half : Bool → Bool → Bool, half true true = true → half false false = false →
        ∀ other round, 2 ^ round < size →
          (Function.update process rank changed other).count half (2 ^ round) =
            (process other).count half (2 ^ round) := by
    intro half done undone other round bound
    rw [update_apply]
    split
    case isTrue isRank =>
      rw [isRank]
      exact sameCount half done undone round bound
    case isFalse => rfl
  intro src srcBound round bound
  have before := queued src srcBound round bound
  dsimp only [Process.receivedCount, Process.sentCount] at before ⊢
  rw [same _ rfl rfl _ _ bound, same _ rfl rfl _ _ bound]
  exact before

/-- The processes have heard of each other in time, and the messages are where they
belong. -/
structure Separated (size : Nat) (state : State) : Prop where
  witnessing : Witnessing size state.process
  queued : Queued size state.process state.channel
  matched : ∀ receipt ∈ state.receipts,
    receipt.message = { call := receipt.call, mask := receipt.mask }

namespace Separated

variable {size : Nat} {state : State} {rank : Nat}

theorem start
    (processes : ∀ rank, state.process rank = {
      entered := 0
      returned := 0
      point := .outside })
    (channels : ∀ src dst, state.channel src dst = [])
    (receipts : state.receipts = []) :
    Separated size state where
  witnessing := {
    inStep := fun rank _ => by
      rw [processes]
      exact rfl
    witnessed := fun rank _ steps _ heard => by
      rw [processes] at heard
      exact absurd heard (Nat.not_lt_zero steps)
    separated := fun rank _ other _ => by
      rw [processes, processes] }
  queued := by
    intro src _ round _
    dsimp only
    rw [processes, processes, channels]
    exact ⟨le_refl _, rfl⟩
  matched := by
    intro receipt member
    rw [receipts] at member
    cases member

section

variable (separated : Separated size state)

include separated

theorem enter
    (rankBound : rank < size)
    (point : (state.process rank).point = .outside) :
    Separated size (state.setProcess rank ((state.process rank).enter size)) := by
  have inStep := separated.witnessing.inStep rank rankBound
  have returned := separated.witnessing.separated rank rankBound
  rw [Process.InStep, point] at inStep
  by_cases alone : size = 1
  · have changed : (state.process rank).enter size = {
        entered := (state.process rank).entered + 1
        returned := (state.process rank).returned + 1
        point := .outside } := by
      rw [Process.enter, if_pos alone, point]
    rw [changed]
    refine ⟨?_, ?_, separated.matched⟩
    · refine separated.witnessing.update (Nat.le_succ _) (congrArg (· + 1) inStep) ?_ ?_
      · intro steps _ heard
        exact absurd heard (Nat.not_lt_zero steps)
      · intro other otherBound
        obtain rfl : other = rank := by omega
        rw [update_self, inStep]
    · intro src srcBound round bound
      have positive := Nat.one_le_two_pow (n := round)
      omega
  · have several : 1 < size := by omega
    have changed : (state.process rank).enter size = {
        entered := (state.process rank).entered + 1
        returned := (state.process rank).returned
        point := .exchanging 1 false false } := by
      rw [Process.enter, if_neg alone, Process.loop, if_pos several]
    refine ⟨?_, ?_, separated.matched⟩
    · rw [changed]
      refine separated.witnessing.update (Nat.le_succ _)
        ⟨congrArg (· + 1) inStep, several, 0, rfl⟩ ?_ ?_
      · intro steps _ heard
        obtain rfl : steps = 0 := Nat.lt_one_iff.mp heard
        rw [behind_zero rankBound, update_self]
      · intro other otherBound
        refine (returned other otherBound).trans ?_
        rw [update_apply]
        split
        case isTrue same =>
          rw [same]
          exact Nat.le_succ _
        case isFalse => exact le_refl _
    · exact separated.queued.update fun half _ undone round _ =>
        Process.count_enter point undone several

theorem finish
    (rankBound : rank < size)
    (point : (state.process rank).point = .exchanging mask true true) :
    Separated size (state.setProcess rank ((state.process rank).loop size (2 * mask))) := by
  have inStep := separated.witnessing.inStep rank rankBound
  have returned := separated.witnessing.separated rank rankBound
  have heard := separated.witnessing.witnessed rank rankBound
  rw [Process.heard, point] at heard
  rw [Process.InStep, point] at inStep
  dsimp only at heard inStep
  rw [if_pos rfl] at heard
  obtain ⟨ofLast, maskBound, round, rfl⟩ := inStep
  refine ⟨?_, ?_, separated.matched⟩
  · have entered : ((state.process rank).loop size (2 * 2 ^ round)).entered =
        (state.process rank).entered := by
      unfold Process.loop
      split <;> rfl
    have same : ∀ other, (Function.update state.process rank
        ((state.process rank).loop size (2 * 2 ^ round)) other).entered =
          (state.process other).entered := by
      intro other
      rw [update_apply]
      split
      case isTrue isRank => rw [isRank, entered]
      case isFalse => rfl
    refine separated.witnessing.update entered.ge ?_ ?_ ?_
    · unfold Process.loop
      split
      case isTrue inside =>
        exact ⟨ofLast, inside, round + 1, (pow_succ' 2 round).symm⟩
      case isFalse => exact ofLast
    · intro steps bound heardOf
      rw [same, entered]
      apply heard steps bound
      unfold Process.loop at heardOf
      split at heardOf
      case isTrue => exact heardOf
      case isFalse => exact absurd heardOf (Nat.not_lt_zero steps)
    · intro other otherBound
      rw [same]
      unfold Process.loop
      split
      case isTrue => exact returned other otherBound
      case isFalse last =>
        obtain ⟨steps, bound, reaches⟩ := exists_ahead_eq otherBound rankBound
        rw [ahead_eq_iff otherBound rankBound bound.le] at reaches
        have enteredBefore := heard steps bound (by omega)
        rw [reaches] at enteredBefore
        exact ofLast.trans_le enteredBefore
  · exact separated.queued.update fun half done undone other bound =>
      Process.count_loop point done undone bound

omit separated in
/-- One half of the exchange of a round is done. The other counts stay. -/
theorem count_done
    {process changed : Process} {half : Bool → Bool → Bool} {other : Nat}
    {received sent received' sent' : Bool}
    (point : process.point = .exchanging mask received sent)
    (next : changed.point = .exchanging mask received' sent')
    (entered : changed.entered = process.entered)
    (same : other ≠ mask ∨ half received' sent' = half received sent) :
    changed.count half other = process.count half other := by
  rw [Process.count_exchanging point, Process.count_exchanging next, entered]
  rcases same with differs | unchanged
  · have notEqual : mask ≠ other := differs.symm
    simp only [notEqual, false_and]
  · rw [unchanged]

theorem isend
    (rankBound : rank < size)
    {received : Bool}
    (point : (state.process rank).point = .exchanging mask received false) :
    Separated size
      ((state.setProcess rank
          { state.process rank with point := .exchanging mask received true })
        |>.setChannel rank (ahead size rank mask)
          (state.channel rank (ahead size rank mask) ++
            [{ call := (state.process rank).entered, mask := mask }])) := by
  have inStep := separated.witnessing.inStep rank rankBound
  have returned := separated.witnessing.separated rank rankBound
  have heard := separated.witnessing.witnessed rank rankBound
  rw [Process.heard, point] at heard
  rw [Process.InStep, point] at inStep
  have same : ∀ other, (Function.update state.process rank
      { state.process rank with point := .exchanging mask received true }
        other).entered = (state.process other).entered := by
    intro other
    rw [update_apply]
    split
    case isTrue isRank => rw [isRank]
    case isFalse => rfl
  refine ⟨?_, ?_, separated.matched⟩
  · refine separated.witnessing.update (le_refl _) inStep ?_ ?_
    · intro steps bound heardOf
      rw [same]
      exact heard steps bound heardOf
    · intro other otherBound
      rw [same]
      exact returned other otherBound
  · intro src srcBound round bound
    have before := separated.queued src srcBound round bound
    have receivedSame : ∀ other, (Function.update state.process rank
        { state.process rank with point := .exchanging mask received true }
          other).receivedCount (2 ^ round) =
          (state.process other).receivedCount (2 ^ round) := by
      intro other
      rw [update_apply]
      split
      case isTrue isRank =>
        rw [isRank]
        exact count_done point rfl rfl (.inr rfl)
      case isFalse => rfl
    dsimp only at before ⊢
    simp only [State.setChannel, State.setProcess, receivedSame]
    by_cases isSender : src = rank
    · subst isSender
      rw [update_self, update_self]
      by_cases isRound : 2 ^ round = mask
      · subst isRound
        have sentBefore : (state.process src).sentCount (2 ^ round) =
            (state.process src).entered - 1 := by
          rw [Process.sentCount, Process.count_exchanging point, if_pos (.inr ⟨rfl, rfl⟩)]
        have sentNow : Process.sentCount
            { state.process src with point := .exchanging (2 ^ round) received true }
              (2 ^ round) = (state.process src).entered := by
          rw [Process.sentCount, Process.count_exchanging rfl, if_neg (by simp)]
        rw [sentBefore] at before
        obtain ⟨order, messages⟩ := before
        rw [sentNow, update_self]
        refine ⟨order.trans (Nat.sub_le _ _), ?_⟩
        obtain ⟨waiting, counted⟩ := Nat.exists_eq_add_of_le order
        rw [messages, show (state.process src).entered -
              (state.process (ahead size src (2 ^ round))).receivedCount (2 ^ round) =
            waiting + 1 by omega,
          show (state.process src).entered - 1 -
              (state.process (ahead size src (2 ^ round))).receivedCount (2 ^ round) =
            waiting by omega,
          range'_concat, map_append, map_singleton, mul_comm]
        congr 3
        omega
      · have otherDst : ahead size src (2 ^ round) ≠ ahead size src mask :=
          fun reached => isRound (ahead_injective srcBound bound inStep.2.1 reached)
        rw [update_of_ne otherDst]
        have sentSame : Process.sentCount
            { state.process src with point := .exchanging mask received true }
              (2 ^ round) = (state.process src).sentCount (2 ^ round) :=
          count_done point rfl rfl (.inl isRound)
        rw [sentSame]
        exact before
    · rw [update_of_ne isSender, update_of_ne isSender]
      exact before

theorem receive
    (rankBound : rank < size)
    {sent : Bool}
    (point : (state.process rank).point = .exchanging mask false sent)
    {message : Message} {messages : List Message}
    (queue : state.channel (behind size rank mask) rank = message :: messages) :
    Separated size
      { ((state.setProcess rank
            { state.process rank with point := .exchanging mask true sent })
          |>.setChannel (behind size rank mask) rank messages) with
        receipts := {
          message := message
          call := (state.process rank).entered
          mask := mask } :: state.receipts } := by
  have inStep := separated.witnessing.inStep rank rankBound
  have returned := separated.witnessing.separated rank rankBound
  have heard := separated.witnessing.witnessed rank rankBound
  rw [Process.heard, point] at heard
  rw [Process.InStep, point] at inStep
  obtain ⟨ofLast, maskBound, current, isPower⟩ := inStep
  have srcBound : behind size rank mask < size := behind_lt rankBound
  have toRank : ahead size (behind size rank mask) mask = rank :=
    ahead_behind rankBound maskBound.le
  have receivedBefore : (state.process rank).receivedCount mask =
      (state.process rank).entered - 1 := by
    rw [Process.receivedCount, Process.count_exchanging point, if_pos (.inr ⟨rfl, rfl⟩)]
  have receivedNow : Process.receivedCount
      { state.process rank with point := .exchanging mask true sent } mask =
        (state.process rank).entered := by
    rw [Process.receivedCount, Process.count_exchanging rfl, if_neg (by simp)]
  -- The oldest message is the one of this call.
  have atSource := separated.queued (behind size rank mask) srcBound current (isPower ▸ maskBound)
  rw [← isPower] at atSource
  dsimp only at atSource
  rw [toRank, receivedBefore, queue] at atSource
  obtain ⟨order, isQueue⟩ := atSource
  obtain ⟨waiting, counted⟩ : ∃ waiting, (state.process (behind size rank mask)).sentCount mask =
        (state.process rank).entered + waiting := by
    apply Nat.exists_eq_add_of_le
    by_contra none
    rw [show (state.process (behind size rank mask)).sentCount mask -
      ((state.process rank).entered - 1) = 0 by omega] at isQueue
    cases isQueue
  rw [counted, show (state.process rank).entered + waiting -
      ((state.process rank).entered - 1) = waiting + 1 by omega,
    show (state.process rank).entered - 1 + 1 = (state.process rank).entered by omega,
    range'_succ, map_cons] at isQueue
  obtain ⟨isMessage, isRest⟩ := List.cons.inj isQueue
  have same : ∀ other, (Function.update state.process rank
      { state.process rank with point := .exchanging mask true sent }
        other).entered = (state.process other).entered := by
    intro other
    rw [update_apply]
    split
    case isTrue isRank => rw [isRank]
    case isFalse => rfl
  refine ⟨?_, ?_, ?_⟩
  · refine separated.witnessing.update (le_refl _) ⟨ofLast, maskBound, current, isPower⟩
      ?_ ?_
    · intro steps bound heardOf
      rw [same]
      by_cases known : steps < mask
      · exact heard steps bound known
      · have within : steps - mask < mask := by
          have heardOf : steps < 2 * mask := heardOf
          omega
        have sentWitness := separated.witnessing.of_sent srcBound maskBound within
        rw [behind_behind rankBound (by omega),
          show mask + (steps - mask) = steps by omega] at sentWitness
        dsimp only
        omega
    · intro other otherBound
      rw [same]
      exact returned other otherBound
  · intro src srcInside round bound
    have before := separated.queued src srcInside round bound
    have sentSame : ∀ other, (Function.update state.process rank
        { state.process rank with point := .exchanging mask true sent }
          other).sentCount (2 ^ round) =
          (state.process other).sentCount (2 ^ round) := by
      intro other
      rw [update_apply]
      split
      case isTrue isRank =>
        rw [isRank]
        exact count_done point rfl rfl (.inr rfl)
      case isFalse => rfl
    dsimp only at before ⊢
    simp only [State.setChannel, State.setProcess, sentSame]
    by_cases isReceiver : ahead size src (2 ^ round) = rank
    · rw [isReceiver] at before ⊢
      have isSource := (ahead_eq_iff srcInside rankBound bound.le).mp isReceiver
      rw [update_self]
      by_cases isRound : 2 ^ round = mask
      · rw [isRound] at isSource ⊢
        subst isSource
        rw [receivedNow, update_self, update_self, counted, Nat.add_sub_cancel_left]
        exact ⟨Nat.le_add_right _ _, isRest⟩
      · have otherSrc : src ≠ behind size rank mask := by
          rintro rfl
          exact isRound (ahead_injective srcBound bound maskBound (isReceiver.trans toRank.symm))
        rw [update_of_ne otherSrc]
        have receivedSame : Process.receivedCount
            { state.process rank with point := .exchanging mask true sent }
              (2 ^ round) = (state.process rank).receivedCount (2 ^ round) :=
          count_done point rfl rfl (.inl isRound)
        rw [receivedSame]
        exact before
    · rw [update_of_ne isReceiver]
      have sameChannel : Function.update state.channel (behind size rank mask)
          (Function.update (state.channel (behind size rank mask)) rank messages) src
            (ahead size src (2 ^ round)) = state.channel src (ahead size src (2 ^ round)) := by
        rw [update_apply]
        split
        case isTrue isSource => rw [update_of_ne isReceiver, isSource]
        case isFalse => rfl
      rw [sameChannel]
      exact before
  · rw [forall_mem_cons]
    exact ⟨isMessage, separated.matched⟩

end

end Separated

/-- Every action keeps the processes separated. -/
theorem inductive_separated (size : Nat) :
    (system size).Inductive (Separated size) where
  initial := fun state start => .start start.1 start.2.1 start.2.2
  step := by
    intro state action next separated inside stepped
    cases action with
    | enter rank =>
      dsimp only [system, step] at stepped
      split at stepped
      case h_1 point =>
        obtain rfl := Option.some.inj stepped
        exact separated.enter inside point
      case h_2 => cases stepped
    | isend rank =>
      dsimp only [system, step] at stepped
      split at stepped
      case h_1 mask received point =>
        obtain rfl := Option.some.inj stepped
        exact separated.isend inside point
      case h_2 => cases stepped
    | receive rank =>
      dsimp only [system, step] at stepped
      split at stepped
      case h_1 mask sent point =>
        split at stepped
        case h_1 => cases stepped
        case h_2 message messages queue =>
          obtain rfl := Option.some.inj stepped
          exact separated.receive inside point queue
      case h_2 => cases stepped
    | finish rank =>
      dsimp only [system, step] at stepped
      split at stepped
      case h_1 mask point =>
        obtain rfl := Option.some.inj stepped
        exact separated.finish inside point
      case h_2 => cases stepped

/-- The barrier separates: a call returns to a process only when every process has
begun that call, and a receive takes the message that was sent to it in its own call
and round. -/
theorem barrier_separates
    {size : Nat} {state : State}
    (reachable : (system size).Reachable state) :
    (∀ rank < size, ∀ other < size, (state.process rank).returned ≤ (state.process other).entered) ∧
    ∀ receipt ∈ state.receipts,
      receipt.message.call = receipt.call ∧ receipt.message.mask = receipt.mask := by
  have separated := (inductive_separated size).reachable reachable
  refine ⟨separated.witnessing.separated, fun receipt member => ?_⟩
  rw [separated.matched receipt member]
  exact ⟨rfl, rfl⟩

/-- Rank 0 is back from its first barrier of two processes and has begun the next one,
while rank 1 is still in the first. -/
theorem barrier_separates_twoRanks :
    ∃ state, (system 2).Reachable state ∧
      (state.process 0).entered = 2 ∧ state.channel 0 1 ≠ [] ∧ (∀ rank < 2, ∀ other < 2,
        (state.process rank).returned ≤ (state.process other).entered) ∧
      ∀ receipt ∈ state.receipts,
        receipt.message.call = receipt.call ∧ receipt.message.mask = receipt.mask := by
  have start : (system 2).Reachable {
      process := fun _ => {
        entered := 0
        returned := 0
        point := .outside }
      channel := fun _ _ => []
      receipts := [] } :=
    .initial ⟨fun _ => rfl, fun _ _ => rfl, rfl⟩
  have zero : 0 < 2 := by decide
  have one : 1 < 2 := by decide
  have bothEntered := (start.step (Action.enter 0) zero rfl).step (Action.enter 1) one rfl
  have bothSent := (bothEntered.step (Action.isend 1) one rfl).step (Action.isend 0) zero rfl
  have returned := (bothSent.step (Action.receive 0) zero rfl).step (Action.finish 0) zero rfl
  have again := returned.step (Action.enter 0) zero rfl
  obtain ⟨separated, matched⟩ := barrier_separates again
  exact ⟨_, again, by decide, by decide, separated, matched⟩

/-- No message can be sent or received, and no `MPIC_Sendrecv` returns. -/
def Quiet (size : Nat) (state : State) : Prop :=
  ∀ rank < size, step size state (.isend rank) = none ∧
    step size state (.receive rank) = none ∧ step size state (.finish rank) = none

/-- A process that waits in a quiet state has sent its message, and there is none for it. -/
theorem Quiet.waits
    {size : Nat} {state : State}
    (quiet : Quiet size state)
    {rank mask : Nat} {received sent : Bool}
    (rankBound : rank < size)
    (point : (state.process rank).point = .exchanging mask received sent) :
    sent = true ∧ received = false ∧ state.channel (behind size rank mask) rank = [] := by
  obtain ⟨noSend, noReceive, noFinish⟩ := quiet rank rankBound
  simp only [step, point] at noSend noReceive noFinish
  cases sent with
  | false => cases noSend
  | true =>
    cases received with
    | true => cases noFinish
    | false =>
      cases isChannel : state.channel (behind size rank mask) rank with
      | nil => exact ⟨rfl, rfl, rfl⟩
      | cons message messages =>
        simp [isChannel] at noReceive

/-- The barrier does not deadlock: where nothing can move, each process inside waits
because another has not begun its call. -/
theorem barrier_waits_for_absent
    {size : Nat} {state : State}
    (reachable : (system size).Reachable state)
    (quiet : Quiet size state)
    {rank : Nat}
    (rankBound : rank < size)
    (inside : (state.process rank).point ≠ .outside) :
    ∃ other < size, (state.process other).entered < (state.process rank).entered := by
  have separated := (inductive_separated size).reachable reachable
  cases point : (state.process rank).point with
  | outside => exact absurd point inside
  | exchanging mask received sent =>
    -- The one it waits for is in an earlier round, or it has not begun the call.
    clear inside
    induction mask using Nat.strong_induction_on generalizing rank received sent with
    | _ mask ih =>
      obtain ⟨rfl, rfl, empty⟩ := quiet.waits rankBound point
      have inStep := separated.witnessing.inStep rank rankBound
      rw [Process.InStep, point] at inStep
      obtain ⟨begun, maskBound, round, rfl⟩ := inStep
      have srcBound : behind size rank (2 ^ round) < size := behind_lt rankBound
      have reaches : ahead size (behind size rank (2 ^ round)) (2 ^ round) = rank :=
        ahead_behind rankBound maskBound.le
      obtain ⟨fewer, messages⟩ := separated.queued _ srcBound round maskBound
      rw [reaches] at fewer messages
      rw [empty, eq_comm, map_eq_nil_iff, range'_eq_nil_iff] at messages
      have isReceived : (state.process rank).receivedCount (2 ^ round) =
          (state.process rank).entered - 1 :=
        (Process.count_exchanging point).trans (if_pos (.inr ⟨rfl, rfl⟩))
      cases source : (state.process (behind size rank (2 ^ round))).point with
      | outside =>
        refine ⟨_, srcBound, ?_⟩
        rw [Process.sentCount, Process.count, source] at fewer messages
        dsimp only at fewer messages
        omega
      | exchanging current sourceReceived sourceSent =>
        obtain ⟨rfl, -, -⟩ := quiet.waits srcBound source
        have isSent := @Process.count_exchanging _ (fun _ sent => sent) (2 ^ round) _ _ _ source
        change Process.sentCount _ _ = _ at isSent
        have inStep := separated.witnessing.inStep _ srcBound
        rw [Process.InStep, source] at inStep
        split at isSent
        case isTrue earlier =>
          obtain ⟨other, otherBound, absent⟩ :=
            ih current (earlier.resolve_right nofun) srcBound _ _ source
          exact ⟨other, otherBound, by omega⟩
        case isFalse => exact ⟨_, srcBound, by omega⟩

/-- Rank 0 of two has sent its message and waits for rank 1. -/
theorem barrier_waits_for_absent_one :
    ∃ state, (system 2).Reachable state ∧
      ∃ other < 2, (state.process other).entered < (state.process 0).entered := by
  have start : (system 2).Reachable ⟨fun _ => ⟨0, 0, .outside⟩, fun _ _ => [], []⟩ :=
    .initial ⟨fun _ => rfl, fun _ _ => rfl, rfl⟩
  have zero : 0 < 2 := by decide
  have sent := (start.step (Action.enter 0) zero rfl).step (Action.isend 0) zero rfl
  refine ⟨_, sent, barrier_waits_for_absent sent (fun rank bound => ?_) zero nofun⟩
  match rank, bound with
  | 0, _ => exact ⟨rfl, rfl, rfl⟩
  | 1, _ => exact ⟨rfl, rfl, rfl⟩

end Mpich.Coll.Barrier
