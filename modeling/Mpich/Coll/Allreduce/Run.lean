import Mpich.Coll.Halving.Run

/-!
# Allreduce

`MPIR_Allreduce` for homogeneous intracommunicators: recursive doubling, and a
reduce-scatter followed by an allgather for long messages and predefined
operations. What a process has after the pairs have been folded, and after each
round.
-/

namespace Mpich.Coll.Allreduce

open MessagePassing Buffer

/-- `MPIR_ALLREDUCE_SHORT_MSG`. -/
def allreduceShortMsg : Int := 2048

/-- One process's call of `MPIR_Allreduce`. -/
structure Call (Cell : Type) where
  /-- What its receives demand of a message. -/
  check : LengthCheck
  commSize : Nat
  rank : Nat
  /-- The send buffer is `MPI_IN_PLACE`. -/
  inPlace : Bool
  sendbuf : List Cell
  recvbuf : List Cell
  count : Nat
  /-- The size of the datatype. -/
  typeSize : Nat
  kind : OpKind
  uop : Cell → Cell → Cell
  /-- What allocated memory holds before it is written. -/
  garbage : Nat → Cell

namespace Call

variable {Cell : Type} (call : Call Cell)

def pof2 : Nat :=
  Folding.nearestPof2 call.commSize

def rem : Nat :=
  call.commSize - call.pof2

/-- The real rank of a new rank. -/
def dst (newdst : Nat) : Nat :=
  if newdst < call.rem then newdst * 2 + 1 else newdst + call.rem

/-- `count * type_size`, an `int`. -/
def totalBytes : Int :=
  Int.bmod (call.count * call.typeSize) (2 ^ 32)

/-- The buffers with the process's own elements in `recvbuf`. -/
def startTemps : Option (Temps Cell) :=
  (if call.inPlace then some call.recvbuf
  else localcopy call.sendbuf 0 call.recvbuf 0 call.count).map fun recvbuf =>
    { recvbuf, tmpBuf := tabulate call.count call.garbage }

/-- Send `recvbuf`. -/
def sendAll (dst : Nat) (temps : Temps Cell) : Prog Nat (List Cell) Unit := do
  let msg ← Prog.ofOption (load temps.recvbuf 0 call.count)
  mpicSend dst msg

/-- Receive into `tmp_buf`. -/
def recvTmp (src : Nat) (temps : Temps Cell) :
    Prog Nat (List Cell) (Temps Cell) := do
  let msg ← call.check.recv src call.count
  let tmpBuf ← Prog.ofOption (store temps.tmpBuf 0 msg)
  pure { temps with tmpBuf }

/-- Combine the elements of `tmp_buf` with those of `recvbuf`. -/
def combine (tmpFirst : Prop) [Decidable tmpFirst] (temps : Temps Cell) :
    Option (Temps Cell) :=
  if tmpFirst then
    (applyOp call.uop temps.tmpBuf 0 temps.recvbuf 0 call.count).map
      fun recvbuf => { temps with recvbuf }
  else
    (applyOp call.uop temps.recvbuf 0 temps.tmpBuf 0 call.count).bind
      fun tmpBuf =>
    (localcopy tmpBuf 0 temps.recvbuf 0 call.count).map fun recvbuf =>
      { recvbuf, tmpBuf }

/-- The even ranks below `2 * rem` send their data to the next rank. The new
rank of a process that takes part in what follows, with its buffers. -/
def foldPairs (temps : Temps Cell) :
    Prog Nat (List Cell) (Option Nat × Temps Cell) :=
  if call.rank < 2 * call.rem then
    if call.rank % 2 = 0 then do
      call.sendAll (call.rank + 1) temps
      pure (none, temps)
    else do
      let temps ← call.recvTmp (call.rank - 1) temps
      let temps ← Prog.ofOption (call.combine True temps)
      pure (some (call.rank / 2), temps)
  else pure (some (call.rank - call.rem), temps)

/-- The loop of the recursive doubling. -/
def doublingLoop (newrank : Nat) : Nat → Nat → Temps Cell → Prog Nat (List Cell) (Temps Cell)
  | 0, mask, temps => if mask < call.pof2 then .fail else pure temps
  | fuel + 1, mask, temps =>
    if mask < call.pof2 then do
      let dst := call.dst (newrank ^^^ mask)
      call.sendAll dst temps
      let temps ← call.recvTmp dst temps
      let temps ← Prog.ofOption
        (call.combine (call.kind.isCommutative ∨ dst < call.rank) temps)
      doublingLoop newrank fuel (mask <<< 1) temps
    else pure temps

/-- The process in the loops for long messages. -/
def core (newrank : Nat) : Halving.Core Cell where
  check := call.check
  pof2 := call.pof2
  newrank := newrank
  dst := call.dst
  count := call.count
  uop := call.uop

/-- The loop of the allgather. -/
def allgatherLoop (newrank : Nat) : Nat → Nat → Nat → Nat → List Cell →
    Prog Nat (List Cell) (List Cell)
  | 0, mask, _, _, recvbuf => if 0 < mask then .fail else pure recvbuf
  | fuel + 1, mask, sendIdx, lastIdx, recvbuf =>
    if 0 < mask then do
      let dst := call.dst (newrank ^^^ mask)
      let transfer := (call.core newrank).gatherTransfer mask sendIdx lastIdx
      (call.core newrank).sendBlocks dst transfer recvbuf
      let recvbuf ← (call.core newrank).recvBlocks dst transfer recvbuf
      allgatherLoop newrank fuel (mask >>> 1)
        ((call.core newrank).nextSendIdx mask transfer) transfer.lastIdx recvbuf
    else pure recvbuf

/-- A reduce-scatter followed by an allgather. -/
def reduceScatterAllgather (newrank : Nat) (temps : Temps Cell) :
    Prog Nat (List Cell) (List Cell) := do
  let scattered ← (call.core newrank).halvingLoop call.commSize 1 0 0 call.pof2
    temps
  call.allgatherLoop newrank call.commSize (scattered.mask >>> 1)
    scattered.sendIdx scattered.lastIdx scattered.temps.recvbuf

/-- Recursive doubling is used. -/
def UsesDoubling : Prop :=
  call.totalBytes ≤ allreduceShortMsg ∨ call.kind ≠ .builtin ∨ call.count < call.pof2

instance : Decidable call.UsesDoubling :=
  inferInstanceAs (Decidable (_ ∨ _ ∨ _))

/-- What a process does that takes part, and its `recvbuf` then. -/
def reduceAll (newrank : Option Nat) (temps : Temps Cell) :
    Prog Nat (List Cell) (List Cell) :=
  match newrank with
  | none => pure temps.recvbuf
  | some newrank =>
    if call.UsesDoubling then do
      let temps ← call.doublingLoop newrank call.commSize 1 temps
      pure temps.recvbuf
    else call.reduceScatterAllgather newrank temps

/-- The odd ranks below `2 * rem` send the results to the rank before. -/
def unfoldPairs (recvbuf : List Cell) : Prog Nat (List Cell) (List Cell) :=
  if call.rank < 2 * call.rem then
    if call.rank % 2 ≠ 0 then do
      let msg ← Prog.ofOption (load recvbuf 0 call.count)
      mpicSend (call.rank - 1) msg
      pure recvbuf
    else do
      let msg ← call.check.recv (call.rank + 1) call.count
      Prog.ofOption (store recvbuf 0 msg)
  else pure recvbuf

/-- `MPIR_Allreduce`, with the receive buffer at its end. -/
def allreduce : Prog Nat (List Cell) (List Cell) :=
  if call.count = 0 then pure call.recvbuf
  else do
    let temps ← Prog.ofOption call.startTemps
    let (newrank, temps) ← call.foldPairs temps
    let recvbuf ← call.reduceAll newrank temps
    call.unfoldPairs recvbuf

end Call

/-- What the calls of all processes have in common. -/
structure Shape where
  commSize : Nat
  count : Nat
  typeSize : Nat
  kind : OpKind
  /-- A rank passes `MPI_IN_PLACE` as its send buffer. -/
  inPlace : Nat → Bool

/-- What the memory of all processes holds: for each rank, its elements to be
reduced, those of a receive buffer that is used for the result only, and the
elements that come from nowhere. -/
structure Contents (Cell : Type) where
  input : Nat → Nat → Cell
  output : Nat → Nat → Cell
  garbage : Nat → Nat → Cell

namespace Shape

variable {Cell : Type}
variable (shape : Shape) (check : LengthCheck) (uop : Cell → Cell → Cell)
variable (contents : Contents Cell)

/-- The call of one rank. -/
def call (rank : Nat) : Call Cell where
  check := check
  commSize := shape.commSize
  rank := rank
  inPlace := shape.inPlace rank
  sendbuf := tabulate shape.count (contents.input rank)
  recvbuf := tabulate shape.count
    (if shape.inPlace rank then contents.input rank else contents.output rank)
  count := shape.count
  typeSize := shape.typeSize
  kind := shape.kind
  uop := uop
  garbage := contents.garbage rank

/-- The programs of all ranks; there is nothing to run outside the
communicator. -/
def program (rank : Nat) : Prog Nat (List Cell) (List Cell) :=
  if rank < shape.commSize then (shape.call check uop contents rank).allreduce
  else .done []

/-- An order of the ranks in which their elements may be combined. -/
def Allows (order : List Nat) : Prop :=
  if shape.kind.isCommutative then order.Perm (List.range shape.commSize)
  else order = List.range shape.commSize

/-- A value is the reduction of the elements at a position. -/
def IsReduction (column : Nat) (value : Cell) : Prop :=
  ∃ order, shape.Allows order ∧
    OrderedProduct.product uop (fun rank => contents.input rank column) order = some value

/-- A receive buffer holds the reductions of all elements. -/
def Reduced (recvbuf : List Cell) : Prop :=
  recvbuf.length = shape.count ∧ ∀ column < shape.count, ∃ value, recvbuf[column]? = some value ∧
      shape.IsReduction uop contents column value

end Shape

open Masks Halving List

variable {Cell : Type}

namespace Shape

variable (shape : Shape)

/-- The odd ranks of the pairs take part. -/
def folding : Folding where
  commSize := shape.commSize
  odd := true

variable {shape} {check : LengthCheck} {uop : Cell → Cell → Cell}
variable {contents : Contents Cell}

section

variable (nonempty : 0 < shape.commSize) (rank : Nat)

include nonempty

theorem call_pof2 :
    (shape.call check uop contents rank).pof2 = 2 ^ shape.folding.levels :=
  @Folding.nearestPof2_eq shape.folding nonempty

theorem call_rem :
    (shape.call check uop contents rank).rem = shape.folding.extra := by
  rw [Call.rem, call_pof2 nonempty]
  rfl

theorem call_dst :
    (shape.call check uop contents rank).dst = shape.folding.oldRank := by
  funext newdst
  rw [Call.dst, call_rem nonempty]
  rfl

theorem call_core :
    (shape.call check uop contents rank).core (shape.folding.newRank rank) =
      Core.ofFolding shape.folding check shape.count uop rank := by
  unfold Call.core Core.ofFolding
  rw [call_pof2 nonempty, call_dst nonempty]
  rfl

end

section

variable {rank other : Nat} {own incoming : Nat → Cell}

theorem startTemps_eq (rank : Nat) :
    (shape.call check uop contents rank).startTemps = some
        { recvbuf := tabulate shape.count (contents.input rank)
          tmpBuf := tabulate shape.count (contents.garbage rank) } := by
  have copied : (if shape.inPlace rank then
        some (shape.call check uop contents rank).recvbuf
      else localcopy (shape.call check uop contents rank).sendbuf 0
        (shape.call check uop contents rank).recvbuf 0 shape.count) =
      some (tabulate shape.count (contents.input rank)) := by
    unfold call
    by_cases inPlace : shape.inPlace rank = true
    · simp only [if_pos inPlace]
    · simp only [if_neg inPlace]
      exact localcopy_all _ _ _
  exact congrArg (Option.map _) copied

theorem ends_sendAll (tmpBuf : List Cell) :
    ((shape.call check uop contents rank).sendAll other
        { recvbuf := tabulate shape.count own, tmpBuf }).Ends
      [.send other (tabulate shape.count own)] () :=
  (ends_ofOption (load_tabulate_all _ _)).bind (ends_mpicSend _ _)

theorem ends_recvTmp (recvbuf : List Cell) (cell : Nat → Cell) :
    ((shape.call check uop contents rank).recvTmp other
        { recvbuf, tmpBuf := tabulate shape.count cell }).Ends
      [.recv other (tabulate shape.count incoming)]
      { recvbuf, tmpBuf := tabulate shape.count incoming } :=
  (check.ends_recv (length_tabulate _ _)).bind
    ((ends_ofOption (store_tabulate_all _ _ _)).bind (Prog.ends_done _))

/-- The combined elements, in one order or the other. -/
theorem combine_eq (tmpFirst : Prop) [Decidable tmpFirst] :
    ∃ cell, (shape.call check uop contents rank).combine tmpFirst
        { recvbuf := tabulate shape.count own
          tmpBuf := tabulate shape.count incoming } =
      some
        { recvbuf := tabulate shape.count fun index =>
            if tmpFirst then uop (incoming index) (own index)
            else uop (own index) (incoming index)
          tmpBuf := tabulate shape.count cell } := by
  have count : (shape.call check uop contents rank).count = shape.count := rfl
  have operation : (shape.call check uop contents rank).uop = uop := rfl
  unfold Call.combine
  rw [count, operation]
  by_cases first : tmpFirst
  · refine ⟨incoming, ?_⟩
    simp only [if_pos first]
    rw [applyOp_all]
    rfl
  · refine ⟨fun index => uop (own index) (incoming index), ?_⟩
    simp only [if_neg first]
    rw [applyOp_all, Option.bind_some, localcopy_all]
    rfl

end

section

variable {rank : Nat}

/-- The elements of an active rank when the pairs have been folded. -/
theorem yields_foldPairs (active : shape.folding.Active rank) :
    ((shape.call check uop contents rank).foldPairs
        { recvbuf := tabulate shape.count (contents.input rank)
          tmpBuf := tabulate shape.count (contents.garbage rank) }).Yields
      (shape.folding.pairRound false
        (fun rank => tabulate shape.count (contents.input rank)) rank).ops
      (fun out => out.1 = some (shape.folding.newRank rank) ∧ ∃ cell, out.2 =
          { recvbuf := tabulate shape.count (shape.folding.foldedAt uop
              contents.input (shape.folding.newRank rank))
            tmpBuf := tabulate shape.count cell }) := by
  have nonempty : 0 < shape.commSize := Nat.zero_lt_of_lt active.1
  have size : (shape.call check uop contents rank).rank = rank := rfl
  unfold Call.foldPairs
  rw [call_rem nonempty, size]
  by_cases folded : rank < 2 * shape.folding.extra
  · have odd : rank % 2 = 1 := active.2 folded
    have notEven : ¬ rank % 2 = 0 := by omega
    have receives : rank % 2 ≠ false.toNat := notEven
    have pair : Folding.pairRank rank = rank - 1 := if_neg notEven
    have newRank : shape.folding.newRank rank = rank / 2 := if_pos folded
    obtain ⟨cell, combined⟩ := @combine_eq Cell shape check uop contents rank
      (contents.input rank) (contents.input (rank - 1)) True _
    have values : shape.folding.foldedAt uop contents.input (rank / 2) =
        fun index => uop (contents.input (rank - 1) index) (contents.input rank index) := by
      funext index
      rw [← newRank, ← pair]
      exact Folding.foldedAt_newRank_of_lt active folded index
    rw [if_pos folded, if_neg notEven,
      Folding.ops_pairRound_receiver folded receives, pair, newRank, values]
    refine (ends_recvTmp _ _).bind_yields ?_
    rw [combined]
    exact Prog.yields_pure ⟨rfl, cell, rfl⟩
  · have newRank : shape.folding.newRank rank = rank - shape.folding.extra :=
      if_neg folded
    have values : shape.folding.foldedAt uop contents.input
        (rank - shape.folding.extra) = contents.input rank := by
      funext index
      rw [← newRank]
      exact Folding.foldedAt_newRank_of_not active folded index
    rw [if_neg folded, Folding.ops_pairRound_of_not folded, newRank, values]
    exact Prog.yields_pure ⟨rfl, _, rfl⟩

/-- The other ranks are the even ones of the pairs. -/
theorem passive_iff (inComm : rank < shape.commSize) :
    ¬ shape.folding.Active rank ↔ rank < 2 * shape.folding.extra ∧ rank % 2 = 0 := by
  change ¬ (rank < shape.commSize ∧ (rank < 2 * shape.folding.extra → rank % 2 = 1)) ↔ _
  omega

/-- A rank that does not take part hands its elements over. -/
theorem ends_foldPairs
    (inComm : rank < shape.commSize)
    (passive : ¬ shape.folding.Active rank) :
    ((shape.call check uop contents rank).foldPairs
        { recvbuf := tabulate shape.count (contents.input rank)
          tmpBuf := tabulate shape.count (contents.garbage rank) }).Ends
      (shape.folding.pairRound false
        (fun rank => tabulate shape.count (contents.input rank)) rank).ops
      (none,
        { recvbuf := tabulate shape.count (contents.input rank)
          tmpBuf := tabulate shape.count (contents.garbage rank) }) := by
  obtain ⟨folded, even⟩ := (passive_iff inComm).mp passive
  have size : (shape.call check uop contents rank).rank = rank := rfl
  have pair : Folding.pairRank rank = rank + 1 := if_pos even
  have sends : rank % 2 = false.toNat := even
  unfold Call.foldPairs
  rw [call_rem (Nat.zero_lt_of_lt inComm), size, if_pos folded, if_pos even,
    Folding.ops_pairRound_sender folded sends, pair]
  exact (ends_sendAll _).bind (Prog.ends_done _)

/-- What a rank sends or receives when all ranks get the results. -/
theorem ends_unfoldPairs
    (inComm : rank < shape.commSize)
    {final : Nat → Nat → Cell} {own : Nat → Cell}
    (has : shape.folding.Active rank → own = final (shape.folding.newRank rank)) :
    ((shape.call check uop contents rank).unfoldPairs
        (tabulate shape.count own)).Ends
      (shape.folding.pairRound true
        (fun rank => tabulate shape.count (final (shape.folding.newRank rank))) rank).ops
      (tabulate shape.count (final (shape.folding.newRank rank))) := by
  have nonempty : 0 < shape.commSize := Nat.zero_lt_of_lt inComm
  have size : (shape.call check uop contents rank).rank = rank := rfl
  unfold Call.unfoldPairs
  rw [call_rem nonempty, size]
  by_cases active : shape.folding.Active rank
  · rw [has active]
    by_cases folded : rank < 2 * shape.folding.extra
    · have odd : rank % 2 = true.toNat := active.2 folded
      have notEven : ¬ rank % 2 = 0 := by
        rw [odd]
        decide
      have pair : Folding.pairRank rank = rank - 1 := if_neg notEven
      rw [if_pos folded, if_pos notEven, Folding.ops_pairRound_sender folded odd, pair]
      exact (ends_ofOption (load_tabulate_all _ _)).bind
        ((ends_mpicSend _ _).bind (Prog.ends_done _))
    · rw [if_neg folded, Folding.ops_pairRound_of_not folded]
      exact Prog.ends_done _
  · obtain ⟨folded, even⟩ := (passive_iff inComm).mp active
    have pair : Folding.pairRank rank = rank + 1 := if_pos even
    have same : shape.folding.newRank (rank + 1) = shape.folding.newRank rank := by
      unfold Folding.newRank
      rw [if_pos folded, if_pos (by omega)]
      omega
    have receives : rank % 2 ≠ true.toNat := by
      rw [even]
      decide
    rw [if_pos folded, if_neg (not_not.mpr even),
      Folding.ops_pairRound_receiver folded receives, pair, same]
    exact (check.ends_recv (length_tabulate _ _)).bind (ends_ofOption (store_tabulate_all _ _ _))

end

variable (shape uop contents) in
/-- The value of a new rank at a position after some rounds. -/
def doubledAt (round newrank column : Nat) : Cell :=
  Butterfly.valueAt uop
    (fun round newrank => shape.kind.isCommutative ∨ BitSet newrank round)
    (fun newrank => shape.folding.foldedAt uop contents.input newrank column)
    round newrank

variable (shape uop contents) in
/-- What a new rank sends in a round of the recursive doubling. -/
def doublingMsg (round newrank : Nat) : List Cell :=
  tabulate shape.count (shape.doubledAt uop contents round newrank)

section

variable {rank : Nat} (active : shape.folding.Active rank)

include active

/-- The real rank of a partner tells in which order to combine. -/
theorem partner_lt_iff (round : Nat) :
    shape.folding.partner round rank < rank ↔ BitSet (shape.folding.newRank rank) round := by
  nth_rewrite 2 [← Folding.oldRank_newRank active]
  rw [Folding.partner, Folding.oldRank_lt_iff, xor_mask_lt_iff]

theorem yields_doublingLoop
    (fuel : Nat)
    {round : Nat}
    (within : round ≤ shape.folding.levels)
    (enough : shape.folding.levels ≤ round + fuel)
    (cell : Nat → Cell) :
    ((shape.call check uop contents rank).doublingLoop
        (shape.folding.newRank rank) fuel (2 ^ round)
        { recvbuf := tabulate shape.count
            (shape.doubledAt uop contents round (shape.folding.newRank rank))
          tmpBuf := tabulate shape.count cell }).Yields
      (opsOf (shape.folding.partnerRound (shape.doublingMsg uop contents) rank)
        (range' round (shape.folding.levels - round)))
      (·.recvbuf = tabulate shape.count
        (shape.doubledAt uop contents shape.folding.levels (shape.folding.newRank rank))) := by
  have nonempty : 0 < shape.commSize := Nat.zero_lt_of_lt active.1
  have pof2 := @call_pof2 Cell shape check uop contents nonempty rank
  induction fuel generalizing round cell with
  | zero =>
    obtain rfl : round = shape.folding.levels := by omega
    rw [Call.doublingLoop, pof2, if_neg (lt_irrefl _), Nat.sub_self]
    exact Prog.yields_pure rfl
  | succ fuel ih =>
    rw [Call.doublingLoop, pof2]
    by_cases more : round < shape.folding.levels
    · have size : (shape.call check uop contents rank).rank = rank := rfl
      have kind : (shape.call check uop contents rank).kind = shape.kind := rfl
      have dst : (shape.call check uop contents rank).dst
          (shape.folding.newRank rank ^^^ 2 ^ round) = shape.folding.partner round rank := by
        rw [call_dst nonempty]
        rfl
      obtain ⟨next, combined⟩ := @combine_eq Cell shape check uop contents rank
        (shape.doubledAt uop contents round (shape.folding.newRank rank))
        (shape.doubledAt uop contents round (shape.folding.newRank rank ^^^ 2 ^ round))
        (shape.kind.isCommutative ∨ shape.folding.partner round rank < rank) _
      have values : shape.doubledAt uop contents (round + 1)
          (shape.folding.newRank rank) = fun column =>
            if shape.kind.isCommutative ∨ shape.folding.partner round rank < rank then
              uop (shape.doubledAt uop contents round
                  (shape.folding.newRank rank ^^^ 2 ^ round) column)
                (shape.doubledAt uop contents round (shape.folding.newRank rank) column)
            else
              uop (shape.doubledAt uop contents round (shape.folding.newRank rank) column)
                (shape.doubledAt uop contents round
                  (shape.folding.newRank rank ^^^ 2 ^ round) column) := by
        funext column
        simp only [partner_lt_iff active]
        rfl
      rw [← values] at combined
      rw [if_pos (Nat.pow_lt_pow_right one_lt_two more), dst, two_pow_shiftLeft,
        show shape.folding.levels - round = shape.folding.levels - (round + 1) + 1 by omega,
        range'_succ, opsOf_cons, Folding.ops_partnerRound active]
      refine (ends_sendAll _).bind_yields ((ends_recvTmp _ cell).bind_yields ?_)
      simp only [size, kind]
      rw [combined]
      exact ih more (by omega) next
    · obtain rfl : round = shape.folding.levels := by omega
      rw [if_neg (lt_irrefl _), Nat.sub_self]
      exact Prog.yields_pure rfl

theorem yields_allgatherLoop
    {goal : Nat → Cell} {round : Nat}
    (within : round ≤ shape.folding.levels)
    {fuel : Nat}
    (enough : round ≤ fuel)
    {recvbuf : List Cell}
    (here : Knows shape.count goal
      (InRange
        (windowStart shape.folding.levels shape.count round (shape.folding.newRank rank))
        (windowSize shape.folding.levels shape.count round (shape.folding.newRank rank))) recvbuf) :
    ((shape.call check uop contents rank).allgatherLoop
        (shape.folding.newRank rank) fuel (2 ^ round >>> 1)
        (Butterfly.slot shape.folding.levels round (shape.folding.newRank rank))
        (gatherEnd shape.folding.levels round (shape.folding.newRank rank))
        recvbuf).Yields
      (opsOf (shape.folding.partnerRound (gatherMsg shape.folding.levels shape.count goal) rank)
        (List.range round).reverse)
      (· = tabulate shape.count goal) := by
  have nonempty : 0 < shape.commSize := Nat.zero_lt_of_lt active.1
  induction round generalizing fuel recvbuf with
  | zero =>
    have all := eq_tabulate_of_window here
    cases fuel with
    | zero => exact Prog.yields_pure all
    | succ fuel => exact Prog.yields_pure all
  | succ round ih =>
    obtain ⟨fuel, rfl⟩ : ∃ less, fuel = less + 1 := ⟨fuel - 1, by omega⟩
    have dst : (shape.call check uop contents rank).dst
        (shape.folding.newRank rank ^^^ 2 ^ round) = shape.folding.partner round rank := by
      rw [call_dst nonempty]
      rfl
    rw [Call.allgatherLoop, two_pow_shiftRight, if_pos (Nat.two_pow_pos round), dst,
      call_core nonempty, gatherTransfer_eq within, range_succ,
      reverse_append, reverse_singleton, singleton_append,
      opsOf_cons, Folding.ops_partnerRound active]
    refine (ends_sendGathered check within here _).bind_yields
      ((yields_recvGathered check within here _).bind ?_)
    intro recvbuf knows
    rw [nextSendIdx_eq]
    exact ih (by omega) (by omega) knows

end

end Shape

end Mpich.Coll.Allreduce
