import Mpich.Coll.Halving.Run

/-!
# Reduce

`MPIR_Reduce` for homogeneous intracommunicators: a binomial tree, and a
reduce-scatter followed by a gather to the root for long messages and predefined
operations. A root that has not taken part in the reduce-scatter takes on the role of
new rank 0 in the gather.
-/

namespace Mpich.Coll.Reduce

open MessagePassing Buffer

/-- `MPIR_REDUCE_SHORT_MSG`. -/
def reduceShortMsg : Int := 2048

/-- One process's call of `MPIR_Reduce`. -/
structure Call (Cell : Type) where
  /-- What its receives demand of a message. -/
  check : LengthCheck
  commSize : Nat
  rank : Nat
  root : Nat
  /-- The send buffer is `MPI_IN_PLACE`. -/
  inPlace : Bool
  sendbuf : List Cell
  recvbuf : List Cell
  count : Nat
  /-- The size of the datatype. -/
  typeSize : Nat
  kind : OpKind
  uop : Cell → Cell → Cell
  /-- What the memory of `tmp_buf` holds before it is written. -/
  garbage : Nat → Cell
  /-- What that of an allocated `recvbuf` holds. -/
  recvGarbage : Nat → Cell

/-- The variables between the reduce-scatter and the gather. -/
structure Progress (Cell : Type) where
  /-- None where the source has -1. -/
  newrank : Option Nat
  sendIdx : Nat
  lastIdx : Nat
  temps : Temps Cell

/-- `while (mask < pof2) { mask <<= 1; j++; }` from given values. -/
def raiseMask (pof2 : Nat) : Nat → Nat → Nat → Nat × Nat
  | 0, mask, j => (mask, j)
  | fuel + 1, mask, j =>
    if mask < pof2 then raiseMask pof2 fuel (mask <<< 1) (j + 1) else (mask, j)

namespace Call

variable {Cell : Type} (call : Call Cell)

def pof2 : Nat :=
  Folding.nearestPof2 call.commSize

def rem : Nat :=
  call.commSize - call.pof2

/-- The real rank of a new rank. -/
def dst (newdst : Nat) : Nat :=
  if newdst < call.rem then newdst * 2 else newdst + call.rem

/-- `count*type_size`, an `int`. -/
def totalBytes : Int :=
  Int.bmod (call.count * call.typeSize) (2 ^ 32)

/-- The buffers with the process's own elements in `recvbuf`. Only the root uses
the receive buffer of its caller. -/
def startTemps : Option (Temps Cell) :=
  let recvbuf :=
    if call.rank ≠ call.root then tabulate call.count call.recvGarbage
    else call.recvbuf
  (if call.rank ≠ call.root ∨ call.inPlace = false then
    localcopy call.sendbuf 0 recvbuf 0 call.count
  else some recvbuf).map fun recvbuf =>
    { recvbuf, tmpBuf := tabulate call.count call.garbage }

/-- Send `recvbuf`. -/
def sendAll (dst : Nat) (temps : Temps Cell) : Prog Nat (List Cell) Unit := do
  let msg ← Prog.ofOption (load temps.recvbuf 0 call.count)
  mpicSend dst msg

/-- Receive into `tmp_buf`. -/
def recvTmp (src : Nat) (temps : Temps Cell) :
    Prog Nat (List Cell) (Temps Cell) := do
  let msg ← call.check.recv src call.count
  let tmpBuf ← Prog.ofOption (store temps.tmpBuf 0 msg)
  pure { temps with tmpBuf }

/-- Combine the elements of `tmp_buf` with those of `recvbuf`. -/
def combine (tmpFirst : Prop) [Decidable tmpFirst] (temps : Temps Cell) :
    Option (Temps Cell) :=
  if tmpFirst then
    (applyOp call.uop temps.tmpBuf 0 temps.recvbuf 0 call.count).map
      fun recvbuf => { temps with recvbuf }
  else
    (applyOp call.uop temps.recvbuf 0 temps.tmpBuf 0 call.count).bind
      fun tmpBuf =>
    (localcopy tmpBuf 0 temps.recvbuf 0 call.count).map fun recvbuf =>
      { recvbuf, tmpBuf }

/-- The odd ranks below `2*rem` send their data to the rank before. The new rank
of a process that takes part in what follows, with its buffers. -/
def foldPairs (temps : Temps Cell) :
    Prog Nat (List Cell) (Option Nat × Temps Cell) :=
  if call.rank < 2 * call.rem then
    if call.rank % 2 ≠ 0 then do
      call.sendAll (call.rank - 1) temps
      pure (none, temps)
    else do
      let temps ← call.recvTmp (call.rank + 1) temps
      let temps ← Prog.ofOption (call.combine True temps)
      pure (some (call.rank / 2), temps)
  else pure (some (call.rank - call.rem), temps)

/-- The process in the loops. -/
def core (newrank : Nat) : Halving.Core Cell where
  check := call.check
  pof2 := call.pof2
  newrank := newrank
  dst := call.dst
  count := call.count
  uop := call.uop

/-- The reduce-scatter of a process that takes part. -/
def reduceScatter (newrank : Option Nat) (temps : Temps Cell) :
    Prog Nat (List Cell) (Progress Cell) :=
  match newrank with
  | none => pure { newrank := none, sendIdx := 0, lastIdx := 0, temps }
  | some newrank => do
      let scattered ← (call.core newrank).halvingLoop call.commSize 1 0 0
        call.pof2 temps
      pure
        { newrank := some newrank
          sendIdx := scattered.sendIdx
          lastIdx := scattered.lastIdx
          temps := scattered.temps }

/-- The root does not take part in the reduce-scatter. -/
def RootExcluded : Prop :=
  call.root < 2 * call.rem ∧ call.root % 2 ≠ 0

instance : Decidable call.RootExcluded :=
  inferInstanceAs (Decidable (_ ∧ _))

def newroot : Nat :=
  if call.root < 2 * call.rem then
    if call.root % 2 ≠ 0 then 0 else call.root / 2
  else call.root - call.rem

/-- The new rank 0 sends its data to a root that was excluded, which takes on the
role of new rank 0. -/
def handOver (progress : Progress Cell) :
    Prog Nat (List Cell) (Progress Cell) :=
  if call.RootExcluded then
    if call.rank = call.root then do
      let msg ← call.check.recv 0 ((call.core 0).cnts 0)
      let recvbuf ← Prog.ofOption (store progress.temps.recvbuf 0 msg)
      pure
        { newrank := some 0
          sendIdx := 0
          lastIdx := 2
          temps := { progress.temps with recvbuf } }
    else if progress.newrank = some 0 then do
      let msg ← Prog.ofOption
        (load progress.temps.recvbuf 0 ((call.core 0).cnts 0))
      mpicSend call.root msg
      pure { progress with newrank := none }
    else pure progress
  else pure progress

/-- The real rank of a new rank during the gather. -/
def gatherDst (newdst : Nat) : Nat :=
  if newdst = 0 ∧ call.RootExcluded then call.root else call.dst newdst

/-- The loop of the gather, up to the message to the half of the tree with the
root. -/
def gatherLoop (newrank : Nat) : Nat → Nat → Nat → Nat → Nat → List Cell →
    Prog Nat (List Cell) (List Cell)
  | 0, mask, _, _, _, recvbuf => if 0 < mask then .fail else pure recvbuf
  | fuel + 1, mask, j, sendIdx, lastIdx, recvbuf =>
    if 0 < mask then
      let newdst := newrank ^^^ mask
      let transfer := (call.core newrank).gatherTransfer mask sendIdx lastIdx
      if (newdst >>> j) <<< j = (call.newroot >>> j) <<< j then do
        (call.core newrank).sendBlocks (call.gatherDst newdst) transfer recvbuf
        pure recvbuf
      else do
        let recvbuf ← (call.core newrank).recvBlocks (call.gatherDst newdst)
          transfer recvbuf
        -- In the last step, where the source sets `j` to -1, it stays 0.
        gatherLoop newrank fuel (mask >>> 1) (j - 1)
          ((call.core newrank).nextSendIdx mask transfer) transfer.lastIdx recvbuf
    else pure recvbuf

/-- The gather, from a process that takes part. -/
def gather (progress : Progress Cell) : Prog Nat (List Cell) (List Cell) :=
  match progress.newrank with
  | none => pure progress.temps.recvbuf
  | some newrank =>
    let (mask, j) := raiseMask call.pof2 call.commSize 1 0
    call.gatherLoop newrank call.commSize (mask >>> 1) (j - 1)
      progress.sendIdx progress.lastIdx progress.temps.recvbuf

/-- A reduce-scatter followed by a gather to the root. -/
def reduceScatterGather (temps : Temps Cell) :
    Prog Nat (List Cell) (List Cell) := do
  let (newrank, temps) ← call.foldPairs temps
  let progress ← call.reduceScatter newrank temps
  let progress ← call.handOver progress
  call.gather progress

/-- The root of the tree. -/
def lroot : Nat :=
  if call.kind.isCommutative then call.root else 0

def relrank : Nat :=
  (call.rank + call.commSize - call.lroot) % call.commSize

/-- The loop of the tree, up to the message to the parent. -/
def treeLoop : Nat → Nat → Temps Cell → Prog Nat (List Cell) (Temps Cell)
  | 0, mask, temps => if mask < call.commSize then .fail else pure temps
  | fuel + 1, mask, temps =>
    if mask < call.commSize then
      if mask &&& call.relrank = 0 then
        let source := call.relrank ||| mask
        if source < call.commSize then do
          let temps ←
            call.recvTmp ((source + call.lroot) % call.commSize) temps
          let temps ←
            Prog.ofOption (call.combine call.kind.isCommutative temps)
          treeLoop fuel (mask <<< 1) temps
        else treeLoop fuel (mask <<< 1) temps
      else do
        call.sendAll ((Nat.ldiff call.relrank mask + call.lroot) % call.commSize) temps
        pure temps
    else pure temps

/-- The result of an operation that is not commutative is at rank 0. -/
def sendToRoot (temps : Temps Cell) : Prog Nat (List Cell) (List Cell) :=
  if ¬ call.kind.isCommutative ∧ call.root ≠ 0 then
    if call.rank = 0 then do
      call.sendAll call.root temps
      pure temps.recvbuf
    else if call.rank = call.root then do
      let msg ← call.check.recv 0 call.count
      Prog.ofOption (store temps.recvbuf 0 msg)
    else pure temps.recvbuf
  else pure temps.recvbuf

/-- The binomial tree algorithm. -/
def binomial (temps : Temps Cell) : Prog Nat (List Cell) (List Cell) := do
  let temps ← call.treeLoop call.commSize 1 temps
  call.sendToRoot temps

/-- A reduce-scatter is used. -/
def UsesScatter : Prop :=
  reduceShortMsg < call.totalBytes ∧ call.kind = .builtin ∧ call.pof2 ≤ call.count

instance : Decidable call.UsesScatter :=
  inferInstanceAs (Decidable (_ ∧ _ ∧ _))

/-- The algorithm that the size of the message, the operation and the number of
processes select. -/
def algorithm (temps : Temps Cell) : Prog Nat (List Cell) (List Cell) :=
  if call.UsesScatter then call.reduceScatterGather temps
  else call.binomial temps

/-- `MPIR_Reduce`, with the caller's receive buffer at its end. -/
def reduce : Prog Nat (List Cell) (List Cell) :=
  if call.count = 0 then pure call.recvbuf
  else do
    let temps ← Prog.ofOption call.startTemps
    let recvbuf ← call.algorithm temps
    pure (if call.rank = call.root then recvbuf else call.recvbuf)

end Call

/-- What the calls of all processes have in common. -/
structure Shape where
  commSize : Nat
  root : Nat
  root_lt : root < commSize
  count : Nat
  typeSize : Nat
  kind : OpKind
  /-- The root passes `MPI_IN_PLACE` as its send buffer. -/
  inPlace : Bool

/-- What the memory of all processes holds: for each rank, its elements to be
reduced, the receive buffer of the root if it is used for the result only, those
of the others, and the elements that come from nowhere. -/
structure Contents (Cell : Type) where
  input : Nat → Nat → Cell
  output : Nat → Cell
  unused : Nat → List Cell
  garbage : Nat → Nat → Cell
  recvGarbage : Nat → Nat → Cell

namespace Shape

variable {Cell : Type}
variable (shape : Shape) (check : LengthCheck) (uop : Cell → Cell → Cell)
variable (contents : Contents Cell)

/-- The call of one rank. -/
def call (rank : Nat) : Call Cell where
  check := check
  commSize := shape.commSize
  rank := rank
  root := shape.root
  inPlace := decide (rank = shape.root) && shape.inPlace
  sendbuf := tabulate shape.count (contents.input rank)
  recvbuf :=
    if rank = shape.root then
      tabulate shape.count (if shape.inPlace then contents.input rank else contents.output)
    else contents.unused rank
  count := shape.count
  typeSize := shape.typeSize
  kind := shape.kind
  uop := uop
  garbage := contents.garbage rank
  recvGarbage := contents.recvGarbage rank

/-- The programs of all ranks; there is nothing to run outside the
communicator. -/
def program (rank : Nat) : Prog Nat (List Cell) (List Cell) :=
  if rank < shape.commSize then (shape.call check uop contents rank).reduce
  else .done []

/-- An order of the ranks in which their elements may be combined. -/
def Allows (order : List Nat) : Prop :=
  if shape.kind.isCommutative then order.Perm (List.range shape.commSize)
  else order = List.range shape.commSize

/-- A value is the reduction of the elements at a position. -/
def IsReduction (column : Nat) (value : Cell) : Prop :=
  ∃ order, shape.Allows order ∧
    OrderedProduct.product uop (fun rank => contents.input rank column) order = some value

/-- A receive buffer holds the reductions of all elements. -/
def Reduced (recvbuf : List Cell) : Prop :=
  recvbuf.length = shape.count ∧ ∀ column < shape.count, ∃ value, recvbuf[column]? = some value ∧
      shape.IsReduction uop contents column value

end Shape

open Masks Halving

/-- The even ranks of the pairs take part. -/
def Shape.folding (shape : Shape) : Folding where
  commSize := shape.commSize
  odd := false

namespace Shape

variable (shape : Shape)

/-- The root does not take part in the reduce-scatter. -/
def Excluded : Prop :=
  shape.root < 2 * shape.folding.extra ∧ shape.root % 2 ≠ 0

instance : Decidable shape.Excluded :=
  inferInstanceAs (Decidable (_ ∧ _))

/-- A rank takes part in the gather. -/
def Gathers (rank : Nat) : Prop :=
  if shape.Excluded then
    rank = shape.root ∨ (shape.folding.Active rank ∧ rank ≠ 0)
  else shape.folding.Active rank

instance : DecidablePred shape.Gathers :=
  fun _ => inferInstanceAs (Decidable (ite _ _ _))

/-- The role of a rank in the gather. -/
def role (rank : Nat) : Nat :=
  if rank = shape.root ∧ shape.Excluded then 0 else shape.folding.newRank rank

/-- The rank with a role in the gather. -/
def player (newrank : Nat) : Nat :=
  if newrank = 0 ∧ shape.Excluded then shape.root
  else shape.folding.oldRank newrank

/-- The role of the root. -/
def newroot : Nat :=
  shape.role shape.root

variable {shape}

theorem nonempty : 0 < shape.commSize :=
  Nat.zero_lt_of_lt shape.root_lt

variable {rank : Nat}

/-- The ranks that hand their data to the rank before. -/
theorem passive_iff
    (inComm : rank < shape.commSize) :
    ¬ shape.folding.Active rank ↔ rank < 2 * shape.folding.extra ∧ rank % 2 ≠ 0 := by
  change ¬ (rank < shape.commSize ∧ (rank < 2 * shape.folding.extra → rank % 2 = 0)) ↔ _
  omega

theorem excluded_iff : shape.Excluded ↔ ¬ shape.folding.Active shape.root :=
  (passive_iff shape.root_lt).symm

theorem newRank_zero : shape.folding.newRank 0 = 0 := by
  unfold Folding.newRank
  split <;> omega

/-- The rank 0 takes part in the reduce-scatter. -/
theorem active_zero : shape.folding.Active 0 :=
  ⟨nonempty, fun _ => rfl⟩

theorem newRank_eq_zero_iff
    (active : shape.folding.Active rank) :
    shape.folding.newRank rank = 0 ↔ rank = 0 := by
  constructor
  · intro first
    rw [← Folding.oldRank_newRank active, first, ← @newRank_zero shape,
      Folding.oldRank_newRank active_zero, newRank_zero]
  · rintro rfl
    exact newRank_zero

variable {newrank : Nat}

variable (within : newrank < 2 ^ shape.folding.levels)

include within in
theorem gathers_player :
    shape.Gathers (shape.player newrank) := by
  have active := Folding.active_oldRank nonempty within
  unfold Gathers player
  by_cases excluded : shape.Excluded
  · rw [if_pos excluded]
    by_cases first : newrank = 0
    · rw [if_pos ⟨first, excluded⟩]
      exact .inl rfl
    · rw [if_neg fun both => first both.1]
      refine .inr ⟨active, fun zero => first ?_⟩
      have back := @Folding.newRank_oldRank shape.folding newrank
      rw [zero, newRank_zero] at back
      exact back.symm
  · rw [if_neg excluded, if_neg fun both => excluded both.2]
    exact active

include within in
theorem role_player :
    shape.role (shape.player newrank) = newrank := by
  have active := Folding.active_oldRank nonempty within
  unfold role player
  by_cases first : newrank = 0 ∧ shape.Excluded
  · rw [if_pos first, if_pos ⟨rfl, first.2⟩, first.1]
  · rw [if_neg first, if_neg, Folding.newRank_oldRank]
    rintro ⟨isRoot, excluded⟩
    rw [isRoot] at active
    exact excluded_iff.mp excluded active

theorem player_role
    (gathers : shape.Gathers rank) :
    shape.player (shape.role rank) = rank := by
  unfold Gathers at gathers
  unfold role player
  by_cases excluded : shape.Excluded
  · simp only [excluded, and_true, if_true] at gathers ⊢
    by_cases isRoot : rank = shape.root
    · rw [if_pos isRoot, if_pos rfl, isRoot]
    · obtain ⟨active, notFirst⟩ := gathers.resolve_left isRoot
      rw [if_neg isRoot, if_neg (mt (newRank_eq_zero_iff active).mp notFirst),
        Folding.oldRank_newRank active]
  · simp only [excluded, and_false, if_false] at gathers ⊢
    exact Folding.oldRank_newRank gathers

theorem role_lt
    (inComm : rank < shape.commSize) :
    shape.role rank < 2 ^ shape.folding.levels := by
  unfold role
  split
  · exact Nat.two_pow_pos _
  · exact Folding.newRank_lt inComm

theorem Gathers.lt
    (gathers : shape.Gathers rank) :
    rank < shape.commSize := by
  unfold Gathers at gathers
  split at gathers
  · rcases gathers with rfl | ⟨active, -⟩
    · exact shape.root_lt
    · exact active.1
  · exact gathers.1

theorem gathers_root : shape.Gathers shape.root := by
  unfold Gathers
  split
  · exact .inl rfl
  · rename_i notExcluded
    exact not_not.mp (mt excluded_iff.mpr notExcluded)

variable (shape) in
/-- A role has the part of the tree with the root after a round. -/
def Near (round newrank : Nat) : Prop :=
  blockStart newrank round = blockStart shape.newroot round

instance (round newrank : Nat) : Decidable (shape.Near round newrank) :=
  inferInstanceAs (Decidable (_ = _))

include within in
theorem near_levels :
    shape.Near shape.folding.levels newrank := by
  unfold Near newroot
  rw [blockStart_of_lt within, blockStart_of_lt (role_lt shape.root_lt)]

theorem near_newroot (round : Nat) : shape.Near round shape.newroot :=
  rfl

/-- One of two partners stays near the root, and the other does not. -/
theorem near_partner_iff
    {round : Nat}
    (near : shape.Near (round + 1) newrank) :
    shape.Near round (newrank ^^^ 2 ^ round) ↔ ¬ shape.Near round newrank := by
  have positive := Nat.two_pow_pos round
  have own := blockStart_halves newrank round
  have roots := blockStart_halves shape.newroot round
  unfold Near at near ⊢
  omega

theorem near_succ
    {round : Nat}
    (near : shape.Near round newrank) :
    shape.Near (round + 1) newrank := by
  -- The larger block begins at a multiple of its size, so that it is determined.
  unfold Near blockStart at near ⊢
  have same := Nat.eq_of_mul_eq_mul_right (Nat.two_pow_pos round) near
  rw [pow_succ, ← Nat.div_div_eq_div_mul, ← Nat.div_div_eq_div_mul, same]

theorem near_of_le
    {round later : Nat}
    (order : round ≤ later)
    (near : shape.Near round newrank) :
    shape.Near later newrank := by
  induction order with
  | refl => exact near
  | step _ ih => exact near_succ ih

variable {Msg : Type}

variable (shape) in
/-- The communications of a rank in a round of the gather. -/
def gatherRound
    (msg : Nat → Nat → Msg)
    (rank round : Nat) : Round Nat Msg where
  sends := messageIf
    (shape.Gathers rank ∧ shape.Near round (shape.role rank ^^^ 2 ^ round))
    (shape.player (shape.role rank ^^^ 2 ^ round)) (msg round (shape.role rank))
  recvs := messageIf
    (shape.Gathers rank ∧ shape.Near round (shape.role rank))
    (shape.player (shape.role rank ^^^ 2 ^ round))
    (msg round (shape.role rank ^^^ 2 ^ round))

section

variable {rank round : Nat} {msg : Nat → Nat → Msg}

theorem gatherRound_agrees
    (within : round < shape.folding.levels)
    (msg : Nat → Nat → Msg)
    (src dst : Nat) :
    Round.withRank dst (shape.gatherRound msg src round).sends =
      Round.withRank src (shape.gatherRound msg dst round).recvs := by
  have partner : ∀ rank, shape.Gathers rank →
      shape.role rank ^^^ 2 ^ round < 2 ^ shape.folding.levels :=
    fun rank gathers => xor_mask_lt (role_lt gathers.lt) within
  apply withRank_messageIf_eq
  · constructor
    · rintro ⟨⟨gathers, near⟩, rfl⟩
      rw [role_player (partner src gathers), xor_mask_xor_mask, player_role gathers]
      exact ⟨⟨gathers_player (partner src gathers), near⟩, rfl⟩
    · rintro ⟨⟨gathers, near⟩, rfl⟩
      rw [role_player (partner dst gathers), xor_mask_xor_mask, player_role gathers]
      exact ⟨⟨gathers_player (partner dst gathers), near⟩, rfl⟩
  · rintro ⟨gathers, -⟩ rfl
    rw [role_player (partner src gathers), xor_mask_xor_mask]

theorem gatherRound_of_not
    (notGathers : ¬ shape.Gathers rank)
    (msg : Nat → Nat → Msg)
    (round : Nat) :
    shape.gatherRound msg rank round = .idle :=
  congrArg₂ Round.mk
    (messageIf_of_not (fun both => notGathers both.1) _ _)
    (messageIf_of_not (fun both => notGathers both.1) _ _)

theorem ops_gatherRound_receiver
    (gathers : shape.Gathers rank)
    (near : shape.Near round (shape.role rank)) :
    (shape.gatherRound msg rank round).ops = [.recv (shape.player (shape.role rank ^^^ 2 ^ round))
        (msg round (shape.role rank ^^^ 2 ^ round))] := by
  have away := mt (near_partner_iff (near_succ near)).mp (not_not.mpr near)
  unfold gatherRound
  rw [messageIf_of_not fun sends => away sends.2, messageIf_of ⟨gathers, near⟩]
  rfl

theorem ops_gatherRound_sender
    (gathers : shape.Gathers rank)
    (here : shape.Near (round + 1) (shape.role rank))
    (away : ¬ shape.Near round (shape.role rank)) :
    (shape.gatherRound msg rank round).ops =
      [.send (shape.player (shape.role rank ^^^ 2 ^ round)) (msg round (shape.role rank))] := by
  unfold gatherRound
  rw [messageIf_of ⟨gathers, (near_partner_iff here).mpr away⟩,
    messageIf_of_not fun receives => away receives.2]
  rfl

/-- A rank that is away from the root has nothing more to do. -/
theorem ops_gatherRound_of_away
    {later : Nat}
    (away : ¬ shape.Near later (shape.role rank))
    (order : round < later) :
    (shape.gatherRound msg rank round).ops = [] := by
  have partnerAway : ¬ shape.Near round (shape.role rank ^^^ 2 ^ round) := by
    intro near
    have both := near_of_le order (near_succ near)
    unfold Near at both away
    rw [blockStart_xor_mask_of_lt order] at both
    exact away both
  unfold gatherRound
  rw [messageIf_of_not fun sends => partnerAway sends.2,
    messageIf_of_not fun receives => away (near_of_le order.le receives.2)]
  rfl

end

end Shape

end Mpich.Coll.Reduce
