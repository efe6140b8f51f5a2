import Mpich.Coll.ReduceScatter.Defs
import Mpich.Foundation.Butterfly
import Mpich.Foundation.Layout

/-!
# Folding ranks to a power of two

Where the number of processes is not a power of two, some of the lower ranks are
folded into pairs, of which only the even or only the odd ranks take part in what
follows. The ranks that take part are numbered anew.
-/

namespace Mpich.Coll

open MessagePassing Masks List

/-- Ranks that are folded into pairs. -/
structure Folding where
  commSize : Nat
  /-- The odd ranks of the pairs take part, not the even ones. -/
  odd : Bool

namespace Folding

variable (folding : Folding)

/-- The power of two of ranks that take part. -/
def levels : Nat :=
  Nat.log 2 folding.commSize

/-- The number of pairs. -/
def extra : Nat :=
  folding.commSize - 2 ^ folding.levels

/-- What a new rank maps to in the old ranking. -/
def oldRank (newrank : Nat) : Nat :=
  if newrank < folding.extra then newrank * 2 + folding.odd.toNat
  else newrank + folding.extra

/-- The rank that does not take part, of a pair. -/
def passiveRank (newrank : Nat) : Nat :=
  newrank * 2 + (1 - folding.odd.toNat)

/-- The other rank of a pair. -/
def pairRank (rank : Nat) : Nat :=
  if rank % 2 = 0 then rank + 1 else rank - 1

/-- The new rank of a rank that takes part. -/
def newRank (rank : Nat) : Nat :=
  if rank < 2 * folding.extra then rank / 2 else rank - folding.extra

/-- A rank takes part. -/
def Active (rank : Nat) : Prop :=
  rank < folding.commSize ∧ (rank < 2 * folding.extra → rank % 2 = folding.odd.toNat)

instance : DecidablePred folding.Active :=
  fun _ => inferInstanceAs (Decidable (_ ∧ (_ → _)))

/-- The ranks whose data a new rank starts with: the one that hands it over
first. -/
def members (newrank : Nat) : List Nat :=
  if newrank < folding.extra then
    [folding.passiveRank newrank, folding.oldRank newrank]
  else [folding.oldRank newrank]

/-- The first rank of a new rank. -/
def firstRank (newrank : Nat) : Nat :=
  if newrank < folding.extra then newrank * 2 else newrank + folding.extra

variable {folding}

variable (nonempty : 0 < folding.commSize)

include nonempty in
theorem pow_levels_le :
    2 ^ folding.levels ≤ folding.commSize :=
  Nat.pow_log_le_self 2 nonempty.ne'

theorem lt_pow_levels_succ : folding.commSize < 2 ^ (folding.levels + 1) :=
  Nat.lt_pow_succ_log_self one_lt_two _

include nonempty in
theorem commSize_eq :
    folding.commSize = 2 ^ folding.levels + folding.extra := by
  have := pow_levels_le nonempty
  unfold extra
  omega

theorem extra_lt : folding.extra < 2 ^ folding.levels := by
  have below := @lt_pow_levels_succ folding
  unfold extra
  omega

theorem odd_toNat_le : folding.odd.toNat ≤ 1 :=
  Bool.toNat_le _

variable {rank : Nat}

theorem newRank_lt
    (inComm : rank < folding.commSize) :
    folding.newRank rank < 2 ^ folding.levels := by
  have size := commSize_eq (Nat.zero_lt_of_lt inComm)
  have few := @extra_lt folding
  unfold newRank
  split <;> omega

variable (active : folding.Active rank)

include active in
theorem oldRank_newRank :
    folding.oldRank (folding.newRank rank) = rank := by
  have parity := active.2
  unfold newRank oldRank
  by_cases folded : rank < 2 * folding.extra
  · have := parity folded
    rw [if_pos folded, if_pos (by omega)]
    omega
  · rw [if_neg folded, if_neg (by omega)]
    omega

theorem newRank_oldRank (newrank : Nat) :
    folding.newRank (folding.oldRank newrank) = newrank := by
  have bit := @odd_toNat_le folding
  unfold newRank oldRank
  by_cases folded : newrank < folding.extra
  · rw [if_pos folded, if_pos (by omega)]
    omega
  · rw [if_neg folded, if_neg (by omega)]
    omega

variable {newrank : Nat}

include nonempty in
theorem active_oldRank
    (within : newrank < 2 ^ folding.levels) :
    folding.Active (folding.oldRank newrank) := by
  have size := commSize_eq nonempty
  have bit := @odd_toNat_le folding
  unfold Active oldRank
  by_cases folded : newrank < folding.extra
  · rw [if_pos folded]
    omega
  · rw [if_neg folded]
    omega

/-- New ranks are in the order of the old ones. -/
theorem oldRank_lt_iff {other : Nat} :
    folding.oldRank newrank < folding.oldRank other ↔ newrank < other := by
  have bit := @odd_toNat_le folding
  unfold oldRank
  split <;> split <;> omega

/-- The ranks of a new rank, in one order or the other. -/
theorem members_perm (newrank : Nat) :
    (folding.members newrank).Perm
      (range' (folding.firstRank newrank) (if newrank < folding.extra then 2 else 1)) := by
  unfold members firstRank passiveRank oldRank
  by_cases folded : newrank < folding.extra
  · rw [if_pos folded, if_pos folded, if_pos folded, if_pos folded]
    cases folding.odd with
    | true => exact List.Perm.refl _
    | false => exact List.Perm.swap _ _ _
  · rw [if_neg folded, if_neg folded, if_neg folded, if_neg folded]
    exact List.Perm.refl _

/-- If the odd ranks take part, the ranks of a new rank are in order. -/
theorem members_eq
    (odd : folding.odd = true)
    (newrank : Nat) :
    folding.members newrank = range' (folding.firstRank newrank)
      (if newrank < folding.extra then 2 else 1) := by
  unfold members firstRank passiveRank oldRank
  rw [odd]
  by_cases folded : newrank < folding.extra
  · rw [if_pos folded, if_pos folded, if_pos folded, if_pos folded]
    rfl
  · rw [if_neg folded, if_neg folded, if_neg folded, if_neg folded]
    rfl

/-- The ranks of a new rank end where those of the next begin. -/
theorem firstRank_succ (newrank : Nat) :
    folding.firstRank (newrank + 1) =
      folding.firstRank newrank + if newrank < folding.extra then 2 else 1 := by
  unfold firstRank
  split <;> split <;> omega

include nonempty in
theorem firstRank_pow :
    folding.firstRank (2 ^ folding.levels) = folding.commSize := by
  have few := @extra_lt folding
  rw [firstRank, if_neg few.not_gt, ← commSize_eq nonempty]

theorem flatMap_range'_firstRank (count : Nat) :
    ((List.range count).flatMap fun newrank =>
        range' (folding.firstRank newrank) (if newrank < folding.extra then 2 else 1)) =
      List.range (folding.firstRank count) := by
  induction count with
  | zero =>
    unfold firstRank
    split
    · rfl
    · rw [show folding.extra = 0 by omega]
      rfl
  | succ count ih =>
    rw [range_succ, flatMap_append, ih,
      flatMap_singleton, firstRank_succ, range_eq_range', range_eq_range']
    have append := @range'_append_1 0 (folding.firstRank count)
      (if count < folding.extra then 2 else 1)
    rw [zero_add] at append
    exact append

include nonempty in
/-- The ranks of all new ranks are all ranks. -/
theorem flatMap_members_perm :
    ((List.range (2 ^ folding.levels)).flatMap folding.members).Perm
      (List.range folding.commSize) := by
  rw [← firstRank_pow nonempty, ← flatMap_range'_firstRank]
  exact List.Perm.flatMap_left _ fun newrank _ => members_perm newrank

include nonempty in
theorem flatMap_members_eq
    (odd : folding.odd = true) :
    (List.range (2 ^ folding.levels)).flatMap folding.members = List.range folding.commSize := by
  rw [← firstRank_pow nonempty, ← flatMap_range'_firstRank]
  apply congrArg (flatMap · _)
  funext newrank
  exact members_eq odd newrank

section

variable {Cell : Type} {uop : Cell → Cell → Cell} {input : Nat → Nat → Cell}

variable (folding uop input) in
/-- The data of a new rank, where that of the rank which hands it over comes
first. -/
def foldedAt (newrank column : Nat) : Cell :=
  if newrank < folding.extra then
    uop (input (folding.passiveRank newrank) column) (input (folding.oldRank newrank) column)
  else input (folding.oldRank newrank) column

/-- An active rank of a pair starts with the data of both. -/
theorem foldedAt_newRank_of_lt
    (active : folding.Active rank)
    (folded : rank < 2 * folding.extra)
    (column : Nat) :
    folding.foldedAt uop input (folding.newRank rank) column =
      uop (input (pairRank rank) column) (input rank column) := by
  have parity := active.2 folded
  have newRank : folding.newRank rank = rank / 2 := if_pos folded
  have passive : folding.passiveRank (folding.newRank rank) = pairRank rank := by
    unfold passiveRank pairRank
    split <;> omega
  rw [foldedAt, if_pos (by omega), passive, oldRank_newRank active]

/-- Another active rank starts with its own data. -/
theorem foldedAt_newRank_of_not
    (active : folding.Active rank)
    (notFolded : ¬ rank < 2 * folding.extra)
    (column : Nat) :
    folding.foldedAt uop input (folding.newRank rank) column = input rank column := by
  have newRank : folding.newRank rank = rank - folding.extra := if_neg notFolded
  rw [foldedAt, if_neg (by omega), oldRank_newRank active]

theorem product_foldedAt (newrank column : Nat) :
    OrderedProduct.product uop (fun rank => input rank column) (folding.members newrank) =
      some (folding.foldedAt uop input newrank column) := by
  unfold members foldedAt
  by_cases folded : newrank < folding.extra
  · rw [if_pos folded, if_pos folded]
    rfl
  · rw [if_neg folded, if_neg folded]
    rfl

variable {first : Nat → Nat → Prop}
variable [∀ round number, Decidable (first round number)]

/-- After all rounds of a butterfly, the data of all ranks is combined. -/
theorem exists_order
    (associative : ∀ a b c, uop (uop a b) c = uop a (uop b c))
    (nonempty : 0 < folding.commSize)
    (within : newrank < 2 ^ folding.levels)
    (column : Nat) :
    ∃ order, order.Perm (List.range folding.commSize) ∧
      OrderedProduct.product uop (fun rank => input rank column) order =
        some (Butterfly.valueAt uop first
          (fun newrank => folding.foldedAt uop input newrank column)
          folding.levels newrank) := by
  have all := @Butterfly.groupAt_perm first _ folding.levels newrank
  rw [blockStart_of_lt within, ← range_eq_range'] at all
  exact ⟨_, (all.flatMap_right _).trans (flatMap_members_perm nonempty),
    Butterfly.product_valueAt associative (fun newrank => product_foldedAt newrank column) _ _⟩

/-- If lower ranks always come first, it is combined in order. -/
theorem product_range
    (associative : ∀ a b c, uop (uop a b) c = uop a (uop b c))
    (inOrder : ∀ round number, first round number ↔ BitSet number round)
    (odd : folding.odd = true)
    (nonempty : 0 < folding.commSize)
    (within : newrank < 2 ^ folding.levels)
    (column : Nat) :
    OrderedProduct.product uop (fun rank => input rank column) (List.range folding.commSize) =
      some (Butterfly.valueAt uop first
        (fun newrank => folding.foldedAt uop input newrank column)
        folding.levels newrank) := by
  have all := Butterfly.groupAt_eq_range' inOrder folding.levels newrank
  rw [blockStart_of_lt within, ← range_eq_range'] at all
  rw [← flatMap_members_eq nonempty odd, ← all]
  exact Butterfly.product_valueAt associative (fun newrank => product_foldedAt newrank column) _ _

end

/-- `while (pof2 <= comm_size) pof2 <<= 1; pof2 >>= 1;` -/
def nearestPof2 (commSize : Nat) : Nat :=
  ReduceScatter.exceedingPof2 commSize commSize 1 >>> 1

variable {round : Nat}

include nonempty in
theorem exceedingPof2_eq
    (fuel : Nat)
    (within : round ≤ folding.levels + 1)
    (enough : folding.levels + 1 ≤ round + fuel) :
    ReduceScatter.exceedingPof2 folding.commSize fuel (2 ^ round) = 2 ^ (folding.levels + 1) := by
  induction fuel generalizing round with
  | zero =>
    rw [ReduceScatter.exceedingPof2, show round = folding.levels + 1 by omega]
  | succ fuel ih =>
    rw [ReduceScatter.exceedingPof2]
    by_cases small : 2 ^ round ≤ folding.commSize
    · have below := small.trans_lt lt_pow_levels_succ
      rw [Nat.pow_lt_pow_iff_right one_lt_two] at below
      rw [if_pos small, Nat.shiftLeft_eq, Nat.pow_one, ← pow_succ]
      exact ih below (by omega)
    · rw [if_neg small]
      have last : ¬ round ≤ folding.levels := fun lower =>
        small ((Nat.pow_le_pow_right two_pos lower).trans (pow_levels_le nonempty))
      rw [show round = folding.levels + 1 by omega]

include nonempty in
theorem nearestPof2_eq :
    nearestPof2 folding.commSize = 2 ^ folding.levels := by
  have enough : folding.levels + 1 ≤ 0 + folding.commSize := by
    have small := @Nat.lt_two_pow_self folding.levels
    have := pow_levels_le nonempty
    omega
  unfold nearestPof2
  rw [← Nat.pow_zero 2, exceedingPof2_eq nonempty _ (Nat.zero_le _) enough,
    Nat.shiftRight_eq_div_pow, Nat.pow_one, pow_succ, Nat.mul_div_cancel _ two_pos]

variable {Msg : Type}

variable (folding) in
/-- In each pair, the even or the odd rank sends a message to the other. -/
def pairRound (oddSends : Bool) (msg : Nat → Msg) (rank : Nat) : Round Nat Msg where
  sends := messageIf (rank < 2 * folding.extra ∧ rank % 2 = oddSends.toNat)
    (pairRank rank) (msg rank)
  recvs := messageIf (rank < 2 * folding.extra ∧ rank % 2 ≠ oddSends.toNat)
    (pairRank rank) (msg (pairRank rank))

theorem pairRound_agrees
    (oddSends : Bool)
    (msg : Nat → Msg)
    (src dst : Nat) :
    Round.withRank dst (folding.pairRound oddSends msg src).sends =
      Round.withRank src (folding.pairRound oddSends msg dst).recvs := by
  have bit := Bool.toNat_le oddSends
  apply withRank_messageIf_eq
  · unfold pairRank
    constructor
    · rintro ⟨⟨folded, parity⟩, target⟩
      split at target <;> split <;> omega
    · rintro ⟨⟨folded, parity⟩, source⟩
      split at source <;> split <;> omega
  · rintro ⟨folded, parity⟩ target
    apply congrArg
    unfold pairRank at target ⊢
    split at target <;> split <;> omega

theorem pairRound_of_not
    (outside : ¬ rank < folding.commSize)
    (oddSends : Bool)
    (msg : Nat → Msg) :
    folding.pairRound oddSends msg rank = .idle := by
  have few := @extra_lt folding
  have few : ¬ rank < 2 * folding.extra := by
    rcases Nat.eq_zero_or_pos folding.commSize with empty | nonempty
    · rw [extra, empty]
      omega
    · have := commSize_eq nonempty
      omega
  unfold pairRound
  rw [messageIf, messageIf, if_neg fun sends => few sends.1, if_neg fun receives => few receives.1]
  rfl

section

variable {rank : Nat} {oddSends : Bool}

theorem ops_pairRound_sender
    (folded : rank < 2 * folding.extra)
    (sends : rank % 2 = oddSends.toNat)
    (msg : Nat → Msg) :
    (folding.pairRound oddSends msg rank).ops = [.send (pairRank rank) (msg rank)] := by
  unfold pairRound
  rw [messageIf_of ⟨folded, sends⟩, messageIf_of_not fun receives => receives.2 sends]
  rfl

theorem ops_pairRound_receiver
    (folded : rank < 2 * folding.extra)
    (receives : rank % 2 ≠ oddSends.toNat)
    (msg : Nat → Msg) :
    (folding.pairRound oddSends msg rank).ops = [.recv (pairRank rank) (msg (pairRank rank))] := by
  unfold pairRound
  rw [messageIf_of_not fun sends => receives sends.2, messageIf_of ⟨folded, receives⟩]
  rfl

theorem ops_pairRound_of_not
    (notFolded : ¬ rank < 2 * folding.extra)
    (msg : Nat → Msg) :
    (folding.pairRound oddSends msg rank).ops = [] := by
  unfold pairRound
  rw [messageIf_of_not fun sends => notFolded sends.1,
    messageIf_of_not fun receives => notFolded receives.1]
  rfl

end

variable (folding) in
/-- The rank that an active rank exchanges messages with in a round. -/
def partner (round rank : Nat) : Nat :=
  folding.oldRank (folding.newRank rank ^^^ 2 ^ round)

variable (folding) in
/-- The active ranks exchange messages with their partners. -/
def partnerRound
    (msg : Nat → Nat → Msg)
    (rank round : Nat) : Round Nat Msg :=
  exchangeRound folding.Active (folding.partner round) (folding.partner round)
    (fun rank => msg round (folding.newRank rank)) rank

include active in
theorem active_partner
    (within : round < folding.levels) :
    folding.Active (folding.partner round rank) := by
  apply active_oldRank (Nat.zero_lt_of_lt active.1)
  exact xor_mask_lt (newRank_lt active.1) within

include active in
theorem partner_partner
    (round : Nat) :
    folding.partner round (folding.partner round rank) = rank := by
  unfold partner
  rw [newRank_oldRank, xor_mask_xor_mask, oldRank_newRank active]

theorem partnerRound_agrees
    (within : round < folding.levels)
    (msg : Nat → Nat → Msg)
    (src dst : Nat) :
    Round.withRank dst (folding.partnerRound msg src round).sends =
      Round.withRank src (folding.partnerRound msg dst round).recvs := by
  apply exchangeRound_agrees
  · intro rank active
    exact active_partner active within
  · intro rank active
    exact active_partner active within
  · intro src dst srcActive dstActive
    constructor
    · rintro rfl
      exact partner_partner srcActive round
    · rintro rfl
      exact partner_partner dstActive round

include active in
theorem ops_partnerRound
    (msg : Nat → Nat → Msg)
    (round : Nat) :
    (folding.partnerRound msg rank round).ops =
      [.send (folding.partner round rank) (msg round (folding.newRank rank)),
       .recv (folding.partner round rank) (msg round (folding.newRank rank ^^^ 2 ^ round))] := by
  have ops : (folding.partnerRound msg rank round).ops = _ := ops_exchangeRound active
  rw [ops, partner, newRank_oldRank]

end Mpich.Coll.Folding

/-!
## Reduce-scatter before a gather

The loops that `MPIR_Reduce` and `MPIR_Allreduce` use for long messages: a
reduce-scatter in which the masks grow, so that the blocks end up in bit-reversed
order, and the steps of the gather that undoes it.
-/

namespace Mpich.Coll

open MessagePassing

/-- The kind of an operation. -/
inductive OpKind
  | builtin
  | userCommute
  | userNoncommute
  deriving DecidableEq

/-- `is_commutative`. -/
def OpKind.isCommutative (kind : OpKind) : Prop :=
  kind ≠ .userNoncommute

instance (kind : OpKind) : Decidable kind.isCommutative :=
  inferInstanceAs (Decidable (_ ≠ _))

/-- The buffers of a reduction. -/
structure Temps (Cell : Type) where
  recvbuf : List Cell
  tmpBuf : List Cell

namespace Halving

/-- What a step of the loops sends and receives. -/
structure Transfer where
  sendIdx : Nat
  sendCnt : Nat
  recvIdx : Nat
  recvCnt : Nat
  lastIdx : Nat

/-- The variables after the reduce-scatter. -/
structure Scattered (Cell : Type) where
  mask : Nat
  sendIdx : Nat
  lastIdx : Nat
  temps : Temps Cell

/-- One process of the loops. -/
structure Core (Cell : Type) where
  /-- What its receives demand of a message. -/
  check : LengthCheck
  pof2 : Nat
  newrank : Nat
  /-- The real rank of a new rank. -/
  dst : Nat → Nat
  count : Nat
  uop : Cell → Cell → Cell

namespace Core

variable {Cell : Type} (core : Core Cell)

def cnts (i : Nat) : Nat :=
  if i < core.pof2 - 1 then core.count / core.pof2
  else core.count - core.count / core.pof2 * (core.pof2 - 1)

def disps (i : Nat) : Nat :=
  prefixSum core.cnts i

/-- The elements of the blocks from one to another. -/
def sumCnts (first last : Nat) : Nat :=
  ∑ i ∈ Finset.Ico first last, core.cnts i

/-- What a step of the reduce-scatter sends and receives. -/
def halvingTransfer (mask sendIdx recvIdx lastIdx : Nat) : Transfer :=
  if core.newrank < core.newrank ^^^ mask then
    let sendIdx := recvIdx + core.pof2 / (mask * 2)
    { sendIdx, sendCnt := core.sumCnts sendIdx lastIdx
      recvIdx, recvCnt := core.sumCnts recvIdx sendIdx, lastIdx }
  else
    let recvIdx := sendIdx + core.pof2 / (mask * 2)
    { sendIdx, sendCnt := core.sumCnts sendIdx recvIdx
      recvIdx, recvCnt := core.sumCnts recvIdx lastIdx, lastIdx }

/-- What a step of the gather sends or receives, or both. -/
def gatherTransfer (mask sendIdx lastIdx : Nat) : Transfer :=
  if core.newrank < core.newrank ^^^ mask then
    let lastIdx :=
      if mask ≠ core.pof2 / 2 then lastIdx + core.pof2 / (mask * 2) else lastIdx
    let recvIdx := sendIdx + core.pof2 / (mask * 2)
    { sendIdx, sendCnt := core.sumCnts sendIdx recvIdx
      recvIdx, recvCnt := core.sumCnts recvIdx lastIdx, lastIdx }
  else
    let recvIdx := sendIdx - core.pof2 / (mask * 2)
    { sendIdx, sendCnt := core.sumCnts sendIdx lastIdx
      recvIdx, recvCnt := core.sumCnts recvIdx sendIdx, lastIdx }

/-- `if (newrank > newdst) send_idx = recv_idx;` -/
def nextSendIdx (mask : Nat) (transfer : Transfer) : Nat :=
  if core.newrank ^^^ mask < core.newrank then transfer.recvIdx
  else transfer.sendIdx

/-- Send the elements of `recvbuf` that a step sends. -/
def sendBlocks
    (dst : Nat)
    (transfer : Transfer)
    (recvbuf : List Cell) : Prog Nat (List Cell) Unit := do
  let msg ← Prog.ofOption
    (Buffer.load recvbuf (core.disps transfer.sendIdx) transfer.sendCnt)
  mpicSend dst msg

/-- Receive the elements that a step receives into `recvbuf`. -/
def recvBlocks
    (src : Nat)
    (transfer : Transfer)
    (recvbuf : List Cell) : Prog Nat (List Cell) (List Cell) := do
  let msg ← core.check.recv src transfer.recvCnt
  Prog.ofOption (Buffer.store recvbuf (core.disps transfer.recvIdx) msg)

/-- Receive elements into `tmp_buf` and combine them with those in `recvbuf`. -/
def reduceBlocks
    (src : Nat)
    (transfer : Transfer)
    (temps : Temps Cell) : Prog Nat (List Cell) (Temps Cell) := do
  let tmpBuf ← core.recvBlocks src transfer temps.tmpBuf
  let recvbuf ← Prog.ofOption
    (applyOp core.uop tmpBuf (core.disps transfer.recvIdx)
      temps.recvbuf (core.disps transfer.recvIdx) transfer.recvCnt)
  pure { recvbuf, tmpBuf }

/-- The loop of the reduce-scatter. -/
def halvingLoop : Nat → Nat → Nat → Nat → Nat → Temps Cell → Prog Nat (List Cell) (Scattered Cell)
  | 0, mask, sendIdx, _, lastIdx, temps =>
    if mask < core.pof2 then .fail else pure { mask, sendIdx, lastIdx, temps }
  | fuel + 1, mask, sendIdx, recvIdx, lastIdx, temps =>
    if mask < core.pof2 then do
      let dst := core.dst (core.newrank ^^^ mask)
      let transfer := core.halvingTransfer mask sendIdx recvIdx lastIdx
      core.sendBlocks dst transfer temps.recvbuf
      let temps ← core.reduceBlocks dst transfer temps
      let lastIdx :=
        if mask <<< 1 < core.pof2 then
          transfer.recvIdx + core.pof2 / (mask <<< 1)
        else lastIdx
      halvingLoop fuel (mask <<< 1) transfer.recvIdx transfer.recvIdx lastIdx temps
    else pure { mask, sendIdx, lastIdx, temps }

end Core

end Mpich.Coll.Halving
