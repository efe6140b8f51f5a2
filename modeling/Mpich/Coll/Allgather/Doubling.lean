import Mpich.Coll.Allgather.Defs
import Mpich.Foundation.MessagePassing.Schedule

/-!
# Recursive doubling

Before the exchange of a level, each process has the data of the ranks in its
aligned block of that level, in the buffer in which the data of all ranks lies
one behind the other.
-/

namespace Mpich.Coll.Allgather

open MessagePassing Masks List Buffer

variable {Cell : Type}

/-- The data of all ranks, one behind the other. -/
def joined
    (commSize : Nat)
    (size : Nat → Nat)
    (block : Nat → Nat → Cell) : Nat → Cell :=
  (Layout.consecutive commSize size).fill block fun _ => block 0 0

variable {commSize : Nat}

theorem slice_eq_joined
    {first count : Nat}
    (within : first + count ≤ commSize)
    (size : Nat → Nat)
    (block : Nat → Nat → Cell)
    (rest : Nat → Cell) :
    slice ((Layout.consecutive commSize size).fill block rest)
        (prefixSum size first) (span size first count) =
      slice (joined commSize size block) (prefixSum size first) (span size first count) := by
  have bound := @prefixSum_mono size _ _ within
  have whole := prefixSum_add_span size first count
  apply slice_congr
  intro index inside
  obtain ⟨number, inCount, offset, inBlock, here⟩ :=
    @exists_block_of_lt size (prefixSum size first + index) commSize (by omega)
  rw [here, joined, Layout.fill_consecutive inCount inBlock,
    Layout.fill_consecutive inCount inBlock]

/-- Offsets and counts in elements describe the data of all ranks in bytes. -/
structure Measures
    (process : Process)
    (size offset room : Nat → Nat) : Prop where
  offset_eq : ∀ root ≤ process.commSize, offset root * process.typeSize = prefixSum size root
  room_le : ∀ root < process.commSize,
    span size root (process.commSize - root) ≤ room root * process.typeSize

/-- The number of elements of a message makes up its length. -/
theorem Measures.getCount
    {process : Process} {size offset room : Nat → Nat}
    (measures : Measures process size offset room)
    {first count : Nat}
    (within : first + count ≤ process.commSize)
    {msg : List Cell}
    (length : msg.length = span size first count) :
    process.getCount msg * process.typeSize = span size first count := by
  have elements : span size first count =
      (offset (first + count) - offset first) * process.typeSize := by
    rw [Nat.sub_mul, measures.offset_eq _ within, measures.offset_eq first (by omega)]
    rfl
  unfold Process.getCount
  rw [length]
  apply Nat.div_mul_cancel
  rw [elements]
  exact Nat.dvd_mul_left _ _

/-- The data of the ranks of an aligned block. -/
def blockData
    (commSize : Nat)
    (size : Nat → Nat)
    (block : Nat → Nat → Cell)
    (level rank : Nat) : List Cell :=
  slice (joined commSize size block)
    (prefixSum size (blockStart rank level))
    (span size (blockStart rank level) (2 ^ level))

/-- The communications of a rank at a level. -/
def doublingRound
    (commSize : Nat)
    (size : Nat → Nat)
    (block : Nat → Nat → Cell)
    (rank level : Nat) : Round Nat (List Cell) :=
  exchangeRound (· < commSize) (· ^^^ 2 ^ level) (· ^^^ 2 ^ level)
    (blockData commSize size block level) rank

/-- The number of levels. -/
def levels (commSize : Nat) : Nat :=
  Nat.clog 2 commSize

variable {level : Nat}

theorem lt_levels_iff :
    level < levels commSize ↔ 2 ^ level < commSize :=
  Nat.lt_clog_iff_pow_lt one_lt_two

theorem levels_le (commSize : Nat) : levels commSize ≤ commSize :=
  Nat.clog_le_of_le_pow Nat.lt_two_pow_self.le

theorem partner_lt
    {rank : Nat}
    (pof2 : CommSizeIsPof2 commSize)
    (inComm : rank < commSize)
    (within : level < levels commSize) :
    rank ^^^ 2 ^ level < commSize := by
  have size : commSize = 2 ^ levels commSize := pof2.eq_two_pow
  rw [size] at inComm ⊢
  exact xor_mask_lt inComm within

/-- The aligned block of a rank lies within the communicator. -/
theorem block_within
    {rank : Nat}
    (pof2 : CommSizeIsPof2 commSize)
    (inComm : rank < commSize)
    (within : level ≤ levels commSize) :
    blockStart rank level + 2 ^ level ≤ commSize := by
  have size : commSize = 2 ^ levels commSize := pof2.eq_two_pow
  rw [size] at inComm ⊢
  exact blockStart_add_le inComm within

theorem doublingRound_agrees
    (pof2 : CommSizeIsPof2 commSize)
    (size : Nat → Nat)
    (block : Nat → Nat → Cell) :
    ScheduleAgrees (doublingRound commSize size block) (List.range (levels commSize)) := by
  intro level member src dst
  have within := mem_range.mp member
  apply exchangeRound_agrees
  · intro rank inComm
    exact partner_lt pof2 inComm within
  · intro rank inComm
    exact partner_lt pof2 inComm within
  · intro src dst _ _
    constructor
    · rintro rfl
      exact xor_mask_xor_mask _ _
    · rintro rfl
      exact xor_mask_xor_mask _ _

/-- What a process has before the exchange of a level. -/
structure Doubled
    (process : Process)
    (size : Nat → Nat)
    (length : Nat)
    (goal : Nat → Cell)
    (level : Nat)
    (node : Node Cell) : Prop where
  currCnt : node.currCnt * process.typeSize = span size (blockStart process.rank level) (2 ^ level)
  knows : Knows length goal
    (fun index => prefixSum size process.commSize ≤ index ∨
      InRange (prefixSum size (blockStart process.rank level))
        (span size (blockStart process.rank level) (2 ^ level)) index) node.buf

section

variable {process : Process} {size offset room : Nat → Nat}
variable {block : Nat → Nat → Cell} {rest : Nat → Cell} {length : Nat}
variable (pof2 : CommSizeIsPof2 process.commSize)
variable (inComm : process.rank < process.commSize)
variable (measures : Measures process size offset room)
variable (fits : prefixSum size process.commSize ≤ length)

include pof2 inComm measures fits

theorem Doubled.exchange
    {node : Node Cell}
    (within : level < levels process.commSize)
    (here : Doubled process size length
      ((Layout.consecutive process.commSize size).fill block rest) level node) :
    (process.exchangeTrees offset room (process.rank ^^^ 2 ^ level)
        (blockStart (process.rank ^^^ 2 ^ level) level)
        (blockStart process.rank level) node).Yields
      (doublingRound process.commSize size block process.rank level).ops
      (Doubled process size length
        ((Layout.consecutive process.commSize size).fill block rest)
        (level + 1)) := by
  have dstIn := partner_lt pof2 inComm within
  have positive := Nat.two_pow_pos level
  have mine := block_within pof2 inComm within.le
  have other := block_within pof2 dstIn within.le
  have mineEnd := prefixSum_add_span size (blockStart process.rank level) (2 ^ level)
  have otherEnd := prefixSum_add_span size
    (blockStart (process.rank ^^^ 2 ^ level) level) (2 ^ level)
  have mineBound := @prefixSum_mono size _ _ mine
  have otherBound := @prefixSum_mono size _ _ other
  have loaded : loadAny node.buf
      (offset (blockStart process.rank level) * process.typeSize)
      (node.currCnt * process.typeSize) =
        some (blockData process.commSize size block level process.rank) := by
    rw [here.currCnt, measures.offset_eq _ (by omega), blockData,
      ← @slice_eq_joined _ _ _ _ mine size block rest]
    exact here.knows.loadAny (fun _ => by omega) fun _ inRange => Or.inr inRange
  obtain ⟨written, stored, knows⟩ := @Knows.storeAny _ _ _ _ _ here.knows
    (prefixSum size (blockStart (process.rank ^^^ 2 ^ level) level))
    (span size (blockStart (process.rank ^^^ 2 ^ level) level) (2 ^ level))
    (fun _ => by omega)
  have length : (blockData process.commSize size block level
      (process.rank ^^^ 2 ^ level)).length =
        span size (blockStart (process.rank ^^^ 2 ^ level) level) (2 ^ level) :=
    length_slice _ _ _
  have accepted : (blockData process.commSize size block level
      (process.rank ^^^ 2 ^ level)).length ≤
        room (blockStart (process.rank ^^^ 2 ^ level) level) * process.typeSize := by
    rw [length]
    exact (span_mono (by omega)).trans (measures.room_le _ (by omega))
  have received := @Process.ends_recvElements _ process
    (process.rank ^^^ 2 ^ level)
    (offset (blockStart (process.rank ^^^ 2 ^ level) level)) _ node.buf _ written
    accepted (by
      rw [measures.offset_eq _ (by omega), blockData,
        ← @slice_eq_joined _ _ _ _ other size block rest]
      exact stored)
  have ops : (doublingRound process.commSize size block process.rank level).ops =
    _ := ops_exchangeRound inComm
  unfold Process.exchangeTrees Process.recvTree
  rw [if_pos dstIn, ops]
  refine (Process.ends_sendElements loaded).bind_yields (received.bind_yields ?_)
  apply Prog.yields_pure
  -- The two blocks are the halves of the block of the next level.
  rcases blockStart_halves process.rank level with
    ⟨first, second⟩ | ⟨first, second⟩
  all_goals
    have parts := span_add size (blockStart process.rank (level + 1)) (2 ^ level) (2 ^ level)
    have joint := prefixSum_add_span size (blockStart process.rank (level + 1)) (2 ^ level)
    rw [← mul_two, ← pow_succ] at parts
    constructor
    · have own := here.currCnt
      have others := measures.getCount other length
      rw [first] at own
      rw [second] at others
      rw [add_mul, parts]
      omega
    · apply knows.mono
      rintro index - (beyond | ⟨lower, upper⟩)
      · exact Or.inl (Or.inl beyond)
      · unfold InRange
        rw [first, second]
        omega

theorem yields_doublingLoop
    (fuel : Nat)
    (within : level ≤ levels process.commSize)
    (enough : levels process.commSize ≤ level + fuel)
    {node : Node Cell}
    (here : Doubled process size length
      ((Layout.consecutive process.commSize size).fill block rest) level node) :
    (process.doublingLoop offset room fuel (2 ^ level) level node).Yields
      (opsOf (doublingRound process.commSize size block process.rank)
        (range' level (levels process.commSize - level)))
      (Doubled process size length
        ((Layout.consecutive process.commSize size).fill block rest)
        (levels process.commSize)) := by
  induction fuel generalizing level node with
  | zero =>
    obtain rfl : level = levels process.commSize := by omega
    have last : ¬ 2 ^ levels process.commSize < process.commSize := by
      rw [← lt_levels_iff]
      exact lt_irrefl _
    rw [Process.doublingLoop, if_neg last, Nat.sub_self]
    exact Prog.yields_pure here
  | succ fuel ih =>
    rw [Process.doublingLoop]
    by_cases more : level < levels process.commSize
    · have dstIn := partner_lt pof2 inComm more
      have complete : ¬ process.commSize <
          blockStart (process.rank ^^^ 2 ^ level) level + 2 ^ level :=
        (block_within pof2 dstIn more.le).not_gt
      rw [if_pos (lt_levels_iff.mp more), show levels process.commSize - level =
          levels process.commSize - (level + 1) + 1 by omega,
        range'_succ, opsOf_cons, two_pow_shiftLeft]
      simp only [treeRoot_eq]
      apply (here.exchange pof2 inComm measures fits more).bind
      intro node exchanged
      rw [Process.completeTree, if_neg complete]
      exact ih more (by omega) exchanged
    · obtain rfl : level = levels process.commSize := by omega
      rw [if_neg fun less => more (lt_levels_iff.mpr less), Nat.sub_self]
      exact Prog.yields_pure here

/-- The whole recursive doubling, from the data of one rank on. -/
theorem ends_doubling
    {buf : List Cell} {currCnt : Nat}
    (amount : currCnt * process.typeSize = size process.rank)
    (own : Knows length
      ((Layout.consecutive process.commSize size).fill block rest)
      (fun index => prefixSum size process.commSize ≤ index ∨
        InRange (prefixSum size process.rank) (size process.rank) index)
      buf) :
    (process.doublingLoop offset room process.commSize 1 0
        { buf, currCnt, lastRecvCnt := 0 }).Yields
      (opsOf (doublingRound process.commSize size block process.rank)
        (List.range (levels process.commSize)))
      (·.buf = tabulate length ((Layout.consecutive process.commSize size).fill block rest)) := by
  have start : Doubled process size length
      ((Layout.consecutive process.commSize size).fill block rest) 0
      { buf, currCnt, lastRecvCnt := 0 } := by
    constructor
    · rw [blockStart_zero, pow_zero, span_one]
      exact amount
    · rw [blockStart_zero, pow_zero, span_one]
      exact own
  have loop := yields_doublingLoop pof2 inComm measures fits process.commSize
    (Nat.zero_le _) (by
      rw [zero_add]
      exact levels_le process.commSize) start
  rw [Nat.sub_zero, ← range_eq_range'] at loop
  apply loop.mono
  intro node doubled
  apply doubled.knows.eq_tabulate
  intro index _
  have pof := pof2.eq_two_pow
  change process.commSize = 2 ^ levels process.commSize at pof
  rw [blockStart_of_lt (by omega), prefixSum_zero, span_zero, ← pof]
  rcases lt_or_ge index (prefixSum size process.commSize) with inside | beyond
  · exact Or.inr ⟨Nat.zero_le _, by omega⟩
  · exact Or.inl beyond

end

end Mpich.Coll.Allgather
