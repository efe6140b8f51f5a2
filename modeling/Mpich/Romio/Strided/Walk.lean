import Mathlib.Data.Prod.Lex
import Mpich.Romio.FileView.Exact
import Mpich.Romio.Strided.Defs

/-!
# What the loops cut

The requests of a call hold the bytes of the view from the starting position on, one
behind the other, each with its place in the buffer.
-/

namespace Mpich.Romio.Strided

open List

open Flatten (Block)
open FileView (toInt)

/-- The bytes of a request: where each lies in the file and where it goes in memory. -/
def Request.bytes
    (request : Request) : List (Int × Int) :=
  (List.range request.reqLen.toNat).map fun (index : Nat) =>
    (request.reqOff + index, request.userbufOff + index)

/-- The bytes from one place on of two sequences of places. -/
def bytesFrom
    (file memory : Int → Int)
    (count : Int) : List (Int × Int) :=
  (List.range count.toNat).map fun (index : Nat) => (file index, memory index)

theorem bytesFrom_zero (file memory : Int → Int) :
    bytesFrom file memory 0 = [] :=
  rfl

/-- The next request goes on with the two sequences. -/
theorem bytesFrom_add
    {file memory : Int → Int} {count : Int}
    (request : Request)
    (countNonneg : 0 ≤ count)
    (lenNonneg : 0 ≤ request.reqLen)
    (isFile : ∀ index, 0 ≤ index → index < request.reqLen →
      file (count + index) = request.reqOff + index)
    (isMemory : ∀ index, 0 ≤ index → index < request.reqLen →
      memory (count + index) = request.userbufOff + index) :
    bytesFrom file memory (count + request.reqLen) =
      bytesFrom file memory count ++ request.bytes := by
  unfold bytesFrom Request.bytes
  rw [Int.toNat_add countNonneg lenNonneg, range_add, map_append, map_map]
  congr 1
  apply map_congr_left
  intro index member
  have less : (index : Int) < request.reqLen := by
    have isLess := mem_range.mp member
    omega
  have isCount : ((count.toNat + index : Nat) : Int) = count + index := by omega
  simp only [Function.comp_apply]
  rw [isCount, isFile index (Int.natCast_nonneg index) less,
    isMemory index (Int.natCast_nonneg index) less]

/-- Where the last `size` bytes of a block begin. -/
def Tiling.here
    (tiling : Tiling)
    (cursor : Cursor)
    (size : Int) : Int :=
  tiling.start cursor + cursor.block.blocklen - size

/-- The last `size` bytes of a block are those with `count` bytes in front of them. -/
structure Tiling.On
    (tiling : Tiling)
    (count : Int)
    (cursor : Cursor)
    (size : Int) : Prop where
  has : tiling.Has cursor
  nonneg : 0 ≤ size
  le : size ≤ cursor.block.blocklen
  count : count + size = tiling.before cursor + cursor.block.blocklen

theorem Tiling.here_blocklen
    (tiling : Tiling)
    (cursor : Cursor) :
    tiling.here cursor cursor.block.blocklen = tiling.start cursor :=
  Int.add_sub_cancel _ _

namespace Tiling.On

variable {tiling : Tiling} {count size : Int} {cursor : Cursor}

section

variable (isOn : tiling.On count cursor size)

include isOn

theorem position
    {index : Int}
    (nonneg : 0 ≤ index)
    (inside : index < size) :
    tiling.position (count + index) = tiling.here cursor size + index := by
  have isCount := isOn.count
  have le := isOn.le
  have place := isOn.has.position
    (show 0 ≤ cursor.block.blocklen - size + index by omega) (by omega)
  rw [show tiling.before cursor + (cursor.block.blocklen - size + index) = count + index by
    omega] at place
  unfold here
  omega

/-- Some bytes of the block are used. -/
theorem move
    {used : Int}
    (nonneg : 0 ≤ used)
    (le : used ≤ size) :
    tiling.On (count + used) cursor (size - used) where
  has := isOn.has
  nonneg := by omega
  le := by
    have isLe := isOn.le
    omega
  count := by
    have isCount := isOn.count
    omega

/-- The whole block is used. -/
theorem next :
    tiling.On (count + size) (tiling.next cursor) (tiling.next cursor).block.blocklen where
  has := isOn.has.next
  nonneg := isOn.has.next.blocklen_nonneg
  le := le_rfl
  count := by rw [isOn.count, before_next]

end

end Tiling.On

variable {tiling : Tiling}

/-- A block whose bytes are in a copy with a number that an `int` holds. -/
theorem nextBlock_eq
    {count size : Int} {cursor : Cursor}
    (isOn : tiling.On count (tiling.next cursor) size)
    (nonneg : 0 ≤ count)
    (less : count < 2 ^ 31 * tiling.size) :
    nextBlock tiling cursor = tiling.next cursor := by
  have positive : 0 < tiling.size := by omega
  obtain ⟨lower, upper⟩ := isOn.has.bounds
  have isCount := isOn.count
  have le := isOn.le
  have sizeNonneg := isOn.nonneg
  have isLess : (tiling.next cursor).copy * tiling.size < 2 ^ 31 * tiling.size := by omega
  have notNegative : 0 * tiling.size ≤ ((tiling.next cursor).copy + 1) * tiling.size := by
    omega
  have copyLess := Int.lt_of_mul_lt_mul_right isLess tiling.size_nonneg
  have copyNonneg := Int.le_of_mul_le_mul_right notNegative positive
  unfold nextBlock
  rw [FileView.toInt_of_fits (by omega) copyLess]

/-- How long a loop stays without progress: the blocks without bytes that it meets. -/
def Tiling.idle
    (tiling : Tiling)
    (size : Int)
    (cursor : Cursor) : Nat :=
  if size = 0 then tiling.wait (tiling.next cursor) + 1 else 0

/-- The number of a copy is not looked at. -/
theorem Tiling.idle_congr
    (tiling : Tiling)
    (size : Int)
    {cursor other : Cursor}
    (isRest : cursor.rest = other.rest) :
    tiling.idle size cursor = tiling.idle size other := by
  unfold idle wait Tiling.next
  rw [isRest]
  cases other.rest <;> rfl

theorem Tiling.idle_next
    (positive : 0 < tiling.size)
    {cursor later : Cursor} {size : Int}
    (isRest : later.rest = (tiling.next cursor).rest)
    (isSize : size = 0 → (tiling.next cursor).block.blocklen = 0) :
    tiling.idle size later < tiling.idle 0 cursor := by
  rw [tiling.idle_congr size isRest]
  unfold idle
  rw [if_pos rfl]
  apply Nat.lt_succ_of_le
  by_cases zero : size = 0
  · rw [if_pos zero]
    exact tiling.wait_next positive (isSize zero)
  · rw [if_neg zero]
    exact Nat.zero_le _

/-- A round moves bytes, or meets a block without bytes. -/
theorem round_lt
    {bufsize done moved : Int} {idle later : Nat}
    (less : done < bufsize)
    (nonneg : 0 ≤ moved)
    (stays : moved = 0 → later < idle) :
    toLex ((bufsize - (done + moved)).toNat, later) < toLex ((bufsize - done).toNat, idle) := by
  rw [Prod.Lex.toLex_lt_toLex]
  rcases nonneg.eq_or_lt with rfl | positive
  · exact .inr ⟨by rw [add_zero], stays rfl⟩
  · exact .inl (by dsimp only; omega)

namespace Call

variable {call : Call} {tiling buffer : Tiling}

/-- The copies that a call uses have numbers that an `int` holds. -/
structure CopiesFit
    (call : Call)
    (tiling : Tiling)
    (first : Int) : Prop where
  nonneg : 0 ≤ first
  le : first + call.bufsize ≤ 2 ^ 31 * tiling.size

/-- The loop stands on a piece of the view, cut off where the buffer ends. -/
def Cut
    (call : Call)
    (tiling : Tiling)
    (first done : Int)
    (cursor : Cursor)
    (off frdSize : Int) : Prop :=
  done < call.bufsize → ∃ size, frdSize = min size (call.bufsize - done) ∧
    off = call.disp + tiling.here cursor size ∧ tiling.On (first + done) cursor size

variable
    {first : Int}
    (fit : call.CopiesFit tiling first)
    (positive : 0 < tiling.size)
    {start : Start}
    (isOff : start.offset = call.disp + tiling.here start.cursor start.frdSize)
    (isOn : tiling.On first start.cursor start.frdSize)

include fit in
theorem Cut.next
    {done size : Int} {cursor : Cursor}
    (nonneg : 0 ≤ done)
    (isOn : tiling.On (first + done) cursor size) :
    call.Cut tiling first (done + min size (call.bufsize - done)) (nextBlock tiling cursor)
      (call.fileOff tiling (nextBlock tiling cursor))
      (min (nextBlock tiling cursor).block.blocklen
        (call.bufsize - (done + min size (call.bufsize - done)))) := by
  intro less
  have isNext := isOn.next
  have sizeNonneg := isOn.nonneg
  have firstNonneg := fit.nonneg
  have upper := fit.le
  rw [show first + done + size = first + (done + min size (call.bufsize - done)) by
    omega] at isNext
  rw [nextBlock_eq isNext (by omega) (by omega)]
  refine ⟨_, rfl, ?_, isNext⟩
  rw [tiling.here_blocklen]
  rfl

/-- The invariant of the loop. -/
structure EndInvariant
    (call : Call)
    (tiling : Tiling)
    (first : Int)
    (state : EndLoop) : Prop where
  nonneg : 0 ≤ state.i
  cut : call.Cut tiling first state.i state.cursor state.off state.frdSize
  last : call.bufsize ≤ state.i → 0 < call.bufsize →
    state.endOffset = call.disp + tiling.position (first + call.bufsize - 1)

include fit positive in
theorem EndInvariant.step
    {state : EndLoop}
    (invariant : call.EndInvariant tiling first state)
    (less : state.i < call.bufsize) :
    ∃ later, call.endStep tiling state = some later ∧ call.EndInvariant tiling first later ∧
      toLex ((call.bufsize - later.i).toNat, tiling.idle later.frdSize later.cursor) <
        toLex ((call.bufsize - state.i).toNat, tiling.idle state.frdSize state.cursor) := by
  obtain ⟨size, isSize, isOff, isOn⟩ := invariant.cut less
  have nonneg := isOn.nonneg
  have doneNonneg := invariant.nonneg
  refine ⟨_, rfl, ⟨by dsimp only; omega, ?_, ?_⟩, round_lt less (by omega) fun zero => ?_⟩
  · dsimp only
    rw [isSize]
    exact Cut.next fit doneNonneg isOn
  · intro done _
    dsimp only at done ⊢
    have place := isOn.position (show 0 ≤ call.bufsize - 1 - state.i by omega) (by omega)
    rw [show first + state.i + (call.bufsize - 1 - state.i) = first + call.bufsize - 1 by
      omega] at place
    rw [place]
    omega
  · rw [zero]
    refine @Tiling.idle_next tiling positive state.cursor (nextBlock tiling state.cursor) _ rfl ?_
    dsimp only
    intro isZero
    change min (tiling.next state.cursor).block.blocklen _ = 0 at isZero
    omega

include fit positive isOff isOn in
/-- `end_offset` is the last byte of the call. -/
theorem endOffset_yields :
    ∃ last, Yields (call.endOffset tiling start) last ∧ (0 < call.bufsize →
        last = call.disp + tiling.position (first + call.bufsize - 1)) := by
  have begins : call.EndInvariant tiling first
      ⟨0, start.cursor, start.offset, min start.frdSize call.bufsize, 0⟩ := by
    refine ⟨le_rfl, fun _ => ⟨start.frdSize, ?_, isOff, ?_⟩, fun none some => ?_⟩
    · rw [sub_zero]
    · rwa [add_zero]
    · exact absurd none (not_le.mpr some)
  obtain ⟨final, invariant, done, yields⟩ := whileLoop_of_invariant
    (call.EndInvariant tiling first)
    (fun state =>
      toLex ((call.bufsize - state.i).toNat, tiling.idle state.frdSize state.cursor))
    (fun state invariant goesOn =>
      invariant.step fit positive (of_decide_eq_true goesOn)) begins
  exact ⟨final.endOffset, yields.map EndLoop.endOffset,
    invariant.last (not_lt.mp (of_decide_eq_false done))⟩

/-- The bytes of requests. -/
def bytesOf
    (requests : List Request) : List (Int × Int) :=
  requests.flatMap Request.bytes

/-- A request without bytes is not made. -/
def addRequest
    (requests : List Request)
    (request : Request) : List Request :=
  if request.reqLen ≠ 0 then requests ++ [request] else requests

/-- What has been cut so far. -/
structure Cuts
    (file memory : Int → Int)
    (done : Int)
    (requests : List Request) : Prop where
  bytes : bytesOf requests = bytesFrom file memory done
  some : ∀ request ∈ requests, 0 < request.reqLen

theorem Cuts.add
    {file memory : Int → Int} {done : Int} {requests : List Request}
    (cuts : Cuts file memory done requests)
    (request : Request)
    (doneNonneg : 0 ≤ done)
    (lenNonneg : 0 ≤ request.reqLen)
    (isFile : ∀ index, 0 ≤ index → index < request.reqLen →
      file (done + index) = request.reqOff + index)
    (isMemory : ∀ index, 0 ≤ index → index < request.reqLen →
      memory (done + index) = request.userbufOff + index) :
    Cuts file memory (done + request.reqLen) (addRequest requests request) := by
  unfold addRequest
  by_cases empty : request.reqLen = 0
  · rw [if_neg (not_not.mpr empty), empty, add_zero]
    exact cuts
  · rw [if_pos empty]
    refine ⟨?_, ?_⟩
    · rw [bytesFrom_add request doneNonneg lenNonneg isFile isMemory, ← cuts.bytes]
      unfold bytesOf
      rw [flatMap_append, flatMap_singleton]
    · intro other member
      rcases mem_append.mp member with isOld | isNew
      · exact cuts.some other isOld
      · rw [mem_singleton.mp isNew]
        exact lenNonneg.lt_of_ne' empty

/-- The bytes of the view from the byte with `first` bytes in front of it on. -/
def viewFrom
    (call : Call)
    (tiling : Tiling)
    (first : Int) : Int → Int :=
  fun index => call.disp + tiling.position (first + index)

theorem size_mul_count_nonneg (call : Call) :
    0 ≤ call.datatype.size * call.count := by
  apply mul_nonneg _ (Int.natCast_nonneg _)
  cases call.datatype with
  | contig size => exact Int.natCast_nonneg size
  | empty => exact le_rfl
  | flat buffer => exact buffer.size_nonneg

theorem bufsize_eq (fits : call.datatype.size * call.count < 2 ^ 31) :
    call.bufsize = call.datatype.size * call.count := by
  have nonneg := call.size_mul_count_nonneg
  exact FileView.toInt_of_fits (by omega) fits

theorem bufsize_nonneg (fits : call.datatype.size * call.count < 2 ^ 31) :
    0 ≤ call.bufsize := by
  rw [bufsize_eq fits]
  exact call.size_mul_count_nonneg

/-- The invariant of the loop. -/
structure ContigInvariant
    (call : Call)
    (tiling : Tiling)
    (first : Int)
    (state : FileLoop) : Prop where
  nonneg : 0 ≤ state.i
  le : state.i ≤ call.bufsize
  cut : call.Cut tiling first state.i state.cursor state.off state.frdSize
  cuts : Cuts (call.viewFrom tiling first) id state.i state.requests

include fit positive in
theorem ContigInvariant.step
    {state : FileLoop}
    (invariant : call.ContigInvariant tiling first state)
    (less : state.i < call.bufsize) :
    ∃ later, call.contigStep tiling state = some later ∧ call.ContigInvariant tiling first later ∧
      toLex ((call.bufsize - later.i).toNat, tiling.idle later.frdSize later.cursor) <
        toLex ((call.bufsize - state.i).toNat, tiling.idle state.frdSize state.cursor) := by
  obtain ⟨size, isSize, isOff, isOn⟩ := invariant.cut less
  have nonneg := isOn.nonneg
  have doneNonneg := invariant.nonneg
  have cuts := invariant.cuts.add ⟨state.off, state.i, state.frdSize⟩ doneNonneg
    (by dsimp only; omega)
    (by
      intro index indexNonneg inside
      dsimp only at inside ⊢
      have place := isOn.position indexNonneg (by omega)
      unfold viewFrom
      rw [← add_assoc, place]
      omega)
    (fun _ _ _ => rfl)
  unfold contigStep
  dsimp only
  by_cases inBlock : state.off + state.frdSize <
      call.fileOff tiling state.cursor + state.cursor.block.blocklen
  · rw [if_pos inBlock]
    have isEnd : state.i + state.frdSize = call.bufsize := by
      unfold fileOff at inBlock
      unfold Tiling.here at isOff
      omega
    refine ⟨_, rfl, ⟨by dsimp only; omega, by dsimp only; omega, fun notEnd => ?_, cuts⟩,
      round_lt less (by omega) fun zero => by omega⟩
    exact absurd isEnd notEnd.ne
  · rw [if_neg inBlock]
    refine ⟨_, rfl, ⟨by dsimp only; omega, by dsimp only; omega, ?_, cuts⟩,
      round_lt less (by omega) fun zero => ?_⟩
    · dsimp only
      rw [isSize]
      exact Cut.next fit doneNonneg isOn
    · rw [zero]
      refine @Tiling.idle_next tiling positive state.cursor (nextBlock tiling state.cursor) _ rfl ?_
      dsimp only
      intro isZero
      change min (tiling.next state.cursor).block.blocklen _ = 0 at isZero
      omega

include fit positive isOff isOn in
/-- The requests of a call with a contiguous buffer. -/
theorem contigInMemory_yields (nonneg : 0 ≤ call.bufsize) :
    ∃ final, Yields (call.contigInMemory tiling start) final ∧
      Cuts (call.viewFrom tiling first) id call.bufsize final.requests := by
  have begins : call.ContigInvariant tiling first
      ⟨0, start.cursor, start.offset, min start.frdSize call.bufsize, []⟩ := by
    refine ⟨le_rfl, nonneg, fun _ => ⟨start.frdSize, ?_, isOff, ?_⟩, rfl, nofun⟩
    · rw [sub_zero]
    · rwa [add_zero]
  obtain ⟨final, invariant, done, yields⟩ := whileLoop_of_invariant
    (call.ContigInvariant tiling first)
    (fun state =>
      toLex ((call.bufsize - state.i).toNat, tiling.idle state.frdSize state.cursor))
    (fun state invariant goesOn =>
      invariant.step fit positive (of_decide_eq_true goesOn)) begins
  have isEnd := invariant.le.antisymm (not_lt.mp (of_decide_eq_false done))
  refine ⟨final, yields, ?_⟩
  rw [← isEnd]
  exact invariant.cuts

end Call

/-- What is left of a block has its place, unless it is nothing. -/
structure Tiling.Placed
    (tiling : Tiling)
    (disp count : Int)
    (left : Left) : Prop where
  isOn : tiling.On count left.cursor left.size
  place : 0 < left.size → left.off = disp + tiling.here left.cursor left.size

theorem Tiling.Placed.use
    {disp count used off : Int} {left : Left}
    {otherDone : Bool}
    (placed : tiling.Placed disp count left)
    (nonneg : 0 ≤ used)
    (le : used ≤ left.size)
    (oneDone : used = left.size ∨ otherDone = true)
    {later : Cursor}
    (isNext : used = left.size → later = tiling.next left.cursor)
    (isOff : used = left.size → 0 < later.block.blocklen → off = disp + tiling.start later) :
    tiling.Placed disp (count + used)
      (left.use used otherDone ⟨later, off, later.block.blocklen⟩) := by
  unfold Left.use
  by_cases isDone : used = left.size
  · rw [if_pos isDone, isDone]
    refine ⟨?_, fun positive => ?_⟩
    · rw [isNext isDone]
      exact placed.isOn.next
    · rw [tiling.here_blocklen]
      exact isOff isDone positive
  · rw [if_neg isDone, if_pos (oneDone.resolve_left isDone)]
    refine ⟨placed.isOn.move nonneg le, fun positive => ?_⟩
    dsimp only at positive ⊢
    have place := placed.place (by omega)
    unfold here at place ⊢
    omega

/-- A round without bytes moves a cursor that stands on nothing and leaves the other. -/
theorem Tiling.idle_use
    (positive : 0 < tiling.size)
    {left whenDone : Left} {otherDone : Bool}
    (isRest : whenDone.cursor.rest = (tiling.next left.cursor).rest)
    (isSize : whenDone.size = (tiling.next left.cursor).block.blocklen)
    (oneDone : 0 = left.size ∨ otherDone = true) :
    let later := left.use 0 otherDone whenDone
    tiling.idle later.size later.cursor ≤ tiling.idle left.size left.cursor ∧ (0 = left.size →
        tiling.idle later.size later.cursor < tiling.idle left.size left.cursor) := by
  unfold Left.use
  by_cases isDone : 0 = left.size
  · rw [if_pos isDone, ← isDone]
    have less := tiling.idle_next positive isRest isSize.symm.trans
    exact ⟨less.le, fun _ => less⟩
  · rw [if_neg isDone, if_pos (oneDone.resolve_left isDone)]
    dsimp only
    rw [sub_zero]
    exact ⟨le_rfl, fun isZero => absurd isZero isDone⟩

namespace Call

variable {call : Call} {tiling buffer : Tiling}

/-- The conversions to `int` of the offsets of the blocks that are used in a buffer. -/
def OffsetsFit
    (call : Call)
    (buffer : Tiling) : Prop :=
  ∀ cursor, buffer.Has cursor → 0 ≤ buffer.before cursor →
    buffer.before cursor < call.bufsize → 0 < cursor.block.blocklen →
      toInt (buffer.start cursor) = buffer.start cursor

/-- The invariant of the loop. -/
structure BothInvariant
    (call : Call)
    (tiling buffer : Tiling)
    (first : Int)
    (state : BothLoop) : Prop where
  nonneg : 0 ≤ state.num
  le : state.num ≤ call.bufsize
  filePlaced : state.num < call.bufsize → tiling.Placed call.disp (first + state.num) state.file
  bufferPlaced : state.num < call.bufsize → buffer.Placed 0 state.num state.buffer
  cuts : Cuts (call.viewFrom tiling first) buffer.position state.num state.requests

/-- The rest of a block of the buffer is wanted. -/
theorem size_le
    (isBufsize : call.bufsize = buffer.size * call.count)
    {done size : Int} {cursor : Cursor}
    (isOn : buffer.On done cursor size)
    (less : done < call.bufsize) :
    done + size ≤ call.bufsize := by
  obtain ⟨lower, upper⟩ := isOn.has.bounds
  have isLe := isOn.le
  have isCount := isOn.count
  have copyLess : cursor.copy * buffer.size < call.count * buffer.size := by
    rw [mul_comm (call.count : Int), ← isBufsize]
    omega
  have copies := Int.lt_of_mul_lt_mul_right copyLess buffer.size_nonneg
  have copyEnd : (cursor.copy + 1) * buffer.size ≤ call.count * buffer.size :=
    mul_le_mul_of_nonneg_right copies buffer.size_nonneg
  rw [mul_comm (call.count : Int), ← isBufsize] at copyEnd
  omega

variable
    {first : Int}
    (fit : call.CopiesFit tiling first)
    (positive : 0 < tiling.size)
    (isBufsize : call.bufsize = buffer.size * call.count)
    (offsets : call.OffsetsFit buffer)

include fit positive isBufsize offsets

theorem BothInvariant.step
    {state : BothLoop}
    (invariant : call.BothInvariant tiling buffer first state)
    (less : state.num < call.bufsize) :
    ∃ later, call.bothStep tiling buffer state = some later ∧
      call.BothInvariant tiling buffer first later ∧ toLex ((call.bufsize - later.num).toNat,
          tiling.idle later.file.size later.file.cursor +
            buffer.idle later.buffer.size later.buffer.cursor) <
        toLex ((call.bufsize - state.num).toNat, tiling.idle state.file.size state.file.cursor +
            buffer.idle state.buffer.size state.buffer.cursor) := by
  have numNonneg := invariant.nonneg
  have filePlaced := invariant.filePlaced less
  have bufferPlaced := invariant.bufferPlaced less
  have fileNonneg := filePlaced.isOn.nonneg
  have bufferNonneg := bufferPlaced.isOn.nonneg
  have wanted := size_le isBufsize bufferPlaced.isOn less
  have bufferPositive : 0 < buffer.size := by
    rcases buffer.size_nonneg.eq_or_lt with zero | some
    · rw [← zero, zero_mul] at isBufsize
      omega
    · exact some
  have cuts := invariant.cuts.add
    ⟨state.file.off, state.buffer.off, min state.file.size state.buffer.size⟩ numNonneg
    (by dsimp only; omega)
    (by
      intro index nonneg inside
      dsimp only at inside ⊢
      have position := filePlaced.isOn.position nonneg (by omega)
      have place := filePlaced.place (by omega)
      unfold viewFrom
      rw [← add_assoc, position]
      omega)
    (by
      intro index nonneg inside
      dsimp only at inside ⊢
      have position := bufferPlaced.isOn.position nonneg (by omega)
      have place := bufferPlaced.place (by omega)
      rw [position]
      omega)
  refine ⟨_, rfl, ⟨by dsimp only; omega, by dsimp only; omega, fun notEnd => ?_,
    fun notEnd => ?_, cuts⟩, round_lt less (by omega) fun zero => ?_⟩
  case refine_1 =>
    rw [← add_assoc]
    refine filePlaced.use (by omega) (min_le_left _ _) ?_ (fun isDone => ?_) fun _ _ => rfl
    · rw [decide_eq_true_iff]
      omega
    · have firstNonneg := fit.nonneg
      have upper := fit.le
      dsimp only at notEnd
      exact nextBlock_eq filePlaced.isOn.next (by omega) (by omega)
  case refine_2 =>
    refine bufferPlaced.use (by omega) (min_le_right _ _) ?_ (fun _ => rfl)
      fun isDone some => ?_
    · rw [decide_eq_true_iff]
      omega
    · have isNext := bufferPlaced.isOn.has.next
      have isBefore := buffer.before_next state.buffer.cursor
      have isCount := bufferPlaced.isOn.count
      dsimp only at notEnd
      rw [zero_add]
      exact offsets _ isNext (by omega) (by omega) some
  case refine_3 =>
    rw [zero]
    have fileIdle := @Tiling.idle_use tiling positive state.file
      ⟨nextBlock tiling state.file.cursor, call.fileOff tiling (nextBlock tiling state.file.cursor),
        (nextBlock tiling state.file.cursor).block.blocklen⟩
      (decide (0 = state.buffer.size)) rfl rfl (by rw [decide_eq_true_iff]; omega)
    have bufferIdle := @Tiling.idle_use buffer bufferPositive state.buffer
      (bufferLeft buffer (buffer.next state.buffer.cursor))
      (decide (0 = state.file.size)) rfl rfl (by rw [decide_eq_true_iff]; omega)
    rcases (show 0 = state.file.size ∨ 0 = state.buffer.size by omega) with isZero | isZero
    · exact Nat.add_lt_add_of_lt_of_le (fileIdle.2 isZero) bufferIdle.1
    · exact Nat.add_lt_add_of_le_of_lt fileIdle.1 (bufferIdle.2 isZero)

/-- The requests of a call that is contiguous nowhere. -/
theorem noncontigInBoth_yields
    (nonneg : 0 ≤ call.bufsize)
    {start : Start}
    (isOff : start.offset = call.disp + tiling.here start.cursor start.frdSize)
    (isOn : tiling.On first start.cursor start.frdSize) :
    ∃ final, Yields (call.noncontigInBoth tiling buffer start) final ∧
      Cuts (call.viewFrom tiling first) buffer.position call.bufsize final.requests := by
  have begins : call.BothInvariant tiling buffer first
      ⟨0, ⟨start.cursor, start.offset, start.frdSize⟩, bufferLeft buffer buffer.origin, []⟩ := by
    refine ⟨le_rfl, nonneg, fun _ => ⟨?_, fun _ => isOff⟩,
      fun some => ⟨?_, fun nonempty => ?_⟩, rfl, nofun⟩
    · rwa [add_zero]
    · refine ⟨buffer.has_origin, buffer.has_origin.blocklen_nonneg, le_rfl, ?_⟩
      change 0 + buffer.origin.block.blocklen =
        buffer.before buffer.origin + buffer.origin.block.blocklen
      rw [buffer.before_origin]
    · have isStart := offsets buffer.origin buffer.has_origin buffer.before_origin.ge
        (buffer.before_origin.trans_lt some) nonempty
      change toInt (buffer.start buffer.origin) =
        0 + buffer.here buffer.origin buffer.origin.block.blocklen
      rw [isStart, buffer.here_blocklen, zero_add]
  obtain ⟨final, invariant, done, yields⟩ := whileLoop_of_invariant
    (call.BothInvariant tiling buffer first)
    (fun state =>
      toLex ((call.bufsize - state.num).toNat, tiling.idle state.file.size state.file.cursor +
          buffer.idle state.buffer.size state.buffer.cursor))
    (fun state invariant goesOn =>
      invariant.step fit positive isBufsize offsets (of_decide_eq_true goesOn)) begins
  have isEnd := invariant.le.antisymm (not_lt.mp (of_decide_eq_false done))
  refine ⟨final, yields, ?_⟩
  rw [← isEnd]
  exact invariant.cuts

end Mpich.Romio.Strided.Call
