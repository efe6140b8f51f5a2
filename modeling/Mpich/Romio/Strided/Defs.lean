import Mathlib.Data.List.TakeWhile
import Mpich.Foundation.While
import Mpich.Romio.File
import Mpich.Romio.FileView.Places

/-!
# Blocks, one copy after the other

A view repeats the blocks of its filetype, and a count of a buffer type repeats the
blocks of the buffer type. A cursor stands on a block of a copy; the loops of the
strided accesses move two of them along, one in the file and one in memory.
-/

namespace Mpich.Romio.Strided

open List

open Flatten (Block)
open FileView (place)

/-- The blocks of a flattened type, which has one at least, repeated one extent after
the other. -/
structure Tiling where
  first : Block
  others : List Block
  extent : Int
  blocklen_nonneg : ∀ block ∈ first :: others, 0 ≤ block.blocklen
  size_lt : FileView.size (first :: others) < 2 ^ 31

/-- A block of a copy, with the blocks behind it in the copy. -/
structure Cursor where
  copy : Int
  block : Block
  rest : List Block

namespace Tiling

variable (tiling : Tiling)

def blocks : List Block :=
  tiling.first :: tiling.others

/-- The number of bytes in a copy. -/
def size : Int :=
  FileView.size tiling.blocks

/-- Where the block of a cursor begins. -/
def start
    (cursor : Cursor) : Int :=
  cursor.block.index + cursor.copy * tiling.extent

/-- The next block, in this copy or in the next one. -/
def next
    (cursor : Cursor) : Cursor :=
  match cursor.rest with
  | [] => ⟨cursor.copy + 1, tiling.first, tiling.others⟩
  | block :: rest => ⟨cursor.copy, block, rest⟩

/-- The first block of all. -/
def origin : Cursor :=
  ⟨0, tiling.first, tiling.others⟩

/-- Where the byte with `count` bytes in front of it lies. -/
def position
    (count : Int) : Int :=
  count / tiling.size * tiling.extent + place tiling.blocks (count % tiling.size)

/-- The number of bytes in front of the block of a cursor. -/
def before
    (cursor : Cursor) : Int :=
  cursor.copy * tiling.size + (tiling.size - FileView.size (cursor.block :: cursor.rest))

/-- The cursor stands on a block of the tiling. -/
def Has
    (cursor : Cursor) : Prop :=
  cursor.block :: cursor.rest <:+ tiling.blocks

theorem sum_nonneg
    {blocks : List Block}
    (nonneg : ∀ block ∈ blocks, 0 ≤ block.blocklen) :
    0 ≤ FileView.size blocks := by
  apply List.sum_nonneg
  intro length member
  obtain ⟨block, inside, rfl⟩ := List.mem_map.mp member
  exact nonneg block inside

theorem size_nonneg : 0 ≤ tiling.size :=
  sum_nonneg tiling.blocklen_nonneg

theorem size_append (passed later : List Block) :
    FileView.size (passed ++ later) = FileView.size passed + FileView.size later := by
  simp [FileView.size]

theorem place_append
    {passed later : List Block} {count : Int}
    (nonneg : ∀ block ∈ passed, 0 ≤ block.blocklen)
    (behind : FileView.size passed ≤ count) :
    place (passed ++ later) count = place later (count - FileView.size passed) := by
  induction passed generalizing count with
  | nil => rw [nil_append, show FileView.size [] = 0 from rfl, sub_zero]
  | cons block passed ih =>
    have restNonneg : ∀ other ∈ passed, 0 ≤ other.blocklen := fun other member =>
      nonneg other (mem_cons_of_mem block member)
    have sumNonneg := sum_nonneg restNonneg
    rw [FileView.size_cons] at behind
    rw [cons_append, place, if_neg (by omega), ih restNonneg (by omega), FileView.size_cons]
    apply congrArg (place later)
    omega

variable {tiling}

variable {cursor : Cursor}

variable (has : tiling.Has cursor)

include has in
theorem Has.blocklen_nonneg :
    0 ≤ cursor.block.blocklen :=
  tiling.blocklen_nonneg cursor.block (has.subset mem_cons_self)

theorem has_origin : tiling.Has tiling.origin :=
  suffix_rfl

include has in
theorem Has.next :
    tiling.Has (tiling.next cursor) := by
  unfold Tiling.next
  cases isRest : cursor.rest with
  | nil => exact suffix_rfl
  | cons block rest =>
    unfold Has at has
    rw [isRest] at has
    exact (suffix_cons cursor.block _).trans has

theorem before_origin : tiling.before tiling.origin = 0 := by
  unfold before origin
  rw [zero_mul, zero_add]
  exact sub_self _

/-- A cursor moves by the bytes of its block. -/
theorem before_next (cursor : Cursor) :
    tiling.before (tiling.next cursor) = tiling.before cursor + cursor.block.blocklen := by
  unfold before Tiling.next
  cases isRest : cursor.rest with
  | nil =>
    change (cursor.copy + 1) * tiling.size + (tiling.size - tiling.size) = _
    rw [FileView.size_cons, show FileView.size [] = 0 from rfl, add_mul]
    omega
  | cons block rest =>
    dsimp only
    rw [FileView.size_cons cursor.block]
    omega

include has in
/-- The block of a cursor lies inside its copy. -/
theorem Has.bounds :
    cursor.copy * tiling.size ≤ tiling.before cursor ∧
      tiling.before cursor + cursor.block.blocklen ≤ (cursor.copy + 1) * tiling.size := by
  obtain ⟨passed, isBlocks⟩ := has
  have nonnegs : ∀ block ∈ passed ++ cursor.block :: cursor.rest, 0 ≤ block.blocklen := by
    rw [isBlocks]
    exact tiling.blocklen_nonneg
  have passedNonneg : 0 ≤ FileView.size passed := sum_nonneg fun block member =>
    nonnegs block (mem_append_left _ member)
  have restNonneg : 0 ≤ FileView.size cursor.rest := sum_nonneg fun block member =>
    nonnegs block (mem_append_right _ (mem_cons_of_mem _ member))
  have isSize : tiling.size =
      FileView.size passed + (cursor.block.blocklen + FileView.size cursor.rest) := by
    unfold size
    rw [← isBlocks, size_append, FileView.size_cons]
  unfold before
  rw [FileView.size_cons, add_mul]
  constructor <;> omega

include has in
/-- The bytes of the block of a cursor. -/
theorem Has.position
    {index : Int}
    (nonneg : 0 ≤ index)
    (inside : index < cursor.block.blocklen) :
    tiling.position (tiling.before cursor + index) = tiling.start cursor + index := by
  obtain ⟨passed, isBlocks⟩ := has
  have nonnegs : ∀ block ∈ passed ++ cursor.block :: cursor.rest, 0 ≤ block.blocklen := by
    rw [isBlocks]
    exact tiling.blocklen_nonneg
  have passedNonneg : ∀ block ∈ passed, 0 ≤ block.blocklen := fun block member =>
    nonnegs block (mem_append_left _ member)
  have sumNonneg := sum_nonneg passedNonneg
  have restNonneg : 0 ≤ FileView.size cursor.rest := sum_nonneg fun block member =>
    nonnegs block (mem_append_right _ (mem_cons_of_mem _ member))
  have isSize : tiling.size =
      FileView.size passed + (cursor.block.blocklen + FileView.size cursor.rest) := by
    unfold size
    rw [← isBlocks, size_append, FileView.size_cons]
  have isCount : tiling.before cursor + index =
      FileView.size passed + index + cursor.copy * tiling.size := by
    unfold before
    rw [FileView.size_cons]
    omega
  have positive : 0 < tiling.size := by omega
  unfold Tiling.position
  rw [isCount, Int.add_mul_ediv_right _ _ positive.ne',
    Int.ediv_eq_zero_of_lt (by omega) (by omega), zero_add,
    Int.add_mul_emod_self_right, Int.emod_eq_of_lt (by omega) (by omega), ← isBlocks,
    place_append passedNonneg (by omega), place, if_pos (by omega)]
  unfold start
  omega

/-- The number of blocks without bytes that a cursor meets before one with a byte. -/
def wait
    (tiling : Tiling)
    (cursor : Cursor) : Nat :=
  ((cursor.block :: cursor.rest ++ tiling.blocks).takeWhile
    fun block => block.blocklen = 0).length

theorem exists_blocklen_ne_zero (positive : 0 < tiling.size) :
    ∃ block ∈ tiling.blocks, block.blocklen ≠ 0 := by
  by_contra none
  push Not at none
  apply positive.ne'
  apply sum_eq_zero
  intro length member
  obtain ⟨block, inside, rfl⟩ := List.mem_map.mp member
  exact none block inside

theorem takeWhile_append_blocks
    (positive : 0 < tiling.size)
    (later : List Block) :
    (tiling.blocks ++ later).takeWhile (fun block => block.blocklen = 0) =
      tiling.blocks.takeWhile fun block => block.blocklen = 0 := by
  obtain ⟨block, member, nonzero⟩ := exists_blocklen_ne_zero positive
  rw [takeWhile_append, if_neg]
  intro same
  have whole := ( takeWhile_prefix _).eq_of_length same
  exact nonzero (of_decide_eq_true (takeWhile_eq_self_iff.mp whole block member))

/-- A cursor does not stay on blocks without bytes. -/
theorem wait_next
    (positive : 0 < tiling.size)
    (empty : cursor.block.blocklen = 0) :
    tiling.wait (tiling.next cursor) < tiling.wait cursor := by
  have isWait : tiling.wait cursor =
      ((cursor.rest ++ tiling.blocks).takeWhile fun block => block.blocklen = 0).length + 1 := by
    unfold wait
    rw [cons_append, takeWhile_cons, if_pos (decide_eq_true empty), length_cons]
  rw [isWait]
  apply Nat.lt_succ_of_le
  unfold wait Tiling.next
  cases isRest : cursor.rest with
  | nil =>
    change ((tiling.blocks ++ tiling.blocks).takeWhile _).length ≤ _
    rw [takeWhile_append_blocks positive, nil_append]
  | cons block rest => exact le_refl _

end Mpich.Romio.Strided.Tiling

/-!
## Strided reads

`ADIOI_GEN_ReadStrided` and `ADIOI_GEN_ReadStrided_naive` cut a call into requests by
the same loops over the blocks of the view and of the buffer. The naive function reads
each request by itself. The other one copies it out of a window of the file, which
`ADIOI_BUFFERED_READ` moves along.
-/

namespace Mpich.Romio.Strided

open Flatten (Block)
open FileView (toInt)

/-- A filetype or a buffer type. A type that is not contiguous is flattened; `empty` has
no block then. -/
inductive Datatype
  | contig (size : Nat)
  | empty
  | flat (tiling : Tiling)

/-- `MPI_Type_size` -/
def Datatype.size : Datatype → Int
  | contig size => size
  | empty => 0
  | flat tiling => tiling.size

/-- `file_ptr_type`, with the offset in etypes relative to the view. -/
inductive FilePtr
  | individual
  | explicitOffset (offset : Nat)

/-- A call of one of the functions. -/
structure Call where
  disp : Int
  etypeSize : Int
  filetype : Datatype
  fpInd : Int
  datatype : Datatype
  count : Nat
  filePtr : FilePtr
  disp_nonneg : 0 ≤ disp
  etypeSize_pos : 0 < etypeSize
  divides : etypeSize ∣ filetype.size

/-- `req_off`, `userbuf_off` and `req_len` -/
structure Request where
  reqOff : Int
  userbufOff : Int
  reqLen : Int
  deriving DecidableEq

/-- What the loops compute: the requests, `end_offset`, and `off` after the last of
them. -/
structure Walk where
  requests : List Request
  endOffset : Int
  off : Int

/-- `j++`, or `j = 0; n_filetypes++` at the last block. -/
def nextBlock
    (tiling : Tiling)
    (cursor : Cursor) : Cursor :=
  { tiling.next cursor with copy := toInt (tiling.next cursor).copy }

/-- The variables of the loop that computes `end_offset`. -/
structure EndLoop where
  i : Int
  cursor : Cursor
  off : Int
  frdSize : Int
  endOffset : Int

/-- The variables of the loop for a contiguous buffer. -/
structure FileLoop where
  i : Int
  cursor : Cursor
  off : Int
  frdSize : Int
  requests : List Request

/-- A block of the file or of the buffer, as far as it has not been used up. -/
structure Left where
  cursor : Cursor
  off : Int
  size : Int

/-- What is left after `size` bytes: it goes to the next block at its end, `whenDone`,
and moves on where only the other one is at its end. -/
def Left.use
    (left : Left)
    (size : Int)
    (otherDone : Bool)
    (whenDone : Left) : Left :=
  if size = left.size then whenDone
  else if otherDone then ⟨left.cursor, left.off + size, left.size - size⟩
  else left

/-- `(int) (buftype_extent*(buf_count/flat_buf->count) + flat_buf->indices[k])`, and the
length of the block. -/
def bufferLeft
    (buffer : Tiling)
    (cursor : Cursor) : Left :=
  ⟨cursor, toInt (buffer.start cursor), cursor.block.blocklen⟩

/-- The variables of the loop for a buffer that is not contiguous; the place in the
buffer is `i`. -/
structure BothLoop where
  num : Int
  file : Left
  buffer : Left
  requests : List Request

/-- `st_index` with `n_filetypes`, `st_frd_size` and `start_off` -/
structure Start where
  cursor : Cursor
  frdSize : Int
  offset : Int

namespace Call

variable (call : Call)

def bufsize : Int :=
  toInt (call.datatype.size * call.count)

/-- `disp + flat_file->indices[j] + (ADIO_Offset) n_filetypes*filetype_extent` -/
def fileOff
    (tiling : Tiling)
    (cursor : Cursor) : Int :=
  call.disp + tiling.start cursor

/-- The loop over the blocks of one copy: the first one whose end is at the individual
file pointer or behind it. -/
def reaching
    (tiling : Tiling)
    (nFiletypes : Int) : List Block → Option Cursor
  | [] => none
  | block :: rest =>
    if call.fpInd ≤ call.fileOff tiling ⟨nFiletypes, block, rest⟩ + block.blocklen then
      some ⟨nFiletypes, block, rest⟩
    else reaching tiling nFiletypes rest

/-- `while (!flag)`: the next `n_filetypes`, and the block that has been found. -/
def search
    (tiling : Tiling)
    (fuel : Nat) : Option (Int × Option Cursor) :=
  whileLoop (fun state => state.2.isNone)
    (fun state => some (toInt (state.1 + 1), call.reaching tiling state.1 tiling.blocks))
    fuel (0, none)

/-- The loop over the blocks with `sum`: the first one that holds the byte with
`size_in_filetype` bytes in front of it. -/
def holding
    (tiling : Tiling)
    (nFiletypes sizeInFiletype : Int) : List Block → Int → Start
  | [], _ => ⟨⟨nFiletypes, tiling.first, tiling.others⟩, 0,
      call.disp + nFiletypes * tiling.extent⟩
  | block :: rest, sum =>
    let sum := sum + block.blocklen
    if sizeInFiletype < sum then
      ⟨⟨nFiletypes, block, rest⟩, sum - sizeInFiletype, call.disp + nFiletypes * tiling.extent +
          (block.index + sizeInFiletype - (sum - block.blocklen))⟩
    else holding tiling nFiletypes sizeInFiletype rest sum

/-- Where the call starts in a view that is not contiguous. -/
def start
    (tiling : Tiling)
    (fuel : Nat) : Option Start :=
  match call.filePtr with
  | .individual =>
    (call.search tiling fuel).bind fun (_, found) =>
      found.map fun cursor =>
        ⟨cursor, toInt (call.fileOff tiling cursor + cursor.block.blocklen - call.fpInd),
          call.fpInd⟩
  | .explicitOffset offset =>
    let nEtypesInFiletype := tiling.size.tdiv call.etypeSize
    let nFiletypes := toInt ((offset : Int).tdiv nEtypesInFiletype)
    let etypeInFiletype := toInt ((offset : Int).tmod nEtypesInFiletype)
    some (call.holding tiling nFiletypes (etypeInFiletype * call.etypeSize) tiling.blocks 0)

/-- One round of the loop that computes `end_offset`. -/
def endStep
    (tiling : Tiling)
    (state : EndLoop) : Option EndLoop :=
  let i := state.i + state.frdSize
  let cursor := nextBlock tiling state.cursor
  some ⟨i, cursor, call.fileOff tiling cursor,
    min cursor.block.blocklen (call.bufsize - i), state.off + state.frdSize - 1⟩

/-- `end_offset`, the last byte that will be accessed. -/
def endOffset
    (tiling : Tiling)
    (start : Start)
    (fuel : Nat) : Option Int :=
  (whileLoop (fun state => state.i < call.bufsize) (call.endStep tiling) fuel
    ⟨0, start.cursor, start.offset, min start.frdSize call.bufsize, 0⟩).map
    EndLoop.endOffset

/-- One round of the loop for a contiguous buffer. -/
def contigStep
    (tiling : Tiling)
    (state : FileLoop) : Option FileLoop :=
  let requests :=
    if state.frdSize ≠ 0 then state.requests ++ [⟨state.off, state.i, state.frdSize⟩]
    else state.requests
  let i := state.i + state.frdSize
  let blockEnd := call.fileOff tiling state.cursor + state.cursor.block.blocklen
  if state.off + state.frdSize < blockEnd then
    some ⟨i, state.cursor, state.off + state.frdSize, state.frdSize, requests⟩
  else
    let cursor := nextBlock tiling state.cursor
    some ⟨i, cursor, call.fileOff tiling cursor,
      min cursor.block.blocklen (call.bufsize - i), requests⟩

/-- Contiguous in memory, noncontiguous in file. -/
def contigInMemory
    (tiling : Tiling)
    (start : Start)
    (fuel : Nat) : Option FileLoop :=
  whileLoop (fun state => state.i < call.bufsize) (call.contigStep tiling) fuel
    ⟨0, start.cursor, start.offset, min start.frdSize call.bufsize, []⟩

/-- One round of the loop for a buffer that is not contiguous. -/
def bothStep
    (tiling buffer : Tiling)
    (state : BothLoop) : Option BothLoop :=
  let size := min state.file.size state.buffer.size
  let requests :=
    if size ≠ 0 then state.requests ++ [⟨state.file.off, state.buffer.off, size⟩]
    else state.requests
  let nextFile := nextBlock tiling state.file.cursor
  let nextBuffer := buffer.next state.buffer.cursor
  some ⟨state.num + size, state.file.use size (size = state.buffer.size)
      ⟨nextFile, call.fileOff tiling nextFile, nextFile.block.blocklen⟩,
    state.buffer.use size (size = state.file.size) (bufferLeft buffer nextBuffer), requests⟩

/-- Noncontiguous in memory as well as in file. -/
def noncontigInBoth
    (tiling buffer : Tiling)
    (start : Start)
    (fuel : Nat) : Option BothLoop :=
  whileLoop (fun state => state.num < call.bufsize) (call.bothStep tiling buffer) fuel
    ⟨0, ⟨start.cursor, start.offset, start.frdSize⟩, bufferLeft buffer buffer.origin, []⟩

/-- The blocks of a buffer that is not contiguous, for each of `count` copies. -/
def bufferBlocks : List Block :=
  match call.datatype with
  | .flat buffer =>
    (List.range call.count).flatMap fun (copy : Nat) =>
      buffer.blocks.map fun block => ⟨copy * buffer.extent + block.index, block.blocklen⟩
  | _ => []

/-- One request for each block of the buffer, from `off` on in the file. -/
def noncontigInMemory : Int → List Block → List Request
  | _, [] => []
  | off, block :: rest =>
    ⟨off, block.index, block.blocklen⟩ ::
      noncontigInMemory (off + block.blocklen) rest

/-- `off` in a contiguous view. -/
def contigOff : Int :=
  match call.filePtr with
  | .individual => call.fpInd
  | .explicitOffset offset => call.disp + call.etypeSize * offset

/-- The loops of a call whose filetype has a byte; `none` where `ADIOI_Flatlist` has no
node for a contiguous filetype, or a node without a block is used. -/
def walk
    (fuel : Nat) : Option Walk :=
  match call.filetype, call.datatype with
  | .contig _, .contig _ => none
  | .contig _, _ =>
    some ⟨noncontigInMemory call.contigOff call.bufferBlocks, call.contigOff + call.bufsize - 1,
      call.contigOff + (call.bufferBlocks.map Block.blocklen).sum⟩
  | .empty, _ => none
  | .flat tiling, datatype =>
    (call.start tiling fuel).bind fun start =>
      (call.endOffset tiling start fuel).bind fun endOffset =>
        match datatype with
        | .contig _ => (call.contigInMemory tiling start fuel).map fun final =>
          ⟨final.requests, endOffset, final.off⟩
        | .empty => none
        | .flat buffer => (call.noncontigInBoth tiling buffer start fuel).map fun final =>
          ⟨final.requests, endOffset, final.file.off⟩

end Call

/-- `memcpy` -/
def memcpy
    (target : Int → Byte)
    (base length : Int)
    (source : Int → Byte) : Int → Byte :=
  fun place => if base ≤ place ∧ place < base + length then source (place - base)
    else target place

/-- `ADIO_ReadContig` of `length` bytes at `off` to `base`; `none` for an offset or a
length that it does not take. What lies behind the end of the file is not read. -/
def readContig
    (file : File)
    (off length base : Int)
    (target : Int → Byte) : Option (Int → Byte) :=
  if 0 ≤ off ∧ 0 ≤ length then
    some (memcpy target base (min length (file.size - off)) fun index =>
      file.contents (off + index).toNat)
  else none

/-- `readbuf`, with the number of bytes that it has been allocated with and the number
of the allocation. -/
structure Sieve where
  readbufOff : Int
  readbufLen : Int
  allocated : Int
  readbuf : Int → Byte
  mallocs : Nat

/-- `memcpy((char *)buf + userbuf_off, readbuf+req_off-readbuf_off, req_len)`; `none`
when it is not inside the allocation. -/
def Sieve.copyOut
    (sieve : Sieve)
    (request : Request)
    (memory : Int → Byte) : Option (Int → Byte) :=
  let skipped := request.reqOff - sieve.readbufOff
  if 0 ≤ skipped ∧ skipped + request.reqLen ≤ sieve.allocated then
    some (memcpy memory request.userbufOff request.reqLen fun index =>
      sieve.readbuf (skipped + index))
  else none

/-- What a call of a sieving read has at hand: the file, `max_bufsize`, `end_offset` and
what each `ADIOI_Malloc` finds in the memory that it returns. -/
structure Sieving where
  file : File
  maxBufsize : Int
  endOffset : Int
  garbage : Nat → Int → Byte

namespace Sieving

variable (sieving : Sieving)

/-- The first allocation of `readbuf`. -/
def malloc : Sieve :=
  ⟨0, 0, sieving.maxBufsize, sieving.garbage 0, 0⟩

/-- `ADIO_ReadContig` to `readbuf+base` of what is missing there; `none` when it is not
inside the allocation. -/
def fill
    (sieve : Sieve)
    (base : Int) : Option Sieve :=
  if 0 ≤ base ∧ sieve.readbufLen ≤ sieve.allocated then
    (readContig sieving.file (sieve.readbufOff + base) (sieve.readbufLen - base) base
      sieve.readbuf).map fun readbuf => { sieve with readbuf := readbuf }
  else none

/-- A window that begins at an offset. -/
def window
    (sieve : Sieve)
    (off : Int) : Option Sieve :=
  sieving.fill { sieve with
    readbufOff := off
    readbufLen := toInt (min sieving.maxBufsize (sieving.endOffset - off + 1)) } 0

/-- The body of the loop of `ADIOI_BUFFERED_READ`: the rest of the window, from the
request on, and more of the file go to a new buffer. -/
def extend
    (reqOff : Int)
    (sieve : Sieve) : Option Sieve :=
  let partialRead := toInt (sieve.readbufOff + sieve.readbufLen - reqOff)
  let skipped := sieve.readbufLen - partialRead
  if 0 ≤ partialRead ∧ 0 ≤ skipped ∧ sieve.readbufLen ≤ sieve.allocated then
    let readbufOff := sieve.readbufOff + skipped
    sieving.fill ⟨readbufOff,
      toInt (partialRead + min sieving.maxBufsize (sieving.endOffset - readbufOff + 1)),
      toInt (partialRead + sieving.maxBufsize),
      memcpy (sieving.garbage (sieve.mallocs + 1)) 0 partialRead fun index =>
        sieve.readbuf (skipped + index),
      sieve.mallocs + 1⟩ partialRead
  else none

/-- The windows of `ADIOI_BUFFERED_READ`: afterwards the request is in the window. -/
def reach
    (fuel : Nat)
    (sieve : Sieve)
    (request : Request) : Option Sieve :=
  (if sieve.readbufOff + sieve.readbufLen ≤ request.reqOff then
    sieving.window sieve request.reqOff
  else some sieve).bind
    (whileLoop
      (fun sieve => sieve.readbufOff + sieve.readbufLen - request.reqOff < request.reqLen)
      (sieving.extend request.reqOff) fuel)

/-- `ADIOI_BUFFERED_READ` for one request after the other. -/
def bufferedRead
    (fuel : Nat) : List Request → Sieve → (Int → Byte) → Option (Int → Byte)
  | [], _, memory => some memory
  | request :: rest, sieve, memory =>
    (sieving.reach fuel sieve request).bind fun sieve =>
      (sieve.copyOut request memory).bind (bufferedRead fuel rest sieve)

end Sieving

namespace Call

variable (call : Call)

/-- The individual file pointer after the call. -/
def nextFpInd
    (off : Int) : Int :=
  match call.filePtr with
  | .individual => off
  | .explicitOffset _ => call.fpInd

/-- The window that is there before the first request. -/
def firstWindow
    (sieving : Sieving) : Option Sieve :=
  match call.filetype with
  | .contig _ => sieving.window sieving.malloc call.contigOff
  | _ => some sieving.malloc

/-- `ADIOI_GEN_ReadStrided` with `ds_read` enabled: the user buffer and the individual
file pointer after it. -/
def readStrided
    (file : File)
    (maxBufsize : Int)
    (garbage : Nat → Int → Byte)
    (memory : Int → Byte)
    (fuel : Nat) : Option ((Int → Byte) × Int) :=
  if call.filetype.size = 0 then some (memory, call.fpInd)
  else
    (call.walk fuel).bind fun walk =>
      let sieving : Sieving := ⟨file, maxBufsize, walk.endOffset, garbage⟩
      (call.firstWindow sieving).bind fun sieve =>
        (sieving.bufferedRead fuel walk.requests sieve memory).map fun memory =>
          (memory, call.nextFpInd walk.off)

/-- One `ADIO_ReadContig` for each request. -/
def naiveRead
    (file : File) : List Request → (Int → Byte) → Option (Int → Byte)
  | [], memory => some memory
  | request :: rest, memory =>
    (readContig file request.reqOff request.reqLen request.userbufOff memory).bind
      (naiveRead file rest)

/-- `ADIOI_GEN_ReadStrided_naive` -/
def readStridedNaive
    (file : File)
    (memory : Int → Byte)
    (fuel : Nat) : Option ((Int → Byte) × Int) :=
  if call.filetype.size = 0 then some (memory, call.fpInd)
  else
    (call.walk fuel).bind fun walk =>
      (naiveRead file walk.requests memory).map fun memory =>
        (memory, call.nextFpInd walk.off)

end Mpich.Romio.Strided.Call
