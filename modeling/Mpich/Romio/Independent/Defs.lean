import Mpich.Foundation.Pieces
import Mpich.Foundation.TransitionSystem
import Mpich.Romio.File

/-!
# Independent writes

An independent write of `MPI_File_write` or `MPI_File_write_at` in non-atomic
mode is one of four kinds.

* Memory and file are contiguous: one `ADIO_WriteContig` of the user buffer.
* The file is not contiguous and data sieving is on: `ADIOI_BUFFERED_WRITE`
  locks a window of the file, reads it, copies requests into it, writes it back
  and unlocks it.
* Only the memory is not contiguous: `ADIOI_BUFFERED_WRITE_WITHOUT_READ` packs
  the blocks into a buffer and writes the buffer, without a lock.
* Data sieving is off: `ADIOI_GEN_WriteStrided_naive` writes each request by
  itself, without a lock.

Which accesses a call makes does not depend on what the file holds, so a call
is the list of its accesses, and the processes interleave their lists.
-/

namespace Mpich.Romio.Independent

/-- A range of the file: `writebuf_off` and `writebuf_len`. -/
structure Window where
  off : Nat
  len : Nat
  deriving DecidableEq

namespace Window

/-- The byte lies in the window. -/
def Has
    (window : Window)
    (place : Nat) : Prop :=
  window.off ≤ place ∧ place < window.off + window.len

instance (window : Window) (place : Nat) : Decidable (window.Has place) :=
  inferInstanceAs (Decidable (_ ∧ _))

/-- The two windows have a byte in common. -/
def overlaps (first second : Window) : Bool :=
  max first.off second.off < min (first.off + first.len) (second.off + second.len)

theorem overlaps_comm (first second : Window) :
    first.overlaps second = second.overlaps first := by
  simp only [overlaps, Nat.max_comm, Nat.min_comm]

theorem overlaps_of_has
    {first second : Window} {place : Nat}
    (inFirst : first.Has place)
    (inSecond : second.Has place) :
    first.overlaps second = true := by
  simp only [Has] at inFirst inSecond
  simp only [overlaps, decide_eq_true_eq]
  omega

end Window

/-- One access of a process to its buffer, to the file or to the locks. -/
inductive Op
  /-- `ADIOI_Malloc` of `writebuf`. -/
  | malloc
  /-- `memset(writebuf, -1, max_bufsize)`. -/
  | memset
  /-- `ADIOI_WRITE_LOCK` of the window. -/
  | writeLock (window : Window)
  /-- `ADIOI_UNLOCK` of the window. -/
  | unlock (window : Window)
  /-- `ADIO_ReadContig` of the window into `writebuf`. -/
  | readContig (window : Window)
  /-- `memcpy` of user data to `writebuf+req_off-writebuf_off`. -/
  | memcpy (writebufOff reqOff : Nat) (data : List Byte)
  /-- `ADIO_WriteContig` of `writebuf` to the window. -/
  | writeBuf (window : Window)
  /-- `ADIO_WriteContig` of user data. -/
  | writeContig (off : Nat) (data : List Byte)

/-- What the two macros do with a window that is finished, with the window
that the first `if` leaves, and with a new one. -/
structure Buffering where
  finish : Window → List Op
  flush : Window → List Op
  fresh : Window → List Op

/-- The accesses of `ADIOI_BUFFERED_WRITE`. -/
def readModifyWrite : Buffering where
  finish := fun window => [.writeBuf window, .unlock window]
  flush := fun window =>
    if window.len ≠ 0 then [.writeBuf window, .unlock window] else []
  fresh := fun window => [.writeLock window, .readContig window]

/-- The accesses of `ADIOI_BUFFERED_WRITE_WITHOUT_READ`. -/
def withoutRead : Buffering where
  finish := fun window => [.writeBuf window]
  flush := fun window => [.writeBuf window]
  fresh := fun _ => []

/-- A new window at an offset. `pastEnd` is `end_offset + 1`. -/
def newWindow
    (maxBufsize pastEnd off : Nat) : Window :=
  ⟨off, min maxBufsize (pastEnd - off)⟩

/-- The `while (write_sz != req_len)` loop: the window is full and `data` is
what is left of the request. -/
def bufferedRest
    (buffering : Buffering)
    (maxBufsize pastEnd : Nat) :
    Nat → Window → List Byte → Option (List Op × Window)
  | _, window, [] => some ([], window)
  | 0, _, _ :: _ => none
  | fuel + 1, window, byte :: more =>
    let data := byte :: more
    let next := newWindow maxBufsize pastEnd (window.off + window.len)
    let writeSz := min data.length next.len
    match bufferedRest buffering maxBufsize pastEnd fuel next
        (data.drop writeSz) with
    | none => none
    | some (ops, last) =>
      some (buffering.finish window ++ buffering.fresh next ++
        .memcpy next.off next.off (data.take writeSz) :: ops, last)

/-- One use of a buffering macro, for the request `data` at `reqOff`. -/
def bufferedWrite
    (buffering : Buffering)
    (maxBufsize pastEnd : Nat)
    (request : Piece Byte)
    (window : Window) : Option (List Op × Window) :=
  let reqOff := request.1
  let data := request.2
  let needed := window.off + window.len ≤ reqOff
  let next :=
    if needed then newWindow maxBufsize pastEnd reqOff else window
  let before :=
    if needed then buffering.flush window ++ buffering.fresh next else []
  let writeSz := min data.length (next.off + next.len - reqOff)
  match bufferedRest buffering maxBufsize pastEnd data.length next
      (data.drop writeSz) with
  | none => none
  | some (ops, last) =>
    some (before ++ .memcpy next.off reqOff (data.take writeSz) :: ops, last)

/-- A macro is used for one request after the other. -/
def bufferedAll
    (buffering : Buffering)
    (maxBufsize pastEnd : Nat) :
    List (Piece Byte) → Window → Option (List Op × Window)
  | [], window => some ([], window)
  | request :: rest, window =>
    match bufferedWrite buffering maxBufsize pastEnd request window with
    | none => none
    | some (ops, next) =>
      match bufferedAll buffering maxBufsize pastEnd rest next with
      | none => none
      | some (more, last) => some (ops ++ more, last)

/-- The requests that a non-contiguous view makes of a call: its file blocks
in the order of the view, each with the user data for it. A block without
bytes makes no request. -/
structure Requests where
  list : List (Piece Byte)
  nonempty : ∀ request ∈ list, request.2 ≠ []
  ordered : list.Pairwise fun first second =>
    first.1 + first.2.length ≤ second.1

/-- `end_offset + 1`: the place behind the last byte accessed. -/
def Requests.pastEnd (requests : Requests) : Nat :=
  match requests.list.getLast? with
  | none => 0
  | some request => request.1 + request.2.length

/-- Blocks of memory that go to a contiguous part of the file. -/
def consecutive : Nat → List (List Byte) → List (Piece Byte)
  | _, [] => []
  | off, block :: rest => (off, block) :: consecutive (off + block.length) rest

/-- A write call of one process. -/
inductive WriteCall
  /-- Memory and file are contiguous. -/
  | contig (off : Nat) (data : List Byte)
  /-- The file is not contiguous and `ds_write` is enabled. -/
  | strided (requests : Requests)
  /-- Only the memory is not contiguous, and `ds_write` is enabled. -/
  | packed (off : Nat) (blocks : List (List Byte))
  /-- `ds_write` is disabled. -/
  | naive (requests : List (Piece Byte))

/-- The pieces of the file that a call has to write, in order. -/
def WriteCall.pieces : WriteCall → List (Piece Byte)
  | .contig off data => [(off, data)]
  | .strided requests => requests.list
  | .packed off blocks => consecutive off blocks
  | .naive requests => requests

/-- `ADIOI_GEN_WriteStrided` where the file is not contiguous. -/
def stridedOps
    (maxBufsize : Nat)
    (requests : Requests) : Option (List Op) :=
  match bufferedAll readModifyWrite maxBufsize requests.pastEnd
      requests.list ⟨0, 0⟩ with
  | none => none
  | some (ops, last) =>
    some (.malloc :: .memset :: ops ++ readModifyWrite.flush last)

/-- `ADIOI_GEN_WriteStrided` where only the memory is not contiguous. -/
def packedOps
    (maxBufsize : Nat)
    (off : Nat)
    (blocks : List (List Byte)) : Option (List Op) :=
  let pastEnd := off + blocks.flatten.length
  match bufferedAll withoutRead maxBufsize pastEnd (consecutive off blocks)
      (newWindow maxBufsize pastEnd off) with
  | none => none
  | some (ops, last) => some (.malloc :: ops ++ [.writeBuf last])

/-- `ADIOI_GEN_WriteStrided_naive`: one write for each request. -/
def naiveOps (requests : List (Piece Byte)) : List Op :=
  requests.map fun request => .writeContig request.1 request.2

/-- The accesses of one call. -/
def WriteCall.ops
    (maxBufsize : Nat) : WriteCall → Option (List Op)
  | .contig off data => some [.writeContig off data]
  | .strided requests => stridedOps maxBufsize requests
  | .packed off blocks => packedOps maxBufsize off blocks
  | .naive requests => some (naiveOps requests)

/-- The accesses of the calls of a process, one call after the other. -/
def program
    (maxBufsize : Nat) : List WriteCall → Option (List Op)
  | [] => some []
  | call :: rest =>
    match call.ops maxBufsize with
    | none => none
    | some ops =>
      match program maxBufsize rest with
      | none => none
      | some more => some (ops ++ more)

/-- The last value that the calls of a process give to a byte of the file. -/
def written
    (calls : List WriteCall) : Nat → Option Byte :=
  Pieces.valueAt (calls.flatMap WriteCall.pieces)

/-- One process: what it has still to do, its buffer, the part of the file
that the buffer holds to be written back, and the locks it has. -/
structure Writer where
  todo : List Op
  writebuf : Nat → Byte
  window : Option Window
  held : List Window

/-- The file and the processes. -/
structure State (Process : Type*) where
  file : File
  writer : Process → Writer

variable {Process : Type*} [DecidableEq Process]

/-- Some other process has a lock on a byte of the window. -/
def Locked
    (state : State Process)
    (process : Process)
    (window : Window) : Prop :=
  ∃ other, other ≠ process ∧ ∃ lock ∈ (state.writer other).held, lock.overlaps window = true

/-- `memcpy` of the data to a place of the buffer. -/
def copyInto
    (buffer : Nat → Byte)
    (start : Nat)
    (data : List Byte) : Nat → Byte :=
  fun index => (Pieces.pieceAt (start, data) index).getD (buffer index)

/-- The effect of one access on the file and on the process that makes it.
`garbage` is what `ADIOI_Malloc` finds in the memory it returns. -/
def perform
    (file : File)
    (writer : Writer)
    (garbage : Nat → Byte)
    (rest : List Op) : Op → File × Writer
  | .malloc => (file, { writer with todo := rest, writebuf := garbage })
  | .memset => (file, { writer with todo := rest, writebuf := fun _ => 255 })
  | .writeLock window =>
    (file, { writer with todo := rest, held := window :: writer.held })
  | .unlock window =>
    (file, { writer with todo := rest, held := writer.held.erase window })
  | .readContig window =>
    (file, { writer with
      todo := rest
      writebuf := file.readContig window.off window.len writer.writebuf
      window := some window })
  | .memcpy writebufOff reqOff data =>
    (file, { writer with
      todo := rest
      writebuf := copyInto writer.writebuf (reqOff - writebufOff) data })
  | .writeBuf window =>
    (file.writeContig window.off window.len writer.writebuf,
      { writer with todo := rest, window := none })
  | .writeContig off data =>
    (file.writeContig off data.length fun index => data.getD index 0, { writer with todo := rest })

/-- A process makes its next access. -/
structure Action (Process : Type*) where
  process : Process
  garbage : Nat → Byte

/-- The step of one process. -/
def step
    (state : State Process)
    (action : Action Process) : Option (State Process) :=
  match (state.writer action.process).todo with
  | [] => none
  | op :: rest =>
    let result := perform state.file (state.writer action.process)
      action.garbage rest op
    some
      { file := result.1
        writer := Function.update state.writer action.process result.2 }

/-- A process may go on unless it waits for a lock. -/
def Enabled
    (state : State Process)
    (action : Action Process) : Prop :=
  match (state.writer action.process).todo with
  | .writeLock window :: _ => ¬ Locked state action.process window
  | _ => True

/-- What the user sets up: the calls of each process and the hint
`ind_wr_buffer_size`, which is kept only when it is positive. -/
structure Setup (Process : Type*) where
  calls : Process → List WriteCall
  indWrBufferSize : Process → Nat
  positive : ∀ process, 0 < indWrBufferSize process

/-- No byte is written by two processes. -/
def Setup.Disjoint
    {Process : Type*}
    (setup : Setup Process) : Prop :=
  ∀ first second, first ≠ second → ∀ place, written (setup.calls first) place = none ∨
      written (setup.calls second) place = none

/-- Concurrent independent writes to one file. -/
def system
    (setup : Setup Process) : TransitionSystem (State Process) (Action Process) where
  initial := fun state => ∀ process, program (setup.indWrBufferSize process) (setup.calls process) =
        some (state.writer process).todo ∧
      (state.writer process).window = none ∧ (state.writer process).held = []
  enabled := Enabled
  step := step

/-- Every process has made all its accesses. -/
def Finished (state : State Process) : Prop :=
  ∀ process, (state.writer process).todo = []

/-- Every byte that a process writes holds its value. -/
def ValuesKept
    (setup : Setup Process)
    (state : State Process) : Prop :=
  ∀ process place value, written (setup.calls process) place = some value →
      place < state.file.size ∧ state.file.contents place = value

/-- The window that an access writes. -/
def Op.target : Op → Option Window
  | .writeBuf window => some window
  | .writeContig off data => some ⟨off, data.length⟩
  | _ => none

/-- The step does not write, without a lock, a byte of a window that another
process has read and not yet written back. -/
def Harmless
    (state : State Process)
    (action : Action Process) : Prop :=
  ∀ op ∈ (state.writer action.process).todo.head?, (state.writer action.process).held = [] →
      ∀ range ∈ op.target, ∀ other, other ≠ action.process →
        ∀ window ∈ (state.writer other).window, range.overlaps window = false

end Mpich.Romio.Independent
