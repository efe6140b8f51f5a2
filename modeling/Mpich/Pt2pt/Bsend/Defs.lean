import Mpich.Foundation.DoublyLinked

/-!
# Buffered sends

The routines of `bsendutil.c` that manage the buffer a user attaches. A segment
of the buffer is known by the address of its `BsendData_t` header, and the
memory of the headers is given field by field, as functions of that address.
The avail and the active list run through the same `next` and `prev` fields.
Nothing is ever put on the pending list, so it has no counterpart here.

Sizes are of type `int`; `asInt` stands where the C code stores into one or
computes in it. A loop over a list takes a bound on the segments it visits and
yields `none` when the bound cuts it short; `none` also stands for following a
null pointer.
-/

namespace Mpich.Pt2pt.Bsend

open DoublyLinked Function

/-- The value that an `int` holds after this one has been stored into it. -/
def asInt (value : Int) : Int :=
  (value + 2147483648) % 4294967296 - 2147483648

/-- What the compiler decides: `sizeof(void *)` and
`BSENDDATA_HEADER_TRUE_SIZE`. -/
structure Abi where
  pointerSize : Int
  headerTrueSize : Int
  pointerSize_pos : 0 < pointerSize
  headerTrueSize_pos : 0 < headerTrueSize
  headerTrueSize_aligned : headerTrueSize % 8 = 0

/-- 64-bit pointers and longs. -/
def Abi.lp64 : Abi where
  pointerSize := 8
  headerTrueSize := 80
  pointerSize_pos := by decide
  headerTrueSize_pos := by decide
  headerTrueSize_aligned := by decide

/-- `MPI_BSEND_OVERHEAD`, as `configure.in` computes it:
`sizeof(BsendData_t)+sizeof(void*)-1`. -/
def Abi.bsendOverhead (abi : Abi) : Int :=
  abi.headerTrueSize + 8 + abi.pointerSize - 1

/-- The memory that the user hands to `MPI_Buffer_attach`. -/
structure UserBuffer where
  address : Int
  size : Int
  address_nonneg : 0 ≤ address
  size_lt : size < 2147483648

/-- `BsendKind_t`. -/
inductive BsendKind where
  | bsend
  | ibsend
  | bsendInit
  deriving DecidableEq, Repr

/-- The headers and the static structure `BsendBuffer`. -/
structure BsendBuffer (Request : Type*) where
  size : Int → Int
  totalSize : Int → Int
  links : Links Int
  kind : Int → BsendKind
  request : Int → Option Request
  /-- `msg.msgbuf` -/
  msgbuf : Int → Int
  /-- `msg.count` -/
  count : Int → Int
  buffer : Int
  bufferSize : Int
  origbuffer : Int
  origbufferSize : Int
  avail : Option Int
  active : Option Int

variable {Request : Type*}

/-- How far `MPIR_Bsend_attach` moves the start of the buffer. -/
def attachOffset (abi : Abi) (address : Int) : Int :=
  if address % abi.pointerSize = 0 then 0
  else abi.pointerSize - address % abi.pointerSize

/-- `MPIR_Bsend_attach`, from the memory as it is; `none` stands for the error
of a buffer that is too small. -/
def attach
    (abi : Abi)
    (memory : BsendBuffer Request)
    (user : UserBuffer) : Option (BsendBuffer Request) :=
  if user.size < abi.bsendOverhead then none
  else
    let buffer := user.address + attachOffset abi user.address
    some
      { memory with
        origbuffer := user.address
        origbufferSize := user.size
        buffer := buffer
        bufferSize := asInt (user.size - attachOffset abi user.address)
        avail := some buffer
        active := none
        size := update memory.size buffer
          (asInt (user.size - abi.headerTrueSize))
        totalSize := update memory.totalSize buffer user.size
        links :=
          { next := update memory.links.next buffer none
            prev := update memory.links.prev buffer none }
        msgbuf := update memory.msgbuf buffer
          (buffer + abi.headerTrueSize) }

namespace BsendBuffer

/-- `MPIR_Bsend_find_buffer`. -/
def findBuffer
    (state : BsendBuffer Request)
    (bound : Nat)
    (size : Int) : Option (Option Int) :=
  (walk state.links.next (fun p => decide (size ≤ state.size p)) bound none
    state.avail).map Prod.snd

/-- The `alloc_size` of `MPIR_Bsend_take_buffer`: the size rounded up to a
multiple of 8. -/
def allocSize (size : Int) : Int :=
  if size % 8 = 0 then size else asInt (size + (8 - size % 8))

/-- `MIN_BUFFER_BLOCK`. -/
def minBufferBlock : Int := 8

/-- Whether `MPIR_Bsend_take_buffer` finds enough space left to create a new
block. -/
def splits
    (abi : Abi)
    (state : BsendBuffer Request)
    (p size : Int) : Bool :=
  asInt (asInt (allocSize size + abi.headerTrueSize) + minBufferBlock) ≤ state.size p

/-- The part of `MPIR_Bsend_take_buffer` that carves a new block out of `p`. -/
def breakBlock
    (abi : Abi)
    (state : BsendBuffer Request)
    (p size : Int) : BsendBuffer Request :=
  let newp := p + abi.headerTrueSize + allocSize size
  let newTotal := asInt (state.totalSize p - allocSize size - abi.headerTrueSize)
  let oldTotal := asInt (newp - p)
  { state with
    totalSize := update (update state.totalSize newp newTotal) p oldTotal
    size :=
      update
        (update state.size newp (asInt (newTotal - abi.headerTrueSize)))
        p (asInt (oldTotal - abi.headerTrueSize))
    msgbuf := update state.msgbuf newp (newp + abi.headerTrueSize)
    links := state.links.insertAfter p newp }

/-- The part of `MPIR_Bsend_take_buffer` that moves `p` from the avail list to
the head of the active list. -/
def activate
    (state : BsendBuffer Request)
    (p : Int) : BsendBuffer Request :=
  let (avail, links) := state.links.unlink state.avail p
  { state with
    avail := avail
    links := links.push state.active p
    active := some p }

/-- `MPIR_Bsend_take_buffer`. -/
def takeBuffer
    (abi : Abi)
    (state : BsendBuffer Request)
    (p size : Int) : BsendBuffer Request :=
  if state.splits abi p size then (state.breakBlock abi p size).activate p
  else state.activate p

/-- Add the block `other` to the block `p` before it: the writes to
`total_size` and `size` that both merges of `MPIR_Bsend_free_segment` make. -/
def absorb
    (abi : Abi)
    (state : BsendBuffer Request)
    (p other : Int) : BsendBuffer Request :=
  let total := asInt (state.totalSize p + state.totalSize other)
  { state with
    totalSize := update state.totalSize p total
    size := update state.size p (asInt (total - abi.headerTrueSize)) }

/-- The part of `MPIR_Bsend_free_segment` that merges `p` with the next block
of the avail list, or links it before that block. -/
def mergeNext
    (abi : Abi)
    (state : BsendBuffer Request)
    (p : Int) : Option Int → BsendBuffer Request
  | none => { state with links := state.links.join p none }
  | some avail =>
    if p + state.totalSize p = avail then
      { state.absorb abi p avail with
        links := state.links.join p (state.links.next avail) }
    else { state with links := state.links.join p (some avail) }

/-- The part of `MPIR_Bsend_free_segment` that merges `p` with the previous
block of the avail list, or links it after that block. -/
def mergePrev
    (abi : Abi)
    (state : BsendBuffer Request)
    (p : Int) : Option Int → BsendBuffer Request
  | none =>
    { state with
      avail := some p
      links := state.links.start (some p) }
  | some availPrev =>
    if availPrev + state.totalSize availPrev = p then
      { state.absorb abi availPrev p with
        links := state.links.join availPrev (state.links.next p) }
    else { state with links := state.links.join availPrev (some p) }

/-- `MPIR_Bsend_free_segment`. -/
def freeSegment
    (abi : Abi)
    (bound : Nat)
    (state : BsendBuffer Request)
    (p : Int) : Option (BsendBuffer Request) :=
  let (active, links) := state.links.unlink state.active p
  let state := { state with active := active, links := links }
  match walk state.links.next (fun avail => decide (p < avail)) bound none
      state.avail with
  | none => none
  | some (availPrev, avail) =>
    some ((state.mergeNext abi p avail).mergePrev abi p availPrev)

end BsendBuffer

/-- What the device says of the requests at one moment. -/
structure Progress (Request : Type*) where
  refCount : Request → Nat
  /-- The `flag` that `MPI_Test` returns. -/
  test : Request → Bool

/-- Whether `MPIR_Bsend_check_active` frees a segment: an `ibsend` is tested
only once the user has released its request. -/
def Progress.flag
    (progress : Progress Request)
    (kind : BsendKind)
    (request : Request) : Bool :=
  if kind = .ibsend then
    if progress.refCount request = 1 then progress.test request else false
  else progress.test request

namespace BsendBuffer

/-- The loop of `MPIR_Bsend_check_active`; `loops` bounds the loops of the
routines it calls. -/
def checkFrom
    (abi : Abi)
    (loops : Nat)
    (progress : Progress Request) :
    Nat → BsendBuffer Request → Option Int → Option (BsendBuffer Request)
  | _, state, none => some state
  | 0, _, some _ => none
  | bound + 1, state, some active =>
    match state.request active with
    | none => none
    | some request =>
      if progress.flag (state.kind active) request then
        match state.freeSegment abi loops active with
        | none => none
        | some freed =>
          checkFrom abi loops progress bound freed (state.links.next active)
      else checkFrom abi loops progress bound state (state.links.next active)

/-- `MPIR_Bsend_check_active`. -/
def checkActive
    (abi : Abi)
    (bound : Nat)
    (state : BsendBuffer Request)
    (progress : Progress Request) : Option (BsendBuffer Request) :=
  state.checkFrom abi bound progress bound state.active

end BsendBuffer

/-- A call of `MPIR_Bsend_isend`, with what the routines that it calls answer:
`packsize` is the answer of `MPI_Pack_size`, `count` how much `MPI_Pack`
writes, `request` the request of `MPID_Isend`, and `first` and `second` are
what the two checks of the active list meet. -/
structure Isend (Request : Type*) where
  packsize : Int
  count : Int
  request : Option Request
  kind : BsendKind
  first : Progress Request
  second : Progress Request

/-- What `MPIR_Bsend_isend` returns: success, with the request if there is one,
or `**bufbsend` with the numbers in its text. -/
inductive Reply (Request : Type*) where
  | success (request : Option Request)
  | bufbsend (packsize bufferSize : Int)

namespace BsendBuffer

/-- Pack a message into the segment `p`, send it and take the segment. -/
def place
    (abi : Abi)
    (state : BsendBuffer Request)
    (call : Isend Request)
    (p : Int) : BsendBuffer Request :=
  let state :=
    { state with
      count := update state.count p call.count
      request := update state.request p call.request }
  match call.request with
  | none => state
  | some _ =>
    let state := state.takeBuffer abi p call.count
    { state with kind := update state.kind p call.kind }

/-- The second pass of `MPIR_Bsend_isend`. -/
def secondPass
    (abi : Abi)
    (bound : Nat)
    (state : BsendBuffer Request)
    (call : Isend Request) : Option (BsendBuffer Request × Reply Request) :=
  match state.checkActive abi bound call.second with
  | none => none
  | some checked =>
    match checked.findBuffer bound call.packsize with
    | none => none
    | some (some p) => some (checked.place abi call p, .success call.request)
    | some none => some (checked, .bufbsend call.packsize checked.bufferSize)

/-- `MPIR_Bsend_isend`. -/
def isend
    (abi : Abi)
    (bound : Nat)
    (state : BsendBuffer Request)
    (call : Isend Request) : Option (BsendBuffer Request × Reply Request) :=
  match state.checkActive abi bound call.first with
  | none => none
  | some checked =>
    match checked.findBuffer bound call.packsize with
    | none => none
    | some (some p) => some (checked.place abi call p, .success call.request)
    | some none => checked.secondPass abi bound call

end Mpich.Pt2pt.Bsend.BsendBuffer
