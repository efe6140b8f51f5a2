import Mathlib.Algebra.GroupWithZero.Nat
import Mathlib.Data.Fin.Basic
import Mathlib.Data.List.Basic

/-!
# Merging sorted lists of accesses

`ADIOI_Heap_merge` keeps the lists that still have elements in a heap, with the
smallest first offset at the root. The root gives its first element, and a list
that has none left is replaced by the last one of the heap.
-/

namespace Mpich.Romio.TwoPhase

/-- A contiguous range of bytes of a file: an entry of `offset_list` and
`len_list`. -/
structure Access where
  offset : Nat
  len : Nat
deriving DecidableEq, Repr

/-- `heap_struct`: the elements of a list that are left. -/
abbrev HeapStruct :=
  List Access

/-- `*(a[k].off_list)`. -/
def offAt
    (heap : List HeapStruct)
    (index : Nat) : Nat :=
  match heap[index]? with
  | some (access :: _) => access.offset
  | _ => 0

/-- The two elements change places. -/
def swapAt
    (heap : List HeapStruct)
    (first second : Nat) : List HeapStruct :=
  match heap[first]?, heap[second]? with
  | some atFirst, some atSecond => (heap.set first atSecond).set second atFirst
  | _, _ => heap

/-- The index with the smallest offset among an element of the heap and its
children. -/
def smallest
    (heap : List HeapStruct)
    (heapsize k : Nat) : Nat :=
  let l := 2 * (k + 1) - 1
  let r := 2 * (k + 1)
  let least := if l < heapsize ∧ offAt heap l < offAt heap k then l else k
  if r < heapsize ∧ offAt heap r < offAt heap least then r else least

/-- `Heapify(a, k, heapsize)`, with a bound on the number of its turns. -/
def heapify : Nat → List HeapStruct → Nat → Nat → List HeapStruct
  | 0, heap, _, _ => heap
  | turns + 1, heap, heapsize, k =>
    let least := smallest heap heapsize k
    if least ≠ k then heapify turns (swapAt heap k least) heapsize least
    else heap

/-- The heap is built from its last inner element to the root. -/
def buildHeap : Nat → List HeapStruct → List HeapStruct
  | 0, heap => heap
  | i + 1, heap => buildHeap i (heapify heap.length heap heap.length i)

/-- The elements are extracted; `heapsize` lists have elements left. -/
def extract : Nat → List HeapStruct → Nat → List Access
  | 0, _, _ => []
  | elements + 1, heap, heapsize =>
    match heap with
    | (access :: left) :: lists =>
      let replaced :=
        if left = [] then
          ((heap[heapsize - 1]?.getD []) :: lists, heapsize - 1)
        else (left :: lists, heapsize)
      access ::
        extract elements (heapify replaced.2 replaced.1 replaced.2 0) replaced.2
    | _ => []

/-- `ADIOI_Heap_merge`. Processes without an element have no place in the
heap. -/
def heapMerge
    (lists : List HeapStruct) : List Access :=
  let heap := lists.filter fun list => list ≠ []
  extract ((heap.map List.length).sum) (buildHeap (heap.length / 2) heap) heap.length

end Mpich.Romio.TwoPhase

/-!
## The rounds of a two-phase access

An aggregator has the requests of all processes in its file domain. It goes
through its part of the file in windows of the size of the collective buffer,
one window in a round, and takes from the list of each process what lies in the
window. An access that reaches behind the window is taken in part, and what is
left of it is the first to be taken in the next round. All processes take part
in as many rounds as the aggregator with the most windows needs.
-/

namespace Mpich.Romio.TwoPhase

/-- The data of an aggregation: the aggregators, the size of the collective
buffer, and the requests of every process in the file domain of every
aggregator, without empty accesses. -/
structure Aggregation (nprocs : Nat) where
  cbNodes : Nat
  ranklist : Fin cbNodes → Fin nprocs
  /-- `cb_buffer_size`. -/
  collBufsize : Nat
  /-- `others_req` of every process. -/
  othersReq : Fin nprocs → Fin nprocs → List Access
  cbNodesPositive : 0 < cbNodes
  collBufsizePositive : 0 < collBufsize
  lensPositive : ∀ myrank process, ∀ access ∈ othersReq myrank process, 0 < access.len
  aggregator : ∀ myrank process, othersReq myrank process ≠ [] → myrank ∈ Set.range ranklist

/-- The list of a process from `curr_offlen_ptr` on, and how many bytes of its
first access have been taken (`partial_recv` and `partial_send`). -/
structure Pending where
  rest : List Access
  taken : Nat

/-- What a round takes from the list of a process. `entries` are the accesses
that are counted, the last one as far as it is taken; `behind` is the offset of
the access behind one that is taken in part, if it lies before the limit. -/
structure Scanned where
  entries : List Access
  next : Pending
  behind : Option Nat

/-- The loop over the list of a process. -/
def scan
    (limit : Nat) : Nat → List Access → Scanned
  | taken, [] => ⟨[], ⟨[], taken⟩, none⟩
  | taken, access :: rest =>
    let reqOff := access.offset + taken
    let reqLen := access.len - taken
    if reqOff < limit then
      if limit - reqOff < reqLen then
        { entries := [⟨reqOff, limit - reqOff⟩]
          next := ⟨⟨reqOff, reqLen⟩ :: rest, limit - reqOff⟩
          behind := (rest.head?.map Access.offset).filter (· < limit) }
      else
        let later := scan limit 0 rest
        { later with entries := ⟨reqOff, reqLen⟩ :: later.entries }
    else ⟨[], ⟨⟨reqOff, reqLen⟩ :: rest, 0⟩, none⟩

namespace Aggregation

variable {nprocs : Nat} (aggregation : Aggregation nprocs)

/-- All requests in the file domain of a process. -/
def requests
    (myrank : Fin nprocs) : List Access :=
  (List.finRange nprocs).flatMap (aggregation.othersReq myrank)

/-- `st_loc`; zero when there is no request. -/
def stLoc
    (myrank : Fin nprocs) : Nat :=
  match aggregation.requests myrank with
  | [] => 0
  | first :: rest =>
    rest.foldl (fun least access => min least access.offset) first.offset

/-- The offset behind `end_loc`; zero when there is no request. -/
def endLoc
    (myrank : Fin nprocs) : Nat :=
  (aggregation.requests myrank).foldl (fun most access => max most (access.offset + access.len)) 0

/-- `ntimes`. -/
def ntimes
    (myrank : Fin nprocs) : Nat :=
  if aggregation.requests myrank = [] then 0
  else
    (aggregation.endLoc myrank - aggregation.stLoc myrank - 1 +
      aggregation.collBufsize) / aggregation.collBufsize

/-- `max_ntimes`. -/
def maxNtimes : Nat :=
  (List.ofFn aggregation.ntimes).foldl max 0

/-- `off` in a round: all windows before it have the size of the buffer. -/
def off
    (myrank : Fin nprocs)
    (round : Nat) : Nat :=
  aggregation.stLoc myrank + round * aggregation.collBufsize

/-- `size` in a round. -/
def size
    (myrank : Fin nprocs)
    (round : Nat) : Nat :=
  min aggregation.collBufsize (aggregation.endLoc myrank - aggregation.off myrank round)

/-- The end of the window of a round. -/
def limit
    (myrank : Fin nprocs)
    (round : Nat) : Nat :=
  aggregation.off myrank round + aggregation.size myrank round

/-- The list of a process where a round starts. -/
def pending
    (myrank : Fin nprocs)
    (process : Fin nprocs) : Nat → Pending
  | 0 => ⟨aggregation.othersReq myrank process, 0⟩
  | round + 1 =>
    let before := pending myrank process round
    (scan (aggregation.limit myrank round) before.taken before.rest).next

/-- What a round takes from the list of a process. -/
def scanned
    (myrank process : Fin nprocs)
    (round : Nat) : Scanned :=
  let before := aggregation.pending myrank process round
  scan (aggregation.limit myrank round) before.taken before.rest

/-- The accesses of a process that are counted in a round; behind its last
window an aggregator takes nothing. -/
def entries
    (myrank process : Fin nprocs)
    (round : Nat) : List Access :=
  if round < aggregation.ntimes myrank then
    (aggregation.scanned myrank process round).entries
  else []

/-- `recv_size` of a write, `send_size` of a read: the bytes that a round takes
from, or for, a process. -/
def volume
    (myrank process : Fin nprocs)
    (round : Nat) : Nat :=
  ((aggregation.entries myrank process round).map Access.len).sum

/-- Some access is counted in the round. -/
def Occupied
    (myrank : Fin nprocs)
    (round : Nat) : Prop :=
  ∃ process, aggregation.entries myrank process round ≠ []

instance
    (myrank : Fin nprocs)
    (round : Nat) : Decidable (aggregation.Occupied myrank round) :=
  inferInstanceAs (Decidable (∃ _, _))

/-- `srt_off` and `srt_len`. -/
def sorted
    (myrank : Fin nprocs)
    (round : Nat) : List Access :=
  heapMerge (List.ofFn fun process => aggregation.entries myrank process round)

/-- Some access does not start before the end of the one in front of it. -/
def gapInside : List Access → Bool
  | first :: second :: rest =>
    first.offset + first.len < second.offset || gapInside (second :: rest)
  | _ => false

/-- `sum_recv`: what is received, and `partial_recv` once more. -/
def sumRecv
    (myrank : Fin nprocs)
    (round : Nat) : Nat :=
  ((List.finRange nprocs).map fun process =>
    aggregation.volume myrank process round +
      (aggregation.scanned myrank process round).next.taken).sum

/-- `hole`. -/
def hole
    (myrank : Fin nprocs)
    (round : Nat) : Bool :=
  gapInside (aggregation.sorted myrank round) ||
    decide (aggregation.sumRecv myrank round < aggregation.size myrank round)

end Mpich.Romio.TwoPhase.Aggregation
