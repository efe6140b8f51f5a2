import Mpich.Dataloop.Handles

/-!
# Segments

A segment goes through the loops of a datatype with a stack of a fixed number of
elements, which is a parameter here. `Segment_init` fills the stack along the first
blocks of the loops, and `Segment_manipulate` goes on from where the last call has
stopped, one step of its loop at a time. What the piece functions do is left open.
-/

namespace Mpich.Dataloop

/-- How an operation ends when it has no result: an assertion fails, something is
used that has no value, `stackelm` is used behind its last element, or the bound on
the steps is reached. -/
inductive Halt
  | assertion
  | undefined
  | overflow
  | unfinished
  deriving DecidableEq, Repr

/-- An entry of an array, or what lies outside of it. -/
def entryAt (values : List Int) (index beyond : Int) : Int :=
  if 0 ≤ index then values.getD index.toNat beyond else beyond

namespace Loop

/-- `DLOOP_FINAL_MASK` -/
def isFinal : Loop → Bool
  | .leaf _ _ => true
  | .inner _ _ _ | .struct _ _ _ _ _ => false

/-- `DLOOP_KIND_MASK` -/
def kind : Loop → LoopKind
  | .leaf shape _ | .inner shape _ _ => shape.kind
  | .struct _ _ _ _ _ => .struct

def element : Loop → Element
  | .leaf _ element | .inner _ element _ => element
  | .struct _ _ _ _ _ => structElement

/-- `loop_params.count` -/
def count : Loop → Int
  | .leaf (.indexed blocks _ _) _ | .inner (.indexed blocks _ _) _ _ => blocks.length
  | .leaf shape _ | .inner shape _ _ => shape.allocCount
  | .struct count _ _ _ _ => count

/-- `v_t.stride` -/
def stride : Loop → Int
  | .leaf (.vector _ _ stride) _ | .inner (.vector _ _ stride) _ _ => stride
  | _ => 0

/-- `i_t.total_blocks` -/
def totalBlocks : Loop → Int
  | .leaf (.indexed _ totalBlocks _) _ | .inner (.indexed _ totalBlocks _) _ _ =>
    totalBlocks
  | _ => 0

/-- The size of a block. The count of a contiguous loop is the size of its block. -/
def blocksizeAt (index beyond : Int) : Loop → Int
  | .leaf shape _ | .inner shape _ _ =>
    match shape with
    | .contig count => count
    | .vector _ blocksize _ => blocksize
    | .blockindexed blocksize _ => blocksize
    | .indexed blocks _ _ =>
      entryAt (blocks.map fun block => (block.1 : Int)) index beyond
  | .struct _ blocksizes _ _ _ =>
    entryAt (List.ofFn fun block => (blocksizes block : Int)) index beyond

/-- An entry of `offset_array`. -/
def offsetAt (index beyond : Int) : Loop → Int
  | .leaf shape _ | .inner shape _ _ => entryAt shape.offsets index beyond
  | .struct _ _ offsets _ _ => entryAt (List.ofFn offsets) index beyond

/-- An entry of `el_extent_array`. -/
def elExtentAt (index beyond : Int) : Loop → Int
  | .struct _ _ _ elExtents _ => entryAt (List.ofFn elExtents) index beyond
  | .leaf _ _ | .inner _ _ _ => 0

/-- The loop of a block. The pointer of a leaf leads nowhere. -/
def childAt (index : Int) : Loop → Except Halt (Option Loop)
  | .leaf _ _ => .ok none
  | .inner _ _ child => .ok (some child)
  | .struct count _ _ _ children =>
    if bound : 0 ≤ index ∧ index.toNat < count then
      .ok (some (children ⟨index.toNat, bound.2⟩))
    else .error .undefined

end Loop

/-- `DLOOP_Dataloop_stackelm` -/
structure Stackelm where
  mayRequireReloading : Bool
  curcount : Int
  curoffset : Int
  curblock : Int
  origCount : Int
  origOffset : Int
  origBlock : Int
  loopP : Loop

/-- `DLOOP_Segment`. An element of the stack that has not been filled in has no
value. -/
structure Segment where
  stackelm : Nat → Option Stackelm
  curSp : Int
  validSp : Int
  streamOff : Int

namespace Stackelm

/-- `DLOOP_Stackelm_blocksize` -/
def blocksize (elm : Stackelm) (beyond : Int) : Int :=
  elm.loopP.blocksizeAt (elm.origCount - elm.curcount) beyond

/-- `DLOOP_Stackelm_offset` -/
def offset (elm : Stackelm) (beyond : Int) : Int :=
  match elm.loopP.kind with
  | .vector | .contig => 0
  | _ => elm.loopP.offsetAt (elm.origCount - elm.curcount) beyond

/-- `DLOOP_Stackelm_load`. The rest is filled in at processing time. -/
def load (dlp : Loop) (branchFlag : Bool) (beyond : Int) : Stackelm where
  mayRequireReloading := branchFlag || dlp.kind = .struct
  curcount := if dlp.kind = .contig then 1 else dlp.count
  curoffset := 0
  curblock := 0
  origCount := if dlp.kind = .contig then 1 else dlp.count
  origOffset := 0
  origBlock := dlp.blocksizeAt 0 beyond
  loopP := dlp

end Stackelm

/-- `DLOOP_MAX_DATATYPE_DEPTH` -/
def maxDatatypeDepth : Nat := 8

-- the length of `stackelm`
variable (maxDepth : Nat)

namespace Segment

/-- An element of the stack. -/
def get (segment : Segment) (index : Int) : Except Halt Stackelm :=
  if index < 0 then .error .undefined
  else if maxDepth ≤ index then .error .overflow
  else
    match segment.stackelm index.toNat with
    | some elm => .ok elm
    | none => .error .undefined

/-- The segment with an element of the stack filled in. -/
def set (segment : Segment) (index : Int) (elm : Stackelm) : Except Halt Segment :=
  if index < 0 then .error .undefined
  else if maxDepth ≤ index then .error .overflow
  else
    .ok { segment with
      stackelm := Function.update segment.stackelm index.toNat (some elm) }

end Segment

/-- The loop of `Segment_init` over the elements behind the first one. -/
def initLevels (beyond : Int) :
    Nat → Nat → Option Loop → Bool → Segment → Except Halt Segment
  | 0, _, _, _, segment => .ok segment
  | left + 1, index, dlp, branchDetected, segment =>
    if maxDepth ≤ index then .error .overflow
    else
      match dlp with
      | none => .error .undefined
      | some dlp => do
          let elm := Stackelm.load dlp branchDetected beyond
          let segment ← segment.set maxDepth index elm
          if left ≠ 0 then
            if dlp.isFinal then .error .assertion
            else do
              let next ← dlp.childAt 0
              initLevels beyond left (index + 1) next elm.mayRequireReloading segment
          else if dlp.isFinal then .ok segment
          else .error .assertion

/-- The first element of the stack in its entirety. -/
def Stackelm.first (dlp : Loop) (beyond : Int) : Stackelm :=
  let loaded := load dlp false beyond
  { loaded with
    curblock := loaded.origBlock
    curoffset := loaded.offset beyond }

/-- The end of `Segment_init`, from the first loop on. -/
def initStack (beyond : Int) (dlp : Loop) (depth : Nat) : Except Halt Segment := do
  let elm := Stackelm.first dlp beyond
  let segment ← Segment.set maxDepth ⟨fun _ => none, 0, 0, 0⟩ 0 elm
  let next ← dlp.childAt 0
  let segment ← initLevels maxDepth beyond (depth - 1) 1 next elm.mayRequireReloading segment
  .ok { segment with validSp := depth - 1 }

/-- The count and the element of a contiguous loop. -/
def Loop.contigParts : Loop → Option (Nat × Element)
  | .leaf (.contig count) element | .inner (.contig count) element _ =>
    some (count, element)
  | _ => none

/-- `Segment_init`. The result `none` is the error code. -/
def segmentInit (beyond : Int) (count : Nat) (handle : Handle) :
    Except Halt (Option Segment) :=
  match handle.loop with
  | none =>
    (initStack maxDepth beyond (.leaf (.contig count) handle.derivedElement) 1).map some
  | some (oldloop, depth) =>
    if count = 0 then
      (initStack maxDepth beyond (.leaf (.contig 0) blankElement) 1).map some
    else if count = 1 then
      (initStack maxDepth beyond oldloop depth).map some
    else if maxDepth ≤ depth then
      .ok none
    else
      match (if depth = 1 then oldloop.contigParts else none) with
      | some (oldCount, element) =>
        if handle.size = handle.extent then
          (initStack maxDepth beyond (.leaf (.contig (count * oldCount)) element) 1).map some
        else
          (initStack maxDepth beyond
            (.leaf (.vector count oldCount handle.extent) element) 1).map some
      | none =>
        (initStack maxDepth beyond (.inner (.contig count) handle.derivedElement oldloop)
          (depth + 1)).map some

/-- Which piece functions a call is given, and its function for the sizes of
elements. -/
structure PieceFns where
  contigfn : Bool
  vectorfn : Bool
  blkidxfn : Bool
  indexfn : Bool
  sizefn : Option (Nat → Int)

/-- The call that only moves the segment on has no piece functions. -/
def PieceFns.noPieces (fns : PieceFns) : PieceFns where
  contigfn := false
  vectorfn := false
  blkidxfn := false
  indexfn := false
  sizefn := fns.sizefn

/-- `stream_el_size` -/
def PieceFns.streamElSize (fns : PieceFns) (element : Element) : Int :=
  match fns.sizefn with
  | some sizefn => sizefn element.elType
  | none => element.elSize

/-- What a piece function leaves behind, and what lies outside of the arrays. -/
structure Answer where
  exit : Int
  myblocks : Int
  beyond : Int

/-- `piecefn_type` -/
inductive PieceFn
  | null
  | contig
  | vector
  | blockindexed
  | indexed
  deriving DecidableEq, Repr

/-- The segment after a step, and whether the call returns. -/
structure Progress where
  segment : Segment
  returned : Bool

/-- `DLOOP_SEGMENT_POP_AND_MAYBE_EXIT` -/
def Segment.pop (segment : Segment) : Progress where
  segment := { segment with curSp := segment.curSp - 1 }
  returned := segment.curSp - 1 < 0

namespace Stackelm

/-- The function to use for a piece and the elements to work on. -/
def choosePiece (fns : PieceFns) (cur : Stackelm) (beyond : Int) :
    Except Halt (Int × PieceFn) :=
  let default := (cur.curblock, if fns.contigfn then PieceFn.contig else .null)
  match cur.loopP.kind with
  | .contig => .ok default
  | .blockindexed =>
    if fns.blkidxfn ∧ cur.origBlock = cur.curblock ∧ cur.origCount = cur.curcount then
      .ok (cur.curblock * cur.curcount, .blockindexed)
    else .ok default
  | .indexed =>
    if fns.indexfn ∧ cur.origCount = cur.curcount ∧
        cur.curblock = cur.loopP.blocksizeAt 0 beyond then
      .ok (cur.loopP.totalBlocks, .indexed)
    else .ok default
  | .vector =>
    if fns.vectorfn ∧ cur.origBlock = cur.curblock then
      .ok (cur.curblock * cur.curcount, .vector)
    else .ok default
  | .struct => .error .assertion

/-- The loop over the blocks that have been worked on, with the block that comes
next. -/
def takeBlocks (next : Stackelm → Int) : Nat → Int → Stackelm → Except Halt (Int × Stackelm)
  | 0, _, _ => .error .assertion
  | steps + 1, myblocks, elm =>
    if 0 < myblocks ∧ elm.curblock ≤ myblocks then
      let taken : Stackelm := { elm with curcount := elm.curcount - 1 }
      if taken.curcount < 0 then .error .assertion
      else takeBlocks next steps (myblocks - elm.curblock)
        { taken with curblock := next taken }
    else .ok (myblocks, elm)

/-- The end of a piece that has reached the end of its block: the element behind it,
and whether the loop is done. -/
def advance (cur : Stackelm) (myblocks localElSize beyond : Int) :
    Except Halt (Stackelm × Bool) :=
  match cur.loopP.kind with
  | .indexed => do
      let (left, elm) ← takeBlocks (fun elm => elm.blocksize beyond)
        (cur.curcount.toNat + 1) myblocks cur
      if elm.curcount = 0 then
        if left = 0 then .ok (elm, true) else .error .assertion
      else
        .ok ({ elm with
          origBlock := elm.curblock
          curoffset := elm.origOffset +
            elm.loopP.offsetAt (elm.origCount - elm.curcount) beyond + left * localElSize
          curblock := elm.curblock - left }, false)
  | .vector =>
    let elm := { cur with
      curcount := cur.curcount - myblocks.tdiv cur.curblock }
    if elm.curcount = 0 then
      if myblocks.tmod cur.curblock = 0 then .ok (elm, true) else .error .assertion
    else
      let curblock := elm.origBlock - myblocks.tmod cur.curblock
      .ok ({ elm with
        curblock := curblock
        curoffset := elm.origOffset + (elm.origCount - elm.curcount) * elm.loopP.stride +
          (elm.origBlock - curblock) * localElSize }, false)
  | .contig =>
    if myblocks = cur.curblock ∧ cur.curcount = 1 then .ok (cur, true)
    else .error .assertion
  | .blockindexed => do
      let (left, elm) ← takeBlocks (fun elm => elm.origBlock)
        (cur.curcount.toNat + 1) myblocks cur
      if elm.curcount = 0 then
        if left = 0 then .ok (elm, true) else .error .assertion
      else
        .ok ({ elm with
          curoffset := elm.origOffset +
            elm.loopP.offsetAt (elm.origCount - elm.curcount) beyond + left * localElSize
          curblock := elm.curblock - left }, false)
  | .struct => .ok (cur, false)

/-- `orig_offset` of the element above. -/
def nextOffset (cur : Stackelm) (beyond : Int) : Int :=
  let countIndex := cur.origCount - cur.curcount
  let blockIndex := cur.origBlock - cur.curblock
  match cur.loopP.kind with
  | .contig => cur.curoffset + blockIndex * cur.loopP.element.elExtent
  | .vector => cur.origOffset + countIndex * cur.loopP.stride +
      blockIndex * cur.loopP.element.elExtent
  | .blockindexed | .indexed => cur.origOffset +
      blockIndex * cur.loopP.element.elExtent + cur.loopP.offsetAt countIndex beyond
  | .struct => cur.origOffset +
      blockIndex * cur.loopP.elExtentAt countIndex beyond + cur.loopP.offsetAt countIndex beyond

/-- The current values of an element that is pushed. -/
def start (elm : Stackelm) (origOffset beyond : Int) : Stackelm :=
  let started := { elm with origOffset := origOffset, curcount := elm.origCount }
  match elm.loopP.kind with
  | .contig | .vector =>
    { started with curblock := elm.origBlock, curoffset := origOffset }
  | .blockindexed =>
    { started with
      curblock := elm.origBlock
      curoffset := origOffset + elm.loopP.offsetAt 0 beyond }
  | .indexed | .struct =>
    { started with
      curblock := elm.loopP.blocksizeAt 0 beyond
      curoffset := origOffset + elm.loopP.offsetAt 0 beyond }

/-- The next block of a loop that is not a leaf. -/
def nextBlock (cur : Stackelm) (beyond : Int) : Stackelm :=
  let curcount := cur.curcount - 1
  let index := if curcount ≠ 0 then cur.origCount - curcount else 0
  let origBlock := match cur.loopP.kind with
    | .indexed | .struct => cur.loopP.blocksizeAt index beyond
    | .contig | .vector | .blockindexed => cur.origBlock
  { cur with curcount := curcount, origBlock := origBlock, curblock := origBlock }

end Stackelm

namespace Segment

variable (fns : PieceFns) (last : Option Int) (answer : Answer)

/-- The elements up to the last offset, where a piece would go beyond it. The last
offset is `none` for `SEGMENT_IGNORE_LAST`. -/
def reduced (segment : Segment) (wanted streamElSize : Int) : Option Int :=
  (last.filter fun last => last < segment.streamOff + wanted * streamElSize).map
    fun last => (last - segment.streamOff).tdiv streamElSize

/-- What is done after the piece function has returned. -/
def finishPiece
    (beyond : Int)
    (segment : Segment)
    (cur : Stackelm)
    (exit myblocks streamElSize : Int) : Except Halt Progress :=
  if exit < 0 ∨ myblocks < 0 then .error .assertion
  else
    let moved := { segment with
      streamOff := segment.streamOff + myblocks * streamElSize }
    if myblocks = 0 then
      .ok ⟨moved, true⟩
    else if myblocks < cur.curblock then do
      let stored ← moved.set maxDepth moved.curSp { cur with
        curoffset := cur.curoffset + myblocks * cur.loopP.element.elSize
        curblock := cur.curblock - myblocks }
      .ok ⟨stored, true⟩
    else do
      let (elm, done) ← cur.advance myblocks cur.loopP.element.elSize beyond
      let stored ← moved.set maxDepth moved.curSp elm
      let popped := if done then stored.pop else ⟨stored, false⟩
      .ok ⟨popped.segment, popped.returned || decide (exit ≠ 0)⟩

/-- A piece of a leaf. -/
def workPiece (segment : Segment) (cur : Stackelm) : Except Halt Progress := do
  let streamElSize := fns.streamElSize cur.loopP.element
  let (wanted, piecefn) ← cur.choosePiece fns answer.beyond
  let fewer := segment.reduced last wanted streamElSize
  let allowed := fewer.getD wanted
  if fewer = some 0 then
    .ok ⟨segment, true⟩
  else if piecefn = .contig ∧ cur.curblock < allowed then
    .error .assertion
  else if piecefn = .null then
    segment.finishPiece maxDepth answer.beyond cur 0 allowed streamElSize
  else
    segment.finishPiece maxDepth answer.beyond cur answer.exit answer.myblocks streamElSize

/-- A block of a loop that is not a leaf has come to its end. -/
def endBlock (beyond : Int) (segment : Segment) (cur : Stackelm) :
    Except Halt Progress := do
  let elm := cur.nextBlock beyond
  let stored ← segment.set maxDepth segment.curSp elm
  .ok (if elm.curcount = 0 then stored.pop else ⟨stored, false⟩)

/-- The element above the current one, loaded again where that is necessary. -/
def nextElm (beyond : Int) (segment : Segment) (cur : Stackelm) :
    Except Halt Stackelm :=
  if cur.mayRequireReloading then do
    let child ← cur.loopP.childAt (cur.origCount - cur.curcount)
    match child with
    | some loadDlp => .ok (Stackelm.load loadDlp true beyond)
    | none => .error .undefined
  else
    segment.get maxDepth (segment.curSp + 1)

/-- The next loop is pushed. -/
def push (beyond : Int) (segment : Segment) (cur : Stackelm) :
    Except Halt Progress := do
  let next ← segment.nextElm maxDepth beyond cur
  let loaded ← segment.set maxDepth (segment.curSp + 1)
    (next.start (cur.nextOffset beyond) beyond)
  let stored ← loaded.set maxDepth loaded.curSp { cur with curblock := cur.curblock - 1 }
  .ok ⟨{ stored with curSp := stored.curSp + 1 }, false⟩

/-- One step of the loop of `Segment_manipulate`. -/
def step (segment : Segment) : Except Halt Progress := do
  let cur ← segment.get maxDepth segment.curSp
  if cur.loopP.isFinal then
    if cur.curcount = 0 then
      -- the element below is worked on as if it were the leaf
      let popped := segment.pop
      if popped.returned then .ok popped
      else do
        let below ← popped.segment.get maxDepth popped.segment.curSp
        popped.segment.workPiece maxDepth fns last answer below
    else segment.workPiece maxDepth fns last answer cur
  else if cur.curblock = 0 then
    segment.endBlock maxDepth answer.beyond cur
  else
    segment.push maxDepth answer.beyond cur

/-- The loop of `Segment_manipulate`. -/
def run (answers : Nat → Answer) : Nat → Segment → Except Halt Segment
  | 0, _ => .error .unfinished
  | steps + 1, segment => do
      let progress ← segment.step maxDepth fns last (answers steps)
      if progress.returned then .ok progress.segment
      else run answers steps progress.segment

/-- `DLOOP_SEGMENT_RESET_VALUES` -/
def reset (beyond : Int) (segment : Segment) : Except Halt Segment := do
  let elm ← segment.get maxDepth 0
  let counted := { elm with curcount := elm.origCount }
  let sized := { counted with origBlock := counted.blocksize beyond }
  Segment.set maxDepth { segment with streamOff := 0, curSp := 0 } 0 { sized with
    curblock := sized.origBlock
    curoffset := sized.origOffset + sized.offset beyond }

end Segment

/-- A call of `Segment_manipulate`, with what its piece functions do and a bound on
its steps. -/
structure Call where
  first : Int
  last : Option Int
  fns : PieceFns
  answers : Nat → Answer
  steps : Nat

namespace Segment

/-- A call that begins at a lower offset begins again. -/
def rewind (call : Call) (segment : Segment) : Except Halt Segment :=
  if call.first < segment.streamOff then segment.reset maxDepth (call.answers 0).beyond
  else .ok segment

/-- The segment is moved on to the first offset of a call. -/
def reposition (call : Call) (segment : Segment) : Except Halt Segment :=
  if call.first = segment.streamOff then .ok segment
  else do
    let begun ← segment.rewind maxDepth call
    if call.first = begun.streamOff then .ok begun
    else do
      let moved ← begun.run maxDepth call.fns.noPieces (some call.first) call.answers call.steps
      if moved.streamOff = call.first then .ok moved else .error .assertion

/-- `Segment_manipulate` -/
def manipulate (call : Call) (segment : Segment) : Except Halt Segment :=
  if call.last = some call.first then .ok segment
  else do
    let positioned ← segment.reposition maxDepth call
    positioned.run maxDepth call.fns call.last call.answers call.steps

/-- One call after another. -/
def manipulateAll (segment : Segment) : List Call → Except Halt Segment
  | [] => .ok segment
  | call :: rest => do
      let next ← segment.manipulate maxDepth call
      next.manipulateAll rest

end Segment

end Mpich.Dataloop
