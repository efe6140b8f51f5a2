import Mpich.Romio.Strided.Start

/-!
# The requests of a call

A call wants bytes of the view, from its starting position on, at the places of its
buffer. Its requests hold exactly these, and when they do not go backwards in the file
`end_offset` is behind all of them.
-/

namespace Mpich.Romio.Strided

open List

open Flatten (Block)
open FileView (toInt)

/-- The bytes of the blocks are those of a sequence of places from `done` on. -/
def Tracks
    (memory : Int → Int) : Int → List Block → Prop
  | _, [] => True
  | done, block :: rest =>
    (∀ index, 0 ≤ index → index < block.blocklen → memory (done + index) = block.index + index) ∧
    Tracks memory (done + block.blocklen) rest

theorem tracks_append
    {memory : Int → Int} {done : Int} {blocks later : List Block}
    (first : Tracks memory done blocks)
    (second : Tracks memory (done + FileView.size blocks) later) :
    Tracks memory done (blocks ++ later) := by
  induction blocks generalizing done with
  | nil =>
    rw [show FileView.size [] = 0 from rfl, add_zero] at second
    exact second
  | cons block rest ih =>
    refine ⟨first.1, ih first.2 ?_⟩
    rw [FileView.size_cons, ← add_assoc] at second
    exact second

theorem bytesOf_noncontigInMemory
    {memory : Int → Int} {off done : Int} {blocks : List Block}
    (doneNonneg : 0 ≤ done)
    (nonneg : ∀ block ∈ blocks, 0 ≤ block.blocklen)
    (tracks : Tracks memory done blocks) :
    bytesFrom (off + ·) memory done ++ Call.bytesOf (Call.noncontigInMemory (off + done) blocks) =
      bytesFrom (off + ·) memory (done + FileView.size blocks) := by
  induction blocks generalizing done with
  | nil =>
    rw [show FileView.size [] = 0 from rfl, add_zero]
    exact append_nil _
  | cons block rest ih =>
    have lenNonneg := nonneg block mem_cons_self
    have grown := @bytesFrom_add (off + ·) memory done
      ⟨off + done, block.index, block.blocklen⟩ doneNonneg lenNonneg
      (fun index _ _ => (add_assoc off done index).symm) tracks.1
    have rest := @ih (done + block.blocklen) (by omega)
      (fun other member => nonneg other (mem_cons_of_mem block member)) tracks.2
    rw [FileView.size_cons, ← add_assoc, ← rest]
    rw [grown, Call.noncontigInMemory, append_assoc, ← add_assoc]
    rfl

/-- The requests lie between `off` and the end of the blocks. -/
theorem noncontigInMemory_bounds
    {off : Int} {blocks : List Block}
    (nonneg : ∀ block ∈ blocks, 0 ≤ block.blocklen)
    {request : Request}
    (member : request ∈ Call.noncontigInMemory off blocks) :
    0 ≤ request.reqLen ∧ off ≤ request.reqOff ∧
      request.reqOff + request.reqLen ≤ off + FileView.size blocks := by
  induction blocks generalizing off with
  | nil => cases member
  | cons block rest ih =>
    have lenNonneg := nonneg block mem_cons_self
    have restNonneg : ∀ other ∈ rest, 0 ≤ other.blocklen := fun other isOther =>
      nonneg other (mem_cons_of_mem block isOther)
    have sumNonneg := Tiling.sum_nonneg restNonneg
    rw [FileView.size_cons]
    rcases mem_cons.mp member with rfl | later
    · refine ⟨lenNonneg, le_rfl, ?_⟩
      dsimp only
      omega
    · obtain ⟨isLen, lower, upper⟩ := ih restNonneg later
      exact ⟨isLen, by omega, by omega⟩

theorem noncontigInMemory_forward
    {off : Int} {blocks : List Block}
    (nonneg : ∀ block ∈ blocks, 0 ≤ block.blocklen) :
    (Call.noncontigInMemory off blocks).Pairwise fun request later =>
      request.reqOff ≤ later.reqOff := by
  induction blocks generalizing off with
  | nil => exact .nil
  | cons block rest ih =>
    have lenNonneg := nonneg block mem_cons_self
    have restNonneg : ∀ other ∈ rest, 0 ≤ other.blocklen := fun other isOther =>
      nonneg other (mem_cons_of_mem block isOther)
    refine pairwise_cons.mpr ⟨fun later member => ?_, ih restNonneg⟩
    obtain ⟨_, lower, _⟩ := noncontigInMemory_bounds restNonneg member
    dsimp only
    omega

/-- The blocks of a copy are those of the cursors on it. -/
theorem tracks_copy
    (buffer : Tiling)
    (copy : Int)
    {blocks : List Block}
    (isSuffix : blocks <:+ buffer.blocks) :
    Tracks buffer.position (copy * buffer.size + (buffer.size - FileView.size blocks))
      (blocks.map fun block => ⟨copy * buffer.extent + block.index, block.blocklen⟩) := by
  induction blocks with
  | nil => trivial
  | cons block rest ih =>
    have has : buffer.Has ⟨copy, block, rest⟩ := isSuffix
    refine ⟨fun index nonneg inside => ?_, ?_⟩
    · have place := has.position nonneg inside
      unfold Tiling.before Tiling.start at place
      dsimp only at place ⊢
      omega
    · have later := ih ((suffix_cons block rest).trans isSuffix)
      rw [FileView.size_cons]
      rw [show copy * buffer.size +
          (buffer.size - (block.blocklen + FileView.size rest)) + block.blocklen =
        copy * buffer.size + (buffer.size - FileView.size rest) by omega]
      exact later

theorem size_shift
    (distance : Int)
    (blocks : List Block) :
    FileView.size (blocks.map fun block => ⟨distance + block.index, block.blocklen⟩) =
      FileView.size blocks := by
  unfold FileView.size
  rw [map_map]
  rfl

/-- The blocks of `count` copies. -/
def copiesOf
    (buffer : Tiling)
    (count : Nat) : List Block :=
  (List.range count).flatMap fun (copy : Nat) =>
    buffer.blocks.map fun block => ⟨copy * buffer.extent + block.index, block.blocklen⟩

theorem copiesOf_succ
    (buffer : Tiling)
    (count : Nat) :
    copiesOf buffer (count + 1) = copiesOf buffer count ++
      buffer.blocks.map fun block => ⟨count * buffer.extent + block.index, block.blocklen⟩ := by
  unfold copiesOf
  rw [range_succ, flatMap_append, flatMap_singleton]

theorem copiesOf_spec
    (buffer : Tiling)
    (count : Nat) :
    FileView.size (copiesOf buffer count) = buffer.size * count ∧
      (∀ block ∈ copiesOf buffer count, 0 ≤ block.blocklen) ∧
      Tracks buffer.position 0 (copiesOf buffer count) := by
  induction count with
  | zero =>
    refine ⟨?_, nofun, trivial⟩
    rw [Int.natCast_zero, mul_zero]
    rfl
  | succ count ih =>
    obtain ⟨isSize, nonneg, tracks⟩ := ih
    rw [copiesOf_succ]
    refine ⟨?_, ?_, ?_⟩
    · rw [Tiling.size_append, isSize, size_shift, Int.natCast_succ, mul_add, mul_one]
      rfl
    · intro block member
      rcases mem_append.mp member with isEarlier | isLast
      · exact nonneg block isEarlier
      · obtain ⟨original, isOriginal, rfl⟩ := mem_map.mp isLast
        exact buffer.blocklen_nonneg original isOriginal
    · refine tracks_append tracks ?_
      have copy := tracks_copy buffer count suffix_rfl
      rw [show FileView.size buffer.blocks = buffer.size from rfl, sub_self,
        add_zero] at copy
      rw [zero_add, isSize, mul_comm]
      exact copy

namespace Call

variable {call : Call}

/-- Where the byte of the view with `count` bytes in front of it lies in the file. -/
def filePosition
    (call : Call)
    (count : Int) : Int :=
  match call.filetype with
  | .flat tiling => call.disp + tiling.position count
  | _ => call.disp + count

/-- Where the byte with `count` bytes in front of it lies in the buffer. -/
def bufferPosition
    (call : Call)
    (count : Int) : Int :=
  match call.datatype with
  | .flat buffer => buffer.position count
  | _ => count

/-- The bytes of the view from the starting position on, laid out by the buffer type. -/
def wanted
    (call : Call)
    (first : Int) : List (Int × Int) :=
  if call.filetype.size = 0 then []
  else bytesFrom (fun index => call.filePosition (first + index)) call.bufferPosition
    (call.datatype.size * call.count)

/-- Not everything is contiguous, as the callers make sure, and a buffer type that has no
block meets a contiguous view only. -/
def Callable
    (call : Call) : Prop :=
  match call.filetype, call.datatype with
  | .contig _, .contig _ => False
  | .flat _, .empty => False
  | _, _ => True

/-- What a call needs besides a file that is long enough. -/
structure Regular
    (call : Call)
    (first : Int) : Prop where
  callable : call.Callable
  fits : call.datatype.size * call.count < 2 ^ 31
  starts : call.StartsAt first
  copies : ∀ tiling, call.filetype = .flat tiling → call.CopiesFit tiling first
  offsets : ∀ tiling buffer, call.filetype = .flat tiling → call.datatype = .flat buffer →
    call.OffsetsFit buffer
  /-- The bytes of the view do not go backwards in the file. -/
  inOrder : ∀ earlier later, 0 ≤ earlier → earlier ≤ later →
    later < call.datatype.size * call.count →
      call.filePosition (first + earlier) ≤ call.filePosition (first + later)

end Call

/-- The requests begin one behind the other and in front of `end_offset`, and an empty
one does not lie in front of the file. -/
structure Walk.InOrder
    (walk : Walk) : Prop where
  empty : ∀ request ∈ walk.requests, request.reqLen = 0 → 0 ≤ request.reqOff
  forward : walk.requests.Pairwise fun request later => request.reqOff ≤ later.reqOff
  within : ∀ request ∈ walk.requests, 0 ≤ request.reqLen ∧ request.reqOff ≤ walk.endOffset + 1 ∧
    (0 < request.reqLen → request.reqOff ≤ walk.endOffset)

namespace Call

variable {call : Call} {first : Int}

theorem contigOff_nonneg
    {fileSize : Nat}
    (isFile : call.filetype = .contig fileSize)
    (starts : call.StartsAt first) :
    0 ≤ call.contigOff := by
  have isDisp := call.disp_nonneg
  unfold StartsAt at starts
  rw [isFile] at starts
  unfold contigOff
  cases isPtr : call.filePtr with
  | individual =>
    rw [isPtr] at starts
    dsimp only
    omega
  | explicitOffset offset =>
    exact Int.add_nonneg isDisp (mul_nonneg call.etypeSize_pos.le (Int.natCast_nonneg offset))

/-- The requests of a call with a contiguous view. -/
theorem walk_contig
    {size : Nat}
    (regular : call.Regular first)
    (isFile : call.filetype = .contig size)
    (nonempty : call.filetype.size ≠ 0) :
    ∃ walk, Yields call.walk walk ∧ bytesOf walk.requests = call.wanted first ∧ walk.InOrder := by
  have isOff : call.contigOff = call.disp + first := by
    have starts := regular.starts
    unfold StartsAt at starts
    rw [isFile] at starts
    unfold contigOff
    cases isPtr : call.filePtr with
    | individual =>
      rw [isPtr] at starts
      exact starts.2
    | explicitOffset offset =>
      rw [isPtr] at starts
      have isFirst : first = offset * call.etypeSize := starts
      rw [isFirst, mul_comm (offset : Int)]
  have filePosition_eq : ∀ count, call.filePosition count = call.disp + count := by
    intro count
    unfold filePosition
    rw [isFile]
  have isFilePlace : (fun index => call.filePosition (first + index)) = (call.contigOff + ·) := by
    funext index
    rw [filePosition_eq, isOff, add_assoc]
  -- What there is to prove about the blocks of the buffer, whichever they are.
  have blocks : FileView.size call.bufferBlocks = call.bufsize ∧
      (∀ block ∈ call.bufferBlocks, 0 ≤ block.blocklen) ∧
      Tracks call.bufferPosition 0 call.bufferBlocks := by
    have callable := regular.callable
    unfold Callable at callable
    rw [isFile] at callable
    rw [bufsize_eq regular.fits]
    unfold bufferBlocks bufferPosition
    cases isType : call.datatype with
    | contig size =>
      rw [isType] at callable
      exact callable.elim
    | empty =>
      refine ⟨?_, nofun, trivial⟩
      rw [show Datatype.empty.size = 0 from rfl, zero_mul]
      rfl
    | flat buffer => exact copiesOf_spec buffer call.count
  obtain ⟨isSize, nonneg, tracks⟩ := blocks
  refine ⟨⟨noncontigInMemory call.contigOff call.bufferBlocks, call.contigOff + call.bufsize - 1,
    call.contigOff + (call.bufferBlocks.map Block.blocklen).sum⟩, .of_eq fun _ => ?_, ?_, ?_⟩
  · have callable := regular.callable
    unfold Callable at callable
    unfold walk
    rw [isFile] at callable ⊢
    cases isType : call.datatype with
    | contig size =>
      rw [isType] at callable
      exact callable.elim
    | empty => rfl
    | flat buffer => rfl
  · have bytes := @bytesOf_noncontigInMemory call.bufferPosition call.contigOff 0
      call.bufferBlocks le_rfl nonneg tracks
    rw [bytesFrom_zero, nil_append, add_zero, zero_add, isSize] at bytes
    unfold wanted
    rw [if_neg nonempty, isFilePlace, ← bufsize_eq regular.fits, ← bytes]
  · refine ⟨fun request member _ => (contigOff_nonneg isFile regular.starts).trans
      (noncontigInMemory_bounds nonneg member).2.1, noncontigInMemory_forward nonneg,
      fun request member => ?_⟩
    obtain ⟨lenNonneg, lower, upper⟩ := noncontigInMemory_bounds nonneg member
    refine ⟨lenNonneg, ?_, fun some => ?_⟩
    · dsimp only
      omega
    · dsimp only
      omega

theorem getLast?_bytesFrom
    {file memory : Int → Int} {count : Int}
    (positive : 0 < count) :
    (bytesFrom file memory count).getLast? = some (file (count - 1), memory (count - 1)) := by
  have isCount : count.toNat = (count - 1).toNat + 1 := by omega
  unfold bytesFrom
  rw [isCount, range_succ, map_append, map_singleton,
    getLast?_append_of_ne_nil _ (cons_ne_nil _ _), getLast?_singleton]
  have isLast : (((count - 1).toNat : Nat) : Int) = count - 1 := by omega
  rw [isLast]

theorem getLast?_bytes
    {request : Request}
    (positive : 0 < request.reqLen) :
    request.bytes.getLast? = some
      (request.reqOff + (request.reqLen - 1), request.userbufOff + (request.reqLen - 1)) :=
  @getLast?_bytesFrom (request.reqOff + ·) (request.userbufOff + ·) request.reqLen positive

/-- Requests begin one behind the other when their bytes lie one behind the other. -/
theorem forward_of_bytes
    {requests : List Request}
    (some : ∀ request ∈ requests, 0 < request.reqLen)
    (inOrder : (bytesOf requests).Pairwise fun byte later => byte.1 ≤ later.1) :
    requests.Pairwise fun request later => request.reqOff ≤ later.reqOff := by
  have begins : ∀ request : Request, 0 < request.reqLen →
      (request.reqOff, request.userbufOff) ∈ request.bytes := by
    intro request positive
    refine mem_map.mpr ⟨0, mem_range.mpr (by omega), ?_⟩
    rw [Int.natCast_zero, add_zero, add_zero]
  induction requests with
  | nil => exact .nil
  | cons request rest ih =>
    obtain ⟨_, restInOrder, between⟩ := pairwise_append.mp inOrder
    refine pairwise_cons.mpr ⟨fun later member => ?_, ih
      (fun other isOther => some other (mem_cons_of_mem request isOther)) restInOrder⟩
    exact between _ (begins request (some request mem_cons_self)) _
      (mem_flatMap.mpr ⟨later, member, begins later (some later (mem_cons_of_mem request member))⟩)

/-- Requests that go forward begin in front of the last byte. -/
theorem inOrder_of_cuts
    {file memory : Int → Int} {walk : Walk}
    (cuts : Cuts file memory call.bufsize walk.requests)
    (isEnd : 0 < call.bufsize → walk.endOffset = file (call.bufsize - 1))
    (inOrder : ∀ earlier later, 0 ≤ earlier → earlier ≤ later → later < call.bufsize →
      file earlier ≤ file later) :
    walk.InOrder := by
  have forward : walk.requests.Pairwise fun request later =>
      request.reqOff ≤ later.reqOff := by
    apply forward_of_bytes cuts.some
    rw [cuts.bytes]
    refine pairwise_map.mpr (pairwise_lt_range.imp_of_mem ?_)
    intro earlier later _ isLater less
    have inside := mem_range.mp isLater
    exact inOrder earlier later (Int.natCast_nonneg earlier) (by omega) (by omega)
  refine ⟨fun request member isEmpty => ?_, forward, fun request member => ?_⟩
  · have positive := cuts.some request member
    omega
  have positive := cuts.some request member
  rcases eq_nil_or_concat walk.requests with isNil | ⟨front, last, isSplit⟩
  · rw [isNil] at member
    cases member
  rw [concat_eq_append] at isSplit
  have isLast : last ∈ walk.requests := by
    rw [isSplit]
    exact mem_append_right _ mem_cons_self
  have lastPositive := cuts.some last isLast
  have bytes := cuts.bytes
  rw [isSplit, bytesOf, flatMap_append, flatMap_singleton] at bytes
  have ends := congrArg getLast? bytes
  rw [getLast?_append, getLast?_bytes lastPositive, Option.some_or] at ends
  have wanted : 0 < call.bufsize := by
    by_contra none
    have isEmpty : call.bufsize.toNat = 0 := by omega
    rw [bytesFrom, isEmpty] at ends
    cases ends
  rw [getLast?_bytesFrom wanted] at ends
  have isFile := congrArg Prod.fst (Option.some.inj ends)
  have order : request.reqOff ≤ last.reqOff := by
    rw [isSplit] at member forward
    rcases mem_append.mp member with inFront | isOther
    · exact pairwise_append.mp forward |>.2.2 request inFront last mem_cons_self
    · rw [mem_singleton.mp isOther]
  exact ⟨positive.le, by omega, fun _ => by omega⟩

/-- The requests of a call whose view is not contiguous. -/
theorem walk_flat
    {tiling : Tiling}
    (regular : call.Regular first)
    (isFile : call.filetype = .flat tiling)
    (nonempty : call.filetype.size ≠ 0) :
    ∃ walk, Yields call.walk walk ∧ bytesOf walk.requests = call.wanted first ∧ walk.InOrder := by
  have isSize : call.filetype.size = tiling.size := by rw [isFile]; rfl
  have positive : 0 < tiling.size := by
    have nonneg := tiling.size_nonneg
    omega
  have fit := regular.copies tiling isFile
  obtain ⟨start, started, isOff, isOn⟩ := start_yields isFile positive regular.starts
  obtain ⟨last, ended, isLast⟩ := endOffset_yields fit positive isOff isOn
  have isView : (fun index => call.filePosition (first + index)) = call.viewFrom tiling first := by
    funext index
    unfold filePosition viewFrom
    rw [isFile]
  have isEnd : 0 < call.bufsize → last = call.viewFrom tiling first (call.bufsize - 1) := by
    intro some
    rw [isLast some]
    unfold viewFrom
    rw [Int.add_sub_assoc]
  -- The loop and what follows from its requests, for either kind of buffer.
  have finish : ∀ (walk : Walk), walk.endOffset = last → Yields call.walk walk →
      Cuts (call.viewFrom tiling first) call.bufferPosition call.bufsize walk.requests →
        ∃ walk, Yields call.walk walk ∧ bytesOf walk.requests = call.wanted first ∧
          walk.InOrder := by
    intro walk isEndOffset yields cuts
    refine ⟨walk, yields, ?_, ?_⟩
    · unfold wanted
      rw [if_neg nonempty, isView, ← bufsize_eq regular.fits]
      exact cuts.bytes
    · refine inOrder_of_cuts cuts ?_ ?_
      · rw [isEndOffset]
        exact isEnd
      · rw [← isView, bufsize_eq regular.fits]
        exact regular.inOrder
  have nonneg := bufsize_nonneg regular.fits
  have callable := regular.callable
  unfold Callable at callable
  rw [isFile] at callable
  cases isType : call.datatype with
  | empty =>
    rw [isType] at callable
    exact callable.elim
  | contig size =>
    obtain ⟨final, looped, cuts⟩ := @contigInMemory_yields call tiling first fit positive
      start isOff isOn nonneg
    have isPosition : call.bufferPosition = id := by
      funext count
      unfold bufferPosition
      rw [isType]
      rfl
    refine finish ⟨final.requests, last, final.off⟩ rfl ?_ (by rw [isPosition]; exact cuts)
    have computed : Yields (fun fuel => (call.start tiling fuel).bind fun start =>
        (call.endOffset tiling start fuel).bind fun endOffset =>
          (call.contigInMemory tiling start fuel).map fun final =>
            (⟨final.requests, endOffset, final.off⟩ : Walk))
        ⟨final.requests, last, final.off⟩ := by
      refine started.bind (ended.bind ?_)
      exact looped.map fun final => (⟨final.requests, last, final.off⟩ : Walk)
    refine computed.congr fun fuel => ?_
    unfold walk
    rw [isFile, isType]
  | flat buffer =>
    have isBufsize : call.bufsize = buffer.size * call.count := by
      rw [bufsize_eq regular.fits, isType]
      rfl
    obtain ⟨final, looped, cuts⟩ := @noncontigInBoth_yields call tiling buffer first fit
      positive isBufsize (regular.offsets tiling buffer isFile isType) nonneg start isOff isOn
    have isPosition : call.bufferPosition = buffer.position := by
      funext count
      unfold bufferPosition
      rw [isType]
    refine finish ⟨final.requests, last, final.file.off⟩ rfl ?_ (by rw [isPosition]; exact cuts)
    have computed : Yields (fun fuel => (call.start tiling fuel).bind fun start =>
        (call.endOffset tiling start fuel).bind fun endOffset =>
          (call.noncontigInBoth tiling buffer start fuel).map fun final =>
            (⟨final.requests, endOffset, final.file.off⟩ : Walk))
        ⟨final.requests, last, final.file.off⟩ := by
      refine started.bind (ended.bind ?_)
      exact looped.map fun final => (⟨final.requests, last, final.file.off⟩ : Walk)
    refine computed.congr fun fuel => ?_
    unfold walk
    rw [isFile, isType]

/-- The loops of a call cut what it wants. -/
theorem walk_yields
    (regular : call.Regular first)
    (nonempty : call.filetype.size ≠ 0) :
    ∃ walk, Yields call.walk walk ∧ bytesOf walk.requests = call.wanted first ∧ walk.InOrder := by
  cases isFile : call.filetype with
  | contig size => exact walk_contig regular isFile nonempty
  | empty =>
    rw [isFile] at nonempty
    exact absurd rfl nonempty
  | flat tiling => exact walk_flat regular isFile nonempty

end Mpich.Romio.Strided.Call
