import Mpich.Romio.Strided.Sieve

/-!
# Sieving reads and naive reads

Both functions read what the file has of the bytes that a call wants. Behind the end of
the file the naive function leaves the user buffer as it is, while the sieving function
copies what it has in its own buffer there, which nothing has been read into. So the
two agree on the files that have every byte that is wanted.
-/

namespace Mpich.Romio.Strided

open List Option

open Flatten (Block)
open FileView (toInt)

variable {file : File}

/-- The naive function reads what the file has. -/
theorem naiveRead_eq
    {requests : List Request}
    (nonneg : ∀ request ∈ requests, 0 ≤ request.reqOff ∧ 0 ≤ request.reqLen)
    (memory : Int → Byte) :
    Call.naiveRead file requests memory =
      some (lay memory (readsOf file (Call.bytesOf requests))) := by
  induction requests generalizing memory with
  | nil => rfl
  | cons request rest ih =>
    obtain ⟨offNonneg, lenNonneg⟩ := nonneg request mem_cons_self
    have isRest := ih fun other member =>
      nonneg other (mem_cons_of_mem request member)
    have isBytes : Call.bytesOf (request :: rest) = request.bytes ++ Call.bytesOf rest :=
      flatMap_cons
    rw [Call.naiveRead, readContig_eq offNonneg lenNonneg, bind_some, isRest,
      isBytes, readsOf_append, lay_append]

/-- It does not read at a negative offset. -/
theorem nonneg_of_naiveRead
    {requests : List Request} {memory final : Int → Byte}
    (returned : Call.naiveRead file requests memory = some final) :
    ∀ request ∈ requests, 0 ≤ request.reqOff := by
  induction requests generalizing memory with
  | nil => exact nofun
  | cons request rest ih =>
    obtain ⟨middle, isRead, isRest⟩ := bind_eq_some_iff.mp returned
    intro other member
    rcases mem_cons.mp member with rfl | later
    · unfold readContig at isRead
      split at isRead
      case isTrue taken => exact taken.1
      case isFalse => cases isRead
    · exact ih isRest other later

/-- When the file has all of the bytes, what has been copied is what it has. -/
theorem readsOf_of_copied
    {bytes : List (Int × Int)} {writes : List (Int × Byte)}
    (inFile : ∀ byte ∈ bytes, byte.1 < (file.size : Int))
    (copied : List.Forall₂ (Copied file) bytes writes) :
    writes = readsOf file bytes := by
  induction copied with
  | nil => rfl
  | @cons byte write bytes writes isCopied _ ih =>
    have isInFile := inFile byte mem_cons_self
    have rest := ih fun other member =>
      inFile other (mem_cons_of_mem byte member)
    rw [rest]
    have isFirst : write = (byte.2, file.contents byte.1.toNat) :=
      Prod.ext isCopied.1 (isCopied.2 isInFile)
    have isRest : readsOf file (byte :: bytes) =
        (byte.2, file.contents byte.1.toNat) :: readsOf file bytes := by
      unfold readsOf
      rw [filter_cons, if_pos (decide_eq_true isInFile), map_cons]
    rw [isRest, isFirst]

/-- Every byte has been copied to its place. -/
theorem exists_write_of_copied
    {bytes : List (Int × Int)} {writes : List (Int × Byte)}
    (copied : List.Forall₂ (Copied file) bytes writes)
    {byte : Int × Int}
    (member : byte ∈ bytes) :
    ∃ write ∈ writes, write.1 = byte.2 := by
  induction copied with
  | nil => cases member
  | @cons first write bytes writes isCopied _ ih =>
    rcases mem_cons.mp member with rfl | later
    · exact ⟨write, mem_cons_self, isCopied.1⟩
    · obtain ⟨found, isFound, isPlace⟩ := ih later
      exact ⟨found, mem_cons_of_mem write isFound, isPlace⟩

namespace Call

variable {call : Call} {first : Int} {size : Nat} {maxBufsize : Int}

/-- The file has every byte that the call wants. -/
def InFile
    (call : Call)
    (first : Int)
    (size : Nat) : Prop :=
  ∀ byte ∈ call.wanted first, 0 ≤ byte.1 ∧ byte.1 < size

instance : Decidable (call.InFile first size) :=
  inferInstanceAs (Decidable (∀ byte ∈ call.wanted first, 0 ≤ byte.1 ∧ byte.1 < size))

/-- No place of the user buffer is written twice. -/
def DistinctPlaces
    (call : Call)
    (first : Int) : Prop :=
  ((call.wanted first).map Prod.snd).Nodup

instance : Decidable (call.DistinctPlaces first) :=
  inferInstanceAs (Decidable ((call.wanted first).map Prod.snd).Nodup)

/-- With any contents of the file, of the memory and of new allocations both functions
return, so that no access has left an allocation, and leave the same file pointer and
what the file has of the wanted bytes in the user buffer. -/
def ReadsAgree
    (call : Call)
    (first : Int)
    (size : Nat)
    (maxBufsize : Int) : Prop :=
  ∀ (contents : Nat → Byte) (garbage : Nat → Int → Byte) (memory : Int → Byte), ∃ fpInd,
      Yields (call.readStrided ⟨size, contents⟩ maxBufsize garbage memory)
        (lay memory (readsOf ⟨size, contents⟩ (call.wanted first)), fpInd) ∧
      Yields (call.readStridedNaive ⟨size, contents⟩ memory)
        (lay memory (readsOf ⟨size, contents⟩ (call.wanted first)), fpInd)

variable {walk : Walk}

/-- The requests of a contiguous view lie behind `off`. -/
theorem walk_behind
    {fileSize : Nat}
    (isFile : call.filetype = .contig fileSize)
    (yields : Yields call.walk walk) :
    (∀ request ∈ walk.requests, call.contigOff ≤ request.reqOff) ∧
      walk.endOffset = call.contigOff + call.bufsize - 1 := by
  obtain ⟨fuel, walked⟩ := yields
  have returned := walked fuel le_rfl
  have nonneg : ∀ block ∈ call.bufferBlocks, 0 ≤ block.blocklen := by
    unfold bufferBlocks
    split
    case h_1 buffer _ => exact (copiesOf_spec buffer call.count).2.1
    case h_2 => exact nofun
  unfold Call.walk at returned
  rw [isFile] at returned
  cases isType : call.datatype with
  | contig bytes =>
    rw [isType] at returned
    cases returned
  | empty | flat =>
    rw [isType] at returned
    cases returned
    exact ⟨fun request member => (noncontigInMemory_bounds nonneg member).2.1, rfl⟩

/-- The first window holds what the file has, and no request is in front of it. -/
theorem firstWindow_holds
    {sieving : Sieving}
    (regular : call.Regular first)
    (yields : Yields call.walk walk)
    (isEnd : sieving.endOffset = walk.endOffset)
    (positive : 0 < sieving.maxBufsize)
    (fits : sieving.maxBufsize < 2 ^ 31)
    (nonneg : ∀ request ∈ walk.requests, 0 ≤ request.reqOff) :
    ∃ sieve, call.firstWindow sieving = some sieve ∧ sieving.Holds sieve ∧
      ∀ request ∈ walk.requests, sieve.readbufOff ≤ request.reqOff := by
  have mallocHolds := Sieving.malloc_holds sieving positive.le
  unfold firstWindow
  cases isFile : call.filetype with
  | contig fileSize =>
    obtain ⟨behind, isOffset⟩ := walk_behind isFile yields
    have bufsizeNonneg := bufsize_nonneg regular.fits
    obtain ⟨sieve, isSieve, holds, isOff, _⟩ := Sieving.window_holds mallocHolds
      positive.le fits (contigOff_nonneg isFile regular.starts) (by omega)
    refine ⟨sieve, isSieve, holds, fun request member => ?_⟩
    rw [isOff]
    exact behind request member
  | empty => exact ⟨_, rfl, mallocHolds, nonneg⟩
  | flat tiling => exact ⟨_, rfl, mallocHolds, nonneg⟩

/-- The requests of a call are at non-negative offsets when the wanted bytes are. -/
theorem requests_nonneg
    (inOrder : walk.InOrder)
    (isWanted : bytesOf walk.requests = call.wanted first)
    (nonneg : ∀ byte ∈ call.wanted first, 0 ≤ byte.1) :
    ∀ request ∈ walk.requests, 0 ≤ request.reqOff := by
  intro request member
  obtain ⟨lenNonneg, _⟩ := inOrder.within request member
  rcases Int.lt_or_eq_of_le lenNonneg with positive | isEmpty
  · refine nonneg (request.reqOff, request.userbufOff) ?_
    rw [← isWanted]
    refine mem_flatMap.mpr ⟨request, member, mem_map.mpr ⟨0, mem_range.mpr (by omega), ?_⟩⟩
    rw [Int.natCast_zero, add_zero, add_zero]
  · exact inOrder.empty request member isEmpty.symm

/-- No request is longer than the buffer. -/
theorem reqLen_le
    (isWanted : bytesOf walk.requests = call.wanted first)
    {request : Request}
    (member : request ∈ walk.requests) :
    request.reqLen ≤ call.datatype.size * call.count := by
  have nonneg := call.size_mul_count_nonneg
  have isLength : request.bytes.length = request.reqLen.toNat := by
    unfold Request.bytes
    rw [length_map, length_range]
  have isShort : request.bytes.length ≤ (call.wanted first).length := by
    rw [← isWanted]
    exact (sublist_flatten_of_mem (mem_map_of_mem member)).length_le
  have wantedLength : (call.wanted first).length ≤ (call.datatype.size * call.count).toNat := by
    unfold wanted
    split
    case isTrue => exact Nat.zero_le _
    case isFalse =>
      unfold bytesFrom
      rw [length_map, length_range]
  omega

section

variable
    (regular : call.Regular first)

include regular

/-- The naive function leaves what the file has, and the other one what it has copied
for each byte, with the same file pointer. -/
theorem reads_yield (nonneg : ∀ byte ∈ call.wanted first, 0 ≤ byte.1) :
    ∃ fpInd, ∀ file : File, (∀ memory, Yields (call.readStridedNaive file memory)
        (lay memory (readsOf file (call.wanted first)), fpInd)) ∧
      ∀ maxBufsize garbage, 1 ≤ maxBufsize →
        maxBufsize + call.datatype.size * call.count < 2 ^ 31 →
        ∃ writes, List.Forall₂ (Copied file) (call.wanted first) writes ∧
          ∀ memory, Yields (call.readStrided file maxBufsize garbage memory)
            (lay memory writes, fpInd) := by
  by_cases isEmpty : call.filetype.size = 0
  · have nothing : call.wanted first = [] := if_pos isEmpty
    rw [nothing]
    refine ⟨call.fpInd, fun file => ⟨fun memory => .of_eq fun _ => if_pos isEmpty,
      fun maxBufsize garbage _ _ => ⟨[], .nil, fun memory => .of_eq fun _ => if_pos isEmpty⟩⟩⟩
  obtain ⟨walk, yields, isWanted, inOrder⟩ := walk_yields regular isEmpty
  have offsNonneg := requests_nonneg inOrder isWanted nonneg
  refine ⟨call.nextFpInd walk.off, fun file => ⟨fun memory => ?_, ?_⟩⟩
  · have isRead := @naiveRead_eq file walk.requests
      (fun request member => ⟨offsNonneg request member, (inOrder.within request member).1⟩)
    have computed : Yields (fun fuel => (call.walk fuel).bind fun walk =>
        (naiveRead file walk.requests memory).map fun memory =>
          (memory, call.nextFpInd walk.off))
        (lay memory (readsOf file (call.wanted first)), call.nextFpInd walk.off) := by
      refine yields.bind (.of_eq fun _ => ?_)
      rw [isRead memory, isWanted, map_some]
    exact computed.congr fun fuel => if_neg isEmpty
  · intro maxBufsize garbage positive fits
    have sizeNonneg := call.size_mul_count_nonneg
    obtain ⟨sieve, isSieve, holds, behind⟩ := @firstWindow_holds call first walk
      ⟨file, maxBufsize, walk.endOffset, garbage⟩ regular yields rfl positive
      (by dsimp only; omega) offsNonneg
    obtain ⟨writes, copied, reads⟩ := @bufferedRead_yields sieve
      ⟨file, maxBufsize, walk.endOffset, garbage⟩ positive walk.requests holds
      inOrder.forward behind
      (fun request member => by
        have isShort := reqLen_le isWanted member
        dsimp only
        omega)
      inOrder.within
    rw [isWanted] at copied
    refine ⟨writes, copied, fun memory => ?_⟩
    have computed : Yields (fun fuel => (call.walk fuel).bind fun walk =>
        let sieving : Sieving := ⟨file, maxBufsize, walk.endOffset, garbage⟩
        (call.firstWindow sieving).bind fun sieve =>
          (sieving.bufferedRead fuel walk.requests sieve memory).map fun memory =>
            (memory, call.nextFpInd walk.off))
        (lay memory writes, call.nextFpInd walk.off) := by
      refine yields.bind ?_
      refine ((reads memory).map fun memory => (memory, call.nextFpInd walk.off)).congr
        fun fuel => ?_
      dsimp only
      rw [isSieve, bind_some]
    exact computed.congr fun fuel => if_neg isEmpty

/-- On a file that has every wanted byte the two agree. -/
theorem readsAgree_of_inFile
    (positive : 1 ≤ maxBufsize)
    (fits : maxBufsize + call.datatype.size * call.count < 2 ^ 31)
    (inFile : call.InFile first size) :
    call.ReadsAgree first size maxBufsize := by
  obtain ⟨fpInd, both⟩ := reads_yield regular fun byte member => (inFile byte member).1
  intro contents garbage memory
  obtain ⟨naive, sieving⟩ := both ⟨size, contents⟩
  obtain ⟨writes, copied, reads⟩ := sieving maxBufsize garbage positive fits
  have isRead := readsOf_of_copied (fun byte member => (inFile byte member).2) copied
  rw [← isRead] at naive ⊢
  exact ⟨fpInd, reads memory, naive memory⟩

/-- No byte is wanted in front of the file when the naive function returns. -/
theorem nonneg_of_readsAgree (agree : call.ReadsAgree first size maxBufsize) :
    ∀ byte ∈ call.wanted first, 0 ≤ byte.1 := by
  intro byte member
  have nonempty : call.filetype.size ≠ 0 := by
    intro isEmpty
    rw [wanted, if_pos isEmpty] at member
    cases member
  obtain ⟨walk, yields, isWanted, _⟩ := walk_yields regular nonempty
  obtain ⟨fpInd, _, bound, naive⟩ := agree (fun _ => 0) (fun _ _ => 0) (fun _ => 0)
  obtain ⟨other, walked⟩ := yields
  have returned := naive (max bound other) (le_max_left _ _)
  unfold readStridedNaive at returned
  rw [if_neg nonempty, walked _ (le_max_right _ _), bind_some] at returned
  obtain ⟨final, isRead, _⟩ := map_eq_some_iff.mp returned
  rw [← isWanted] at member
  obtain ⟨request, isRequest, inside⟩ := mem_flatMap.mp member
  obtain ⟨index, _, rfl⟩ := mem_map.mp inside
  exact Int.add_nonneg (nonneg_of_naiveRead isRead request isRequest) (Int.natCast_nonneg index)

/-- Where the two agree the file has every wanted byte: what the sieving function writes
does not depend on what the memory holds. -/
theorem inFile_of_readsAgree
    (positive : 1 ≤ maxBufsize)
    (fits : maxBufsize + call.datatype.size * call.count < 2 ^ 31)
    (distinct : call.DistinctPlaces first)
    (agree : call.ReadsAgree first size maxBufsize) :
    call.InFile first size := by
  have nonneg := nonneg_of_readsAgree regular agree
  refine fun byte member => ⟨nonneg byte member, ?_⟩
  by_contra behind
  obtain ⟨fpInd, both⟩ := reads_yield regular nonneg
  obtain ⟨writes, copied, reads⟩ := (both ⟨size, fun _ => 0⟩).2 maxBufsize
    (fun _ _ => 0) positive fits
  have isLeft : ∀ memory : Int → Byte, lay memory writes byte.2 = memory byte.2 := by
    intro memory
    obtain ⟨other, sieved, _⟩ := agree (fun _ => 0) (fun _ _ => 0) memory
    have same := congrArg Prod.fst ((reads memory).unique sieved)
    dsimp only at same
    rw [same]
    apply lay_of_notMem
    intro write isWrite isPlace
    obtain ⟨found, isFound, rfl⟩ := mem_map.mp isWrite
    obtain ⟨isWanted, inFile⟩ := mem_filter.mp isFound
    have isSame : found = byte := inj_on_of_nodup_map distinct isWanted member isPlace
    rw [isSame] at inFile
    exact behind (of_decide_eq_true inFile)
  obtain ⟨write, isWrite, isPlace⟩ := exists_write_of_copied copied member
  have independent := lay_of_mem (fun _ => 0) (fun _ => 1) ⟨write, isWrite, isPlace⟩
  rw [isLeft, isLeft] at independent
  exact absurd independent (by decide)

/-- The sieving function and the naive function agree on a file if and only if it has
every byte that the call wants. -/
theorem readsAgree_iff_inFile
    (positive : 1 ≤ maxBufsize)
    (fits : maxBufsize + call.datatype.size * call.count < 2 ^ 31) :
    (call.InFile first size → call.ReadsAgree first size maxBufsize) ∧
      (call.DistinctPlaces first → call.ReadsAgree first size maxBufsize →
        call.InFile first size) :=
  ⟨readsAgree_of_inFile regular positive fits, inFile_of_readsAgree regular positive fits⟩

end

/-- Two bytes of the file with a gap between them. -/
def twoBytes : Call where
  disp := 0
  etypeSize := 1
  filetype := .flat ⟨⟨0, 1⟩, [⟨2, 1⟩], 4, by decide, by decide⟩
  fpInd := 0
  datatype := .contig 2
  count := 1
  filePtr := .explicitOffset 0
  disp_nonneg := le_rfl
  etypeSize_pos := Int.one_pos
  divides := Int.one_dvd _

theorem twoBytes_regular : twoBytes.Regular 0 where
  callable := trivial
  fits := by decide
  starts := ⟨rfl, by decide⟩
  copies := by
    rintro tiling ⟨⟩
    exact ⟨le_rfl, by decide⟩
  offsets := by
    intro _ _ _ isType
    cases isType
  inOrder := by
    intro earlier later nonneg order less
    change later < 2 at less
    obtain ⟨isEarlier, isLater⟩ | ⟨isEarlier, isLater⟩ | ⟨isEarlier, isLater⟩ :
        (earlier = 0 ∧ later = 0) ∨ (earlier = 0 ∧ later = 1) ∨
          (earlier = 1 ∧ later = 1) := by omega
    all_goals
      subst isEarlier isLater
      decide

theorem readsAgree_twoBytes : twoBytes.ReadsAgree 0 3 1 :=
  (readsAgree_iff_inFile twoBytes_regular le_rfl (by decide)).1 (by decide)

/-- The second byte is behind the end of the file: what the sieving function leaves for it
is not what the memory holds. -/
theorem twoBytes_not_readsAgree :
    twoBytes.Regular 0 ∧ ¬ twoBytes.ReadsAgree 0 1 4 := by
  refine ⟨twoBytes_regular, fun agree => ?_⟩
  have inFile := inFile_of_readsAgree twoBytes_regular (by decide) (by decide) (by decide)
    agree (2, 1) (by decide)
  exact absurd inFile.2 (by decide)

end Mpich.Romio.Strided.Call
