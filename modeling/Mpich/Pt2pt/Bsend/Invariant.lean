import Mpich.Foundation.Arena
import Mpich.Pt2pt.Bsend.Defs

/-!
# What the buffer of the buffered sends holds

The headers describe blocks of the user's buffer. `Threaded` says that the
pointers and the headers are right for given lists of free and used blocks,
and `Partitioned` adds that these blocks tile the buffer. This module follows
taking a segment through both.
-/

namespace Mpich.Pt2pt.Bsend

open DoublyLinked Arena List Function

variable {Request : Type*}

/-- The first address that segments may use. -/
def usableStart (abi : Abi) (user : UserBuffer) : Int :=
  user.address + attachOffset abi user.address

/-- The address behind the user's buffer. -/
def usableEnd (user : UserBuffer) : Int :=
  user.address + user.size

/-- The header of a block says where the block ends and where its data are. -/
structure Header
    (abi : Abi)
    (state : BsendBuffer Request)
    (block : Block) : Prop where
  totalSize : state.totalSize block.start = block.size
  size : state.size block.start = block.size - abi.headerTrueSize
  room : abi.headerTrueSize ≤ block.size
  msgbuf : state.msgbuf block.start = block.start + abi.headerTrueSize

/-- The message of a block fits behind its header, and has a request. -/
structure Message
    (state : BsendBuffer Request)
    (block : Block) : Prop where
  count_nonneg : 0 ≤ state.count block.start
  count_le : state.count block.start ≤ state.size block.start
  request : (state.request block.start).isSome

/-- Lists and headers are right for these free and used blocks. -/
structure Threaded
    (abi : Abi)
    (state : BsendBuffer Request)
    (free used : List Block) : Prop where
  avail : Represents state.links state.avail (free.map Block.start)
  active : Represents state.links state.active (used.map Block.start)
  distinct : ((free ++ used).map Block.start).Nodup
  header : ∀ block ∈ free ++ used, Header abi state block
  message : ∀ block ∈ used, Message state block

/-- The free and the used segments partition the usable part of the buffer. -/
structure Partitioned
    (abi : Abi)
    (user : UserBuffer)
    (state : BsendBuffer Request)
    (free used : List Block) : Prop where
  threaded : Threaded abi state free used
  tiling : Tiling (usableStart abi user) (usableEnd user) free used
  bufferSize : state.bufferSize = usableEnd user - usableStart abi user

/-- A value that fits is stored as it is. -/
theorem asInt_of_fits
    {value : Int}
    (lower : -2147483648 ≤ value)
    (upper : value < 2147483648) :
    asInt value = value := by
  unfold asInt
  omega

variable {size : Int}

/-- Where nothing overflows, rounding up adds less than 8. -/
theorem allocSize_bounds
    (nonneg : 0 ≤ size)
    (fits : size < 2147483641) :
    size ≤ BsendBuffer.allocSize size ∧ BsendBuffer.allocSize size ≤ size + 7 := by
  unfold BsendBuffer.allocSize
  split
  · omega
  · rw [asInt_of_fits (by omega) (by omega)]
    omega

variable {block : Block}

/-- A header depends on its own fields only. -/
theorem Header.congr
    {abi : Abi} {state other : BsendBuffer Request}
    (header : Header abi state block)
    (total : other.totalSize block.start = state.totalSize block.start)
    (size : other.size block.start = state.size block.start)
    (msgbuf : other.msgbuf block.start = state.msgbuf block.start) :
    Header abi other block where
  totalSize := total.trans header.totalSize
  size := size.trans header.size
  room := header.room
  msgbuf := msgbuf.trans header.msgbuf

/-- A message depends on its own fields only. -/
theorem Message.congr
    {state other : BsendBuffer Request}
    (message : Message state block)
    (count : other.count block.start = state.count block.start)
    (size : other.size block.start = state.size block.start)
    (request : other.request block.start = state.request block.start) :
    Message other block where
  count_nonneg := by
    rw [count]
    exact message.count_nonneg
  count_le := by
    rw [count, size]
    exact message.count_le
  request := by
    rw [request]
    exact message.request

section

variable {abi : Abi} {state : BsendBuffer Request}

/-- Free and used blocks do not start at the same address. -/
theorem Threaded.apart
    {free used : List Block}
    (threaded : Threaded abi state free used) :
    ∀ start ∈ free.map Block.start, start ∉ used.map Block.start := by
  have distinct := threaded.distinct
  rw [map_append, nodup_append] at distinct
  intro start inFree inUsed
  exact distinct.2.2 start inFree start inUsed rfl

/-- Writes to the fields of one free block that no header needs leave
everything as it was. -/
theorem Threaded.prepare
    {free used : List Block}
    (threaded : Threaded abi state free used)
    {p : Int}
    (isFree : p ∈ free.map Block.start)
    (count : Int)
    (request : Option Request) :
    Threaded abi
      { state with
        count := update state.count p count
        request := update state.request p request }
      free used where
  avail := threaded.avail
  active := threaded.active
  distinct := threaded.distinct
  header := by
    intro block member
    exact (threaded.header block member).congr rfl rfl rfl
  message := by
    intro block member
    have different : block.start ≠ p := by
      rintro rfl
      exact threaded.apart _ isFree (mem_map_of_mem member)
    apply (threaded.message block member).congr
    · exact update_of_ne different _ _
    · rfl
    · exact update_of_ne different _ _

/-- A free block moves to the head of the active list. -/
theorem Threaded.activate
    {lo hi used : List Block}
    (threaded : Threaded abi state (lo ++ block :: hi) used)
    (message : Message state block) :
    Threaded abi (state.activate block.start) (lo ++ hi) (block :: used) := by
  have availList := threaded.avail
  rw [map_append, map_cons] at availList
  have apart := threaded.apart
  rw [map_append, map_cons] at apart
  have shifted : (lo ++ block :: hi ++ used).Perm (lo ++ hi ++ block :: used) :=
    (perm_free lo hi used block).trans perm_middle.symm
  have distinct := (shifted.map Block.start).nodup_iff.mp threaded.distinct
  have unlinked := availList.unlink
  have activeList :
      Represents (state.links.unlink state.avail block.start).2 state.active
        (used.map Block.start) := by
    refine ⟨threaded.active.head_eq, ?_, threaded.active.nodup⟩
    apply threaded.active.joined.of_unlink availList
    intro start inUsed inFree
    exact apart start inFree inUsed
  have freshFree : block.start ∉ lo.map Block.start ++ hi.map Block.start := by
    have nodup := availList.nodup
    rw [nodup_middle] at nodup
    exact (nodup_cons.mp nodup).1
  refine ⟨?_, ?_, distinct, ?_, ?_⟩
  · rw [map_append]
    refine ⟨unlinked.head_eq, ?_, unlinked.nodup⟩
    apply unlinked.joined.of_push activeList freshFree
    intro start inFree
    apply apart start
    rw [mem_append] at inFree ⊢
    exact inFree.imp_right (mem_cons_of_mem block.start)
  · apply activeList.push
    exact apart block.start (by simp)
  · intro other member
    exact (threaded.header other (shifted.mem_iff.mpr member)).congr rfl rfl rfl
  · intro other member
    rcases mem_cons.mp member with rfl | member
    · exact message.congr rfl rfl rfl
    · exact (threaded.message other member).congr rfl rfl rfl

section

variable
    {left right : Block}
    (leftSize : left.size = abi.headerTrueSize + BsendBuffer.allocSize size)
    (adjacent : left.finish = right.start)
    (leftRoom : abi.headerTrueSize ≤ left.size)
    (rightRoom : abi.headerTrueSize ≤ right.size)
    (leftFits : left.size < 2147483648)
    (rightFits : right.size < 2147483648)

include leftSize adjacent leftRoom rightRoom leftFits rightFits

/-- What breaking a block writes, where nothing overflows. -/
theorem breakBlock_eq
    (total : state.totalSize left.start = left.size + right.size) :
    state.breakBlock abi left.start size =
      { state with
        totalSize := update (update state.totalSize right.start right.size) left.start left.size
        size :=
          update
            (update state.size right.start (right.size - abi.headerTrueSize))
            left.start (left.size - abi.headerTrueSize)
        msgbuf := update state.msgbuf right.start
          (right.start + abi.headerTrueSize)
        links := state.links.insertAfter left.start right.start } := by
  have positive := abi.headerTrueSize_pos
  have newp : left.start + abi.headerTrueSize + BsendBuffer.allocSize size = right.start := by
    rw [← adjacent, Block.finish, leftSize, Int.add_assoc]
  have newTotal : asInt (state.totalSize left.start -
      BsendBuffer.allocSize size - abi.headerTrueSize) = right.size := by
    rw [total, leftSize, asInt_of_fits (by omega) (by omega)]
    omega
  have oldTotal : asInt (right.start - left.start) = left.size := by
    rw [← adjacent, Block.finish, asInt_of_fits (by omega) (by omega)]
    omega
  have newSize : asInt (right.size - abi.headerTrueSize) = right.size - abi.headerTrueSize :=
    asInt_of_fits (by omega) (by omega)
  have oldSize : asInt (left.size - abi.headerTrueSize) = left.size - abi.headerTrueSize :=
    asInt_of_fits (by omega) (by omega)
  simp only [BsendBuffer.breakBlock, newp, newTotal, oldTotal, newSize, oldSize]

/-- Breaking a free block leaves two free blocks in its place. -/
theorem Threaded.breakBlock
    {lo hi used : List Block}
    (threaded : Threaded abi state (lo ++ left.merge right :: hi) used)
    (distinct : ((lo ++ left :: right :: hi ++ used).map Block.start).Nodup) :
    Threaded abi (state.breakBlock abi left.start size) (lo ++ left :: right :: hi) used := by
  have whole := threaded.header (left.merge right) (by simp)
  rw [breakBlock_eq leftSize adjacent leftRoom rightRoom leftFits rightFits whole.totalSize]
  have shifted : (lo ++ left :: right :: hi ++ used).Perm (left :: right :: (lo ++ hi ++ used)) :=
    (perm_free lo (right :: hi) used left).trans
      ((perm_free lo hi used right).cons left)
  have ends := (shifted.map Block.start).nodup_iff.mp distinct
  rw [map_cons, map_cons, nodup_cons, nodup_cons] at ends
  have apart : left.start ≠ right.start := by
    intro equal
    exact ends.1 (by simp [equal])
  have starts : ∀ other ∈ lo ++ hi ++ used,
      other.start ≠ left.start ∧ other.start ≠ right.start := by
    intro other member
    have inside := mem_map_of_mem (f := Block.start) member
    refine ⟨?_, ?_⟩
    · intro equal
      rw [equal] at inside
      exact ends.1 (mem_cons_of_mem _ inside)
    · intro equal
      rw [equal] at inside
      exact ends.2.1 inside
  have availList := threaded.avail
  rw [map_append, map_cons] at availList
  have freshFree : right.start ∉ lo.map Block.start ++ left.start :: hi.map Block.start := by
    intro member
    rw [mem_append, mem_cons] at member
    rcases member with before | equal | behind
    · exact ends.2.1 (by simp [before])
    · exact apart equal.symm
    · exact ends.2.1 (by simp [behind])
  have freshUsed : right.start ∉ used.map Block.start := by
    intro member
    exact ends.2.1 (by simp [member])
  refine ⟨?_, ?_, distinct, ?_, ?_⟩
  · rw [map_append, map_cons, map_cons]
    exact availList.insertAfter freshFree
  · refine ⟨threaded.active.head_eq, ?_, threaded.active.nodup⟩
    apply threaded.active.joined.of_insertAfter availList freshUsed
    intro start inUsed inFree
    apply threaded.apart start _ inUsed
    rwa [map_append, map_cons]
  · intro other member
    rcases mem_cons.mp (shifted.subset member) with rfl | member
    · refine ⟨by simp, by simp, leftRoom, ?_⟩
      exact (update_of_ne apart _ _).trans whole.msgbuf
    · rcases mem_cons.mp member with rfl | member
      · refine ⟨?_, ?_, rightRoom, by simp⟩
        · simp [update_of_ne apart.symm]
        · simp [update_of_ne apart.symm]
      · obtain ⟨notLeft, notRight⟩ := starts other member
        have old := threaded.header other
          ((perm_free lo hi used _).symm.subset (mem_cons_of_mem _ member))
        apply old.congr
        · simp only [update_of_ne notLeft, update_of_ne notRight]
        · simp only [update_of_ne notLeft, update_of_ne notRight]
        · simp only [update_of_ne notRight]
  · intro other member
    obtain ⟨notLeft, notRight⟩ := starts other (by simp [member])
    apply (threaded.message other member).congr
    · rfl
    · simp only [update_of_ne notLeft, update_of_ne notRight]
    · rfl

end

end

section

variable {abi : Abi} {user : UserBuffer} {state : BsendBuffer Request}

/-- Blocks of the buffer are small enough for an `int`. -/
theorem Partitioned.fits
    {free used : List Block}
    (partitioned : Partitioned abi user state free used)
    (aligned : attachOffset abi user.address = 0) :
    ∀ block ∈ free ++ used, block.size ≤ user.size := by
  intro block member
  have inside := partitioned.tiling.covers.inside block member
  simp only [usableStart, usableEnd, Block.finish] at inside
  omega

/-- A segment that is taken as it is. -/
theorem Partitioned.activate
    {lo hi used : List Block}
    (partitioned : Partitioned abi user state (lo ++ block :: hi) used)
    (message : Message state block) :
    Partitioned abi user (state.activate block.start) (lo ++ hi) (block :: used) where
  threaded := partitioned.threaded.activate message
  tiling := partitioned.tiling.take
  bufferSize := partitioned.bufferSize

/-- A segment that is broken first. -/
theorem Partitioned.breakAndActivate
    {lo hi used : List Block} {left right : Block}
    (partitioned : Partitioned abi user state (lo ++ left.merge right :: hi) used)
    (message : Message state (left.merge right))
    (leftSize : left.size = abi.headerTrueSize + BsendBuffer.allocSize (state.count left.start))
    (countLe :
      state.count left.start ≤ BsendBuffer.allocSize (state.count left.start))
    (adjacent : left.finish = right.start)
    (rightRoom : abi.headerTrueSize ≤ right.size)
    (fits : left.size + right.size < 2147483648) :
    Partitioned abi user
      ((state.breakBlock abi left.start (state.count left.start)).activate left.start)
      (lo ++ right :: hi) (left :: used) := by
  have positive := abi.headerTrueSize_pos
  have countNonneg := message.count_nonneg
  simp only [Block.merge] at countNonneg
  have tiling := partitioned.tiling.split adjacent (by omega) (by omega)
  have distinct : ((lo ++ left :: right :: hi ++ used).map Block.start).Nodup := by
    have shifted : (lo ++ left :: right :: hi ++ used).Perm (lo ++ right :: hi ++ left :: used) :=
      (perm_free lo (right :: hi) used left).trans perm_middle.symm
    exact (shifted.map Block.start).nodup_iff.mpr tiling.covers.nodup
  have broken := Threaded.breakBlock leftSize adjacent (by omega) rightRoom (by omega) (by omega)
    partitioned.threaded distinct
  have sizeEq := (broken.header left (by simp)).size
  refine ⟨broken.activate ⟨countNonneg, ?_, message.request⟩, tiling, partitioned.bufferSize⟩
  show state.count left.start ≤ _
  omega

/-- Taking a segment for a message that fits into it keeps the partition, and
puts the segment first on the active list. -/
theorem Partitioned.takeBuffer
    {lo hi used : List Block}
    (partitioned : Partitioned abi user state (lo ++ block :: hi) used)
    (aligned : attachOffset abi user.address = 0)
    (small : user.size ≤ 2147483632)
    (message : Message state block) :
    ∃ free taken, taken.start = block.start ∧ Partitioned abi user
        (state.takeBuffer abi block.start (state.count block.start))
        free (taken :: used) := by
  have positive := abi.headerTrueSize_pos
  have header := partitioned.threaded.header block (by simp)
  have fits := partitioned.fits aligned block (by simp)
  have countNonneg := message.count_nonneg
  have countLe := message.count_le
  rw [header.size] at countLe
  have alloc := allocSize_bounds countNonneg (by omega)
  have decided : state.splits abi block.start (state.count block.start) =
      decide (BsendBuffer.allocSize (state.count block.start) +
        abi.headerTrueSize + 8 ≤ block.size - abi.headerTrueSize) := by
    unfold BsendBuffer.splits BsendBuffer.minBufferBlock
    rw [header.size, @asInt_of_fits (_ + abi.headerTrueSize)
      (by omega) (by omega), asInt_of_fits (by omega) (by omega)]
  unfold BsendBuffer.takeBuffer
  rw [decided]
  split
  case isTrue room =>
    rw [decide_eq_true_iff] at room
    let left : Block :=
      ⟨block.start, abi.headerTrueSize + BsendBuffer.allocSize (state.count block.start)⟩
    let right : Block := ⟨left.finish, block.size - left.size⟩
    have whole : block = left.merge right := by
      ext
      · rfl
      · show block.size = left.size + (block.size - left.size)
        omega
    rw [whole] at partitioned message
    refine ⟨_, left, rfl, partitioned.breakAndActivate message rfl alloc.1
      rfl ?_ ?_⟩
    · show abi.headerTrueSize ≤ block.size - (abi.headerTrueSize + _)
      omega
    · show left.size + (block.size - left.size) < _
      omega
  case isFalse => exact ⟨_, block, rfl, partitioned.activate message⟩

end

end Mpich.Pt2pt.Bsend
