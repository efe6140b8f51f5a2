import Mpich.Pt2pt.Bsend.Invariant

/-!
# Freeing a segment

`MPIR_Bsend_free_segment` takes the segment off the active list, looks for its
place on the avail list, merges it with the next free block or links it there,
and then does the same with the previous one. `Parted` describes the avail
list between these two steps: its lower part still ends where it was cut, and
its upper part starts with the freed block.
-/

namespace Mpich.Pt2pt.Bsend

open DoublyLinked Arena List Function Option

variable {Request : Type*} {abi : Abi} {state : BsendBuffer Request}

/-- The avail list is cut in two, and everything else is in order. -/
structure Parted
    (abi : Abi)
    (state : BsendBuffer Request)
    (lo hi used : List Block) : Prop where
  lower : ∃ behind, Joined state.links none (lo.map Block.start) behind
  upper : ∃ before, Joined state.links before (hi.map Block.start) none
  head : lo ≠ [] → state.avail = (lo.map Block.start).head?
  active : Represents state.links state.active (used.map Block.start)
  distinct : ((lo ++ hi ++ used).map Block.start).Nodup
  header : ∀ block ∈ lo ++ hi ++ used, Header abi state block
  message : ∀ block ∈ used, Message state block

/-- The state after the first part of `MPIR_Bsend_free_segment`. -/
def BsendBuffer.deactivate
    (state : BsendBuffer Request)
    (p : Int) : BsendBuffer Request :=
  { state with
    active := (state.links.unlink state.active p).1
    links := (state.links.unlink state.active p).2 }

/-- Off the active list, a segment is on no list at all. -/
theorem Threaded.deactivate
    {free before after : List Block} {block : Block}
    (threaded : Threaded abi state free (before ++ block :: after)) :
    Threaded abi (state.deactivate block.start) free (before ++ after) ∧
      Header abi (state.deactivate block.start) block ∧
        block.start ∉ (free ++ (before ++ after)).map Block.start := by
  have activeList := threaded.active
  rw [map_append, map_cons] at activeList
  have shifted := perm_used free before after block
  have distinct := (shifted.map Block.start).nodup_iff.mp threaded.distinct
  rw [map_cons, nodup_cons] at distinct
  refine ⟨⟨?_, ?_, distinct.2, ?_, ?_⟩, ?_, distinct.1⟩
  · refine ⟨threaded.avail.head_eq, ?_, threaded.avail.nodup⟩
    apply threaded.avail.joined.of_unlink activeList
    intro start inFree inUsed
    apply threaded.apart start inFree
    rwa [map_append, map_cons]
  · rw [map_append]
    exact activeList.unlink
  · intro other member
    exact (threaded.header other
      (shifted.symm.subset (mem_cons_of_mem block member))).congr rfl rfl rfl
  · intro other member
    refine (threaded.message other ?_).congr rfl rfl rfl
    rw [mem_append] at member ⊢
    exact member.imp_right (mem_cons_of_mem block)
  · exact (threaded.header block (by simp)).congr rfl rfl rfl

/-- Absorbing the block that follows makes the header describe both. -/
theorem Header.absorb
    {left right : Block}
    (leftHeader : Header abi state left)
    (rightHeader : Header abi state right)
    (fits : left.size + right.size < 2147483648) :
    Header abi (state.absorb abi left.start right.start) (left.merge right) := by
  have positive := abi.headerTrueSize_pos
  have leftRoom := leftHeader.room
  have rightRoom := rightHeader.room
  have total : asInt (left.size + right.size) = left.size + right.size :=
    asInt_of_fits (by omega) (by omega)
  have size : asInt (left.size + right.size - abi.headerTrueSize) =
      left.size + right.size - abi.headerTrueSize :=
    asInt_of_fits (by omega) (by omega)
  refine ⟨?_, ?_, ?_, leftHeader.msgbuf⟩
  · simp [BsendBuffer.absorb, Block.merge, leftHeader.totalSize, rightHeader.totalSize, total]
  · simp [BsendBuffer.absorb, Block.merge, leftHeader.totalSize, rightHeader.totalSize, total, size]
  · show abi.headerTrueSize ≤ left.size + right.size
    omega

/-- Absorbing changes no other header. -/
theorem Header.of_absorb
    {block : Block} {p other : Int}
    (header : Header abi state block)
    (different : block.start ≠ p) :
    Header abi (state.absorb abi p other) block :=
  header.congr (update_of_ne different _ _) (update_of_ne different _ _) rfl

/-- Absorbing changes no other message. -/
theorem Message.of_absorb
    {block : Block} {p other : Int}
    (message : Message state block)
    (different : block.start ≠ p) :
    Message (state.absorb abi p other) block :=
  message.congr rfl (update_of_ne different _ _) rfl

variable {lo hi used : List Block}

/-- The link that either branch of the first merge makes. -/
theorem Parted.of_join
    {block : Block} {next : Option Int} {lowerBehind upperBefore : Option Int}
    (lower : Joined state.links none (lo.map Block.start) lowerBehind)
    (upper : Joined state.links upperBefore (hi.map Block.start) none)
    (head : lo ≠ [] → state.avail = (lo.map Block.start).head?)
    (active : Represents state.links state.active (used.map Block.start))
    (distinct : ((lo ++ block :: hi ++ used).map Block.start).Nodup)
    (header : ∀ other ∈ lo ++ block :: hi ++ used, Header abi state other)
    (message : ∀ other ∈ used, Message state other)
    (nextEq : next = (hi.map Block.start).head?) :
    Parted abi { state with links := state.links.join block.start next } lo (block :: hi) used := by
  have shifted := (perm_free lo hi used block).map Block.start
  have front := shifted.nodup_iff.mp distinct
  rw [map_cons, nodup_cons] at front
  have parts := distinct
  simp only [map_append, map_cons, nodup_append] at parts
  have outside : ∀ follower, next = some follower → follower ∈ hi.map Block.start := by
    intro follower equal
    rw [nextEq] at equal
    exact mem_of_mem_head? equal
  refine ⟨⟨lowerBehind, ?_⟩, ⟨state.links.prev block.start, ?_⟩, head,
    ⟨active.head_eq, ?_, active.nodup⟩, distinct, ?_, ?_⟩
  · apply lower.of_join
    · intro member
      exact front.1 (by simp [member])
    · intro follower equal member
      exact parts.1.2.2 follower member follower (mem_cons_of_mem _ (outside follower equal)) rfl
  · rw [map_cons]
    exact upper.joinFront parts.1.2.1 nextEq
  · apply active.joined.of_join
    · intro member
      exact front.1 (by simp [member])
    · intro follower equal member
      have inside := outside follower equal
      exact parts.2.2 follower (by simp [inside]) follower member rfl
  · intro other member
    exact (header other member).congr rfl rfl rfl
  · intro other member
    exact (message other member).congr rfl rfl rfl

/-- A freed segment that touches the next free block is merged with it, and
else linked before it. -/
theorem Threaded.mergeNext
    {block : Block}
    (threaded : Threaded abi state (lo ++ hi) used)
    (header : Header abi state block)
    (fresh : block.start ∉ (lo ++ hi ++ used).map Block.start)
    (separate : ∀ next ∈ hi.head?, block.finish ≠ next.start) :
    Parted abi (state.mergeNext abi block.start (hi.map Block.start).head?)
      lo (block :: hi) used := by
  have availList := threaded.avail
  rw [map_append] at availList
  obtain ⟨lower, upper⟩ := joined_append.mp availList.joined
  have shifted := perm_free lo hi used block
  have distinct : ((lo ++ block :: hi ++ used).map Block.start).Nodup := by
    rw [(shifted.map Block.start).nodup_iff, map_cons, nodup_cons]
    exact ⟨fresh, threaded.distinct⟩
  have head : lo ≠ [] → state.avail = (lo.map Block.start).head? := by
    intro nonempty
    rw [availList.head_eq]
    cases lo with
    | nil => exact absurd rfl nonempty
    | cons first rest => rfl
  have headers : ∀ other ∈ lo ++ block :: hi ++ used, Header abi state other := by
    intro other member
    rcases mem_cons.mp (shifted.subset member) with rfl | member
    · exact header
    · exact threaded.header other member
  have linked := Parted.of_join lower upper head threaded.active distinct
    headers threaded.message rfl
  cases hi with
  | nil => exact linked
  | cons next rest =>
    have gap := separate next rfl
    rw [Block.finish, ← header.totalSize] at gap
    simp only [map_cons, head?_cons, BsendBuffer.mergeNext, if_neg gap]
    exact linked

/-- The first merge of `MPIR_Bsend_free_segment`. -/
theorem Threaded.mergeNextTouching
    {block next : Block}
    (threaded : Threaded abi state (lo ++ next :: hi) used)
    (header : Header abi state block)
    (fresh : block.start ∉ (lo ++ next :: hi ++ used).map Block.start)
    (touches : block.finish = next.start)
    (fits : block.size + next.size < 2147483648) :
    Parted abi (state.mergeNext abi block.start (some next.start))
      lo (block.merge next :: hi) used := by
  have availList := threaded.avail
  rw [map_append, map_cons] at availList
  have nextEq := availList.joined.neighbours.2
  rw [or_none] at nextEq
  obtain ⟨lower, _, _, upper⟩ := joined_append.mp availList.joined
  have shifted := perm_free lo hi used next
  have inner := (shifted.map Block.start).nodup_iff.mp threaded.distinct
  rw [map_cons, nodup_cons] at inner
  have starts : ∀ other ∈ next :: (lo ++ hi ++ used), other.start ≠ block.start := by
    intro other member equal
    apply fresh
    rw [← equal]
    exact mem_map_of_mem (shifted.symm.subset member)
  have notBlock : block.start ∉ (lo ++ hi ++ used).map Block.start := by
    intro member
    obtain ⟨other, inside, equal⟩ := mem_map.mp member
    exact starts other (mem_cons_of_mem next inside) equal
  have nextHeader := threaded.header next (by simp)
  rw [Block.finish, ← header.totalSize] at touches
  simp only [BsendBuffer.mergeNext, if_pos touches]
  apply @Parted.of_join _ abi (state.absorb abi block.start next.start)
    lo hi used (block.merge next) _ _ _ lower upper
  · intro nonempty
    show state.avail = _
    rw [availList.head_eq]
    cases lo with
    | nil => exact absurd rfl nonempty
    | cons first rest => rfl
  · exact threaded.active
  · rw [((perm_free lo hi used _).map Block.start).nodup_iff, map_cons, nodup_cons]
    exact ⟨notBlock, inner.2⟩
  · intro other member
    rcases mem_cons.mp ((perm_free lo hi used _).subset member) with
      rfl | member
    · exact header.absorb nextHeader fits
    · have old := mem_cons_of_mem next member
      exact (threaded.header other (shifted.symm.subset old)).of_absorb (starts other old)
  · intro other member
    exact (threaded.message other member).of_absorb (starts other (by simp [member]))
  · exact nextEq

/-- The link that either branch of the second merge makes. -/
theorem Parted.join
    {previous : Block} {next : Option Int}
    (parted : Parted abi state (lo ++ [previous]) hi used)
    (nextEq : next = (hi.map Block.start).head?) :
    Threaded abi { state with links := state.links.join previous.start next }
      (lo ++ previous :: hi) used := by
  have distinct := parted.distinct
  rw [append_assoc lo, singleton_append] at distinct
  have parts := distinct
  simp only [map_append, map_cons, nodup_append] at parts
  obtain ⟨behind, lower⟩ := parted.lower
  obtain ⟨before, upper⟩ := parted.upper
  rw [map_append] at lower
  refine ⟨⟨?_, ?_, ?_⟩, ⟨parted.active.head_eq, ?_, parted.active.nodup⟩, distinct, ?_, ?_⟩
  · show state.avail = _
    rw [parted.head (by simp)]
    cases lo <;> rfl
  · rw [map_append, map_cons]
    apply lower.join upper _ nextEq
    rw [nodup_append]
    exact parts.1
  · rw [map_append, map_cons, nodup_append]
    exact parts.1
  · apply parted.active.joined.of_join
    · intro member
      exact parts.2.2 previous.start (by simp) previous.start member rfl
    · intro follower equal member
      rw [nextEq] at equal
      have inside := mem_of_mem_head? equal
      exact parts.2.2 follower (by simp [inside]) follower member rfl
  · intro other member
    refine (parted.header other ?_).congr rfl rfl rfl
    rwa [append_assoc lo, singleton_append]
  · intro other member
    exact (parted.message other member).congr rfl rfl rfl

/-- The last block below the cut absorbs the first one above it. -/
theorem Parted.absorb
    {previous block : Block}
    (parted : Parted abi state (lo ++ [previous]) (block :: hi) used)
    (fits : previous.size + block.size < 2147483648) :
    Parted abi (state.absorb abi previous.start block.start)
      (lo ++ [previous.merge block]) hi used := by
  have shifted : (lo ++ [previous] ++ block :: hi ++ used).Perm
      (previous :: block :: (lo ++ hi ++ used)) := by
    rw [append_assoc lo, singleton_append]
    exact (perm_free lo (block :: hi) used previous).trans
      ((perm_free lo hi used block).cons previous)
  have merged : (lo ++ [previous.merge block] ++ hi ++ used).Perm
      (previous.merge block :: (lo ++ hi ++ used)) := by
    rw [append_assoc lo, singleton_append]
    exact perm_free lo hi used _
  have distinct := (shifted.map Block.start).nodup_iff.mp parted.distinct
  rw [map_cons, map_cons, nodup_cons, nodup_cons] at distinct
  have notPrevious : previous.start ∉ (lo ++ hi ++ used).map Block.start := by
    intro member
    exact distinct.1 (mem_cons_of_mem _ member)
  have starts : ∀ other ∈ lo ++ hi ++ used, other.start ≠ previous.start := by
    intro other member equal
    apply notPrevious
    rw [← equal]
    exact mem_map_of_mem member
  obtain ⟨behind, lower⟩ := parted.lower
  obtain ⟨before, upper⟩ := parted.upper
  refine ⟨⟨behind, ?_⟩, ⟨some block.start, upper.2.2⟩, ?_, parted.active, ?_, ?_, ?_⟩
  · rw [map_append] at lower ⊢
    exact lower
  · intro _
    show state.avail = _
    rw [parted.head (by simp)]
    cases lo <;> rfl
  · rw [(merged.map Block.start).nodup_iff, map_cons, nodup_cons]
    exact ⟨notPrevious, distinct.2.2⟩
  · intro other member
    rcases mem_cons.mp (merged.subset member) with rfl | member
    · exact (parted.header previous (by simp)).absorb (parted.header block (by simp)) fits
    · have old := mem_cons_of_mem previous (mem_cons_of_mem block member)
      exact (parted.header other (shifted.symm.subset old)).of_absorb (starts other member)
  · intro other member
    exact (parted.message other member).of_absorb (starts other (by simp [member]))

/-- With nothing below the cut, the freed segment heads the avail list. -/
theorem Parted.mergePrevFirst
    {hi used : List Block} {block : Block}
    (parted : Parted abi state [] (block :: hi) used) :
    Threaded abi (state.mergePrev abi block.start none) (block :: hi) used := by
  obtain ⟨before, upper⟩ := parted.upper
  have distinct := parted.distinct
  have parts := distinct
  rw [map_append, nodup_append] at parts
  have activeJoined :
      Joined (state.links.start (some block.start)) none (used.map Block.start) none := by
    apply parted.active.joined.of_start
    intro start equal member
    cases equal
    exact parts.2.2 block.start (by simp) block.start member rfl
  refine ⟨upper.start parts.1 rfl, ⟨parted.active.head_eq, activeJoined,
    parted.active.nodup⟩, distinct, ?_, ?_⟩
  · intro other member
    exact (parted.header other member).congr rfl rfl rfl
  · intro other member
    exact (parted.message other member).congr rfl rfl rfl

section

variable
    {lo hi used : List Block} {previous block : Block}
    (parted : Parted abi state (lo ++ [previous]) (block :: hi) used)

include parted

/-- A freed segment that does not touch the previous free block is linked
behind it. -/
theorem Parted.mergePrev (separate : previous.finish ≠ block.start) :
    Threaded abi (state.mergePrev abi block.start (some previous.start))
      (lo ++ previous :: block :: hi) used := by
  have header := parted.header previous (by simp)
  rw [Block.finish, ← header.totalSize] at separate
  simp only [BsendBuffer.mergePrev, if_neg separate]
  exact parted.join rfl

/-- The second merge of `MPIR_Bsend_free_segment`. -/
theorem Parted.mergePrevTouching
    (touches : previous.finish = block.start)
    (fits : previous.size + block.size < 2147483648) :
    Threaded abi (state.mergePrev abi block.start (some previous.start))
      (lo ++ previous.merge block :: hi) used := by
  have header := parted.header previous (by simp)
  rw [Block.finish, ← header.totalSize] at touches
  obtain ⟨before, upper⟩ := parted.upper
  have nextEq := upper.2.1
  rw [or_none] at nextEq
  simp only [BsendBuffer.mergePrev, if_pos touches]
  exact (parted.absorb fits).join nextEq

end

variable {user : UserBuffer}

/-- The first half of freeing, from a cut that fits the segment. -/
theorem Partitioned.mergeNext
    {lo hi before after : List Block} {block : Block}
    (partitioned :
      Partitioned abi user state (lo ++ hi) (before ++ block :: after))
    (aligned : attachOffset abi user.address = 0)
    (lower : ∀ left ∈ lo, left.start ≤ block.start)
    (upper : ∀ right ∈ hi, block.start < right.start) :
    ∃ merged rest, merged.start = block.start ∧ Parted abi
        ((state.deactivate block.start).mergeNext abi block.start (hi.map Block.start).head?)
        lo (merged :: rest) (before ++ after) ∧
      Seamed (usableStart abi user) (usableEnd user) lo (merged :: rest) (before ++ after) := by
  obtain ⟨threaded, header, fresh⟩ := partitioned.threaded.deactivate
  cases hi with
  | nil =>
    refine ⟨block, [], rfl, ?_, ?_⟩
    · exact threaded.mergeNext header fresh (by simp)
    · exact partitioned.tiling.release lower upper (by simp)
  | cons next rest =>
    rcases eq_or_ne block.finish next.start with touches | separate
    · have seamed := partitioned.tiling.releaseMerged lower touches
      have inside := seamed.covers.inside (block.merge next) (by simp)
      refine ⟨block.merge next, rest, rfl, ?_, seamed⟩
      apply threaded.mergeNextTouching header fresh touches
      have size := user.size_lt
      simp only [Block.merge, Block.finish, usableStart, usableEnd] at inside
      omega
    · refine ⟨block, next :: rest, rfl, ?_, ?_⟩
      · apply threaded.mergeNext header fresh
        simpa using separate
      · apply partitioned.tiling.release lower upper
        simpa using separate

/-- The second half of freeing. -/
theorem Parted.mergePrevious
    {block : Block}
    (parted : Parted abi state lo (block :: hi) used)
    (seamed : Seamed (usableStart abi user) (usableEnd user)
      lo (block :: hi) used)
    (aligned : attachOffset abi user.address = 0) :
    ∃ free, Threaded abi
        (state.mergePrev abi block.start (lo.map Block.start).getLast?)
        free used ∧
      Tiling (usableStart abi user) (usableEnd user) free used := by
  cases lo using reverseRecOn with
  | nil => exact ⟨block :: hi, parted.mergePrevFirst, seamed.close (by simp)⟩
  | append_singleton lo previous _ =>
    rw [map_append, map_singleton, getLast?_concat]
    rcases eq_or_ne previous.finish block.start with touches | separate
    · have tiling := seamed.closeMerged touches
      have inside := tiling.covers.inside (previous.merge block) (by simp)
      refine ⟨_, parted.mergePrevTouching touches ?_, tiling⟩
      have size := user.size_lt
      simp only [Block.merge, Block.finish, usableStart, usableEnd] at inside
      omega
    · refine ⟨lo ++ previous :: block :: hi, parted.mergePrev separate, ?_⟩
      have tiling := seamed.close (by simpa using separate)
      rwa [append_assoc lo, singleton_append] at tiling

/-- The writes of the two merges reach neither the static structure nor the
messages. -/
theorem bufferSize_freed
    (p : Int)
    (next previous : Option Int) :
    (((state.deactivate p).mergeNext abi p next).mergePrev abi p
      previous).bufferSize = state.bufferSize := by
  have first : ((state.deactivate p).mergeNext abi p next).bufferSize = state.bufferSize := by
    cases next with
    | none => rfl
    | some avail =>
      simp only [BsendBuffer.mergeNext]
      split <;> rfl
  rw [← first]
  cases previous with
  | none => rfl
  | some availPrev =>
    simp only [BsendBuffer.mergePrev]
    split <;> rfl

/-- Freeing an active segment keeps the partition, takes just that segment off
the active list, and ends. -/
theorem Partitioned.freeSegment
    {free before after : List Block} {block : Block} {bound : Nat}
    (partitioned : Partitioned abi user state free (before ++ block :: after))
    (aligned : attachOffset abi user.address = 0)
    (enough : user.size ≤ bound) :
    ∃ freed merged, state.freeSegment abi bound block.start = some freed ∧
      Partitioned abi user freed merged (before ++ after) := by
  obtain ⟨threaded, _, _⟩ := partitioned.threaded.deactivate
  have length := partitioned.tiling.covers.length_le
  simp only [usableStart, usableEnd, length_append, aligned] at length
  have short : (free.map Block.start).length ≤ bound := by
    rw [length_map]
    omega
  obtain ⟨lowStarts, highStarts, split, passed, stop, walked⟩ :=
    threaded.avail.joined.walk_eq (fun avail => decide (block.start < avail)) short
  obtain ⟨lo, hi, rfl, rfl, rfl⟩ := map_eq_append_iff.mp split
  rw [← threaded.avail.head_eq, or_none] at walked
  have lower : ∀ left ∈ lo, left.start ≤ block.start := by
    intro left member
    have := passed left.start (mem_map_of_mem member)
    simpa using this
  have upper : ∀ right ∈ hi, block.start < right.start := by
    have ascending := (pairwise_append.mp partitioned.tiling.ascending).2.1
    cases hi with
    | nil => simp
    | cons first rest =>
      have firstLater : block.start < first.start := by
        simpa using stop first.start rfl
      have positive := partitioned.tiling.covers.inside first (by simp)
      rw [forall_mem_cons]
      refine ⟨firstLater, ?_⟩
      intro right member
      have later := (pairwise_cons.mp ascending).1 right member
      simp only [Before, Block.finish] at later
      omega
  obtain ⟨merged, rest, startEq, parted, seamed⟩ := partitioned.mergeNext aligned lower upper
  obtain ⟨whole, freed, tiling⟩ := parted.mergePrevious seamed aligned
  rw [startEq] at freed
  refine ⟨_, whole, ?_, freed, tiling, ?_⟩
  · simp only [BsendBuffer.freeSegment]
    simp only [BsendBuffer.deactivate] at walked
    simp only [walked, BsendBuffer.deactivate]
  · rw [bufferSize_freed]
    exact partitioned.bufferSize

end Mpich.Pt2pt.Bsend
