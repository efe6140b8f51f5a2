import Mpich.Foundation.TransitionSystem
import Mpich.Pt2pt.Bsend.Free

/-!
# The buffer stays partitioned

From an attached buffer, every sequence of buffered sends and completions keeps
the buffer partitioned, provided that the buffer starts at a multiple of the
size of a pointer and is not within 15 bytes of the largest `int`.

Neither condition can be spared. `MPIR_Bsend_attach` moves an unaligned start
up and reduces `BsendBuffer.buffer_size`, but the first segment keeps the size
that the user gave, and so reaches beyond the buffer. In a larger buffer, a
message that fills it makes the sum in `MPIR_Bsend_take_buffer` that decides
whether to break the segment exceed an `int`.
-/

namespace Mpich.Pt2pt.Bsend

open DoublyLinked Arena List Function Option

variable {Request : Type*} {abi : Abi} {user : UserBuffer}

variable {state : BsendBuffer Request}

/-- Checking a part of the active list keeps the partition, and ends. -/
theorem Partitioned.checkFrom
    {free before rest : List Block} {loops bound : Nat}
    (progress : Progress Request)
    (partitioned : Partitioned abi user state free (before ++ rest))
    (aligned : attachOffset abi user.address = 0)
    (enough : user.size ≤ loops)
    (short : rest.length ≤ bound) :
    ∃ checked merged left,
      state.checkFrom abi loops progress bound (rest.map Block.start).head? = some checked ∧
      Partitioned abi user checked merged left := by
  induction rest generalizing state free before bound with
  | nil =>
    refine ⟨state, free, before ++ [], ?_, partitioned⟩
    simp [BsendBuffer.checkFrom]
  | cons block rest ih =>
    obtain ⟨less, rfl⟩ : ∃ less, bound = less + 1 := by
      apply Nat.exists_eq_add_one.mpr
      simp at short
      omega
    have shorter : rest.length ≤ less := by
      simp at short
      omega
    have activeList := partitioned.threaded.active
    rw [map_append, map_cons] at activeList
    have nextEq := activeList.joined.neighbours.2
    rw [or_none] at nextEq
    have message := partitioned.threaded.message block (by simp)
    obtain ⟨request, found⟩ := isSome_iff_exists.mp message.request
    rw [map_cons, head?_cons]
    simp only [BsendBuffer.checkFrom, found, nextEq]
    cases progress.flag (state.kind block.start) request with
    | true =>
      obtain ⟨freed, merged, done, kept⟩ := partitioned.freeSegment aligned enough
      simp only [done, if_true]
      exact ih kept shorter
    | false =>
      have passed : Partitioned abi user state free ((before ++ [block]) ++ rest) := by
        rwa [append_assoc, singleton_append]
      exact ih passed shorter

variable {free used : List Block} {bound : Nat}

/-- `MPIR_Bsend_check_active` keeps the partition, and ends. -/
theorem Partitioned.checkActive
    (progress : Progress Request)
    (partitioned : Partitioned abi user state free used)
    (aligned : attachOffset abi user.address = 0)
    (enough : user.size ≤ bound) :
    ∃ checked merged left, state.checkActive abi bound progress = some checked ∧
      Partitioned abi user checked merged left := by
  have length := partitioned.tiling.covers.length_le
  simp only [usableStart, usableEnd, length_append, aligned] at length
  unfold BsendBuffer.checkActive
  rw [partitioned.threaded.active.head_eq]
  apply @Partitioned.checkFrom _ _ _ _ free [] used _ _ progress partitioned aligned enough
  omega

variable (partitioned : Partitioned abi user state free used)

include partitioned in
/-- `MPIR_Bsend_find_buffer` finds a free segment that is large enough, where
there is one, and ends. -/
theorem Partitioned.findBuffer
    (aligned : attachOffset abi user.address = 0)
    (enough : user.size ≤ bound)
    (size : Int) :
    (∃ lo block hi, free = lo ++ block :: hi ∧ size ≤ state.size block.start ∧
      state.findBuffer bound size = some (some block.start)) ∨
    ((∀ block ∈ free, state.size block.start < size) ∧
      state.findBuffer bound size = some none) := by
  have length := partitioned.tiling.covers.length_le
  simp only [usableStart, usableEnd, length_append, aligned] at length
  have short : (free.map Block.start).length ≤ bound := by
    rw [length_map]
    omega
  obtain ⟨lowStarts, highStarts, split, passed, stop, walked⟩ :=
    partitioned.threaded.avail.joined.walk_eq (fun p => decide (size ≤ state.size p)) short
  obtain ⟨lo, hi, rfl, rfl, rfl⟩ := map_eq_append_iff.mp split
  rw [← partitioned.threaded.avail.head_eq] at walked
  unfold BsendBuffer.findBuffer
  rw [walked]
  cases hi with
  | nil =>
    refine .inr ⟨?_, rfl⟩
    rw [append_nil]
    intro block member
    have tooSmall := passed block.start (mem_map_of_mem member)
    rw [decide_eq_false_iff_not] at tooSmall
    omega
  | cons block rest =>
    refine .inl ⟨lo, block, rest, rfl, ?_, rfl⟩
    simpa using stop block.start rfl

/-- What the routines called by `MPIR_Bsend_isend` may answer: a message is
packed into no more bytes than `MPI_Pack_size` says. -/
structure Isend.Proper (call : Isend Request) : Prop where
  count_nonneg : 0 ≤ call.count
  count_le : call.count ≤ call.packsize

/-- Placing a message in a free segment that is large enough keeps the
partition. -/
theorem Partitioned.place
    {lo hi used : List Block} {block : Block}
    (partitioned : Partitioned abi user state (lo ++ block :: hi) used)
    (aligned : attachOffset abi user.address = 0)
    (small : user.size ≤ 2147483632)
    {call : Isend Request}
    (proper : call.Proper)
    (room : call.packsize ≤ state.size block.start) :
    ∃ free taken, Partitioned abi user (state.place abi call block.start) free taken := by
  have prepared : Partitioned abi user
      { state with
        count := update state.count block.start call.count
        request := update state.request block.start call.request }
      (lo ++ block :: hi) used :=
    ⟨partitioned.threaded.prepare (by simp) call.count call.request,
      partitioned.tiling, partitioned.bufferSize⟩
  unfold BsendBuffer.place
  cases found : call.request with
  | none =>
    rw [found] at prepared
    exact ⟨_, _, prepared⟩
  | some request =>
    rw [found] at prepared
    have countEq :
        update state.count block.start call.count block.start = call.count := by
      simp
    have message : Message
        { state with
          count := update state.count block.start call.count
          request := update state.request block.start (some request) }
        block := by
      refine ⟨?_, ?_, by simp⟩
      · simp only [countEq]
        exact proper.count_nonneg
      · simp only [countEq]
        exact proper.count_le.trans room
    obtain ⟨free, taken, -, kept⟩ := prepared.takeBuffer aligned small message
    simp only [countEq] at kept
    refine ⟨free, taken :: used, ⟨kept.threaded.avail, kept.threaded.active,
      kept.threaded.distinct, ?_, ?_⟩, kept.tiling, kept.bufferSize⟩
    · intro other member
      exact (kept.threaded.header other member).congr rfl rfl rfl
    · intro other member
      exact (kept.threaded.message other member).congr rfl rfl rfl

include partitioned in
/-- `MPIR_Bsend_isend` keeps the partition, and ends. -/
theorem Partitioned.isend
    (aligned : attachOffset abi user.address = 0)
    (small : user.size ≤ 2147483632)
    (enough : user.size ≤ bound)
    {call : Isend Request}
    (proper : call.Proper) :
    ∃ next reply, state.isend abi bound call = some (next, reply) ∧
      ∃ free used, Partitioned abi user next free used := by
  obtain ⟨checked, merged, left, first, kept⟩ := partitioned.checkActive call.first aligned enough
  simp only [BsendBuffer.isend, first]
  rcases kept.findBuffer aligned enough call.packsize with
    ⟨lo, block, hi, rfl, room, found⟩ | ⟨-, found⟩
  · simp only [found]
    exact ⟨_, _, rfl, kept.place aligned small proper room⟩
  · simp only [found, BsendBuffer.secondPass]
    obtain ⟨again, mergedAgain, leftAgain, second, keptAgain⟩ :=
      kept.checkActive call.second aligned enough
    simp only [second]
    rcases keptAgain.findBuffer aligned enough call.packsize with
      ⟨lo, block, hi, rfl, room, found⟩ | ⟨-, found⟩
    · simp only [found]
      exact ⟨_, _, rfl, keptAgain.place aligned small proper room⟩
    · simp only [found]
      exact ⟨_, _, rfl, _, _, keptAgain⟩

/-- The runs from an attached buffer: calls of `MPIR_Bsend_isend` with any
sizes, any completions and any answers of the device. -/
def runs
    (abi : Abi)
    (bound : Nat)
    (start : BsendBuffer Request) :
    TransitionSystem (BsendBuffer Request) (Isend Request) where
  initial := fun state => state = start
  enabled := fun _ call => call.Proper
  step := fun state call => (state.isend abi bound call).map Prod.fst

/-- Where the message of a segment lies. -/
def messageOf (state : BsendBuffer Request) (block : Block) : Block :=
  ⟨state.msgbuf block.start, state.count block.start⟩

/-- The buffer is partitioned, no message overlaps another, and without an
active segment there is one free segment of the original size. -/
def WellKept
    (abi : Abi)
    (user : UserBuffer)
    (state : BsendBuffer Request) : Prop :=
  ∃ free used, Partitioned abi user state free used ∧ used.Pairwise
      (fun left right => Apart (messageOf state left) (messageOf state right)) ∧
    (state.active = none → free = [⟨usableStart abi user, usableEnd user - usableStart abi user⟩])

/-- In every run from the attached buffer, with loops that may be as long as
the buffer, every state is well kept and every call ends. -/
def KeepsPartition
    (abi : Abi)
    (user : UserBuffer)
    (start : BsendBuffer Request) : Prop :=
  ∀ bound : Nat, user.size ≤ bound → ∀ state, (runs abi bound start).Reachable state →
      WellKept abi user state ∧ (runs abi bound start).Responsive state

include partitioned in
/-- A partition keeps the messages apart and has one block when nothing is
active. -/
theorem Partitioned.wellKept
    (nonempty : usableStart abi user < usableEnd user) :
    WellKept abi user state := by
  have covers := partitioned.tiling.covers
  have positive := abi.headerTrueSize_pos
  refine ⟨free, used, partitioned, ?_, ?_⟩
  · apply (pairwise_append.mp covers.apart).2.1.imp_of_mem
    intro left right leftMember rightMember apart
    have leftHeader := partitioned.threaded.header left (by simp [leftMember])
    have rightHeader := partitioned.threaded.header right (by simp [rightMember])
    have leftCount := (partitioned.threaded.message left leftMember).count_le
    have rightCount := (partitioned.threaded.message right rightMember).count_le
    rw [leftHeader.size] at leftCount
    rw [rightHeader.size] at rightCount
    simp only [Apart, messageOf, Block.finish, leftHeader.msgbuf, rightHeader.msgbuf] at apart ⊢
    omega
  · intro idle
    have activeList := partitioned.threaded.active.head_eq
    rw [idle] at activeList
    cases used with
    | nil => exact partitioned.tiling.whole nonempty
    | cons block rest => simp at activeList

variable {memory start : BsendBuffer Request}

section

variable (attached : attach abi memory user = some start)

include attached

/-- What `MPIR_Bsend_attach` leaves behind. -/
theorem attach_eq :
    abi.bsendOverhead ≤ user.size ∧ start.avail = some (usableStart abi user) ∧
      start.active = none ∧ start.links.next (usableStart abi user) = none ∧
      start.links.prev (usableStart abi user) = none ∧
      start.totalSize (usableStart abi user) = user.size ∧
      start.size (usableStart abi user) = asInt (user.size - abi.headerTrueSize) ∧
      start.msgbuf (usableStart abi user) = usableStart abi user + abi.headerTrueSize ∧
      start.bufferSize = asInt (user.size - attachOffset abi user.address) := by
  unfold attach at attached
  split at attached
  · cases attached
  · cases attached
    refine ⟨by omega, rfl, rfl, ?_, ?_, ?_, ?_, ?_, rfl⟩ <;> simp [usableStart]

omit attached in
/-- The start of the buffer is moved exactly when it is not aligned. -/
theorem attachOffset_eq_zero_iff :
    attachOffset abi user.address = 0 ↔ user.address % abi.pointerSize = 0 := by
  have below := Int.emod_lt_of_pos user.address abi.pointerSize_pos
  unfold attachOffset
  split
  case isTrue aligned => exact ⟨fun _ => aligned, fun _ => rfl⟩
  case isFalse unaligned =>
    constructor
    · intro equal
      omega
    · intro equal
      contradiction

omit attached in
/-- The start of the buffer is never moved down. -/
theorem attachOffset_nonneg : 0 ≤ attachOffset abi user.address := by
  have below := Int.emod_lt_of_pos user.address abi.pointerSize_pos
  unfold attachOffset
  split <;> omega

/-- An aligned buffer is partitioned when it has been attached. -/
theorem partitioned_of_attach
    (aligned : attachOffset abi user.address = 0) :
    Partitioned abi user start [⟨usableStart abi user, user.size⟩] [] := by
  have positive := abi.headerTrueSize_pos
  have pointer := abi.pointerSize_pos
  have fits := user.size_lt
  obtain ⟨large, avail, active, next, prev, total, size, msgbuf, bufferSize⟩ := attach_eq attached
  unfold Abi.bsendOverhead at large
  rw [asInt_of_fits (by omega) (by omega)] at size bufferSize
  have finish : usableEnd user - usableStart abi user = user.size := by
    unfold usableEnd usableStart
    omega
  refine ⟨⟨⟨avail, ⟨prev, next, trivial⟩, by simp⟩, ⟨active, trivial, by simp⟩,
    by simp, ?_, by simp⟩, ⟨⟨by simp, ?_, by simp [finish]⟩, by simp⟩, ?_⟩
  · intro block member
    rw [append_nil, mem_singleton] at member
    subst member
    exact ⟨total, size, by simp only; omega, msgbuf⟩
  · intro block member
    rw [append_nil, mem_singleton] at member
    subst member
    simp only [Block.finish]
    omega
  · omega

omit attached in
/-- The first free segment lies in the buffer. -/
theorem WellKept.avail_lt
    {p : Int}
    (wellKept : WellKept abi user state)
    (avail : state.avail = some p) :
    0 < state.totalSize p ∧ p + state.totalSize p ≤ usableEnd user := by
  obtain ⟨free, used, partitioned, -, -⟩ := wellKept
  have headEq := partitioned.threaded.avail.head_eq
  rw [avail] at headEq
  cases free with
  | nil => simp at headEq
  | cons block rest =>
    simp only [map_cons, head?_cons, Option.some.injEq] at headEq
    subst headEq
    have inside := partitioned.tiling.covers.inside block (by simp)
    rw [(partitioned.threaded.header block (by simp)).totalSize]
    exact inside.2

/-- An attached buffer that is not aligned is not partitioned: its first
segment reaches beyond it. -/
theorem not_wellKept_of_unaligned
    (unaligned : attachOffset abi user.address ≠ 0) :
    ¬WellKept abi user start := by
  intro wellKept
  obtain ⟨-, avail, -, -, -, total, -⟩ := attach_eq attached
  have inside := (wellKept.avail_lt avail).2
  have nonneg := @attachOffset_nonneg abi user
  rw [total] at inside
  unfold usableStart usableEnd at inside
  omega

/-- The call that fills an attached buffer. -/
def fillingCall [Inhabited Request] (abi : Abi) (user : UserBuffer) :
    Isend Request where
  packsize := user.size - abi.headerTrueSize
  count := user.size - abi.headerTrueSize
  request := some default
  kind := .bsend
  first := ⟨fun _ => 1, fun _ => false⟩
  second := ⟨fun _ => 1, fun _ => false⟩

omit attached in
/-- Breaking the only free segment leaves the new one at the head of the
avail list. -/
theorem avail_of_breakBlock
    {p size : Int}
    (first : state.links.prev p = none)
    (last : state.links.next p = none)
    (apart : p ≠ p + abi.headerTrueSize + BsendBuffer.allocSize size) :
    ((state.breakBlock abi p size).activate p).avail =
      some (p + abi.headerTrueSize + BsendBuffer.allocSize size) := by
  have prevEq : (state.breakBlock abi p size).links.prev p = none := by
    simp only [BsendBuffer.breakBlock, Links.insertAfter, last, Links.join]
    rw [update_of_ne apart]
    exact first
  have nextEq : (state.breakBlock abi p size).links.next p =
      some (p + abi.headerTrueSize + BsendBuffer.allocSize size) := by
    simp [BsendBuffer.breakBlock, Links.insertAfter]
  simp only [BsendBuffer.activate, Links.unlink, prevEq, nextEq]

omit attached in
/-- In a buffer that is too large, the size of a message that fills it is
rounded up beyond the end, and the sum that decides about breaking the segment
overflows. -/
theorem splits_of_large
    {p : Int}
    (overhead : abi.bsendOverhead ≤ user.size)
    (large : 2147483632 < user.size)
    (size : state.size p = user.size - abi.headerTrueSize) :
    state.splits abi p (user.size - abi.headerTrueSize) = true ∧ user.size ≤ abi.headerTrueSize +
        BsendBuffer.allocSize (user.size - abi.headerTrueSize) := by
  have positive := abi.headerTrueSize_pos
  have headerAligned := abi.headerTrueSize_aligned
  have pointer := abi.pointerSize_pos
  have fits := user.size_lt
  unfold Abi.bsendOverhead at overhead
  have rounded : abi.headerTrueSize +
      BsendBuffer.allocSize (user.size - abi.headerTrueSize) = (user.size + 7) / 8 * 8 := by
    unfold BsendBuffer.allocSize
    split
    · omega
    · rw [asInt_of_fits (by omega) (by omega)]
      omega
  refine ⟨?_, ?_⟩
  · have sum : BsendBuffer.allocSize (user.size - abi.headerTrueSize) +
        abi.headerTrueSize = (user.size + 7) / 8 * 8 := by
      rw [Int.add_comm]
      exact rounded
    simp only [BsendBuffer.splits, BsendBuffer.minBufferBlock, sum, size, decide_eq_true_eq]
    unfold asInt
    omega
  · rw [rounded]
    omega

section

variable (aligned : attachOffset abi user.address = 0)

include aligned

/-- In a buffer that is too large, filling it breaks off a segment that lies
behind it. -/
theorem avail_of_fillingCall
    [Inhabited Request]
    (large : 2147483632 < user.size)
    (enough : user.size ≤ bound) :
    ∃ next reply p, start.isend abi bound (fillingCall abi user) = some (next, reply) ∧
      next.avail = some p ∧ usableEnd user ≤ p := by
  have positive := abi.headerTrueSize_pos
  have pointer := abi.pointerSize_pos
  have fits := user.size_lt
  obtain ⟨overhead, avail, active, next, prev, -, size, -⟩ := attach_eq attached
  have wide := overhead
  unfold Abi.bsendOverhead at wide
  rw [asInt_of_fits (by omega) (by omega)] at size
  have beyond := (splits_of_large overhead large size).2
  obtain ⟨less, rfl⟩ : ∃ less, bound = less + 1 := Nat.exists_eq_add_one.mpr (by omega)
  generalize isCall : (fillingCall abi user : Isend Request) = call
  have checked : start.checkActive abi (less + 1) call.first = some start := by
    simp [BsendBuffer.checkActive, active, BsendBuffer.checkFrom]
  have found : start.findBuffer (less + 1) call.packsize = some (some (usableStart abi user)) := by
    simp [BsendBuffer.findBuffer, avail, walk, size, ← isCall, fillingCall]
  have placed : (start.place abi call (usableStart abi user)).avail =
      some (usableStart abi user + abi.headerTrueSize +
        BsendBuffer.allocSize (user.size - abi.headerTrueSize)) := by
    simp only [BsendBuffer.place, ← isCall, fillingCall, BsendBuffer.takeBuffer]
    rw [if_pos]
    · exact avail_of_breakBlock prev next (by omega)
    · exact (splits_of_large overhead large size).1
  refine ⟨start.place abi call (usableStart abi user), .success call.request, _, ?_, placed, ?_⟩
  · simp only [BsendBuffer.isend, checked, found]
  · unfold usableEnd usableStart
    omega

omit aligned in
omit attached in
/-- The call that fills the buffer is a proper one. -/
theorem fillingCall_proper
    [Inhabited Request]
    (overhead : abi.bsendOverhead ≤ user.size) :
    (fillingCall abi user : Isend Request).Proper := by
  have pointer := abi.pointerSize_pos
  unfold Abi.bsendOverhead at overhead
  refine ⟨?_, Int.le_refl _⟩
  show 0 ≤ user.size - abi.headerTrueSize
  omega

/-- A buffer that is too large does not stay partitioned. -/
theorem not_keepsPartition_of_large
    [Inhabited Request]
    (large : 2147483632 < user.size) :
    ¬KeepsPartition abi user start := by
  intro keeps
  have enough : user.size ≤ user.size.toNat := Int.self_le_toNat user.size
  obtain ⟨next, reply, p, sent, avail, behind⟩ := avail_of_fillingCall attached aligned large enough
  have reachable : (runs abi user.size.toNat start).Reachable next := by
    apply TransitionSystem.Reachable.step (fillingCall abi user)
      (.initial rfl)
    · exact fillingCall_proper (attach_eq attached).1
    · simp only [runs, sent, map_some]
  have inside := (keeps _ enough next reachable).1.avail_lt avail
  omega

/-- In an aligned buffer that is not too large, the partition is inductive. -/
theorem partitioned_inductive
    (small : user.size ≤ 2147483632)
    (enough : user.size ≤ bound) :
    (runs abi bound start).Inductive
      (fun state => ∃ free used, Partitioned abi user state free used) where
  initial := by
    rintro state rfl
    exact ⟨_, _, partitioned_of_attach attached aligned⟩
  step := by
    rintro state call next ⟨free, used, partitioned⟩ proper stepped
    obtain ⟨sent, reply, done, kept⟩ := partitioned.isend aligned small enough proper
    simp only [runs, done, map_some, Option.some.injEq] at stepped
    subst stepped
    exact kept

/-- In an aligned buffer that is not too large, the partition is kept. -/
theorem keepsPartition_of_aligned
    (small : user.size ≤ 2147483632) :
    KeepsPartition abi user start := by
  intro bound enough state reachable
  have overhead := (attach_eq attached).1
  have positive := abi.headerTrueSize_pos
  have pointer := abi.pointerSize_pos
  unfold Abi.bsendOverhead at overhead
  obtain ⟨free, used, partitioned⟩ :=
    (partitioned_inductive attached aligned small enough).reachable reachable
  refine ⟨partitioned.wellKept ?_, ?_⟩
  · unfold usableStart usableEnd
    omega
  · intro call proper
    obtain ⟨next, reply, sent, -⟩ := partitioned.isend aligned small enough proper
    simp only [runs, sent, map_some, isSome_some]

end

end

/-- An attached buffer stays partitioned in every run exactly when it starts at
a multiple of the size of a pointer and has at most `2147483632` bytes. -/
theorem keepsPartition_iff
    [Inhabited Request]
    (abi : Abi)
    (user : UserBuffer)
    (memory start : BsendBuffer Request)
    (attached : attach abi memory user = some start) :
    KeepsPartition abi user start ↔
      user.address % abi.pointerSize = 0 ∧ user.size ≤ 2147483632 := by
  rw [← attachOffset_eq_zero_iff]
  constructor
  · intro keeps
    have aligned : attachOffset abi user.address = 0 := by
      by_contra unaligned
      apply not_wellKept_of_unaligned attached unaligned
      exact (keeps _ (Int.self_le_toNat user.size) start (.initial rfl)).1
    refine ⟨aligned, ?_⟩
    by_contra large
    exact not_keepsPartition_of_large attached aligned (by omega) keeps
  · rintro ⟨aligned, small⟩
    exact keepsPartition_of_aligned attached aligned small

/-- Memory in which nothing has been written. -/
def blankMemory : BsendBuffer Nat where
  size := fun _ => 0
  totalSize := fun _ => 0
  links := ⟨fun _ => none, fun _ => none⟩
  kind := fun _ => .bsend
  request := fun _ => none
  msgbuf := fun _ => 0
  count := fun _ => 0
  buffer := 0
  bufferSize := 0
  origbuffer := 0
  origbufferSize := 0
  avail := none
  active := none

/-- A buffer of 1000 bytes at an aligned address stays partitioned. -/
theorem keepsPartition_aligned_buffer :
    ∃ start, attach Abi.lp64 blankMemory ⟨4096, 1000, by decide, by decide⟩ = some start ∧
      KeepsPartition Abi.lp64 ⟨4096, 1000, by decide, by decide⟩ start :=
  ⟨_, rfl, (keepsPartition_iff Abi.lp64 ⟨4096, 1000, by decide, by decide⟩
    blankMemory _ rfl).mpr ⟨by decide, by decide⟩⟩

/-- A buffer of 1000 bytes that starts 4 bytes behind a multiple of 8 does not:
its first segment ends 4 bytes behind it. -/
theorem not_keepsPartition_unaligned_buffer :
    ∃ start, attach Abi.lp64 blankMemory ⟨4100, 1000, by decide, by decide⟩ = some start ∧
      ¬KeepsPartition Abi.lp64 ⟨4100, 1000, by decide, by decide⟩ start := by
  refine ⟨_, rfl, ?_⟩
  intro keeps
  have initial := keeps 1000 (by decide) _ (.initial rfl)
  exact not_wellKept_of_unaligned rfl (by decide) initial.1

end Mpich.Pt2pt.Bsend
