import Mpich.Util.Handle.Defs

/-!
# The objects of a class

`Object` says which objects the blocks of a class hold and which handle each of
them carries. `Consistent` is the invariant of the allocator: the avail list
and the live objects are, each once, the objects of all blocks, and every
object carries its handle. Initializing a block, taking an object from the
avail list and putting one back keep it.
-/

namespace Mpich.Util.Handle

open LinkedQueue List Function

/-- An object of some block, with the handle that belongs to it. -/
inductive Object
    (cls : ObjectClass)
    (state : ObjectAlloc) : Pointer → Nat → Prop
  | direct (index : Nat) :
      state.initialized = true → index < cls.directSize →
      Object cls state ⟨.direct, index * cls.size⟩ (directHandle cls.kind index)
  | indirect (table : Nat → Option Nat) (block index address : Nat) :
      state.indirect = some table → block < state.indirectSize →
      index < handleBlockSize → table block = some address →
      Object cls state ⟨.heap address, index * cls.size⟩ (indirectHandle cls.kind block index)

/-- The table of the indirect blocks has an entry for each of them, no two
entries are the same, and the last entry stays unused. -/
structure TableOk (state : ObjectAlloc) : Prop where
  size_lt : state.indirectSize < handleBlockIndexSize
  empty : state.indirect = none → state.indirectSize = 0
  filled : ∀ table, state.indirect = some table →
    ∀ block < state.indirectSize, ∃ address, table block = some address
  injective : ∀ table, state.indirect = some table →
    ∀ left < state.indirectSize, ∀ right < state.indirectSize,
      table left = table right → left = right

/-- The table is as it was where its fields are. -/
theorem TableOk.of_fields
    {state other : ObjectAlloc}
    (tableOk : TableOk state)
    (indirect : other.indirect = state.indirect)
    (indirectSize : other.indirectSize = state.indirectSize) :
    TableOk other := by
  obtain ⟨sizeLt, empty, filled, injective⟩ := tableOk
  rw [← indirectSize] at sizeLt empty filled injective
  rw [← indirect] at empty filled injective
  exact ⟨sizeLt, empty, filled, injective⟩

/-- The objects on the avail list are `free`; they and the live ones are all
objects there are. -/
structure Consistent
    (cls : ObjectClass)
    (objects : Objects)
    (free : List Pointer) : Prop where
  chain : Chain objects.alloc.next objects.alloc.avail free
  nodup : (free ++ objects.live).Nodup
  members : ∀ ptr, ptr ∈ free ++ objects.live ↔ ∃ handle, Object cls objects.alloc ptr handle
  handles : ∀ ptr handle, Object cls objects.alloc ptr handle → objects.alloc.handle ptr = handle
  table : TableOk objects.alloc

section

variable {cls : ObjectClass} {handleOf : Nat → Nat}

/-- The objects of a block, from number `i` on. -/
def objectsFrom (cls : ObjectClass) (place : Place) : Nat → Nat → List Pointer
  | 0, _ => []
  | remaining + 1, i =>
    ⟨place, i * cls.size⟩ :: objectsFrom cls place remaining (i + 1)

variable {place : Place}

theorem mem_objectsFrom
    {remaining i : Nat}
    {ptr : Pointer} :
    ptr ∈ objectsFrom cls place remaining i ↔
      ∃ k < remaining, ptr = ⟨place, (i + k) * cls.size⟩ := by
  induction remaining generalizing i with
  | zero => simp [objectsFrom]
  | succ remaining ih =>
    rw [objectsFrom, mem_cons, ih]
    constructor
    · rintro (rfl | ⟨k, less, rfl⟩)
      · exact ⟨0, by omega, rfl⟩
      · exact ⟨k + 1, by omega, by rw [add_right_comm, add_assoc]⟩
    · rintro ⟨k, less, rfl⟩
      cases k with
      | zero => exact .inl rfl
      | succ k =>
        exact .inr ⟨k, by omega, by rw [add_right_comm, add_assoc]⟩

/-- Different numbers are different objects. -/
theorem offset_injective
    {left right : Nat}
    (equal : left * cls.size = right * cls.size) :
    left = right :=
  Nat.eq_of_mul_eq_mul_right cls.size_pos equal

theorem nodup_objectsFrom
    (place : Place)
    (remaining i : Nat) :
    (objectsFrom cls place remaining i).Nodup := by
  induction remaining generalizing i with
  | zero => exact nodup_nil
  | succ remaining ih =>
    rw [objectsFrom, nodup_cons]
    refine ⟨?_, ih (i + 1)⟩
    rw [mem_objectsFrom]
    rintro ⟨k, -, equal⟩
    have same := offset_injective (congrArg Pointer.offset equal)
    omega

theorem plus_size (place : Place) (i : Nat) :
    (⟨place, i * cls.size⟩ : Pointer).plus cls.size = ⟨place, (i + 1) * cls.size⟩ := by
  rw [Nat.add_one_mul]
  rfl

/-- The loop writes to the objects that it passes over only. -/
theorem initLoop_other
    {remaining i : Nat} {state : ObjectAlloc} {ptr : Pointer}
    (outside : ptr ∉ objectsFrom cls place remaining i) :
    (ObjectAlloc.initLoop cls handleOf remaining i ⟨place, i * cls.size⟩
        state).next ptr = state.next ptr ∧
      (ObjectAlloc.initLoop cls handleOf remaining i ⟨place, i * cls.size⟩
        state).handle ptr = state.handle ptr := by
  induction remaining generalizing i state with
  | zero => exact ⟨rfl, rfl⟩
  | succ remaining ih =>
    rw [objectsFrom, mem_cons, not_or] at outside
    rw [ObjectAlloc.initLoop, plus_size]
    obtain ⟨next, handle⟩ := ih outside.2
    rw [next, handle]
    exact ⟨update_of_ne outside.1 _ _, update_of_ne outside.1 _ _⟩

/-- The loop gives every object its number and its successor. -/
theorem initLoop_object
    {remaining i k : Nat} {state : ObjectAlloc}
    (less : k < remaining) :
    (ObjectAlloc.initLoop cls handleOf remaining i ⟨place, i * cls.size⟩
        state).next ⟨place, (i + k) * cls.size⟩ = some ⟨place, (i + k + 1) * cls.size⟩ ∧
      (ObjectAlloc.initLoop cls handleOf remaining i ⟨place, i * cls.size⟩
        state).handle ⟨place, (i + k) * cls.size⟩ = handleOf (i + k) := by
  induction remaining generalizing i k state with
  | zero => omega
  | succ remaining ih =>
    rw [ObjectAlloc.initLoop, plus_size]
    cases k with
    | zero =>
      have outside : (⟨place, (i + 0) * cls.size⟩ : Pointer) ∉
          objectsFrom cls place remaining (i + 1) :=
        (nodup_cons.mp (nodup_objectsFrom place (remaining + 1) i)).1
      obtain ⟨next, handle⟩ := initLoop_other outside
      rw [next, handle]
      simp
    | succ k =>
      have index : i + (k + 1) = i + 1 + k := by omega
      rw [index]
      exact ih (Nat.lt_of_succ_lt_succ less)

/-- The loop does not initialize the class. -/
theorem initLoop_initialized
    (ptr : Pointer)
    (remaining i : Nat)
    (state : ObjectAlloc) :
    (ObjectAlloc.initLoop cls handleOf remaining i ptr state).initialized = state.initialized := by
  induction remaining generalizing i ptr state with
  | zero => rfl
  | succ remaining ih => exact ih _ _ _

/-- The loop adds no block to the table. -/
theorem initLoop_table
    (ptr : Pointer)
    (remaining i : Nat)
    (state : ObjectAlloc) :
    (ObjectAlloc.initLoop cls handleOf remaining i ptr state).indirect = state.indirect ∧
      (ObjectAlloc.initLoop cls handleOf remaining i ptr state).indirectSize =
        state.indirectSize := by
  induction remaining generalizing i ptr state with
  | zero => exact ⟨rfl, rfl⟩
  | succ remaining ih => exact ih _ _ _

/-- Initializing a block does not initialize the class. -/
theorem initBlock_initialized
    (place : Place)
    (count : Nat)
    (state : ObjectAlloc) :
    (ObjectAlloc.initBlock cls handleOf place count state).initialized = state.initialized :=
  initLoop_initialized ⟨place, 0⟩ count 0 state

/-- Initializing a block adds no block to the table. -/
theorem initBlock_table
    (place : Place)
    (count : Nat)
    (state : ObjectAlloc) :
    (ObjectAlloc.initBlock cls handleOf place count state).indirect = state.indirect ∧
      (ObjectAlloc.initBlock cls handleOf place count state).indirectSize = state.indirectSize :=
  initLoop_table ⟨place, 0⟩ count 0 state

/-- The next object of a block, if there is one. -/
def successor
    (cls : ObjectClass)
    (place : Place)
    (count i : Nat) : Option Pointer :=
  if i < count then some ⟨place, i * cls.size⟩ else none

/-- Where every object points to its successor, a chain runs through the
block. -/
theorem chain_of_successors
    {next : Pointer → Option Pointer} {count remaining i : Nat}
    (points : ∀ k < count, next ⟨place, k * cls.size⟩ = successor cls place count (k + 1))
    (total : i + remaining = count) :
    Chain next (successor cls place count i) (objectsFrom cls place remaining i) := by
  induction remaining generalizing i with
  | zero =>
    unfold successor
    rw [if_neg (by omega)]
    rfl
  | succ remaining ih =>
    refine ⟨?_, ?_⟩
    · unfold successor
      rw [if_pos (by omega)]
    · rw [points i (by omega)]
      exact ih (by omega)

/-- What initializing a block writes. -/
theorem initBlock_object
    {count k : Nat} {state : ObjectAlloc}
    (less : k < count) :
    (ObjectAlloc.initBlock cls handleOf place count state).next
        ⟨place, k * cls.size⟩ = successor cls place count (k + 1) ∧
      (ObjectAlloc.initBlock cls handleOf place count state).handle
        ⟨place, k * cls.size⟩ = handleOf k := by
  have object := @initLoop_object cls handleOf place count 0 k state less
  rw [zero_mul, zero_add] at object
  refine ⟨?_, object.2⟩
  simp only [ObjectAlloc.initBlock]
  unfold successor
  rcases lt_or_ge (k + 1) count with inside | last
  · rw [if_pos inside, update_of_ne, object.1]
    intro equal
    have same := offset_injective (congrArg Pointer.offset equal)
    omega
  · have isLast : count - 1 = k := by omega
    rw [if_neg (by omega), isLast, update_self]

/-- Initializing a block leaves the objects of other places alone. -/
theorem initBlock_other
    {count : Nat} {state : ObjectAlloc} {ptr : Pointer}
    (different : ptr.place ≠ place) :
    (ObjectAlloc.initBlock cls handleOf place count state).next ptr = state.next ptr ∧
      (ObjectAlloc.initBlock cls handleOf place count state).handle ptr = state.handle ptr := by
  have outside : ptr ∉ objectsFrom cls place count 0 := by
    rw [mem_objectsFrom]
    rintro ⟨k, -, rfl⟩
    exact different rfl
  have unchanged := @initLoop_other cls handleOf place count 0 state ptr outside
  rw [zero_mul] at unchanged
  refine ⟨?_, unchanged.2⟩
  simp only [ObjectAlloc.initBlock]
  rw [update_of_ne, unchanged.1]
  rintro rfl
  exact different rfl

end

section

variable {cls : ObjectClass}

/-- A new block is initialized when the avail list is empty; its first object
is handed out and the others make up the avail list. -/
theorem Consistent.grow
    {alloc base state : ObjectAlloc} {live : List Pointer} {place : Place}
    {count : Nat} {handleOf : Nat → Nat}
    (consistent : Consistent cls ⟨alloc, live⟩ [])
    (baseHandle : base.handle = alloc.handle)
    (fresh : ∀ ptr handle, Object cls alloc ptr handle → ptr.place ≠ place)
    (positive : 0 < count)
    (nextEq : state.next = (ObjectAlloc.initBlock cls handleOf place count base).next)
    (handleEq : state.handle = (ObjectAlloc.initBlock cls handleOf place count base).handle)
    (availEq : state.avail = state.next ⟨place, 0⟩)
    (objects : ∀ ptr handle, Object cls state ptr handle ↔ Object cls alloc ptr handle ∨
        ∃ i < count, ptr = ⟨place, i * cls.size⟩ ∧ handle = handleOf i)
    (table : TableOk state) :
    Consistent cls ⟨state, ⟨place, 0⟩ :: live⟩ (objectsFrom cls place (count - 1) 1) := by
  obtain ⟨less, rfl⟩ : ∃ less, count = less + 1 := Nat.exists_eq_add_one.mpr positive
  have whole : objectsFrom cls place (less + 1) 0 = ⟨place, 0⟩ :: objectsFrom cls place less 1 := by
    rw [objectsFrom, zero_mul]
  have points : ∀ k < less + 1, state.next ⟨place, k * cls.size⟩ =
      successor cls place (less + 1) (k + 1) := by
    intro k inside
    rw [nextEq]
    exact (initBlock_object inside).1
  have apart : ∀ ptr ∈ live, ptr ∉ objectsFrom cls place (less + 1) 0 := by
    intro ptr isLive inside
    obtain ⟨handle, old⟩ := (consistent.members ptr).mp (by simpa using isLive)
    obtain ⟨k, -, rfl⟩ := mem_objectsFrom.mp inside
    exact fresh _ handle old rfl
  have perm : (objectsFrom cls place less 1 ++ ⟨place, 0⟩ :: live).Perm
      (objectsFrom cls place (less + 1) 0 ++ live) := by
    rw [whole]
    exact perm_middle
  refine ⟨?_, ?_, ?_, ?_, table⟩
  · show Chain state.next state.avail (objectsFrom cls place less 1)
    have first := points 0 positive
    rw [zero_mul] at first
    rw [availEq, first]
    exact chain_of_successors points (by omega)
  · show (objectsFrom cls place less 1 ++ ⟨place, 0⟩ :: live).Nodup
    rw [perm.nodup_iff, nodup_append]
    refine ⟨nodup_objectsFrom place (less + 1) 0, ?_, ?_⟩
    · simpa using consistent.nodup
    · intro left inBlock right isLive equal
      subst equal
      exact apart left isLive inBlock
  · intro ptr
    show ptr ∈ objectsFrom cls place less 1 ++ ⟨place, 0⟩ :: live ↔ _
    rw [perm.mem_iff, mem_append, mem_objectsFrom]
    have old := consistent.members ptr
    rw [nil_append] at old
    rw [old]
    constructor
    · rintro (⟨k, inside, rfl⟩ | ⟨handle, object⟩)
      · rw [zero_add]
        exact ⟨_, (objects _ _).mpr (.inr ⟨k, inside, rfl, rfl⟩)⟩
      · exact ⟨handle, (objects _ _).mpr (.inl object)⟩
    · rintro ⟨handle, object⟩
      rcases (objects _ _).mp object with old | ⟨k, inside, rfl, -⟩
      · exact .inr ⟨handle, old⟩
      · exact .inl ⟨k, inside, by rw [zero_add]⟩
  · intro ptr handle object
    rw [handleEq]
    rcases (objects _ _).mp object with old | ⟨k, inside, rfl, rfl⟩
    · rw [(initBlock_other (fresh ptr handle old)).2, baseHandle]
      exact consistent.handles ptr handle old
    · exact (initBlock_object inside).2

/-- Which objects there are depends on the blocks only. -/
theorem Object.of_blocks
    {state other : ObjectAlloc} {ptr : Pointer} {handle : Nat}
    (object : Object cls state ptr handle)
    (initialized : other.initialized = state.initialized)
    (indirect : other.indirect = state.indirect)
    (indirectSize : other.indirectSize = state.indirectSize) :
    Object cls other ptr handle := by
  cases object with
  | direct index isInitialized less =>
    exact .direct index (initialized.trans isInitialized) less
  | indirect table block index address isTable less inside found =>
    exact .indirect table block index address (indirect.trans isTable)
      (indirectSize ▸ less) inside found

/-- Changes to the avail list and its links that leave the blocks and the
handles alone. -/
theorem Consistent.relink
    {alloc state : ObjectAlloc} {live free others rest : List Pointer}
    (consistent : Consistent cls ⟨alloc, live⟩ free)
    (initialized : state.initialized = alloc.initialized)
    (indirect : state.indirect = alloc.indirect)
    (indirectSize : state.indirectSize = alloc.indirectSize)
    (handle : state.handle = alloc.handle)
    (perm : (rest ++ others).Perm (free ++ live))
    (chain : Chain state.next state.avail rest) :
    Consistent cls ⟨state, others⟩ rest := by
  have same : ∀ ptr handle, Object cls state ptr handle ↔ Object cls alloc ptr handle := by
    intro ptr handle
    constructor
    · intro object
      exact object.of_blocks initialized.symm indirect.symm indirectSize.symm
    · intro object
      exact object.of_blocks initialized indirect indirectSize
  refine ⟨chain, perm.nodup_iff.mpr consistent.nodup, ?_, ?_,
    consistent.table.of_fields indirect indirectSize⟩
  · intro ptr
    rw [perm.mem_iff, consistent.members ptr]
    simp only [same]
  · intro ptr value object
    rw [handle]
    exact consistent.handles ptr value ((same ptr value).mp object)

section

variable
    {alloc : ObjectAlloc} {live free : List Pointer}

/-- Taking the first object of the avail list. -/
theorem Consistent.pop
    {ptr : Pointer}
    (consistent : Consistent cls ⟨alloc, live⟩ (ptr :: free)) :
    Consistent cls ⟨{ alloc with avail := alloc.next ptr }, ptr :: live⟩ free :=
  consistent.relink rfl rfl rfl rfl perm_middle consistent.chain.2

/-- Putting a live object back on the avail list. -/
theorem Consistent.push
    {obj : Pointer}
    (consistent : Consistent cls ⟨alloc, live⟩ free)
    (isLive : obj ∈ live) :
    Consistent cls ⟨alloc.objFree obj, live.erase obj⟩ (obj :: free) := by
  refine consistent.relink rfl rfl rfl rfl ?_ ?_
  · apply List.Perm.symm
    apply ((perm_cons_erase isLive).append_left free).trans
    exact perm_middle
  · refine ⟨rfl, ?_⟩
    simp only [ObjectAlloc.objFree, update_self]
    apply consistent.chain.congr
    intro ptr isFree
    apply update_of_ne
    rintro rfl
    exact (nodup_append.mp consistent.nodup).2.2 ptr isFree ptr isLive rfl

/-- Writing to a live object. -/
theorem Consistent.use
    {obj : Pointer}
    (consistent : Consistent cls ⟨alloc, live⟩ free)
    (isLive : obj ∈ live)
    (word : Option Pointer) :
    Consistent cls
      ⟨{ alloc with next := update alloc.next obj word }, live⟩
      free := by
  refine consistent.relink rfl rfl rfl rfl (List.Perm.refl _) ?_
  apply consistent.chain.congr
  intro ptr isFree
  apply update_of_ne
  rintro rfl
  exact (nodup_append.mp consistent.nodup).2.2 ptr isFree ptr isLive rfl

end

end

end Mpich.Util.Handle
