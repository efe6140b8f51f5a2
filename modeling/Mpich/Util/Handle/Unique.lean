import Mpich.Util.Handle.Invariant

/-!
# Handles are unique and resolve

In every run the live objects of a class have different handles, a handle leads
back to its object, and the avail list holds the other objects, each once. An
allocation that yields nothing finds every object of every block live; it
changes nothing, except that the first one that fails in this way may have
created the table of the indirect blocks.
-/

namespace Mpich.Util.Handle

open LinkedQueue List Function

variable {cls : ObjectClass}

variable {state : ObjectAlloc}

/-- Two objects with one handle are the same. -/
theorem Object.pointer_unique
    {left right : Pointer} {handle : Nat}
    (leftObject : Object cls state left handle)
    (rightObject : Object cls state right handle)
    (table : TableOk state) :
    left = right := by
  have kindFits := cls.kind_lt
  have directFits := cls.directSize_le
  have sizeFits := table.size_lt
  generalize sameHandle : handle = other at rightObject
  cases leftObject with
  | direct index _ less =>
    have fields := directHandle_fields kindFits (lt_of_lt_of_le less directFits)
    cases rightObject with
    | direct index' _ less' =>
      have fields' := directHandle_fields kindFits (lt_of_lt_of_le less' directFits)
      rw [sameHandle, fields'.2.2] at fields
      rw [fields.2.2]
    | indirect table' block' index' address' _ less' inside' _ =>
      unfold handleBlockSize at inside'
      have fields' := indirectHandle_fields kindFits
        (lt_trans less' sizeFits) (by omega : index' < 65536)
      rw [sameHandle, fields'.1] at fields
      cases fields.1
  | indirect first block index address isTable less inside found =>
    unfold handleBlockSize at inside
    have fields := indirectHandle_fields kindFits
      (lt_trans less sizeFits) (by omega : index < 65536)
    cases rightObject with
    | direct index' _ less' =>
      have fields' := directHandle_fields kindFits (lt_of_lt_of_le less' directFits)
      rw [sameHandle, fields'.1] at fields
      cases fields.1
    | indirect second block' index' address' isTable' less' inside' found' =>
      unfold handleBlockSize at inside'
      have fields' := indirectHandle_fields kindFits
        (lt_trans less' sizeFits) (by omega : index' < 65536)
      rw [sameHandle, fields'.2.2.1, fields'.2.2.2] at fields
      rw [isTable] at isTable'
      cases isTable'
      rw [← fields.2.2.1, found'] at found
      cases found
      rw [fields.2.2.2]

/-- The handle of an object leads back to it. -/
theorem Object.getPtr
    {ptr : Pointer} {handle : Nat}
    (object : Object cls state ptr handle)
    (table : TableOk state) :
    state.getPtr cls handle = some ptr := by
  have kindFits := cls.kind_lt
  have directFits := cls.directSize_le
  have sizeFits := table.size_lt
  cases object with
  | direct index _ less =>
    have fields := directHandle_fields kindFits (lt_of_lt_of_le less directFits)
    simp only [ObjectAlloc.getPtr, fields, if_true]
  | indirect first block index address isTable less inside found =>
    unfold handleBlockSize at inside
    have fields := indirectHandle_fields kindFits
      (lt_trans less sizeFits) (by omega : index < 65536)
    have notDirect : handleKindIndirect ≠ handleKindDirect := by decide
    simp only [ObjectAlloc.getPtr, ObjectAlloc.getPtrIndirect, fields,
      if_neg notDirect, if_true, ne_eq, not_true_eq_false, if_false,
      not_le.mpr less, isTable, found]

/-- The static block joins the objects when it is initialized. -/
theorem object_directInit
    {alloc : ObjectAlloc}
    (before : alloc.initialized = false)
    (initialized : state.initialized = true)
    (indirect : state.indirect = alloc.indirect)
    (indirectSize : state.indirectSize = alloc.indirectSize)
    (ptr : Pointer)
    (handle : Nat) :
    Object cls state ptr handle ↔ Object cls alloc ptr handle ∨
        ∃ i < cls.directSize, ptr = ⟨.direct, i * cls.size⟩ ∧ handle = directHandle cls.kind i := by
  constructor
  · intro object
    cases object with
    | direct index _ less => exact .inr ⟨index, less, rfl, rfl⟩
    | indirect table block index address isTable less inside found =>
      exact .inl (.indirect table block index address
        (indirect ▸ isTable) (indirectSize ▸ less) inside found)
  · rintro (object | ⟨i, less, rfl, rfl⟩)
    · cases object with
      | direct index isInitialized _ =>
        rw [before] at isInitialized
        cases isInitialized
      | indirect table block index address isTable less inside found =>
        exact .indirect table block index address
          (indirect.trans isTable) (indirectSize ▸ less) inside found
    · exact .direct i initialized less

variable {table : Nat → Option Nat}

/-- A new indirect block joins the objects when it is entered in the table. -/
theorem object_addBlock
    {alloc : ObjectAlloc} {address : Nat}
    (before : ∀ other, alloc.indirect = some other → other = table)
    (empty : alloc.indirect = none → alloc.indirectSize = 0)
    (initialized : state.initialized = alloc.initialized)
    (indirect : state.indirect = some (update table alloc.indirectSize (some address)))
    (indirectSize : state.indirectSize = alloc.indirectSize + 1)
    (ptr : Pointer)
    (handle : Nat) :
    Object cls state ptr handle ↔ Object cls alloc ptr handle ∨
        ∃ i < handleBlockSize, ptr = ⟨.heap address, i * cls.size⟩ ∧
          handle = indirectHandle cls.kind alloc.indirectSize i := by
  constructor
  · intro object
    cases object with
    | direct index isInitialized less =>
      exact .inl (.direct index (initialized ▸ isInitialized) less)
    | indirect other block index found isTable less inside entry =>
      rw [indirect] at isTable
      cases isTable
      rcases lt_or_ge block alloc.indirectSize with old | new
      · rw [update_of_ne (ne_of_lt old)] at entry
        left
        cases known : alloc.indirect with
        | none =>
          have none := empty known
          omega
        | some other =>
          have same := before other known
          subst same
          exact .indirect other block index found known old inside entry
      · have isNew : block = alloc.indirectSize := by omega
        subst isNew
        rw [update_self] at entry
        cases entry
        exact .inr ⟨index, inside, rfl, rfl⟩
  · rintro (object | ⟨i, less, rfl, rfl⟩)
    · cases object with
      | direct index isInitialized less =>
        exact .direct index (initialized.trans isInitialized) less
      | indirect other block index found isTable less inside entry =>
        have same := before other isTable
        subst same
        refine .indirect _ block index found indirect (by omega) inside ?_
        rw [update_of_ne (ne_of_lt less)]
        exact entry
    · refine .indirect _ alloc.indirectSize i address indirect (by omega) less ?_
      exact update_self _ _ _

/-- An allocation that fails leaves everything as it was, but may create the
table of the indirect blocks. -/
def Unchanged (before after : ObjectAlloc) : Prop :=
  after = before ∨ before.indirect = none ∧
      after = { before with
        indirect := some fun _ => none
        indirectSize := 0 }

/-- Why there is no further block: all blocks that the table may hold have been
allocated, or `MPIU_Calloc` has no memory for the table or for a block. -/
def Refused (calloc : Calloc) (state : ObjectAlloc) : Prop :=
  state.indirectSize = handleBlockIndexSize - 1 ∨ calloc.block = none ∨
    state.indirect = none ∧ calloc.table = false

variable {alloc : ObjectAlloc}

variable {live : List Pointer}

/-- Creating the table adds no object. -/
theorem Consistent.createTable
    {free : List Pointer}
    (consistent : Consistent cls ⟨alloc, live⟩ free)
    (noTable : alloc.indirect = none) :
    Consistent cls
      ⟨{ alloc with
          indirect := some fun _ => none
          indirectSize := 0 }, live⟩ free := by
  have same : ∀ ptr handle, Object cls
        { alloc with
          indirect := some fun _ => none
          indirectSize := 0 } ptr handle ↔ Object cls alloc ptr handle := by
    intro ptr handle
    constructor
    · intro object
      cases object with
      | direct index isInitialized less => exact .direct index isInitialized less
      | indirect table block index address isTable less inside found => cases less
    · intro object
      cases object with
      | direct index isInitialized less => exact .direct index isInitialized less
      | indirect table block index address isTable less inside found =>
        rw [noTable] at isTable
        cases isTable
  refine ⟨consistent.chain, consistent.nodup, ?_, ?_, ⟨Nat.succ_pos 1023, ?_, ?_, ?_⟩⟩
  · intro ptr
    rw [consistent.members ptr]
    simp only [same]
  · intro ptr handle object
    exact consistent.handles ptr handle ((same ptr handle).mp object)
  · intro isNone
    cases isNone
  · intro table _ block less
    cases less
  · intro table _ left less
    cases less

/-- The table with the entry of a new block. -/
theorem TableOk.enter
    {alloc : ObjectAlloc} {address : Nat}
    (tableOk : TableOk alloc)
    (isTable : alloc.indirect = some table)
    (room : alloc.indirectSize + 1 < handleBlockIndexSize)
    (fresh : ∀ block < alloc.indirectSize, table block ≠ some address)
    (indirect : state.indirect = some (update table alloc.indirectSize (some address)))
    (indirectSize : state.indirectSize = alloc.indirectSize + 1) :
    TableOk state where
  size_lt := indirectSize ▸ room
  empty := by
    intro isNone
    rw [indirect] at isNone
    cases isNone
  filled := by
    intro other isOther block less
    rw [indirect] at isOther
    cases isOther
    rcases lt_or_ge block alloc.indirectSize with old | new
    · rw [update_of_ne (ne_of_lt old)]
      exact tableOk.filled table isTable block old
    · have isNew : block = alloc.indirectSize := by omega
      exact ⟨address, by rw [isNew, update_self]⟩
  injective := by
    intro other isOther left leftLess right rightLess equal
    rw [indirect] at isOther
    cases isOther
    rcases lt_or_ge left alloc.indirectSize with leftOld | leftNew
    · rw [update_of_ne (ne_of_lt leftOld)] at equal
      rcases lt_or_ge right alloc.indirectSize with rightOld | rightNew
      · rw [update_of_ne (ne_of_lt rightOld)] at equal
        exact tableOk.injective table isTable left leftOld right rightOld equal
      · have isNew : right = alloc.indirectSize := by omega
        rw [isNew, update_self] at equal
        exact absurd equal (fresh left leftOld)
    · have isNew : left = alloc.indirectSize := by omega
      rcases lt_or_ge right alloc.indirectSize with rightOld | rightNew
      · rw [isNew, update_self, update_of_ne (ne_of_lt rightOld)] at equal
        exact absurd equal.symm (fresh right rightOld)
      · omega

variable {calloc : Calloc}

/-- A further indirect block, or the reason why there is none. -/
theorem Consistent.addBlock
    (consistent : Consistent cls ⟨alloc, live⟩ [])
    (isTable : alloc.indirect = some table)
    (fresh : calloc.Fresh alloc) :
    (∃ ptr state free, ObjectAlloc.setAvail (ObjectAlloc.addBlock cls calloc table alloc) =
        (some ptr, state) ∧ Consistent cls ⟨state, ptr :: live⟩ free) ∨
    ObjectAlloc.addBlock cls calloc table alloc = (none, alloc) ∧ Refused calloc alloc := by
  have sizeLt := consistent.table.size_lt
  unfold ObjectAlloc.addBlock
  rcases lt_or_ge alloc.indirectSize (handleBlockIndexSize - 1) with
    room | full
  · rw [if_neg (not_le.mpr room)]
    cases answer : calloc.block with
    | none => exact .inr ⟨rfl, .inr (.inl answer)⟩
    | some address =>
      left
      have newAddress := fresh address answer table isTable
      have newObjects : ∀ ptr handle, Object cls alloc ptr handle → ptr.place ≠ .heap address := by
        intro ptr handle object
        cases object with
        | direct index isInitialized less => exact Place.noConfusion
        | indirect other block index old isOther less inside found =>
          rw [isTable] at isOther
          cases isOther
          rintro ⟨rfl⟩
          exact newAddress block less found
      have sameTable : ∀ other, alloc.indirect = some other → other = table := by
        intro other isOther
        rw [isTable] at isOther
        cases isOther
        rfl
      have notEmpty : alloc.indirect = none → alloc.indirectSize = 0 := by
        intro isNone
        rw [isTable] at isNone
        cases isNone
      have next : alloc.indirectSize + 1 < handleBlockIndexSize := Nat.add_lt_of_lt_sub room
      have positive : 0 < handleBlockSize := by decide
      simp only [ObjectAlloc.setAvail]
      generalize isFilled : ObjectAlloc.initBlock cls
        (indirectHandle cls.kind alloc.indirectSize) (.heap address)
        handleBlockSize alloc = filled
      have initialized : filled.initialized = alloc.initialized := by
        rw [← isFilled, initBlock_initialized]
      have sameNext : filled.next = (ObjectAlloc.initBlock cls
          (indirectHandle cls.kind alloc.indirectSize) (.heap address)
          handleBlockSize alloc).next := by
        rw [isFilled]
      have sameHandle : filled.handle = (ObjectAlloc.initBlock cls
          (indirectHandle cls.kind alloc.indirectSize) (.heap address)
          handleBlockSize alloc).handle := by
        rw [isFilled]
      refine ⟨⟨.heap address, 0⟩, _, _, rfl, consistent.grow rfl
        newObjects positive sameNext sameHandle rfl ?_ ?_⟩
      · exact object_addBlock sameTable notEmpty initialized rfl rfl
      · exact consistent.table.enter isTable next newAddress rfl rfl
  · rw [if_pos full]
    exact .inr ⟨rfl, .inl (le_antisymm (Nat.le_sub_one_of_lt sizeLt) full)⟩

/-- A further indirect block, where the table may have to be created first. -/
theorem Consistent.indirectInit
    (consistent : Consistent cls ⟨alloc, live⟩ [])
    (fresh : calloc.Fresh alloc) :
    (∃ ptr state free, ObjectAlloc.setAvail (alloc.indirectInit cls calloc) =
        (some ptr, state) ∧ Consistent cls ⟨state, ptr :: live⟩ free) ∨
    ∃ state, alloc.indirectInit cls calloc = (none, state) ∧
      Unchanged alloc state ∧ Refused calloc alloc ∧ Consistent cls ⟨state, live⟩ [] := by
  unfold ObjectAlloc.indirectInit
  cases isTable : alloc.indirect with
  | some table =>
    rcases consistent.addBlock isTable fresh with
      grown | ⟨failed, refused⟩
    · exact .inl grown
    · exact .inr ⟨alloc, failed, .inl rfl, refused, consistent⟩
  | none =>
    cases memory : calloc.table with
    | false =>
      exact .inr ⟨alloc, rfl, .inl rfl, .inr (.inr ⟨isTable, memory⟩), consistent⟩
    | true =>
      have created := consistent.createTable isTable
      have stillFresh : calloc.Fresh
          { alloc with
            indirect := some fun _ => none
            indirectSize := 0 } := by
        intro address _ table _ block less
        cases less
      rcases created.addBlock rfl stillFresh with grown | ⟨failed, refused⟩
      · exact .inl grown
      · refine .inr ⟨_, failed, .inr ⟨isTable, rfl⟩, ?_, created⟩
        rcases refused with full | noBlock | ⟨noTable, _⟩
        · exact absurd (show 0 = handleBlockIndexSize - 1 from full) (by decide)
        · exact .inr (.inl noBlock)
        · cases noTable

/-- An allocation yields an object that was not live, or finds all objects
live and the memory for a further block refused. -/
theorem Consistent.objAlloc
    {free : List Pointer}
    (consistent : Consistent cls ⟨alloc, live⟩ free)
    (fresh : calloc.Fresh alloc) :
    (∃ ptr state rest, alloc.objAlloc cls calloc = (some ptr, state) ∧
      Consistent cls ⟨state, ptr :: live⟩ rest) ∨
    ∃ state, alloc.objAlloc cls calloc = (none, state) ∧
      Unchanged alloc state ∧ Refused calloc alloc ∧
      alloc.initialized = true ∧ free = [] ∧ Consistent cls ⟨state, live⟩ [] := by
  unfold ObjectAlloc.objAlloc
  cases free with
  | cons ptr free =>
    have availEq : alloc.avail = some ptr := consistent.chain.1
    rw [availEq]
    exact .inl ⟨ptr, _, free, rfl, consistent.pop⟩
  | nil =>
    have availEq : alloc.avail = none := consistent.chain
    rw [availEq]
    cases started : alloc.initialized with
    | true =>
      rcases consistent.indirectInit fresh with
        grown | ⟨state, failed, unchanged, refused, kept⟩
      · exact .inl grown
      · rw [failed]
        exact .inr ⟨state, rfl, unchanged, refused, rfl, rfl, kept⟩
    | false =>
      have noStatic : ∀ ptr handle, Object cls alloc ptr handle → ptr.place ≠ .direct := by
        intro ptr handle object
        cases object with
        | direct index isInitialized less =>
          rw [started] at isInitialized
          cases isInitialized
        | indirect table block index address isTable less inside found =>
          exact Place.noConfusion
      let base : ObjectAlloc :=
        { alloc with
          avail := none
          initialized := true }
      have table := @initBlock_table cls (directHandle cls.kind) .direct cls.directSize base
      have initialized := @initBlock_initialized cls (directHandle cls.kind)
        .direct cls.directSize base
      left
      refine ⟨⟨.direct, 0⟩, _, _, rfl, @Consistent.grow cls alloc base _ live
        .direct cls.directSize (directHandle cls.kind) consistent rfl noStatic
        cls.directSize_pos rfl rfl rfl ?_ ?_⟩
      · exact object_directInit started initialized table.1 table.2
      · exact consistent.table.of_fields table.1 table.2

/-- What holds of the objects of a class in every state. -/
structure Sound (cls : ObjectClass) (objects : Objects) : Prop where
  /-- The handles of live objects are pairwise different. -/
  distinct : (objects.live.map objects.alloc.handle).Nodup
  /-- The handle of a live object leads back to it. -/
  resolves : ∀ ptr ∈ objects.live, objects.alloc.getPtr cls (objects.alloc.handle ptr) = some ptr
  /-- The fields of a direct handle are the ones that were packed. -/
  directFields : ∀ index, objects.alloc.initialized = true → index < cls.directSize →
    let handle := objects.alloc.handle ⟨.direct, index * cls.size⟩
    handleGetKind handle = handleKindDirect ∧
      handleGetMpiKind handle = cls.kind ∧ handleIndex handle = index
  /-- The fields of an indirect handle are the ones that were packed. -/
  indirectFields : ∀ table block index address,
    objects.alloc.indirect = some table → block < objects.alloc.indirectSize →
    index < handleBlockSize → table block = some address →
    let handle := objects.alloc.handle ⟨.heap address, index * cls.size⟩
    handleGetKind handle = handleKindIndirect ∧ handleGetMpiKind handle = cls.kind ∧
        handleBlock handle = block ∧ handleBlockIndex handle = index
  /-- The avail list holds the objects that are not live, each once. -/
  avail : ∃ free, Chain objects.alloc.next objects.alloc.avail free ∧
    free.Nodup ∧ ∀ ptr, ptr ∈ free ↔
      (∃ handle, Object cls objects.alloc ptr handle) ∧ ptr ∉ objects.live
  /-- An allocation yields an object that was not live; or it yields nothing
  when all objects of all blocks are live and a further block is refused, and
  then changes nothing but the table. -/
  allocates : ∀ calloc, calloc.Fresh objects.alloc →
    (∃ ptr state, objects.alloc.objAlloc cls calloc = (some ptr, state) ∧ ptr ∉ objects.live) ∨
    ∃ state, objects.alloc.objAlloc cls calloc = (none, state) ∧
      Unchanged objects.alloc state ∧ Refused calloc objects.alloc ∧
      objects.alloc.initialized = true ∧
      ∀ ptr handle, Object cls objects.alloc ptr handle → ptr ∈ objects.live

/-- The invariant gives what holds of the objects. -/
theorem Consistent.sound
    {objects : Objects} {free : List Pointer}
    (consistent : Consistent cls objects free) :
    Sound cls objects := by
  have parts := nodup_append.mp consistent.nodup
  have object : ∀ ptr ∈ objects.live, Object cls objects.alloc ptr (objects.alloc.handle ptr) := by
    intro ptr isLive
    obtain ⟨handle, object⟩ := (consistent.members ptr).mp (mem_append_right free isLive)
    rwa [consistent.handles ptr handle object]
  refine ⟨?_, ?_, ?_, ?_, ⟨free, consistent.chain, parts.1, ?_⟩, ?_⟩
  · apply parts.2.1.map_on
    intro left leftLive right rightLive equal
    apply (object left leftLive).pointer_unique _ consistent.table
    rw [equal]
    exact object right rightLive
  · intro ptr isLive
    exact (object ptr isLive).getPtr consistent.table
  · intro index initialized less
    have handle := consistent.handles _ _ (.direct index initialized less)
    simp only [handle]
    exact directHandle_fields cls.kind_lt (lt_of_lt_of_le less cls.directSize_le)
  · intro table block index address isTable less inside found
    have handle := consistent.handles _ _
      (.indirect table block index address isTable less inside found)
    simp only [handle]
    unfold handleBlockSize at inside
    exact indirectHandle_fields cls.kind_lt (lt_trans less consistent.table.size_lt) (by omega)
  · intro ptr
    rw [← consistent.members ptr, mem_append]
    constructor
    · intro isFree
      exact ⟨.inl isFree, fun isLive => parts.2.2 ptr isFree ptr isLive rfl⟩
    · rintro ⟨isFree | isLive, notLive⟩
      · exact isFree
      · exact absurd isLive notLive
  · intro calloc fresh
    rcases consistent.objAlloc fresh with
      ⟨ptr, state, rest, done, kept⟩ |
        ⟨state, failed, unchanged, refused, initialized, isNil, -⟩
    · refine .inl ⟨ptr, state, done, ?_⟩
      have nodup := (nodup_append.mp kept.nodup).2.1
      exact (nodup_cons.mp nodup).1
    · refine .inr ⟨state, failed, unchanged, refused, initialized, ?_⟩
      intro ptr handle object
      subst isNil
      exact (consistent.members ptr).mpr ⟨handle, object⟩

/-- The invariant is inductive. -/
theorem consistent_inductive (cls : ObjectClass) :
    (runs cls).Inductive
      (fun objects => ∃ free, Consistent cls objects free) where
  initial := by
    rintro ⟨alloc, live⟩ ⟨⟨avail, initialized, indirect, indirectSize⟩, isNil⟩
    have noObject : ∀ ptr handle, ¬Object cls alloc ptr handle := by
      intro ptr handle object
      cases object with
      | direct index isInitialized less =>
        rw [initialized] at isInitialized
        cases isInitialized
      | indirect table block index address isTable less inside found =>
        rw [indirect] at isTable
        cases isTable
    subst isNil
    refine ⟨[], avail, nodup_nil, ?_, ?_, ?_, ?_, ?_, ?_⟩
    · intro ptr
      simp [noObject]
    · intro ptr handle object
      exact absurd object (noObject ptr handle)
    · show alloc.indirectSize < handleBlockIndexSize
      rw [indirectSize]
      decide
    · intro _
      exact indirectSize
    · intro table isTable
      rw [indirect] at isTable
      cases isTable
    · intro table isTable
      rw [indirect] at isTable
      cases isTable
  step := by
    rintro ⟨alloc, live⟩ action next ⟨free, consistent⟩ enabled stepped
    simp only [runs, Option.some.injEq] at stepped
    subst stepped
    cases action with
    | alloc calloc =>
      simp only [Objects.step]
      rcases consistent.objAlloc enabled with
        ⟨ptr, state, rest, done, kept⟩ | ⟨state, failed, -, -, -, -, kept⟩
      · rw [done]
        exact ⟨rest, kept⟩
      · rw [failed]
        exact ⟨[], kept⟩
    | free obj => exact ⟨obj :: free, consistent.push enabled⟩
    | use obj word => exact ⟨free, consistent.use enabled word⟩

/-- In every run, for every class of objects, handles are unique and resolve,
and an allocation fails only when all objects are live. -/
theorem sound_of_reachable
    (cls : ObjectClass)
    (objects : Objects)
    (reachable : (runs cls).Reachable objects) :
    Sound cls objects := by
  obtain ⟨free, consistent⟩ := (consistent_inductive cls).reachable reachable
  exact consistent.sound

/-- A class with one object in its static block. -/
def oneObject : ObjectClass where
  kind := 11
  size := 16
  directSize := 1
  kind_lt := by decide
  size_pos := by decide
  directSize_pos := Nat.one_pos
  directSize_le := by decide

/-- The allocator of a class that has not been used. -/
def untouched : ObjectAlloc where
  avail := none
  initialized := false
  indirect := none
  indirectSize := 0
  handle := fun _ => 0
  next := fun _ => none

/-- The state after the only object of the static block has been allocated. -/
def oneAllocated : Objects :=
  Objects.step oneObject ⟨untouched, []⟩ (.alloc ⟨true, none⟩)

theorem oneAllocated_reachable : (runs oneObject).Reachable oneAllocated := by
  have start : (runs oneObject).Reachable ⟨untouched, []⟩ := .initial ⟨⟨rfl, rfl, rfl, rfl⟩, rfl⟩
  refine .step (.alloc ⟨true, none⟩) start ?_ rfl
  intro address isNone
  cases isNone

/-- The object that is live then has a handle that leads back to it. -/
theorem oneAllocated_sound :
    oneAllocated.live = [⟨.direct, 0⟩] ∧ Sound oneObject oneAllocated :=
  ⟨rfl, sound_of_reachable oneObject oneAllocated (by
    have start : (runs oneObject).Reachable ⟨untouched, []⟩ := .initial ⟨⟨rfl, rfl, rfl, rfl⟩, rfl⟩
    refine .step (.alloc ⟨true, none⟩) start ?_ rfl
    intro address isNone
    cases isNone)⟩

/-- An allocation that then meets memory for the table but none for a block
fails although no indirect block has been allocated, and changes the state. -/
theorem fails_and_changes :
    ∃ objects calloc state, (runs oneObject).Reachable objects ∧ calloc.Fresh objects.alloc ∧
      objects.alloc.objAlloc oneObject calloc = (none, state) ∧
      objects.alloc.indirectSize = 0 ∧ state ≠ objects.alloc := by
  refine ⟨oneAllocated, ⟨true, none⟩, _, oneAllocated_reachable, ?_, rfl, rfl, ?_⟩
  · intro address isNone
    cases isNone
  · intro equal
    have tables := congrArg (fun state => state.indirect.isSome) equal
    cases tables

end Mpich.Util.Handle
