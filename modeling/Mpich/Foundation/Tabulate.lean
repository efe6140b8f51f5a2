import Mathlib.Data.List.Basic

/-!
# Buffers

A buffer is the list of its cells. Reading and writing a range of cells fails
when the range leaves the buffer. A buffer may be divided into blocks of one size, with
its cells given by a function of the number of their block and of their position in it.
-/

namespace Mpich.Buffer

open List

variable {Cell : Type*}

/-- The cells of a buffer with some of them replaced. -/
def overwrite
    (buffer : List Cell)
    (offset : Nat)
    (cells : List Cell) : List Cell :=
  buffer.take offset ++ cells ++ buffer.drop (offset + cells.length)

/-- Write cells into a buffer. -/
def store
    (buffer : List Cell)
    (offset : Nat)
    (cells : List Cell) : Option (List Cell) :=
  if offset + cells.length ≤ buffer.length then
    some (overwrite buffer offset cells)
  else
    none

/-- Read cells from a buffer. -/
def load
    (buffer : List Cell)
    (offset count : Nat) : Option (List Cell) :=
  if offset + count ≤ buffer.length then
    some ((buffer.drop offset).take count)
  else
    none

variable {buffer : List Cell}

theorem store_of_le
    {offset : Nat} {cells : List Cell}
    (within : offset + cells.length ≤ buffer.length) :
    store buffer offset cells = some (overwrite buffer offset cells) :=
  if_pos within

theorem load_of_le
    {offset count : Nat}
    (within : offset + count ≤ buffer.length) :
    load buffer offset count = some ((buffer.drop offset).take count) :=
  if_pos within

section

variable
    {buffer : List Cell} {offset : Nat} {cells : List Cell}
    (within : offset + cells.length ≤ buffer.length)

include within

theorem length_overwrite :
    (overwrite buffer offset cells).length = buffer.length := by
  simp only [overwrite, length_append, length_take, length_drop]
  omega

/-- What a cell holds after a write. -/
theorem getElem?_overwrite (index : Nat) :
    (overwrite buffer offset cells)[index]? = if offset ≤ index ∧ index < offset + cells.length then
        cells[index - offset]?
      else
        buffer[index]? := by
  have front : (buffer.take offset).length = offset := by
    rw [length_take]
    omega
  unfold overwrite
  by_cases before : index < offset
  · rw [if_neg (by omega), append_assoc,
      getElem?_append_left (by omega), getElem?_take, if_pos before]
  · by_cases inside : index < offset + cells.length
    · rw [if_pos (by omega), getElem?_append_left (by rw [length_append]; omega),
        getElem?_append_right (by omega), front]
    · rw [if_neg (by omega), getElem?_append_right (by rw [length_append]; omega),
        length_append, front, getElem?_drop]
      congr 1
      omega

end

/-- The cells of a range. -/
protected theorem getElem?_range
    (buffer : List Cell)
    (offset count index : Nat) :
    ((buffer.drop offset).take count)[index]? =
      if index < count then buffer[offset + index]? else none := by
  rw [getElem?_take, getElem?_drop]

protected theorem length_range
    {offset count : Nat}
    (within : offset + count ≤ buffer.length) :
    ((buffer.drop offset).take count).length = count := by
  rw [length_take, length_drop]
  omega

end Mpich.Buffer

/-!
## Tabulated buffers

A buffer whose cells are given by a function of their positions. Reading,
writing and combining ranges of such buffers gives such buffers again.
-/

namespace Mpich.Buffer

open List

variable {Cell : Type*}

/-- The buffer of this length with the given cells. -/
def tabulate (length : Nat) (cell : Nat → Cell) : List Cell :=
  (List.range length).map cell

@[simp] theorem length_tabulate (length : Nat) (cell : Nat → Cell) :
    (tabulate length cell).length = length := by
  rw [tabulate, List.length_map, List.length_range]

theorem getElem?_tabulate (length : Nat) (cell : Nat → Cell) (index : Nat) :
    (tabulate length cell)[index]? = if index < length then some (cell index) else none := by
  rw [tabulate, getElem?_map]
  by_cases inside : index < length
  · rw [if_pos inside, List.getElem?_range inside, Option.map_some]
  · rw [if_neg inside, List.getElem?_eq_none (by rw [List.length_range]; omega), Option.map_none]

theorem tabulate_congr
    {length : Nat} {cell other : Nat → Cell}
    (same : ∀ index < length, cell index = other index) :
    tabulate length cell = tabulate length other := by
  apply map_congr_left
  intro index inside
  exact same index (mem_range.mp inside)

theorem tabulate_append
    (front back : Nat)
    (cell other : Nat → Cell) :
    tabulate front cell ++ tabulate back other = tabulate (front + back) fun index =>
        if index < front then cell index else other (index - front) := by
  apply ext_getElem?
  intro index
  rw [getElem?_tabulate]
  by_cases inFront : index < front
  · rw [getElem?_append_left (by rwa [length_tabulate]), getElem?_tabulate,
      if_pos inFront, if_pos (by omega), if_pos inFront]
  · rw [getElem?_append_right (by rw [length_tabulate]; omega),
      length_tabulate, getElem?_tabulate, if_neg inFront]
    by_cases inBack : index - front < back
    · rw [if_pos inBack, if_pos (by omega)]
    · rw [if_neg inBack, if_neg (by omega)]

variable {count : Nat}

/-- A range of a tabulated buffer is tabulated. -/
theorem load_tabulate
    {length offset : Nat}
    (within : offset + count ≤ length)
    (cell : Nat → Cell) :
    load (tabulate length cell) offset count =
      some (tabulate count fun index => cell (offset + index)) := by
  rw [load_of_le (by rwa [length_tabulate])]
  apply congrArg some
  apply ext_getElem?
  intro index
  rw [Buffer.getElem?_range, getElem?_tabulate, getElem?_tabulate]
  by_cases inside : index < count
  · rw [if_pos inside, if_pos inside, if_pos (by omega)]
  · rw [if_neg inside, if_neg inside]

/-- The positions of a range take the values written there. -/
def patch
    (cell : Nat → Cell)
    (offset count : Nat)
    (other : Nat → Cell) : Nat → Cell :=
  fun index =>
    if offset ≤ index ∧ index < offset + count then other (index - offset)
    else cell index

theorem patch_of_mem
    {offset index : Nat}
    (inside : offset ≤ index ∧ index < offset + count)
    (cell other : Nat → Cell) :
    patch cell offset count other index = other (index - offset) :=
  if_pos inside

theorem patch_of_not_mem
    {offset index : Nat}
    (outside : ¬ (offset ≤ index ∧ index < offset + count))
    (cell other : Nat → Cell) :
    patch cell offset count other index = cell index :=
  if_neg outside

/-- Writing to a range what it holds already changes nothing. -/
theorem patch_self (cell : Nat → Cell) (offset count : Nat) :
    patch cell offset count (fun index => cell (offset + index)) = cell := by
  funext index
  by_cases inside : offset ≤ index ∧ index < offset + count
  · rw [patch_of_mem inside, Nat.add_sub_cancel' inside.1]
  · rw [patch_of_not_mem inside]

/-- Writing nothing changes nothing. -/
theorem patch_zero (cell other : Nat → Cell) (offset : Nat) :
    patch cell offset 0 other = cell := by
  funext index
  exact patch_of_not_mem (by omega) cell other

theorem patch_congr
    {first second : Nat → Cell}
    (same : ∀ index < count, first index = second index)
    (cell : Nat → Cell)
    (offset : Nat) :
    patch cell offset count first = patch cell offset count second := by
  funext index
  by_cases inside : offset ≤ index ∧ index < offset + count
  · rw [patch_of_mem inside, patch_of_mem inside, same _ (by omega)]
  · rw [patch_of_not_mem inside, patch_of_not_mem inside]

/-- The second of two writes to a range counts. -/
theorem patch_patch
    (cell first second : Nat → Cell)
    (offset count : Nat) :
    patch (patch cell offset count first) offset count second = patch cell offset count second := by
  funext index
  unfold patch
  split <;> rfl

/-- What is written can be read. -/
theorem patch_add
    {index : Nat}
    (inside : index < count)
    (cell other : Nat → Cell)
    (offset : Nat) :
    patch cell offset count other (offset + index) = other index := by
  rw [patch_of_mem ⟨Nat.le_add_right _ _, by omega⟩, Nat.add_sub_cancel_left]

/-- A tabulated buffer with a range of it written is tabulated. -/
theorem store_tabulate
    {length offset : Nat}
    (within : offset + count ≤ length)
    (cell other : Nat → Cell) :
    store (tabulate length cell) offset (tabulate count other) =
      some (tabulate length (patch cell offset count other)) := by
  have fits :
      offset + (tabulate count other).length ≤ (tabulate length cell).length := by
    rwa [length_tabulate, length_tabulate]
  rw [store_of_le fits]
  apply congrArg some
  apply ext_getElem?
  intro index
  rw [getElem?_overwrite fits, length_tabulate, getElem?_tabulate,
    getElem?_tabulate, getElem?_tabulate]
  by_cases inside : offset ≤ index ∧ index < offset + count
  · rw [if_pos inside, if_pos (by omega), if_pos (by omega), patch_of_mem inside]
  · rw [if_neg inside, patch_of_not_mem inside]

/-- A tabulated buffer that is written over is what is written. -/
theorem store_tabulate_all
    (length : Nat)
    (cell other : Nat → Cell) :
    store (tabulate length cell) 0 (tabulate length other) = some (tabulate length other) := by
  rw [store_tabulate (by omega)]
  apply congrArg some
  apply tabulate_congr
  intro index inside
  rw [patch_of_mem (by omega), Nat.sub_zero]

theorem zipWith_tabulate
    (combine : Cell → Cell → Cell)
    (length : Nat)
    (cell other : Nat → Cell) :
    zipWith combine (tabulate length cell) (tabulate length other) =
      tabulate length fun index => combine (cell index) (other index) := by
  unfold tabulate
  rw [zipWith_map, zipWith_self]

end Mpich.Buffer

namespace Mpich.Buffer

open List Function

variable {Cell : Type*}

/-- The buffer of this many blocks. -/
def blocked (count size : Nat) (cell : Nat → Nat → Cell) : List Cell :=
  tabulate (count * size) fun index => cell (index / size) (index % size)

@[simp] theorem length_blocked (count size : Nat) (cell : Nat → Nat → Cell) :
    (blocked count size cell).length = count * size :=
  length_tabulate _ _

variable {count : Nat}

theorem blocked_congr
    {size : Nat} {cell other : Nat → Nat → Cell}
    (same : ∀ block < count, cell block = other block) :
    blocked count size cell = blocked count size other := by
  apply tabulate_congr
  intro index inside
  rw [same _ (Nat.div_lt_of_lt_mul (by rwa [Nat.mul_comm] at inside))]

theorem add_div_of_lt
    {size first index : Nat}
    (positive : 0 < size) :
    (first * size + index) / size = first + index / size ∧
      (first * size + index) % size = index % size := by
  constructor
  · rw [Nat.mul_comm, Nat.mul_add_div positive]
  · rw [Nat.mul_comm, Nat.mul_add_mod]

/-- Blocks of a buffer. -/
theorem load_blocked
    {first number : Nat}
    (within : first + number ≤ count)
    (size : Nat)
    (cell : Nat → Nat → Cell) :
    load (blocked count size cell) (first * size) (number * size) =
      some (blocked number size fun block => cell (first + block)) := by
  have bound : first * size + number * size ≤ count * size := by
    rw [← Nat.add_mul]
    exact Nat.mul_le_mul_right _ within
  unfold blocked
  rw [load_tabulate bound]
  apply congrArg some
  apply tabulate_congr
  intro index inside
  have positive : 0 < size := Nat.pos_of_mul_pos_left (by omega : 0 < number * size)
  rw [(add_div_of_lt positive).1, (add_div_of_lt positive).2]

/-- A buffer with some of its blocks replaced. -/
theorem store_blocked
    {first number : Nat}
    (within : first + number ≤ count)
    (size : Nat)
    (cell other : Nat → Nat → Cell) :
    store (blocked count size cell) (first * size) (blocked number size other) =
      some (blocked count size (patch cell first number other)) := by
  have bound : first * size + number * size ≤ count * size := by
    rw [← Nat.add_mul]
    exact Nat.mul_le_mul_right _ within
  unfold blocked
  rw [store_tabulate bound]
  apply congrArg some
  apply tabulate_congr
  intro index inside
  have positive : 0 < size := Nat.pos_of_mul_pos_left (by omega : 0 < count * size)
  have lower : first * size ≤ index ↔ first ≤ index / size := (Nat.le_div_iff_mul_le positive).symm
  have upper : index < first * size + number * size ↔ index / size < first + number := by
    rw [← Nat.add_mul]
    exact (Nat.div_lt_iff_lt_mul positive).symm
  unfold patch
  simp only [lower, upper]
  split
  next inBlocks =>
    have start : index = first * size + (index - first * size) := by
      omega
    rw [show index / size - first = (index - first * size) / size by
        conv_lhs => rw [start]
        rw [(add_div_of_lt positive).1, Nat.add_sub_cancel_left]]
    rw [show index % size = (index - first * size) % size by
        conv_lhs => rw [start]
        rw [(add_div_of_lt positive).2]]
  next => rfl

theorem blocked_one (size : Nat) (cell : Nat → Nat → Cell) :
    blocked 1 size cell = tabulate size (cell 0) := by
  unfold blocked
  rw [Nat.one_mul]
  apply tabulate_congr
  intro index inside
  rw [Nat.div_eq_of_lt inside, Nat.mod_eq_of_lt inside]

/-- One block of a buffer. -/
theorem load_block
    {block : Nat}
    (within : block < count)
    (size : Nat)
    (cell : Nat → Nat → Cell) :
    load (blocked count size cell) (block * size) size = some (tabulate size (cell block)) := by
  have one := @load_blocked _ count block 1 within size cell
  rwa [blocked_one, Nat.one_mul] at one

/-- A buffer with one block replaced. -/
theorem store_block
    {block : Nat}
    (within : block < count)
    (size : Nat)
    (cell : Nat → Nat → Cell)
    (other : Nat → Cell) :
    store (blocked count size cell) (block * size) (tabulate size other) =
      some (blocked count size (update cell block other)) := by
  have one := @store_blocked _ count block 1 within size cell fun _ => other
  rw [blocked_one] at one
  rw [one]
  apply congrArg some
  apply blocked_congr
  intro another _
  by_cases here : another = block
  · rw [patch_of_mem (by omega), here, update_self]
  · rw [patch_of_not_mem (by omega), update_of_ne here]

/-- The cells of some ranges of one length, one after the other. -/
def pack (buffer : List Cell) (length : Nat) : List Nat → Option (List Cell)
  | [] => some []
  | disp :: displs =>
    (load buffer disp length).bind fun block =>
    (pack buffer length displs).map fun rest => block ++ rest

/-- Write the cells of a message to some ranges of one length. -/
def unpack (length : Nat) : List Cell → List Nat → List Cell → Option (List Cell)
  | buffer, [], _ => some buffer
  | buffer, disp :: displs, msg =>
    (store buffer disp (msg.take length)).bind fun buffer =>
    unpack length buffer displs (msg.drop length)

/-- Some blocks one after the other. -/
def packed (size : Nat) (blocks : List Nat) (cell : Nat → Nat → Cell) :
    List Cell :=
  blocks.flatMap fun block => tabulate size (cell block)

@[simp] theorem length_packed
    (size : Nat)
    (blocks : List Nat)
    (cell : Nat → Nat → Cell) :
    (packed size blocks cell).length = blocks.length * size := by
  induction blocks with
  | nil => rw [length_nil, Nat.zero_mul]; rfl
  | cons block blocks ih =>
    rw [packed, flatMap_cons, length_append, length_tabulate,
      length_cons, Nat.succ_mul, Nat.add_comm]
    exact congrArg (· + size) ih

/-- Packing blocks of a buffer. -/
theorem pack_blocked
    {blocks : List Nat}
    (within : ∀ block ∈ blocks, block < count)
    (size : Nat)
    (cell : Nat → Nat → Cell) :
    pack (blocked count size cell) size (blocks.map (· * size)) =
      some (packed size blocks cell) := by
  induction blocks with
  | nil => rfl
  | cons block blocks ih =>
    rw [map_cons, pack, load_block (within block mem_cons_self),
      Option.bind_some, ih fun later member =>
        within later (mem_cons_of_mem _ member)]
    rfl

/-- Unpacking blocks to a buffer. -/
theorem unpack_blocked
    {blocks : List Nat}
    (within : ∀ block ∈ blocks, block < count)
    (size : Nat)
    (cell other : Nat → Nat → Cell) :
    unpack size (blocked count size cell) (blocks.map (· * size)) (packed size blocks other) =
      some (blocked count size fun block =>
        if block ∈ blocks then other block else cell block) := by
  induction blocks generalizing cell with
  | nil =>
    rw [map_nil, unpack]
    simp only [not_mem_nil, if_false]
  | cons block blocks ih =>
    have length : (tabulate size (other block)).length = size := length_tabulate _ _
    rw [map_cons, unpack, packed, flatMap_cons, take_left' length, drop_left' length,
      store_block (within block mem_cons_self), Option.bind_some]
    change unpack size _ _ (packed size blocks other) = _
    rw [ih fun later member =>
      within later (mem_cons_of_mem _ member)]
    apply congrArg some
    apply blocked_congr
    intro another _
    by_cases later : another ∈ blocks
    · rw [if_pos later, if_pos (mem_cons_of_mem _ later)]
    · rw [if_neg later]
      by_cases here : another = block
      · rw [if_pos (here ▸ mem_cons_self), here, update_self]
      · rw [update_of_ne here, if_neg fun member =>
          (mem_cons.mp member).elim here later]

end Mpich.Buffer
