import Mathlib.Algebra.Order.BigOperators.Group.List
import Mpich.Romio.Flatten.Defs

/-!
# File views

A view shows the bytes of the filetype, laid out one extent after the other from
the displacement on. Four functions translate between etypes relative to the view
and bytes of the file, each with a walk over the flattened filetype of its own.
-/

namespace Mpich.Romio.FileView

open Flatten (Block)

/-- The number of bytes in the blocks. -/
def size
    (blocks : List Block) : Int :=
  (blocks.map Block.blocklen).sum

/-- A view that `MPI_File_set_view` admits, with a monotone filetype: no block
begins before the end of one in front of it, in the filetype or in the copy one
extent before. -/
structure View where
  disp : Int
  etypeSize : Int
  filetypeIsContig : Bool
  flatFile : List Block
  filetypeExtent : Int
  disp_nonneg : 0 ≤ disp
  etypeSize_pos : 0 < etypeSize
  /-- `filetype_size % etype_size == 0` -/
  divides : etypeSize ∣ size flatFile
  size_lt : size flatFile < 2 ^ 31
  blocklen_nonneg : ∀ block ∈ flatFile, 0 ≤ block.blocklen
  monotone : flatFile.Pairwise fun first second =>
    first.index + first.blocklen ≤ second.index
  tiled : ∀ first ∈ flatFile, ∀ second ∈ flatFile,
    first.index + first.blocklen ≤ second.index + filetypeExtent

/-- The conversion to `int`. -/
def toInt
    (value : Int) : Int :=
  value.bmod (2 ^ 32)

/-- `abs_off_in_filetype`: where the byte lies that has `size_in_filetype` bytes
in front of it; `sum` counts the bytes of the blocks passed so far. -/
def absOffInFiletype
    (sizeInFiletype : Int) : List Block → Int → Int
  | [], _ => 0
  | block :: rest, sum =>
    let sum := sum + block.blocklen
    if sizeInFiletype < sum then
      block.index + sizeInFiletype - (sum - block.blocklen)
    else absOffInFiletype sizeInFiletype rest sum

namespace View

variable (view : View)

/-- `MPI_Type_size` of the filetype. -/
def filetypeSize : Int :=
  size view.flatFile

def nEtypesInFiletype : Int :=
  view.filetypeSize.tdiv view.etypeSize

/-- `ADIOI_Get_byte_offset`; `none` where it divides by zero. -/
def getByteOffset
    (offset : Int) : Option Int :=
  if view.filetypeIsContig then some (view.disp + view.etypeSize * offset)
  else if view.nEtypesInFiletype = 0 then none
  else
    let nFiletypes := toInt (offset.tdiv view.nEtypesInFiletype)
    let etypeInFiletype := toInt (offset.tmod view.nEtypesInFiletype)
    some (view.disp + nFiletypes * view.filetypeExtent +
      absOffInFiletype (etypeInFiletype * view.etypeSize) view.flatFile 0)

/-- `ADIOI_GEN_SeekIndividual`: the individual file pointer after it, and what it
returns; `none` where it divides by zero. -/
def seekIndividual
    (fpInd offset : Int) : Option (Int × Int) :=
  if view.filetypeIsContig then
    let off := view.disp + view.etypeSize * offset
    some (off, off)
  else if view.filetypeSize = 0 then some (fpInd, 0)
  else if view.nEtypesInFiletype = 0 then none
  else
    let nFiletypes := toInt (offset.tdiv view.nEtypesInFiletype)
    let etypeInFiletype := toInt (offset.tmod view.nEtypesInFiletype)
    let off := view.disp + nFiletypes * view.filetypeExtent +
      absOffInFiletype (etypeInFiletype * view.etypeSize) view.flatFile 0
    some (off, off)

/-- The end of a block in a copy of the filetype. -/
def blockEnd
    (nFiletypes : Int)
    (block : Block) : Int :=
  view.disp + block.index + nFiletypes * view.filetypeExtent + block.blocklen

/-- The loop over the blocks of one copy: the first block whose end is at the
position or behind it, with the bytes of the blocks up to its end. -/
def firstReaching
    (position nFiletypes : Int) : List Block → Int → Option (Block × Int)
  | [], _ => none
  | block :: rest, sum =>
    let sum := sum + block.blocklen
    if position ≤ view.blockEnd nFiletypes block then some (block, sum)
    else firstReaching position nFiletypes rest sum

/-- `while (!flag)`: the first copy with such a block. -/
def reaching
    (position : Int) : Nat → Int → Option (Int × Block × Int)
  | 0, _ => none
  | fuel + 1, nFiletypes =>
    match view.firstReaching position nFiletypes view.flatFile 0 with
    | some found => some (nFiletypes, found)
    | none => reaching position fuel (toInt (nFiletypes + 1))

/-- `ADIOI_Get_position`; `none` when the fuel does not suffice. -/
def getPosition
    (fpInd : Int)
    (fuel : Nat) : Option Int :=
  if view.filetypeIsContig then some ((fpInd - view.disp).tdiv view.etypeSize)
  else
    (view.reaching fpInd fuel 0).map fun (nFiletypes, block, sum) =>
      let frdSize := toInt (view.blockEnd nFiletypes block - fpInd)
      let sizeInFile := nFiletypes * view.filetypeSize + (sum - frdSize)
      sizeInFile.tdiv view.etypeSize

/-- `ADIOI_Get_eof_offset` for a file of `fsize` bytes. -/
def getEofOffset
    (fsize : Int)
    (fuel : Nat) : Option Int :=
  if view.filetypeIsContig then
    some ((fsize - view.disp + view.etypeSize - 1).tdiv view.etypeSize)
  else
    (view.reaching fsize fuel 0).map fun (nFiletypes, block, sum) =>
      let sum :=
        if fsize ≤ view.disp + block.index + nFiletypes * view.filetypeExtent then
          sum - block.blocklen
        else sum - toInt (view.blockEnd nFiletypes block - fsize)
      let sizeInFile := nFiletypes * view.filetypeSize + sum
      (sizeInFile + view.etypeSize - 1).tdiv view.etypeSize

/-- The four functions agree at an etype offset and a file size. A loop that ends
ends with some fuel. -/
structure Coherent
    (fpInd offset fsize : Int) : Prop where
  increasing : ∀ first second, 0 ≤ first → first < second → second ≤ offset →
    ∃ before after, view.getByteOffset first = some before ∧
      view.getByteOffset second = some after ∧ before < after
  seek : ∃ position, view.getByteOffset offset = some position ∧
    view.seekIndividual fpInd offset = some (position, position)
  position : ∀ position returned, view.seekIndividual fpInd offset = some (position, returned) →
      ∃ fuel, view.getPosition position fuel = some offset
  eof : ∃ fuel result, view.getEofOffset fsize fuel = some result ∧ IsLeast
      {least | 0 ≤ least ∧
        ∃ position, view.getByteOffset least = some position ∧ fsize ≤ position}
      result

end Mpich.Romio.FileView.View

/-!
## The bytes of a view

What a view means: its bytes lie one behind the other in the file, block after
block and copy after copy of the filetype. The loop that looks for a block that
reaches a position counts the bytes in front of the position.
-/

namespace Mpich.Romio.FileView

open List

open Flatten (Block)

/-- Where the byte with `count` bytes in front of it lies. -/
def place : List Block → Int → Int
  | [], _ => 0
  | block :: rest, count =>
    if count < block.blocklen then block.index + count
    else place rest (count - block.blocklen)

/-- The blocks do not go backwards. -/
structure Forward
    (blocks : List Block) : Prop where
  blocklen_nonneg : ∀ block ∈ blocks, 0 ≤ block.blocklen
  monotone : blocks.Pairwise fun first second =>
    first.index + first.blocklen ≤ second.index

variable {blocks : List Block}

variable {block : Block}

theorem Forward.tail
    (forward : Forward (block :: blocks)) :
    Forward blocks where
  blocklen_nonneg := fun later member =>
    forward.blocklen_nonneg later (mem_cons_of_mem block member)
  monotone := forward.monotone.of_cons

theorem size_cons (block : Block) :
    size (block :: blocks) = block.blocklen + size blocks := by
  simp [size]

theorem Forward.size_nonneg (forward : Forward blocks) :
    0 ≤ size blocks := by
  apply sum_nonneg
  intro length member
  obtain ⟨block, inside, rfl⟩ := mem_map.mp member
  exact forward.blocklen_nonneg block inside

/-- The walk of the source finds the byte. -/
theorem absOffInFiletype_eq_place
    {sizeInFiletype sum : Int}
    (inside : sizeInFiletype - sum < size blocks) :
    absOffInFiletype sizeInFiletype blocks sum = place blocks (sizeInFiletype - sum) := by
  induction blocks generalizing sum with
  | nil => rfl
  | cons block rest ih =>
    rw [size_cons] at inside
    unfold absOffInFiletype place
    by_cases here : sizeInFiletype - sum < block.blocklen
    · rw [if_pos here, if_pos (by omega)]
      omega
    · rw [if_neg here, if_neg (by omega)]
      rw [ih (by omega)]
      apply congrArg (place rest)
      omega

variable {count : Int}

/-- Every byte lies in a block. -/
theorem exists_block
    (nonneg : 0 ≤ count)
    (inside : count < size blocks) :
    ∃ block ∈ blocks, block.index ≤ place blocks count ∧
      place blocks count < block.index + block.blocklen := by
  induction blocks generalizing count with
  | nil => exact absurd nonneg (not_le.mpr inside)
  | cons block rest ih =>
    rw [size_cons] at inside
    unfold place
    by_cases here : count < block.blocklen
    · rw [if_pos here]
      exact ⟨block, mem_cons_self, by omega, by omega⟩
    · rw [if_neg here]
      obtain ⟨later, member, bounds⟩ := @ih (count - block.blocklen) (by omega) (by omega)
      exact ⟨later, mem_cons_of_mem block member, bounds⟩

/-- Bytes behind a block lie behind its end. -/
theorem Forward.end_le_place
    (forward : Forward (block :: blocks))
    (nonneg : 0 ≤ count)
    (inside : count < size blocks) :
    block.index + block.blocklen ≤ place blocks count := by
  obtain ⟨later, member, lower, -⟩ := exists_block nonneg inside
  exact (rel_of_pairwise_cons forward.monotone member).trans lower

theorem Forward.place_lt
    {before after : Int}
    (forward : Forward blocks)
    (nonneg : 0 ≤ before)
    (less : before < after)
    (inside : after < size blocks) :
    place blocks before < place blocks after := by
  induction blocks generalizing before after with
  | nil => exact absurd (nonneg.trans less.le) (not_le.mpr inside)
  | cons block rest ih =>
    rw [size_cons] at inside
    unfold place
    by_cases first : before < block.blocklen
    · rw [if_pos first]
      by_cases second : after < block.blocklen
      · rw [if_pos second]
        omega
      · rw [if_neg second]
        have behind := @end_le_place _ _ (after - block.blocklen) forward (by omega) (by omega)
        omega
    · rw [if_neg first, if_neg (by omega)]
      exact ih forward.tail (by omega) (by omega) (by omega)

namespace View

variable (view : View)

theorem forward : Forward view.flatFile :=
  ⟨view.blocklen_nonneg, view.monotone⟩

/-- What a walk over blocks tells about the block that it found, with `before`
bytes in front of it. -/
structure Reaches
    (target nFiletypes : Int)
    (blocks : List Block)
    (block : Block)
    (before : Int) : Prop where
  member : block ∈ blocks
  reached : target ≤ view.blockEnd nFiletypes block
  nonneg : 0 ≤ before
  within : before + block.blocklen ≤ size blocks
  passed : ∀ count, 0 ≤ count → count < before →
    view.disp + nFiletypes * view.filetypeExtent + place blocks count < target
  inside : ∀ count, before ≤ count → count < before + block.blocklen →
    place blocks count = block.index + (count - before)
  behind : ∀ count, before + block.blocklen ≤ count → count < size blocks →
    block.index + block.blocklen ≤ place blocks count

variable {nFiletypes : Int}

/-- A block that ends in front of the target holds only bytes in front of it. -/
theorem place_lt_of_passed
    {target : Int}
    (passed : view.blockEnd nFiletypes block < target)
    (here : count < block.blocklen) :
    view.disp + nFiletypes * view.filetypeExtent + (block.index + count) < target := by
  unfold blockEnd at passed
  omega

theorem firstReaching_some
    {target sum total : Int}
    (forward : Forward blocks)
    (found : view.firstReaching target nFiletypes blocks sum = some (block, total)) :
    view.Reaches target nFiletypes blocks block (total - sum - block.blocklen) := by
  induction blocks generalizing sum with
  | nil => nomatch found
  | cons first rest ih =>
    have firstNonneg := forward.blocklen_nonneg first mem_cons_self
    have restNonneg := forward.tail.size_nonneg
    unfold firstReaching at found
    by_cases reached : target ≤ view.blockEnd nFiletypes first
    · rw [if_pos reached] at found
      obtain ⟨rfl, rfl⟩ := Prod.mk.inj (Option.some.inj found)
      constructor
      case member => exact mem_cons_self
      case reached => exact reached
      case nonneg => omega
      case within =>
        rw [size_cons]
        omega
      case passed => omega
      case inside =>
        unfold place
        omega
      case behind =>
        intro count greater less
        rw [size_cons] at less
        unfold place
        rw [if_neg (by omega)]
        exact forward.end_le_place (by omega) (by omega)
    · rw [if_neg reached] at found
      have rest := ih forward.tail found
      obtain ⟨member, isReached, nonneg, within, passed, inside, behind⟩ := rest
      have passedFirst := not_le.mp reached
      constructor
      case member => exact mem_cons_of_mem first member
      case reached => exact isReached
      case nonneg => omega
      case within =>
        rw [size_cons]
        omega
      case passed =>
        intro count countNonneg less
        unfold place
        by_cases here : count < first.blocklen
        · rw [if_pos here]
          exact view.place_lt_of_passed passedFirst here
        · rw [if_neg here]
          exact passed _ (by omega) (by omega)
      case inside =>
        intro count greater less
        unfold place
        rw [if_neg (by omega), inside _ (by omega) (by omega)]
        omega
      case behind =>
        intro count greater less
        have blockNonneg := forward.tail.blocklen_nonneg block member
        rw [size_cons] at less
        unfold place
        rw [if_neg (by omega)]
        exact behind _ (by omega) (by omega)

/-- When no block reaches the target, every byte of the copy is in front of it. -/
theorem firstReaching_none
    {target sum : Int}
    (missing : view.firstReaching target nFiletypes blocks sum = none)
    (nonneg : 0 ≤ count)
    (less : count < size blocks) :
    view.disp + nFiletypes * view.filetypeExtent + place blocks count < target := by
  induction blocks generalizing sum count with
  | nil => exact absurd nonneg (not_le.mpr less)
  | cons first rest ih =>
    rw [size_cons] at less
    unfold firstReaching at missing
    by_cases reached : target ≤ view.blockEnd nFiletypes first
    · rw [if_pos reached] at missing
      nomatch missing
    · rw [if_neg reached] at missing
      unfold place
      by_cases here : count < first.blocklen
      · rw [if_pos here]
        exact view.place_lt_of_passed (not_le.mp reached) here
      · rw [if_neg here]
        exact ih missing (by omega) (by omega)

/-- Where the byte of the view with `count` bytes in front of it lies. -/
def position
    (count : Int) : Int :=
  view.disp + count / view.filetypeSize * view.filetypeExtent +
    place view.flatFile (count % view.filetypeSize)

variable {view}

section

variable (nonempty : 0 < view.filetypeSize)

include nonempty

/-- The copies of a filetype with a byte do not go backwards either. -/
theorem filetypeExtent_pos :
    0 < view.filetypeExtent := by
  obtain ⟨block, member, lower, upper⟩ := exists_block le_rfl nonempty
  have apart := view.tiled block member block member
  omega

/-- A byte in a later copy lies behind the blocks of an earlier copy. -/
theorem blockEnd_le
    {earlier later : Int}
    (member : block ∈ view.flatFile)
    (less : earlier < later)
    (nonneg : 0 ≤ count)
    (inside : count < view.filetypeSize) :
    view.blockEnd earlier block ≤
      view.disp + later * view.filetypeExtent + place view.flatFile count := by
  obtain ⟨other, isOther, lower, -⟩ := exists_block nonneg inside
  have apart := view.tiled block member other isOther
  have extents : (earlier + 1) * view.filetypeExtent ≤ later * view.filetypeExtent :=
    mul_le_mul_of_nonneg_right less (filetypeExtent_pos nonempty).le
  rw [add_mul, one_mul] at extents
  unfold blockEnd
  omega

theorem position_lt
    {before after : Int}
    (less : before < after) :
    view.position before < view.position after := by
  unfold position
  have beforeMod := Int.emod_nonneg before nonempty.ne'
  have beforeLess := Int.emod_lt_of_pos before nonempty
  have afterMod := Int.emod_nonneg after nonempty.ne'
  have afterLess := Int.emod_lt_of_pos after nonempty
  rcases (Int.ediv_le_ediv nonempty less.le).eq_or_lt with same | earlier
  · rw [same]
    apply Int.add_lt_add_left
    apply view.forward.place_lt beforeMod _ afterLess
    have splitBefore := Int.mul_ediv_add_emod before view.filetypeSize
    have splitAfter := Int.mul_ediv_add_emod after view.filetypeSize
    rw [same] at splitBefore
    omega
  · obtain ⟨block, member, -, upper⟩ := exists_block beforeMod beforeLess
    have behind := blockEnd_le nonempty member earlier afterMod afterLess
    unfold blockEnd at behind
    omega

theorem position_le
    {before after : Int}
    (le : before ≤ after) :
    view.position before ≤ view.position after := by
  rcases le.eq_or_lt with rfl | less
  · exact le_rfl
  · exact (position_lt nonempty less).le

end

/-- The bytes of one copy. -/
theorem position_of_copy
    (nonneg : 0 ≤ count)
    (inside : count < view.filetypeSize) :
    view.position (nFiletypes * view.filetypeSize + count) =
      view.disp + nFiletypes * view.filetypeExtent + place view.flatFile count := by
  have nonempty := nonneg.trans_lt inside
  unfold position
  rw [add_comm _ count, Int.add_mul_ediv_right _ _ nonempty.ne',
    Int.ediv_eq_zero_of_lt nonneg inside, zero_add, Int.add_mul_emod_self_right,
    Int.emod_eq_of_lt nonneg inside]

end Mpich.Romio.FileView.View
