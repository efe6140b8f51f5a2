import Mathlib.Tactic.Linarith
import Mpich.Romio.FileView.Places

/-!
# The four functions on file views agree in the range of `int`

A view of a filetype with a byte has one map from its bytes to the bytes of the
file. The four functions follow it as long as the copies of the filetype are
numbered in the range of `int`, and only that long.
-/

namespace Mpich.Romio.FileView

open Flatten (Block)

theorem toInt_of_fits
    {value : Int}
    (lower : -2 ^ 31 ≤ value)
    (upper : value < 2 ^ 31) :
    toInt value = value := by
  unfold toInt
  rw [Int.bmod_def]
  split <;> omega

theorem toInt_lt (value : Int) :
    toInt value < 2 ^ 31 := by
  unfold toInt
  rw [Int.bmod_def]
  split <;> omega

namespace View

variable {view : View}

theorem filetypeSize_eq :
    view.filetypeSize = view.nEtypesInFiletype * view.etypeSize :=
  (Int.tdiv_mul_cancel view.divides).symm

theorem nEtypesInFiletype_pos (nonempty : 0 < view.filetypeSize) :
    0 < view.nEtypesInFiletype := by
  rw [filetypeSize_eq] at nonempty
  exact pos_of_mul_pos_left nonempty view.etypeSize_pos.le

section

variable
    {offset : Int}
    (strided : view.filetypeIsContig = false)
    (nonempty : 0 < view.filetypeSize)
    (nonneg : 0 ≤ offset)

include strided nonempty nonneg

/-- `ADIOI_Get_byte_offset` takes the copy of the filetype from an `int`. -/
theorem getByteOffset_eq :
    view.getByteOffset offset = some (view.position
        (toInt (offset / view.nEtypesInFiletype) * view.filetypeSize +
          offset % view.nEtypesInFiletype * view.etypeSize)) := by
  have etypes := nEtypesInFiletype_pos nonempty
  have remNonneg := Int.emod_nonneg offset etypes.ne'
  have remLess := Int.emod_lt_of_pos offset etypes
  have sizeEq := @filetypeSize_eq view
  have etypesLe : view.nEtypesInFiletype ≤ view.filetypeSize := by
    rw [sizeEq]
    exact le_mul_of_one_le_right etypes.le view.etypeSize_pos
  have sizeLess : view.filetypeSize < 2 ^ 31 := view.size_lt
  have byteNonneg : 0 ≤ offset % view.nEtypesInFiletype * view.etypeSize :=
    mul_nonneg remNonneg view.etypeSize_pos.le
  have byteLess :
      offset % view.nEtypesInFiletype * view.etypeSize < view.filetypeSize := by
    rw [sizeEq]
    exact mul_lt_mul_of_pos_right remLess view.etypeSize_pos
  have remFits : toInt (offset % view.nEtypesInFiletype) = offset % view.nEtypesInFiletype :=
    toInt_of_fits (by omega) (by omega)
  have walked := @absOffInFiletype_eq_place view.flatFile
    (offset % view.nEtypesInFiletype * view.etypeSize) 0
    ((sub_zero _).trans_lt byteLess)
  rw [sub_zero] at walked
  unfold getByteOffset
  rw [strided, if_neg Bool.false_ne_true, if_neg etypes.ne',
    position_of_copy byteNonneg byteLess, Int.tdiv_eq_ediv_of_nonneg nonneg,
    Int.tmod_eq_emod_of_nonneg nonneg]
  simp only [remFits, walked]

/-- In the range of `int` it follows the map of the view. -/
theorem getByteOffset_of_lt (small : offset < 2 ^ 31 * view.nEtypesInFiletype) :
    view.getByteOffset offset = some (view.position (offset * view.etypeSize)) := by
  have etypes := nEtypesInFiletype_pos nonempty
  have copyNonneg := Int.ediv_nonneg nonneg etypes.le
  have copyLess : offset / view.nEtypesInFiletype < 2 ^ 31 := Int.ediv_lt_of_lt_mul etypes small
  rw [getByteOffset_eq strided nonempty nonneg, toInt_of_fits (by omega) copyLess,
    filetypeSize_eq, ← mul_assoc, ← add_mul, mul_comm (offset / _),
    Int.mul_ediv_add_emod]

end

/-- It never gets past the last copy that an `int` can number. -/
theorem getByteOffset_le
    {offset position : Int}
    (strided : view.filetypeIsContig = false)
    (nonempty : 0 < view.filetypeSize)
    (nonneg : 0 ≤ offset)
    (isPosition : view.getByteOffset offset = some position) :
    position ≤ view.position ((2 ^ 31 * view.nEtypesInFiletype - 1) * view.etypeSize) := by
  rw [getByteOffset_eq strided nonempty nonneg] at isPosition
  obtain rfl := Option.some.inj isPosition
  have etypes := nEtypesInFiletype_pos nonempty
  have remLess := Int.emod_lt_of_pos offset etypes
  have copyLess := toInt_lt (offset / view.nEtypesInFiletype)
  apply position_le nonempty
  rw [filetypeSize_eq, ← mul_assoc, ← add_mul]
  apply mul_le_mul_of_nonneg_right _ view.etypeSize_pos.le
  have copies : toInt (offset / view.nEtypesInFiletype) * view.nEtypesInFiletype ≤
      (2 ^ 31 - 1) * view.nEtypesInFiletype :=
    mul_le_mul_of_nonneg_right (by omega) etypes.le
  omega

/-- The seek divides by zero where the other does, except for empty filetypes. -/
theorem seekIndividual_of_getByteOffset
    {offset position : Int}
    (fpInd : Int)
    (isPosition : view.getByteOffset offset = some position) :
    view.seekIndividual fpInd offset = some (position, position) := by
  unfold getByteOffset at isPosition
  unfold seekIndividual
  cases isContig : view.filetypeIsContig with
  | true =>
    rw [isContig, if_pos rfl] at isPosition
    obtain rfl := Option.some.inj isPosition
    rfl
  | false =>
    rw [isContig, if_neg Bool.false_ne_true] at isPosition
    by_cases none : view.nEtypesInFiletype = 0
    · rw [if_pos none] at isPosition
      nomatch isPosition
    · have nonempty : view.filetypeSize ≠ 0 := by
        intro empty
        apply none
        unfold nEtypesInFiletype
        rw [empty, Int.zero_tdiv]
      rw [if_neg none] at isPosition
      rw [if_neg nonempty, if_neg none]
      obtain rfl := Option.some.inj isPosition
      rfl

/-- The search stops at the first copy that reaches the target. -/
theorem exists_reaching
    {target start : Int} {distance : Nat}
    (nonneg : 0 ≤ start)
    (bounded : start + distance < 2 ^ 31)
    (reached : view.firstReaching target (start + distance) view.flatFile 0 ≠ none) :
    ∃ fuel nFiletypes block sum,
      view.reaching target fuel start = some (nFiletypes, block, sum) ∧ start ≤ nFiletypes ∧
        view.firstReaching target nFiletypes view.flatFile 0 = some (block, sum) ∧
        ∀ earlier, start ≤ earlier → earlier < nFiletypes →
          view.firstReaching target earlier view.flatFile 0 = none := by
  induction distance generalizing start with
  | zero =>
    rw [Nat.cast_zero, add_zero] at reached
    obtain ⟨⟨block, sum⟩, found⟩ := Option.ne_none_iff_exists'.mp reached
    refine ⟨1, start, block, sum, ?_, le_rfl, found, fun _ lower upper => ?_⟩
    · unfold reaching
      rw [found]
    · exact absurd upper (not_lt.mpr lower)
  | succ distance ih =>
    rw [Nat.cast_succ] at bounded reached
    cases found : view.firstReaching target start view.flatFile 0 with
    | some result =>
      refine ⟨1, start, result.1, result.2, ?_, le_rfl, found, fun _ lower upper => ?_⟩
      · unfold reaching
        rw [found]
      · exact absurd upper (not_lt.mpr lower)
    | none =>
      have same : start + (distance + 1) = start + 1 + distance := by omega
      rw [same] at reached
      obtain ⟨fuel, nFiletypes, block, sum, searched, lower, isFound, earlier⟩ :=
        ih (by omega) (by omega) reached
      refine ⟨fuel + 1, nFiletypes, block, sum, ?_, by omega, isFound, ?_⟩
      · unfold reaching
        rw [found, toInt_of_fits (by omega) (by omega)]
        exact searched
      · intro copy copyLower copyUpper
        rcases copyLower.eq_or_lt with rfl | later
        · exact found
        · exact earlier copy later copyUpper

/-- When a byte of a copy is at the target or behind it, the search gets there. -/
theorem exists_reaching_of_le
    {target nFiletypes count : Int}
    (copyNonneg : 0 ≤ nFiletypes)
    (copyLess : nFiletypes < 2 ^ 31)
    (nonneg : 0 ≤ count)
    (inside : count < view.filetypeSize)
    (behind : target ≤ view.disp + nFiletypes * view.filetypeExtent + place view.flatFile count) :
    ∃ fuel found block sum, view.reaching target fuel 0 = some (found, block, sum) ∧ 0 ≤ found ∧
        view.firstReaching target found view.flatFile 0 = some (block, sum) ∧
        ∀ earlier, 0 ≤ earlier → earlier < found →
          view.firstReaching target earlier view.flatFile 0 = none := by
  obtain ⟨distance, rfl⟩ := Int.eq_ofNat_of_zero_le copyNonneg
  apply @exists_reaching view target 0 distance le_rfl
  · rw [zero_add]
    exact copyLess
  · rw [zero_add]
    intro missing
    exact absurd (view.firstReaching_none missing nonneg inside) (not_lt.mpr behind)

/-- The start of a block in a copy of the filetype. -/
def blockStart
    (view : View)
    (nFiletypes : Int)
    (block : Block) : Int :=
  view.disp + block.index + nFiletypes * view.filetypeExtent

/-- The search counts the bytes in front of the target. -/
theorem position_lt_iff
    {target nFiletypes sum count : Int} {block : Block}
    (nonempty : 0 < view.filetypeSize)
    (found : view.firstReaching target nFiletypes view.flatFile 0 = some (block, sum))
    (earlier : ∀ copy, 0 ≤ copy → copy < nFiletypes →
      view.firstReaching target copy view.flatFile 0 = none)
    (nonneg : 0 ≤ count) :
    view.position count < target ↔ count < nFiletypes * view.filetypeSize + (sum - block.blocklen) +
        max 0 (target - view.blockStart nFiletypes block) := by
  obtain ⟨member, reached, beforeNonneg, within, passed, inside, behind⟩ :=
    view.firstReaching_some view.forward found
  have blockNonneg := view.blocklen_nonneg block member
  have copyNonneg := Int.ediv_nonneg nonneg nonempty.le
  have remNonneg := Int.emod_nonneg count nonempty.ne'
  have remLess := Int.emod_lt_of_pos count nonempty
  have split := Int.ediv_mul_add_emod count view.filetypeSize
  have total : sum - 0 - block.blocklen + block.blocklen ≤ view.filetypeSize := within
  unfold blockEnd at reached
  unfold blockStart
  rw [sub_zero] at beforeNonneg passed inside behind total
  rcases lt_trichotomy (count / view.filetypeSize) nFiletypes with before | here | after
  · -- all bytes of an earlier copy are in front of the target
    have front := view.firstReaching_none (earlier _ copyNonneg before) remNonneg remLess
    have copies : (count / view.filetypeSize + 1) * view.filetypeSize ≤
        nFiletypes * view.filetypeSize :=
      mul_le_mul_of_nonneg_right before nonempty.le
    rw [add_mul, one_mul] at copies
    unfold position
    omega
  · unfold position
    rw [here]
    rw [here] at split
    by_cases isBefore : count % view.filetypeSize < sum - block.blocklen
    · have front := passed _ remNonneg isBefore
      omega
    · by_cases isInside :
          count % view.filetypeSize < sum - block.blocklen + block.blocklen
      · rw [inside _ (by omega) isInside]
        omega
      · have back := behind _ (by omega) remLess
        omega
  · -- all bytes of a later copy are behind the block
    have back := blockEnd_le nonempty member after remNonneg remLess
    have copies : (nFiletypes + 1) * view.filetypeSize ≤
        count / view.filetypeSize * view.filetypeSize :=
      mul_le_mul_of_nonneg_right after nonempty.le
    rw [add_mul, one_mul] at copies
    unfold blockEnd at back
    unfold position
    omega

/-- The byte that lies at the target does not lie in front of the block. -/
theorem blockStart_le
    {nFiletypes sum count : Int} {block : Block}
    (nonempty : 0 < view.filetypeSize)
    (found : view.firstReaching (view.position count) nFiletypes view.flatFile 0 =
      some (block, sum))
    (earlier : ∀ copy, 0 ≤ copy → copy < nFiletypes →
      view.firstReaching (view.position count) copy view.flatFile 0 = none)
    (nonneg : 0 ≤ count) :
    view.blockStart nFiletypes block ≤ view.position count := by
  obtain ⟨member, -, beforeNonneg, -, passed, inside, behind⟩ :=
    view.firstReaching_some view.forward found
  have blockNonneg := view.blocklen_nonneg block member
  have copyNonneg := Int.ediv_nonneg nonneg nonempty.le
  have remNonneg := Int.emod_nonneg count nonempty.ne'
  have remLess := Int.emod_lt_of_pos count nonempty
  unfold blockStart
  rcases lt_trichotomy (count / view.filetypeSize) nFiletypes with before | here | after
  · exact absurd
      (view.firstReaching_none (earlier _ copyNonneg before) remNonneg remLess)
      (lt_irrefl _)
  · have isPosition : view.position count = view.disp +
        nFiletypes * view.filetypeExtent + place view.flatFile (count % view.filetypeSize) := by
      rw [← here]
      rfl
    by_cases isBefore : count % view.filetypeSize < sum - 0 - block.blocklen
    · have front := passed _ remNonneg isBefore
      rw [← isPosition] at front
      exact absurd front (lt_irrefl _)
    · by_cases isInside :
          count % view.filetypeSize < sum - 0 - block.blocklen + block.blocklen
      · rw [isPosition, inside _ (by omega) isInside]
        omega
      · have back := behind _ (by omega) remLess
        omega
  · have back := blockEnd_le nonempty member after remNonneg remLess
    unfold blockEnd at back
    unfold position
    omega

end Mpich.Romio.FileView.View

/-!
## When the file view is one coherent map

The four functions agree exactly when the file is not shorter than the
displacement by two etypes, for a contiguous filetype, and when the filetype has a
byte and the copies of it are numbered in the range of `int`, for any other.
-/

namespace Mpich.Romio.FileView

open Flatten (Block)

namespace View

variable {view : View} {fpInd offset fsize : Int}

/-- The views, offsets and file sizes with which the functions agree. -/
def Regular
    (view : View)
    (offset fsize : Int) : Prop :=
  if view.filetypeIsContig then view.disp + 1 < fsize + 2 * view.etypeSize
  else
    0 < view.filetypeSize ∧ offset < 2 ^ 31 * view.nEtypesInFiletype ∧
      fsize ≤ view.position ((2 ^ 31 * view.nEtypesInFiletype - 1) * view.etypeSize)

instance : Decidable (view.Regular offset fsize) := by
  unfold Regular
  infer_instance

/-- The division that rounds up. -/
theorem tdiv_le_iff
    {count etypeSize least : Int}
    (positive : 0 < etypeSize)
    (nonneg : 0 ≤ count + etypeSize - 1) :
    (count + etypeSize - 1).tdiv etypeSize ≤ least ↔ count ≤ least * etypeSize := by
  rw [Int.tdiv_eq_ediv_of_nonneg nonneg, Int.ediv_le_iff_le_mul positive]
  omega

section

variable
    (contig : view.filetypeIsContig = true)

include contig

theorem getByteOffset_contig :
    view.getByteOffset offset = some (view.disp + view.etypeSize * offset) := by
  unfold getByteOffset
  rw [if_pos contig]

/-- The end of a file that begins two etypes or more behind it gets a negative
offset. -/
theorem regular_of_coherent_contig
    (coherent : view.Coherent fpInd offset fsize) :
    view.disp + 1 < fsize + 2 * view.etypeSize := by
  have positive := view.etypeSize_pos
  obtain ⟨fuel, result, isResult, ⟨nonneg, -⟩, -⟩ := coherent.eof
  unfold getEofOffset at isResult
  rw [if_pos contig] at isResult
  rw [← Option.some.inj isResult] at nonneg
  by_contra short
  have atMost : fsize - view.disp + view.etypeSize - 1 ≤ -view.etypeSize := by omega
  have negative := Int.tdiv_le_tdiv positive atMost
  rw [Int.neg_tdiv, Int.tdiv_self positive.ne'] at negative
  omega

theorem eof_contig (longEnough : view.disp + 1 < fsize + 2 * view.etypeSize) :
    IsLeast
      {least | 0 ≤ least ∧
        ∃ position, view.getByteOffset least = some position ∧ fsize ≤ position}
      ((fsize - view.disp + view.etypeSize - 1).tdiv view.etypeSize) := by
  have positive := view.etypeSize_pos
  by_cases behind : 0 ≤ fsize - view.disp + view.etypeSize - 1
  · constructor
    · refine ⟨Int.tdiv_nonneg behind positive.le, _, getByteOffset_contig contig, ?_⟩
      have reaches := (tdiv_le_iff positive behind).mp le_rfl
      rw [mul_comm] at reaches
      omega
    · rintro least ⟨nonneg, position, isPosition, reaches⟩
      rw [getByteOffset_contig contig] at isPosition
      obtain rfl := Option.some.inj isPosition
      rw [tdiv_le_iff positive behind, mul_comm]
      omega
  · -- the quotient is rounded towards zero
    have isZero : (fsize - view.disp + view.etypeSize - 1).tdiv view.etypeSize = 0 := by
      rw [← neg_neg (fsize - _ + _ - 1), Int.neg_tdiv,
        Int.tdiv_eq_zero_of_lt (by omega) (by omega)]
      exact Int.neg_zero
    rw [isZero]
    constructor
    · refine ⟨le_rfl, _, getByteOffset_contig contig, ?_⟩
      omega
    · exact fun _ member => member.1

theorem coherent_contig
    (longEnough : view.disp + 1 < fsize + 2 * view.etypeSize) :
    view.Coherent fpInd offset fsize := by
  have positive := view.etypeSize_pos
  have isPosition := @getByteOffset_contig view offset contig
  have sought := seekIndividual_of_getByteOffset fpInd isPosition
  constructor
  case increasing =>
    intro first second _ less _
    refine ⟨_, _, getByteOffset_contig contig, getByteOffset_contig contig, ?_⟩
    exact Int.add_lt_add_left (Int.mul_lt_mul_of_pos_left less positive) view.disp
  case seek => exact ⟨_, isPosition, sought⟩
  case position =>
    intro position returned isSought
    rw [sought] at isSought
    obtain ⟨rfl, -⟩ := Prod.mk.inj (Option.some.inj isSought)
    refine ⟨0, ?_⟩
    unfold getPosition
    rw [if_pos contig, add_sub_cancel_left, Int.mul_tdiv_cancel_left _ positive.ne']
  case eof =>
    refine ⟨0, _, ?_, eof_contig contig longEnough⟩
    unfold getEofOffset
    rw [if_pos contig]

end

/-- A filetype without a byte makes `ADIOI_Get_byte_offset` divide by zero. -/
theorem nonempty_of_coherent
    (strided : view.filetypeIsContig = false)
    (coherent : view.Coherent fpInd offset fsize) :
    0 < view.filetypeSize := by
  have nonneg : 0 ≤ view.filetypeSize := view.forward.size_nonneg
  apply nonneg.lt_of_ne
  intro empty
  obtain ⟨position, isPosition, -⟩ := coherent.seek
  unfold getByteOffset nEtypesInFiletype at isPosition
  rw [strided, if_neg Bool.false_ne_true, ← empty, Int.zero_tdiv, if_pos rfl]
    at isPosition
  nomatch isPosition

section

variable
    (strided : view.filetypeIsContig = false)
    (nonempty : 0 < view.filetypeSize)
    (coherent : view.Coherent fpInd offset fsize)

include strided nonempty coherent

/-- At the first copy beyond the range of `int` the byte offset falls. -/
theorem small_of_coherent :
    offset < 2 ^ 31 * view.nEtypesInFiletype := by
  have etypes := nEtypesInFiletype_pos nonempty
  by_contra large
  obtain ⟨before, after, isBefore, isAfter, less⟩ :=
    coherent.increasing 0 (2 ^ 31 * view.nEtypesInFiletype) le_rfl (by omega) (not_lt.mp large)
  rw [getByteOffset_eq strided nonempty le_rfl, Int.zero_ediv, Int.zero_emod] at isBefore
  rw [getByteOffset_eq strided nonempty (by omega),
    Int.mul_ediv_cancel _ etypes.ne', Int.mul_emod_left] at isAfter
  obtain rfl := Option.some.inj isBefore
  obtain rfl := Option.some.inj isAfter
  apply absurd less
  apply not_lt.mpr
  apply position_le nonempty
  have wrapped : toInt (2 ^ 31) = -2 ^ 31 := rfl
  have zero : toInt 0 = 0 := rfl
  rw [wrapped, zero]
  omega

/-- A file that ends behind the last copy has no offset at its end. -/
theorem fsize_le_of_coherent :
    fsize ≤ view.position ((2 ^ 31 * view.nEtypesInFiletype - 1) * view.etypeSize) := by
  obtain ⟨_, least, -, ⟨nonneg, position, isPosition, reaches⟩, -⟩ := coherent.eof
  exact reaches.trans (getByteOffset_le strided nonempty nonneg isPosition)

end

/-- In the range of `int`, a byte of the view lies in a copy that the search
finds. -/
theorem exists_reaching_position
    {target count : Int}
    (nonempty : 0 < view.filetypeSize)
    (nonneg : 0 ≤ count)
    (small : count < 2 ^ 31 * view.filetypeSize)
    (behind : target ≤ view.position count) :
    ∃ fuel found block sum, view.reaching target fuel 0 = some (found, block, sum) ∧ 0 ≤ found ∧
        view.firstReaching target found view.flatFile 0 = some (block, sum) ∧
        ∀ earlier, 0 ≤ earlier → earlier < found →
          view.firstReaching target earlier view.flatFile 0 = none :=
  exists_reaching_of_le (Int.ediv_nonneg nonneg nonempty.le)
    (Int.ediv_lt_of_lt_mul nonempty small) (Int.emod_nonneg count nonempty.ne')
    (Int.emod_lt_of_pos count nonempty) behind

theorem mul_etypeSize_lt (small : offset < 2 ^ 31 * view.nEtypesInFiletype) :
    offset * view.etypeSize < 2 ^ 31 * view.filetypeSize := by
  rw [filetypeSize_eq, ← mul_assoc]
  exact mul_lt_mul_of_pos_right small view.etypeSize_pos

section

variable
    (strided : view.filetypeIsContig = false)
    (nonempty : 0 < view.filetypeSize)

include strided nonempty

/-- The position found is where the seek has gone. -/
theorem getPosition_of_position
    (nonneg : 0 ≤ offset)
    (small : offset < 2 ^ 31 * view.nEtypesInFiletype) :
    ∃ fuel, view.getPosition (view.position (offset * view.etypeSize)) fuel = some offset := by
  have positive := view.etypeSize_pos
  have byteNonneg := mul_nonneg nonneg positive.le
  obtain ⟨fuel, copy, block, sum, searched, copyNonneg, found, earlier⟩ :=
    exists_reaching_position nonempty byteNonneg (mul_etypeSize_lt small) le_rfl
  have started := blockStart_le nonempty found earlier byteNonneg
  obtain ⟨member, reached, beforeNonneg, within, -⟩ := view.firstReaching_some view.forward found
  have blockLess : sum - 0 - block.blocklen + block.blocklen < 2 ^ 31 :=
    within.trans_lt view.size_lt
  have copies := mul_nonneg copyNonneg nonempty.le
  -- as many bytes lie in front of the position as the search has counted
  have counted : copy * view.filetypeSize + (sum - block.blocklen) +
      (view.position (offset * view.etypeSize) - view.blockStart copy block) =
        offset * view.etypeSize := by
    have counts (count : Int) (countNonneg : 0 ≤ count) :=
      position_lt_iff nonempty found earlier countNonneg
    rw [max_eq_right (by omega)] at counts
    apply le_antisymm
    · apply not_lt.mp
      intro more
      exact absurd ((counts _ byteNonneg).mpr more) (lt_irrefl _)
    · apply not_lt.mp
      intro less
      have front := position_lt nonempty less
      rw [counts _ (by omega)] at front
      exact absurd front (lt_irrefl _)
  refine ⟨fuel, ?_⟩
  unfold blockEnd at reached
  unfold blockStart at started counted
  unfold getPosition
  rw [strided, if_neg Bool.false_ne_true, searched]
  simp only [Option.map_some, Option.some.injEq]
  unfold blockEnd
  rw [toInt_of_fits (by omega) (by omega)]
  apply Eq.trans _ (Int.mul_tdiv_cancel offset positive.ne')
  apply congrArg (Int.tdiv · view.etypeSize)
  omega

/-- The end of the file gets the least offset at it or behind it. -/
theorem eof_of_regular
    (inRange : fsize ≤ view.position ((2 ^ 31 * view.nEtypesInFiletype - 1) * view.etypeSize)) :
    ∃ fuel result, view.getEofOffset fsize fuel = some result ∧ IsLeast
        {least | 0 ≤ least ∧
          ∃ position, view.getByteOffset least = some position ∧ fsize ≤ position}
        result := by
  have positive := view.etypeSize_pos
  have etypes := nEtypesInFiletype_pos nonempty
  have lastNonneg : 0 ≤ (2 ^ 31 * view.nEtypesInFiletype - 1) * view.etypeSize :=
    mul_nonneg (by omega) positive.le
  obtain ⟨fuel, copy, block, sum, searched, copyNonneg, found, earlier⟩ :=
    exists_reaching_position nonempty lastNonneg
      (mul_etypeSize_lt (Int.sub_one_lt_of_le le_rfl)) inRange
  obtain ⟨member, reached, beforeNonneg, within, -⟩ := view.firstReaching_some view.forward found
  have blockLess : sum - 0 - block.blocklen + block.blocklen < 2 ^ 31 :=
    within.trans_lt view.size_lt
  have copies := mul_nonneg copyNonneg nonempty.le
  have counts (count : Int) (countNonneg : 0 ≤ count) :=
    position_lt_iff nonempty found earlier countNonneg
  generalize isCounted : copy * view.filetypeSize + (sum - block.blocklen) +
    max 0 (fsize - view.blockStart copy block) = counted at counts
  have rounded (least : Int) := @tdiv_le_iff counted view.etypeSize least positive (by omega)
  refine ⟨fuel, (counted + view.etypeSize - 1).tdiv view.etypeSize, ?_, ?_⟩
  · unfold blockEnd at reached
    unfold blockStart at isCounted
    unfold getEofOffset
    rw [strided, if_neg Bool.false_ne_true, searched]
    simp only [Option.map_some, Option.some.injEq]
    unfold blockEnd
    apply congrArg (Int.tdiv · view.etypeSize)
    split
    case isTrue => omega
    case isFalse =>
      rw [toInt_of_fits (by omega) (by omega)]
      omega
  · have lastBehind := not_lt.mp ((counts _ lastNonneg).not.mp (not_lt.mpr inRange))
    have atMost := (rounded _).mpr lastBehind
    have resultNonneg : 0 ≤ (counted + view.etypeSize - 1).tdiv view.etypeSize :=
      Int.tdiv_nonneg (by omega) positive.le
    constructor
    · refine ⟨resultNonneg, _, getByteOffset_of_lt strided nonempty resultNonneg (by omega), ?_⟩
      rw [← not_lt, counts _ (mul_nonneg resultNonneg positive.le), not_lt]
      exact (rounded _).mp le_rfl
    · rintro least ⟨leastNonneg, position, isPosition, reaches⟩
      by_contra less
      rw [getByteOffset_of_lt strided nonempty leastNonneg (by omega)] at isPosition
      obtain rfl := Option.some.inj isPosition
      rw [← not_lt, counts _ (mul_nonneg leastNonneg positive.le), not_lt, ← rounded] at reaches
      exact less reaches

theorem coherent_strided
    (nonneg : 0 ≤ offset)
    (small : offset < 2 ^ 31 * view.nEtypesInFiletype)
    (inRange : fsize ≤ view.position ((2 ^ 31 * view.nEtypesInFiletype - 1) * view.etypeSize)) :
    view.Coherent fpInd offset fsize := by
  have isPosition := getByteOffset_of_lt strided nonempty nonneg small
  have sought := seekIndividual_of_getByteOffset fpInd isPosition
  constructor
  case increasing =>
    intro first second firstNonneg less le
    refine ⟨_, _, getByteOffset_of_lt strided nonempty firstNonneg (by omega),
      getByteOffset_of_lt strided nonempty (by omega) (by omega), ?_⟩
    exact position_lt nonempty (mul_lt_mul_of_pos_right less view.etypeSize_pos)
  case seek => exact ⟨_, isPosition, sought⟩
  case position =>
    intro position returned isSought
    rw [sought] at isSought
    obtain ⟨rfl, -⟩ := Prod.mk.inj (Option.some.inj isSought)
    exact getPosition_of_position strided nonempty nonneg small
  case eof => exact eof_of_regular strided nonempty inRange

end

/-- The four functions agree on exactly these views, offsets and file sizes. -/
theorem coherent_iff_regular
    (view : View)
    (fpInd : Int)
    {offset : Int}
    (fsize : Int)
    (nonneg : 0 ≤ offset) :
    view.Coherent fpInd offset fsize ↔ view.Regular offset fsize := by
  unfold Regular
  split
  case isTrue contig =>
    exact ⟨regular_of_coherent_contig contig, coherent_contig contig⟩
  case isFalse other =>
    have strided := Bool.eq_false_of_not_eq_true other
    constructor
    · intro coherent
      have nonempty := nonempty_of_coherent strided coherent
      exact ⟨nonempty, small_of_coherent strided nonempty coherent,
        fsize_le_of_coherent strided nonempty coherent⟩
    · rintro ⟨nonempty, small, inRange⟩
      exact coherent_strided strided nonempty nonneg small inRange

/-- Bytes seen from a displacement of ten on. -/
def sampleView : View where
  disp := 10
  etypeSize := 1
  filetypeIsContig := true
  flatFile := [⟨0, 1⟩]
  filetypeExtent := 1
  disp_nonneg := by decide
  etypeSize_pos := by decide
  divides := one_dvd _
  size_lt := by decide
  blocklen_nonneg := by decide
  monotone := List.pairwise_singleton _ _
  tiled := by decide

theorem coherent_iff_regular_sample :
    sampleView.Coherent 0 5 12 ↔ sampleView.Regular 5 12 :=
  coherent_iff_regular sampleView 0 12 (by decide)

/-- An empty file seen from a displacement of ten on ends at the offset `-10`. -/
theorem not_coherent_sample :
    ¬ ∀ (view : View) (fpInd offset fsize : Int), 0 ≤ offset → 0 ≤ fsize →
      view.Coherent fpInd offset fsize := by
  intro coherent
  have broken := coherent sampleView 0 0 0 le_rfl le_rfl
  exact absurd (regular_of_coherent_contig rfl broken) (by decide)

end Mpich.Romio.FileView.View
