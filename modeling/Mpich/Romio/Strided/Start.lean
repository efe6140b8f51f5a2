import Mpich.Romio.Strided.Walk

/-!
# Where a call starts

An explicit offset counts etypes of the view. The individual file pointer is a place in
the file, and the call starts in the first block that reaches it.
-/

namespace Mpich.Romio.Strided

open List

open Flatten (Block)
open FileView (toInt)

namespace Call

variable {call : Call} {tiling : Tiling}

/-- The first block of the view that ends at the individual file pointer or behind it. -/
structure Reaches
    (call : Call)
    (tiling : Tiling)
    (cursor : Cursor) : Prop where
  has : tiling.Has cursor
  copy_nonneg : 0 ≤ cursor.copy
  begins : call.fileOff tiling cursor ≤ call.fpInd
  ends : call.fpInd ≤ call.fileOff tiling cursor + cursor.block.blocklen
  first : ∀ earlier, tiling.Has earlier → 0 ≤ earlier.copy → (earlier.copy < cursor.copy ∨
      earlier.copy = cursor.copy ∧ cursor.rest.length < earlier.rest.length) →
    call.fileOff tiling earlier + earlier.block.blocklen < call.fpInd

/-- The call starts at the byte of the view with so many bytes in front of it. -/
def StartsAt
    (call : Call)
    (first : Int) : Prop :=
  match call.filetype, call.filePtr with
  | .flat tiling, .individual =>
    ∃ cursor, call.Reaches tiling cursor ∧ cursor.copy < 2 ^ 31 ∧
      first = tiling.before cursor + (call.fpInd - call.fileOff tiling cursor)
  | .flat tiling, .explicitOffset offset =>
    first = offset * call.etypeSize ∧ (offset : Int) / (tiling.size / call.etypeSize) < 2 ^ 31
  | _, .individual => 0 ≤ first ∧ call.fpInd = call.disp + first
  | _, .explicitOffset offset => first = offset * call.etypeSize

/-- The walk over the blocks stops at the byte. -/
theorem holding_on
    {nFiletypes sizeInFiletype : Int} {passed remaining : List Block}
    (isBlocks : passed ++ remaining = tiling.blocks)
    (lower : FileView.size passed ≤ sizeInFiletype)
    (upper : sizeInFiletype < tiling.size) :
    let start := call.holding tiling nFiletypes sizeInFiletype remaining
      (FileView.size passed)
    start.offset = call.disp + tiling.here start.cursor start.frdSize ∧
      tiling.On (nFiletypes * tiling.size + sizeInFiletype) start.cursor start.frdSize ∧
      0 < start.frdSize := by
  induction remaining generalizing passed with
  | nil =>
    rw [append_nil] at isBlocks
    rw [isBlocks] at lower
    exact absurd upper (not_lt.mpr lower)
  | cons block rest ih =>
    have isSize : tiling.size = FileView.size passed + FileView.size (block :: rest) := by
      unfold Tiling.size
      rw [← isBlocks, Tiling.size_append]
    unfold holding
    by_cases inside : sizeInFiletype < FileView.size passed + block.blocklen
    · rw [if_pos inside]
      refine ⟨?_, ⟨⟨passed, isBlocks⟩, ?_, ?_, ?_⟩, ?_⟩
      · unfold Tiling.here Tiling.start
        dsimp only
        omega
      · dsimp only
        omega
      · dsimp only
        omega
      · unfold Tiling.before
        dsimp only
        omega
      · dsimp only
        omega
    · rw [if_neg inside]
      have isNext : FileView.size (passed ++ [block]) = FileView.size passed + block.blocklen := by
        simp [FileView.size]
      rw [← isNext]
      apply ih
      · rw [append_assoc, singleton_append, isBlocks]
      · rw [isNext]
        exact not_lt.mp inside

/-- The walk starts at the byte of the offset. -/
theorem start_explicit
    {offset : Nat}
    (isFile : call.filetype = .flat tiling)
    (isPtr : call.filePtr = .explicitOffset offset)
    (positive : 0 < tiling.size)
    (fits : (offset : Int) / (tiling.size / call.etypeSize) < 2 ^ 31) :
    ∃ start, Yields (call.start tiling) start ∧
      start.offset = call.disp + tiling.here start.cursor start.frdSize ∧
      tiling.On (offset * call.etypeSize) start.cursor start.frdSize ∧ 0 < start.frdSize := by
  have etypePos := call.etypeSize_pos
  have divides := call.divides
  rw [isFile] at divides
  change call.etypeSize ∣ tiling.size at divides
  have isSize := Int.ediv_mul_cancel divides
  have offsetNonneg := Int.natCast_nonneg offset
  generalize isEtypes : tiling.size / call.etypeSize = etypes at fits isSize
  have etypesPos : 0 < etypes := by
    rw [← isEtypes]
    exact Int.ediv_pos_of_pos_of_dvd positive etypePos.le divides
  have copyNonneg := Int.ediv_nonneg offsetNonneg etypesPos.le
  have inNonneg := Int.emod_nonneg (offset : Int) etypesPos.ne'
  have inLess := Int.emod_lt_of_pos (offset : Int) etypesPos
  have splits := Int.mul_ediv_add_emod (offset : Int) etypes
  have etypesLe : etypes ≤ tiling.size := by
    rw [← isSize]
    exact le_mul_of_one_le_right etypesPos.le etypePos
  have sizeLess := tiling.size_lt
  change tiling.size < 2 ^ 31 at sizeLess
  have isCopy : toInt ((offset : Int).tdiv (tiling.size.tdiv call.etypeSize)) =
      offset / etypes := by
    rw [Int.tdiv_eq_ediv_of_nonneg positive.le, isEtypes, Int.tdiv_eq_ediv_of_nonneg offsetNonneg]
    exact FileView.toInt_of_fits (by omega) fits
  have isIn : toInt ((offset : Int).tmod (tiling.size.tdiv call.etypeSize)) = offset % etypes := by
    rw [Int.tdiv_eq_ediv_of_nonneg positive.le, isEtypes, Int.tmod_eq_emod_of_nonneg offsetNonneg]
    exact FileView.toInt_of_fits (by omega) (by omega)
  have upper : (offset : Int) % etypes * call.etypeSize < tiling.size := by
    rw [← isSize]
    exact mul_lt_mul_of_pos_right inLess etypePos
  obtain ⟨isOff, isOn, some⟩ := @holding_on call tiling (offset / etypes)
    (offset % etypes * call.etypeSize) [] tiling.blocks rfl
    (mul_nonneg inNonneg etypePos.le) upper
  refine ⟨_, .of_eq fun fuel => ?_, isOff, ?_, some⟩
  · unfold start
    rw [isPtr]
    dsimp only
    rw [isCopy, isIn]
    rfl
  · have isCount : (offset : Int) / etypes * tiling.size + offset % etypes * call.etypeSize =
        offset * call.etypeSize := by
      rw [← isSize, ← mul_assoc, ← add_mul, mul_comm _ etypes, splits]
    rwa [isCount] at isOn

/-- Blocks that end in front of the pointer are passed. -/
theorem reaching_append
    {nFiletypes : Int} {passed : List Block}
    (later : List Block)
    (notReached : ∀ front block back, passed = front ++ block :: back →
      call.fileOff tiling ⟨nFiletypes, block, back ++ later⟩ + block.blocklen < call.fpInd) :
    call.reaching tiling nFiletypes (passed ++ later) = call.reaching tiling nFiletypes later := by
  induction passed with
  | nil => rfl
  | cons block rest ih =>
    rw [cons_append, reaching, if_neg (not_le.mpr (notReached [] block rest rfl))]
    apply ih
    intro front other back isSplit
    exact notReached (block :: front) other back (by rw [isSplit, cons_append])

section

variable
    {cursor : Cursor}
    (reaches : call.Reaches tiling cursor)

include reaches

/-- No block of an earlier copy reaches the pointer. -/
theorem Reaches.reaching_earlier
    {nFiletypes : Int}
    (nonneg : 0 ≤ nFiletypes)
    (less : nFiletypes < cursor.copy) :
    call.reaching tiling nFiletypes tiling.blocks = none := by
  rw [← append_nil tiling.blocks, reaching_append]
  · rfl
  · intro front block back isSplit
    exact reaches.first ⟨nFiletypes, block, back⟩ ⟨front, isSplit.symm⟩ nonneg (.inl less)

theorem Reaches.reaching_copy :
    call.reaching tiling cursor.copy tiling.blocks = some cursor := by
  obtain ⟨passed, isBlocks⟩ := reaches.has
  rw [← isBlocks, reaching_append]
  · rw [reaching, if_pos reaches.ends]
  · intro front block back isSplit
    apply reaches.first ⟨cursor.copy, block, back ++ cursor.block :: cursor.rest⟩
    · refine ⟨front, ?_⟩
      rw [← isBlocks, isSplit, append_assoc, cons_append]
    · exact reaches.copy_nonneg
    · refine .inr ⟨rfl, ?_⟩
      rw [length_append, length_cons]
      omega

theorem search_yields (fits : cursor.copy < 2 ^ 31) :
    ∃ next, Yields (call.search tiling) (next, some cursor) := by
  have copies : ∀ distance : Nat, (distance : Int) ≤ cursor.copy →
      ∃ next, Yields (whileLoop (fun state : Int × Option Cursor => state.2.isNone)
        (fun state =>
          some (toInt (state.1 + 1), call.reaching tiling state.1 tiling.blocks)) ·
        (cursor.copy - distance, none)) (next, some cursor) := by
    intro distance inside
    induction distance with
    | zero =>
      refine ⟨toInt (cursor.copy - (0 : Nat) + 1), whileLoop_step rfl rfl ?_⟩
      rw [Int.natCast_zero, sub_zero, reaches.reaching_copy]
      exact whileLoop_done rfl
    | succ distance ih =>
      obtain ⟨next, yields⟩ := ih (by omega)
      refine ⟨next, whileLoop_step rfl rfl ?_⟩
      rw [reaches.reaching_earlier (by omega) (by omega),
        FileView.toInt_of_fits (by omega) (by omega),
        show cursor.copy - ((distance + 1 : Nat) : Int) + 1 = cursor.copy - distance by omega]
      exact yields
  have nonneg := reaches.copy_nonneg
  obtain ⟨next, yields⟩ := copies cursor.copy.toNat (by omega)
  refine ⟨next, ?_⟩
  rw [show cursor.copy - (cursor.copy.toNat : Int) = 0 by omega] at yields
  exact yields

end

theorem start_individual
    {cursor : Cursor}
    (isPtr : call.filePtr = .individual)
    (reaches : call.Reaches tiling cursor)
    (fits : cursor.copy < 2 ^ 31) :
    ∃ start, Yields (call.start tiling) start ∧
      start.offset = call.disp + tiling.here start.cursor start.frdSize ∧
      tiling.On (tiling.before cursor + (call.fpInd - call.fileOff tiling cursor))
        start.cursor start.frdSize ∧
      start.offset = call.fpInd := by
  obtain ⟨next, yields⟩ := search_yields reaches fits
  have begins := reaches.begins
  have ends := reaches.ends
  have blockLess : cursor.block.blocklen ≤ tiling.size := by
    obtain ⟨lower, upper⟩ := reaches.has.bounds
    rw [add_mul, one_mul] at upper
    omega
  have sizeLess := tiling.size_lt
  change tiling.size < 2 ^ 31 at sizeLess
  have isFrdSize : toInt (call.fileOff tiling cursor + cursor.block.blocklen - call.fpInd) =
      call.fileOff tiling cursor + cursor.block.blocklen - call.fpInd :=
    FileView.toInt_of_fits (by omega) (by omega)
  refine ⟨⟨cursor, toInt (call.fileOff tiling cursor + cursor.block.blocklen - call.fpInd),
    call.fpInd⟩, ?_, ?_, ⟨reaches.has, ?_, ?_, ?_⟩, rfl⟩
  · refine Yields.congr (@Yields.bind _ _ _ (fun _ found => found.2.map fun cursor =>
      ⟨cursor, toInt (call.fileOff tiling cursor + cursor.block.blocklen - call.fpInd),
        call.fpInd⟩) _ _ yields (.of_eq fun _ => rfl)) fun fuel => ?_
    unfold start
    rw [isPtr]
  · dsimp only
    rw [isFrdSize]
    unfold fileOff Tiling.here
    omega
  · dsimp only
    omega
  · dsimp only
    omega
  · dsimp only
    omega

/-- Every call starts where `StartsAt` says. -/
theorem start_yields
    {first : Int}
    (isFile : call.filetype = .flat tiling)
    (positive : 0 < tiling.size)
    (starts : call.StartsAt first) :
    ∃ start, Yields (call.start tiling) start ∧
      start.offset = call.disp + tiling.here start.cursor start.frdSize ∧
      tiling.On first start.cursor start.frdSize := by
  unfold StartsAt at starts
  rw [isFile] at starts
  cases isPtr : call.filePtr with
  | individual =>
    rw [isPtr] at starts
    obtain ⟨cursor, reaches, fits, rfl⟩ := starts
    obtain ⟨start, yields, isOff, isOn, -⟩ := start_individual isPtr reaches fits
    exact ⟨start, yields, isOff, isOn⟩
  | explicitOffset offset =>
    rw [isPtr] at starts
    obtain ⟨rfl, fits⟩ := starts
    obtain ⟨start, yields, isOff, isOn, -⟩ := start_explicit isFile isPtr positive fits
    exact ⟨start, yields, isOff, isOn⟩

end Mpich.Romio.Strided.Call
