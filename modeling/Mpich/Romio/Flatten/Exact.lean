import Mpich.Romio.Flatten.Indexed

/-!
# The struct constructor

Each field is flattened on its own: one entry for a named or a contiguous type,
copies of the entries for a flattened type.
-/

namespace Mpich.Romio.Flatten

open Copies List

namespace Library

variable {library : Library} {old : Basic} {count : Nat}
  {blocklengths : Fin count → Nat} {displacements : Fin count → Int}
  {types : Fin count → Basic}

/-- The bytes of a field. -/
def fieldBytes
    (library : Library)
    (blocklength : Nat)
    (displacement : Int)
    (old : Basic) : List Int :=
  shifted displacement (copies blocklength (library.extent old) (library.bytes old))

/-- The condition on a field. -/
def HarmlessField
    (library : Library)
    (blocklength : Nat)
    (old : Basic) : Prop :=
  if library.isSimple old then
    library.Solid blocklength (blocklength * library.size old) old
  else blocklength ≠ 0

/-- The entries that are written for a field, at the displacement of the struct,
and the number of entries that is counted for it. -/
structure Field
    (library : Library)
    (blocklength : Nat)
    (displacement : Int)
    (old : Basic)
    (written : List Block)
    (counted : Int) : Prop where
  flatten : ∀ stOffset, (match if library.isSimple old then .some []
        else library.flatten old (stOffset + displacement) with
      | none => none
      | .some [] => .some [(⟨stOffset + displacement,
          blocklength * library.size old⟩ : Block)]
      | .some inner =>
        .some (again inner.length (library.extent old) (blocklength - 1) inner)) =
      .some (shifted stOffset written)
  count :
    (match if library.isSimple old then .some (0, 0)
        else library.countContiguousBlocks old with
      | none => none
      | .some (inner, num) =>
        if num = 0 then .some (inner + 1, 1)
        else .some (inner + (blocklength - 1) * num, num + (blocklength - 1) * num)) =
      .some (counted, counted)
  some : written ≠ []
  forward : Forward written
  bound : counted ≤ written.length
  agrees :
    if counted = written.length then
      (cover written).length = (library.fieldBytes blocklength displacement old).length ∧
        (library.HarmlessField blocklength old ↔
          cover written = library.fieldBytes blocklength displacement old)
    else ¬ library.HarmlessField blocklength old

theorem exists_field
    (blocklength : Nat)
    (displacement : Int)
    (isFine : library.isSimple old = false → ∃ written, library.Fine old written) :
    ∃ written counted, library.Field blocklength displacement old written counted := by
  cases simple : library.isSimple old with
  | true =>
    refine ⟨[⟨displacement, (blocklength * library.size old : Nat)⟩], 1, ?_⟩
    constructor
    case flatten =>
      intro stOffset
      rw [if_pos simple, shifted_block, Nat.cast_mul]
    case count =>
      rw [if_pos simple]
      rfl
    case some => exact cons_ne_nil _ _
    case forward => exact forward_singleton _ _
    case bound => exact le_refl _
    case agrees =>
      rw [if_pos (by rfl), cover_block, HarmlessField, if_pos simple, fieldBytes,
        length_run, length_shifted, length_copies]
      have atPlace : run displacement (blocklength * library.size old) =
          shifted displacement (run 0 (blocklength * library.size old)) := by
        rw [shifted_run, add_zero]
      rw [atPlace, (shifted_injective displacement).eq_iff]
      exact ⟨rfl, eq_comm⟩
  | false =>
    obtain ⟨inner, fine⟩ := isFine simple
    have notSimple := Bool.eq_false_iff.mp simple
    refine ⟨shifted displacement
      (copies (blocklength - 1 + 1) (library.extent old) inner),
      inner.length * blocklength, ?_⟩
    constructor
    case flatten =>
      intro stOffset
      have loop := again_shifted inner (stOffset + displacement)
        (library.extent old) (blocklength - 1)
      rw [if_neg notSimple, fine.flatten]
      cases isEntries : shifted (stOffset + displacement) inner with
      | nil => exact absurd (shifted_eq_nil.mp isEntries) fine.some
      | cons first rest =>
        rw [isEntries] at loop
        rw [shifted_shifted, ← loop]
    case count =>
      rw [if_neg notSimple, fine.count]
      simp only [if_neg (length_ne_zero fine.some)]
      congr 2 <;> ring
    case some =>
      exact mt shifted_eq_nil.mp (copies_ne_nil fine.some (Nat.succ_ne_zero _))
    case forward => exact (fine.forward.copies _ _).shifted displacement
    case bound =>
      have atLeast : blocklength ≤ blocklength - 1 + 1 := le_tsub_add
      have entries := Nat.mul_le_mul_right inner.length atLeast
      rw [length_shifted, length_copies]
      rw [mul_comm]
      exact mod_cast entries
    case agrees =>
      rw [HarmlessField, if_neg notSimple, length_shifted, length_copies]
      cases blocklength with
      | zero =>
        have short : ¬ ((inner.length : Int) * (0 : Nat) = ((0 - 1 + 1) * inner.length : Nat)) := by
          have positive := length_pos_of_ne_nil fine.some
          omega
        rw [if_neg short]
        exact fun impossible => impossible rfl
      | succ blocklength =>
        have exact_ : (inner.length : Int) * (blocklength + 1 : Nat) =
            ((blocklength + 1 - 1 + 1) * inner.length : Nat) := by
          push_cast
          ring
        rw [if_pos exact_, Nat.add_sub_cancel, cover_shifted, cover_copies, fine.cover]
        exact ⟨rfl, iff_of_true (Nat.succ_ne_zero blocklength) rfl⟩

variable {written : Fin count → List Block} {counted : Fin count → Int}

section

variable
    (fields : ∀ index, library.Field (blocklengths index) (displacements index) (types index)
      (written index) (counted index))

include fields

theorem flatten_struct
    (stOffset : Int) :
    library.flatten (.struct count blocklengths displacements types) stOffset =
      some (shifted stOffset ((List.finRange count).flatMap written)) := by
  have each := funext fun index => (fields index).flatten stOffset
  have all := @mapM_pure Option _ _ _ _ (List.finRange count)
    fun index => shifted stOffset (written index)
  calc
    _ = ((List.finRange count).mapM fun index =>
          some (shifted stOffset (written index))).map List.flatten :=
        congrArg (fun field => ((List.finRange count).mapM field).map List.flatten) each
    _ = (some ((List.finRange count).map fun index =>
          shifted stOffset (written index))).map List.flatten :=
        congrArg (Option.map List.flatten) all
    _ = some (shifted stOffset ((List.finRange count).flatMap written)) := by
        rw [Option.map_some, ← List.flatMap_def, shifted, List.map_flatMap]
        rfl

theorem count_struct :
    library.countContiguousBlocks (.struct count blocklengths displacements types) =
      some (((List.finRange count).map counted).sum, ((List.finRange count).map counted).sum) := by
  have each := funext fun index => (fields index).count
  have all := @mapM_pure Option _ _ _ _ (List.finRange count)
    fun index => (counted index, counted index)
  have sums (list : List (Fin count)) :
      (list.map fun index => (counted index, counted index)).sum =
        ((list.map counted).sum, (list.map counted).sum) := by
    induction list with
    | nil => rfl
    | cons index list ih =>
      rw [map_cons, sum_cons, ih, map_cons, sum_cons]
      rfl
  calc
    _ = ((List.finRange count).mapM fun index =>
          some (counted index, counted index)).map sum :=
        congrArg (fun field => ((List.finRange count).mapM field).map sum) each
    _ = (some ((List.finRange count).map fun index =>
          (counted index, counted index))).map sum :=
        congrArg (Option.map sum) all
    _ = some (((List.finRange count).map counted).sum,
          ((List.finRange count).map counted).sum) := by
        rw [Option.map_some, sums]

end

theorem agrees_struct
    (count : Nat)
    (blocklengths : Fin count → Nat)
    (displacements : Fin count → Int)
    (types : Fin count → Basic)
    (isFine : ∀ index, library.isSimple (types index) = false →
      ∃ written, library.Fine (types index) written) :
    library.Agrees (.struct count blocklengths displacements types) := by
  choose written counted fields using fun index =>
    exists_field (blocklengths index) (displacements index) (isFine index)
  have isCount := count_struct fields
  have isFlatten := flatten_struct fields
  have isLength : ((((List.finRange count).flatMap written).length : Nat) : Int) =
      ((List.finRange count).map fun index => ((written index).length : Int)).sum := by
    rw [length_flatMap, Nat.cast_list_sum, map_map]
    rfl
  have isHarmless :
      library.Harmless (.struct count blocklengths displacements types) ↔
        count ≠ 0 ∧ ∀ index, library.HarmlessField (blocklengths index) (types index) := by
    rfl
  by_cases exact_ : ∀ index, counted index = (written index).length
  · have agrees (index : Fin count) := (fields index).agrees
    simp only [if_pos (exact_ _)] at agrees
    refine agrees_of ((List.finRange count).flatMap written) ?_ isFlatten ?_
    · have same : counted = fun index => ((written index).length : Int) :=
        funext exact_
      rw [isCount, isLength, same]
    · have isBytes : library.bytes (.struct count blocklengths displacements types) =
          (List.finRange count).flatMap fun index => library.fieldBytes
            (blocklengths index) (displacements index) (types index) := rfl
      have isCover : cover ((List.finRange count).flatMap written) =
          library.bytes (.struct count blocklengths displacements types) ↔
            ∀ index, library.HarmlessField (blocklengths index) (types index) := by
        rw [cover_flatMap, isBytes, flatMap_inj fun index _ => (agrees index).1]
        simp only [mem_finRange, forall_const, (agrees _).2]
      have isEmpty : (List.finRange count).flatMap written ≠ [] ↔ count ≠ 0 := by
        rw [ne_eq, flatMap_eq_nil_iff, not_iff_not]
        constructor
        · intro none
          by_contra positive
          obtain ⟨first⟩ := Fin.pos_iff_nonempty.mp (Nat.pos_of_ne_zero positive)
          exact (fields first).some (none first (mem_finRange first))
        · rintro rfl index
          exact index.elim0
      have forward : Forward ((List.finRange count).flatMap written) := by
        intro block member
        obtain ⟨index, _, inField⟩ := mem_flatMap.mp member
        exact (fields index).forward block inField
      rw [isHarmless, isCover, isEmpty]
      exact ⟨fun right => ⟨right.1, forward, right.2⟩, fun right => ⟨right.1, right.2.2⟩⟩
  · push Not at exact_
    obtain ⟨index, differs⟩ := exact_
    have agrees := (fields index).agrees
    rw [if_neg differs] at agrees
    apply agrees_of_not (not_represents_of_lt isCount (isFlatten 0) ?_)
    · exact fun harmless => agrees ((isHarmless.mp harmless).2 index)
    · rw [length_shifted, isLength]
      exact sum_lt_sum _ _ (fun other _ => (fields other).bound)
        ⟨index, mem_finRange index, lt_of_le_of_ne (fields index).bound differs⟩

end Mpich.Romio.Flatten.Library

/-!
## When a datatype is flattened right

By induction on the datatype: it and the types that are flattened within it are
represented exactly when each of their constructors is harmless.
-/

namespace Mpich.Romio.Flatten

open Copies List

namespace Library

variable {library : Library} {type old : Basic}

variable (library) in
/-- What is shown by induction. -/
structure Exact
    (type : Basic) : Prop where
  iff : (∀ part ∈ library.flattened type, library.Represents part) ↔
    ∀ part ∈ library.flattened type, library.Harmless part
  fine : (∀ part ∈ library.flattened type, library.Harmless part) →
    ∃ written, library.Fine type written

/-- The last step of the construction of a type, of which the parts have been
considered. -/
theorem exact_of_agrees
    {parts : List Basic}
    (isFlattened : library.flattened type = type :: parts)
    (iff : (∀ part ∈ parts, library.Represents part) ↔ ∀ part ∈ parts, library.Harmless part)
    (agrees : (∀ part ∈ parts, library.Harmless part) → library.Agrees type) :
    library.Exact type := by
  constructor
  case iff =>
    rw [isFlattened, forall_mem_cons, forall_mem_cons, iff]
    exact and_congr_left fun harmless => (agrees harmless).iff
  case fine =>
    rw [isFlattened, forall_mem_cons]
    rintro ⟨isHarmless, harmless⟩
    exact (agrees harmless).fine isHarmless

/-- A constructor with one old type. -/
theorem exact_of_old
    (isFlattened : library.flattened type =
      type :: if library.isSimple old then [] else library.flattened old)
    (isExact : library.Exact old)
    (agrees : (library.isSimple old = false →
      ∃ written, library.Fine old written) → library.Agrees type) :
    library.Exact type := by
  cases simple : library.isSimple old with
  | true =>
    rw [if_pos simple] at isFlattened
    apply exact_of_agrees isFlattened
    · exact iff_of_true (forall_mem_nil _) (forall_mem_nil _)
    · intro _
      exact agrees fun notSimple => Bool.noConfusion (simple.symm.trans notSimple)
  | false =>
    rw [if_neg (Bool.eq_false_iff.mp simple)] at isFlattened
    apply exact_of_agrees isFlattened isExact.iff
    intro harmless
    exact agrees fun _ => isExact.fine harmless

theorem exact_struct
    {count : Nat} {blocklengths : Fin count → Nat}
    {displacements : Fin count → Int} {types : Fin count → Basic}
    (isExact : ∀ index, library.Exact (types index)) :
    library.Exact (.struct count blocklengths displacements types) := by
  let parts (index : Fin count) :=
    if library.isSimple (types index) then [] else library.flattened (types index)
  have isParts (index : Fin count) : (∀ part ∈ parts index, library.Represents part) ↔
      ∀ part ∈ parts index, library.Harmless part := by
    cases simple : library.isSimple (types index) with
    | true =>
      simp only [parts, simple, if_true, not_mem_nil, false_imp_iff, implies_true]
    | false =>
      simp only [parts, simple]
      exact (isExact index).iff
  have isFlattened : library.flattened (.struct count blocklengths displacements types) =
      .struct count blocklengths displacements types ::
        (List.finRange count).flatMap parts := rfl
  apply exact_of_agrees isFlattened
  · simp only [forall_mem_flatMap, isParts]
  · intro harmless
    apply agrees_struct
    intro index simple
    apply (isExact index).fine
    intro part member
    apply harmless
    rw [mem_flatMap]
    refine ⟨index, mem_finRange index, ?_⟩
    simp only [parts, simple]
    exact member

/-- A named type is not flattened. -/
theorem exact_named (bytes : List Int) :
    library.Exact (.named bytes) := by
  apply exact_of_agrees rfl
  · exact iff_of_true (forall_mem_nil _) (forall_mem_nil _)
  · intro _
    exact agrees_of_not (not_represents_of_none rfl) id

theorem exact (type : Basic) :
    library.Exact type := by
  induction type with
  | named bytes => exact exact_named bytes
  | dup old isExact => exact exact_of_old rfl isExact agrees_dup
  | contiguous count old isExact =>
    exact exact_of_old rfl isExact (agrees_contiguous · count)
  | vector count blocklength stride old isExact =>
    exact exact_of_old rfl isExact (agrees_vector · count blocklength stride)
  | hvector count blocklength stride old isExact =>
    exact exact_of_old rfl isExact (agrees_hvector · count blocklength stride)
  | indexed blocks old isExact =>
    exact exact_of_old rfl isExact (agrees_indexed · blocks)
  | hindexed blocks old isExact =>
    exact exact_of_old rfl isExact (agrees_hindexed · blocks)
  | struct count blocklengths displacements types isExact =>
    exact exact_struct isExact

end Library

/-- A datatype and the types that are flattened within it are represented exactly
when all of their constructors are harmless. -/
theorem represents_iff_harmless
    (library : Library)
    (datatype : Datatype) :
    (∀ part ∈ library.flattened (datatype.built library), library.Represents part) ↔
      ∀ part ∈ library.flattened (datatype.built library), library.Harmless part :=
  (Library.exact (datatype.built library)).iff

/-- A library for a few types. -/
def sampleLibrary : Library where
  extent
    | .named bytes => bytes.length
    | .vector 2 1 2 (.named bytes) => 3 * bytes.length
    | _ => 4
  isContig _ := false

/-- Two integers, the second one in front of the first. -/
def backwards : Datatype :=
  .vector 2 1 (-1) (.named [0, 1, 2, 3])

/-- A block without copies, and one with a copy of two integers with a hole. -/
def withEmptyBlock : Datatype :=
  .indexed [(0, 0), (1, 3)] (.vector 2 1 2 (.named [0, 1, 2, 3]))

theorem not_represents_samples :
    ¬ sampleLibrary.Represents (backwards.built sampleLibrary) ∧
      ¬ sampleLibrary.Represents (withEmptyBlock.built sampleLibrary) := by
  have named : sampleLibrary.isSimple (.named [0, 1, 2, 3]) ≠ false := by decide
  constructor
  · have agrees : sampleLibrary.Agrees (backwards.built sampleLibrary) :=
      Library.agrees_vector (absurd · named) 2 1 (-1)
    rw [agrees.iff]
    rintro ⟨-, -, isOne | isEmpty | isStride⟩
    · exact absurd isOne (by decide)
    · exact absurd isEmpty (by decide)
    · exact absurd isStride (by decide)
  · have isCount : sampleLibrary.countContiguousBlocks
        (withEmptyBlock.built sampleLibrary) = some (2, 2) := by decide
    have isFlatten : sampleLibrary.flatten (withEmptyBlock.built sampleLibrary) 0 =
        some [⟨0, 4⟩, ⟨8, 4⟩, ⟨36, 4⟩, ⟨44, 4⟩] := by decide
    exact Library.not_represents_of_lt isCount isFlatten (by decide)

end Mpich.Romio.Flatten
