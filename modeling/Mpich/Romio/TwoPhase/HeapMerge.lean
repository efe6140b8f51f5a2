import Mpich.Romio.TwoPhase.Rounds

/-!
# The merge is sorted

The lists of `ADIOI_Heap_merge` form a heap, ordered by their first offsets. A heap in which
one element may be greater than its children is ordered again by moving that element down,
and what is extracted is not greater than what is left.
-/

namespace Mpich.Romio.TwoPhase

open List

/-- An index of the array `a` that leads to an element of a list. -/
def Readable
    (room : Nat)
    (heap : List HeapStruct)
    (index : Nat) : Prop :=
  index < room ∧ ∃ access left, heap[index]? = some (access :: left)

/-- The children of an element of the heap. -/
def IsChild (k child : Nat) : Prop :=
  child = 2 * (k + 1) - 1 ∨ child = 2 * (k + 1)

theorem IsChild.lt
    {k child : Nat}
    (isChild : IsChild k child) :
    k < child := by
  unfold IsChild at isChild
  omega

/-- Every turn of `heapify` reads elements of lists, and the last one changes nothing. -/
def HeapifySafe (room : Nat) : Nat → List HeapStruct → Nat → Nat → Prop
  | 0, heap, heapsize, k => smallest heap heapsize k = k
  | turns + 1, heap, heapsize, k =>
    (∀ child, IsChild k child → child < heapsize →
      Readable room heap k ∧ Readable room heap child) ∧
    (smallest heap heapsize k ≠ k →
      HeapifySafe room turns (swapAt heap k (smallest heap heapsize k)) heapsize
        (smallest heap heapsize k))

def BuildSafe (room : Nat) : Nat → List HeapStruct → Prop
  | 0, _ => True
  | i + 1, heap => HeapifySafe room heap.length heap heap.length i ∧
      BuildSafe room i (heapify heap.length heap heap.length i)

/-- The heap after the first element of its root has been extracted, and its size. -/
def replaced
    (left : HeapStruct)
    (heap : List HeapStruct)
    (heapsize : Nat) : List HeapStruct × Nat :=
  if left = [] then ((heap[heapsize - 1]?.getD []) :: heap.tail, heapsize - 1)
  else (left :: heap.tail, heapsize)

def ExtractSafe (room : Nat) : Nat → List HeapStruct → Nat → Prop
  | 0, _, _ => True
  | elements + 1, heap, heapsize => ∃ access left, heap[0]? = some (access :: left) ∧
    heapsize - 1 < room ∧
    let next := replaced left heap heapsize
    HeapifySafe room next.2 next.1 next.2 0 ∧
      ExtractSafe room elements (heapify next.2 next.1 next.2 0) next.2

/-- `ADIOI_Heap_merge` uses no index from `nprocsRecv + 1` on, and reads no list behind its
last element. -/
def MergeSafe
    (lists : List HeapStruct)
    (nprocsRecv totalElements : Nat) : Prop :=
  let heap := lists.filter fun list => list ≠ []
  BuildSafe (nprocsRecv + 1) (nprocsRecv / 2) heap ∧
    ExtractSafe (nprocsRecv + 1) totalElements (buildHeap (nprocsRecv / 2) heap) nprocsRecv

/-- The offsets do not decrease. -/
def Ascends (list : List Access) : Prop :=
  list.Pairwise fun first second => first.offset ≤ second.offset

/-- The first lists of the heap have elements. -/
def Live
    (heap : List HeapStruct)
    (size : Nat) : Prop :=
  ∀ i < size, ∃ access left, heap[i]? = some (access :: left)

/-- No element from `start` on is greater than its children. -/
def IsHeap
    (key : Nat → Nat)
    (size start : Nat) : Prop :=
  ∀ i child, start ≤ i → IsChild i child → child < size → key i ≤ key child

/-- No element from `start` on, `k` apart, is greater than its children, and the parent of
`k` is not greater than the children of `k`. -/
structure Sifting
    (key : Nat → Nat)
    (size start k : Nat) : Prop where
  others : ∀ i child, start ≤ i → i ≠ k → IsChild i child → child < size → key i ≤ key child
  above : ∀ i child, start ≤ i → IsChild i k → IsChild k child → child < size →
    key i ≤ key child

theorem smallest_spec
    (heap : List HeapStruct)
    (size k : Nat) :
    (smallest heap size k = k ∨
      IsChild k (smallest heap size k) ∧ smallest heap size k < size ∧
        offAt heap (smallest heap size k) < offAt heap k) ∧
    ∀ child, IsChild k child → child < size →
      offAt heap (smallest heap size k) ≤ offAt heap child := by
  unfold smallest IsChild
  dsimp only
  split_ifs <;>
  · refine ⟨by omega, ?_⟩
    rintro child isChild inside
    rcases isChild with rfl | rfl <;> omega

section

variable {heap : List HeapStruct} {size a b : Nat}
  (live : Live heap size) (aInside : a < size) (bInside : b < size)

include live aInside bInside

theorem getElem?_swapAt
    (i : Nat) :
    (swapAt heap a b)[i]? =
      if b = i then heap[a]? else if a = i then heap[b]? else heap[i]? := by
  obtain ⟨_, _, atA⟩ := live a aInside
  obtain ⟨_, _, atB⟩ := live b bInside
  obtain ⟨aLess, _⟩ := List.getElem?_eq_some_iff.mp atA
  obtain ⟨bLess, _⟩ := List.getElem?_eq_some_iff.mp atB
  unfold swapAt
  rw [atA, atB]
  dsimp only
  rw [getElem?_set, getElem?_set, length_set]
  split_ifs <;> rfl

theorem swapAt_perm :
    (swapAt heap a b).Perm heap ∧ ((swapAt heap a b).take size).Perm (heap.take size) := by
  obtain ⟨_, _, atA⟩ := live a aInside
  obtain ⟨_, _, atB⟩ := live b bInside
  obtain ⟨aLess, isA⟩ := List.getElem?_eq_some_iff.mp atA
  obtain ⟨bLess, isB⟩ := List.getElem?_eq_some_iff.mp atB
  have aTaken : a < (heap.take size).length := by rw [length_take]; omega
  have bTaken : b < (heap.take size).length := by rw [length_take]; omega
  unfold swapAt
  rw [atA, atB]
  dsimp only
  rw [take_set, take_set, ← isA, ← isB]
  have onTaken := set_set_perm aTaken bTaken
  rw [getElem_take, getElem_take] at onTaken
  exact ⟨set_set_perm aLess bLess, onTaken⟩

theorem live_swapAt : Live (swapAt heap a b) size := by
  intro i inside
  rw [getElem?_swapAt live aInside bInside]
  split_ifs
  · exact live a aInside
  · exact live b bInside
  · exact live i inside

theorem offAt_swapAt
    (i : Nat) :
    offAt (swapAt heap a b) i =
      if b = i then offAt heap a else if a = i then offAt heap b else offAt heap i := by
  unfold offAt
  rw [getElem?_swapAt live aInside bInside]
  split_ifs <;> rfl

end

/-- The greater element changes places with its least child. -/
theorem Sifting.swapped
    {heap : List HeapStruct} {size start k : Nat}
    (sifting : Sifting (offAt heap) size start k)
    (live : Live heap size)
    (from_le : start ≤ k)
    (moves : smallest heap size k ≠ k) :
    Sifting (offAt (swapAt heap k (smallest heap size k))) size start
      (smallest heap size k) := by
  obtain ⟨stays | ⟨isChild, inside, less⟩, least⟩ := smallest_spec heap size k
  · exact absurd stays moves
  · have kInside := isChild.lt.trans inside
    have swapped := offAt_swapAt live kInside inside
    constructor
    · intro i child le differs childOf childInside
      rw [swapped, swapped, if_neg (Ne.symm differs)]
      have grand := fun isUp => sifting.above i _ le isUp isChild inside
      have other := sifting.others i child le
      have below := least child
      unfold IsChild at *
      split_ifs <;> grind
    · intro i child le childOf grandOf childInside
      have below := sifting.others _ child (from_le.trans isChild.lt.le) moves grandOf childInside
      rw [swapped, swapped]
      unfold IsChild at *
      split_ifs <;> grind

/-- An element that stays is not greater than its children. -/
theorem Sifting.isHeap
    {heap : List HeapStruct} {size start k : Nat}
    (sifting : Sifting (offAt heap) size start k)
    (stays : smallest heap size k = k) :
    IsHeap (offAt heap) size start := by
  have least := (smallest_spec heap size k).2
  rw [stays] at least
  intro i child le childOf inside
  by_cases same : i = k
  · subst same
    exact least child childOf inside
  · exact sifting.others i child le same childOf inside

theorem heapify_spec
    {size start k : Nat} {heap : List HeapStruct}
    (room turns : Nat)
    (sifting : Sifting (offAt heap) size start k)
    (live : Live heap size)
    (roomy : size ≤ room)
    (from_le : start ≤ k)
    (enough : size ≤ turns + k) :
    HeapifySafe room turns heap size k ∧ Live (heapify turns heap size k) size ∧
      IsHeap (offAt (heapify turns heap size k)) size start ∧
      (heapify turns heap size k).Perm heap ∧
      ((heapify turns heap size k).take size).Perm (heap.take size) := by
  induction turns generalizing heap k with
  | zero =>
    obtain ⟨stays | ⟨isChild, inside, _⟩, _⟩ := smallest_spec heap size k
    · exact ⟨stays, live, sifting.isHeap stays, .refl _, .refl _⟩
    · have later := isChild.lt
      omega
  | succ turns ih =>
    have readable : ∀ index < size, Readable room heap index := fun index inside =>
      ⟨inside.trans_le roomy, live index inside⟩
    have safe : ∀ child, IsChild k child → child < size →
        Readable room heap k ∧ Readable room heap child := fun child childOf inside =>
      ⟨readable k (childOf.lt.trans inside), readable child inside⟩
    unfold HeapifySafe heapify
    obtain ⟨stays | ⟨isChild, inside, less⟩, _⟩ := smallest_spec heap size k
    · rw [if_neg (not_not.mpr stays)]
      exact ⟨⟨safe, absurd stays⟩, live, sifting.isHeap stays, .refl _, .refl _⟩
    · have later := isChild.lt
      have kInside := later.trans inside
      rw [if_pos later.ne']
      have ⟨next, nextLive, isHeap, perm, taken⟩ := ih
        (sifting.swapped live from_le later.ne') (live_swapAt live kInside inside)
        (from_le.trans later.le) (by omega)
      have swapped := swapAt_perm live kInside inside
      exact ⟨⟨safe, fun _ => next⟩, nextLive, isHeap, perm.trans swapped.1,
        taken.trans swapped.2⟩

/-- The heap is built from the last element with children. -/
theorem buildHeap_spec
    {i : Nat} {heap : List HeapStruct}
    (room : Nat)
    (isHeap : IsHeap (offAt heap) heap.length i)
    (live : Live heap heap.length)
    (roomy : heap.length ≤ room) :
    BuildSafe room i heap ∧ Live (buildHeap i heap) heap.length ∧
      IsHeap (offAt (buildHeap i heap)) heap.length 0 ∧ (buildHeap i heap).Perm heap := by
  induction i generalizing heap with
  | zero => exact ⟨trivial, live, isHeap, .refl _⟩
  | succ i ih =>
    have sifting : Sifting (offAt heap) heap.length i i := by
      constructor
      · exact fun j child le differs => isHeap j child (by omega)
      · exact fun j child le childOf => absurd childOf.lt le.not_gt
    have ⟨safe, nextLive, nextHeap, perm, _⟩ :=
      heapify_spec room _ sifting live roomy i.le_refl (Nat.le_add_right _ i)
    have same := perm.length_eq
    unfold BuildSafe buildHeap
    generalize heapify heap.length heap heap.length i = next at *
    rw [← same] at nextLive nextHeap roomy
    have ⟨restSafe, built, builtHeap, builtPerm⟩ := ih nextHeap nextLive roomy
    rw [same] at built builtHeap
    exact ⟨⟨safe, restSafe⟩, built, builtHeap, builtPerm.trans perm⟩

theorem IsHeap.root_le
    {key : Nat → Nat} {size : Nat}
    (isHeap : IsHeap key size 0)
    {i : Nat}
    (inside : i < size) :
    key 0 ≤ key i := by
  induction i using Nat.strongRecOn with
  | ind i ih =>
    cases i with
    | zero => exact le_rfl
    | succ i =>
      exact (ih (i / 2) (by omega) (by omega)).trans
        (isHeap (i / 2) (i + 1) (Nat.zero_le _) (by unfold IsChild; omega) inside)

section

variable {list root : HeapStruct} {lists : List HeapStruct} {size next : Nat}

/-- Another root, which may be greater than its children. -/
theorem sifting_cons
    (isHeap : IsHeap (offAt (list :: lists)) size 0)
    (fewer : next ≤ size) :
    Sifting (offAt (root :: lists)) next 0 0 := by
  constructor
  · intro i child _ notRoot childOf inside
    have ordered := isHeap i child (Nat.zero_le _) childOf (by omega)
    cases i with
    | zero => exact absurd rfl notRoot
    | succ i =>
      cases child with
      | zero => exact absurd childOf.lt (Nat.not_lt_zero _)
      | succ child => exact ordered
  · exact fun i child _ childOf => absurd childOf.lt (Nat.not_lt_zero _)

theorem live_cons
    (live : Live (list :: lists) size)
    (fewer : next ≤ size)
    (isRoot : 0 < next → ∃ access left, root = access :: left) :
    Live (root :: lists) next := by
  intro i inside
  cases i with
  | zero =>
    obtain ⟨access, left, rfl⟩ := isRoot inside
    exact ⟨access, left, rfl⟩
  | succ i => exact live (i + 1) (by omega)

end

/-- What is left in the heap, and that its root can be moved down. -/
theorem replaced_spec
    {access : Access} {left : HeapStruct} {lists : List HeapStruct} {size : Nat}
    (live : Live ((access :: left) :: lists) (size + 1))
    (isHeap : IsHeap (offAt ((access :: left) :: lists)) (size + 1) 0) :
    let next := replaced left ((access :: left) :: lists) (size + 1)
    next.2 ≤ size + 1 ∧ Live next.1 next.2 ∧ Sifting (offAt next.1) next.2 0 0 ∧
      (next.1.take next.2).flatten.Perm (left ++ (lists.take size).flatten) ∧
      ∀ list ∈ next.1.take next.2, list = left ∨ list ∈ lists.take size := by
  unfold replaced
  split_ifs with isEmpty
  · obtain ⟨first, others, isLast⟩ := live size (Nat.lt_succ_self size)
    dsimp only
    rw [Nat.add_sub_cancel, isLast, isEmpty]
    refine ⟨Nat.le_succ size, live_cons live (Nat.le_succ size) fun _ => ⟨_, _, rfl⟩,
      sifting_cons isHeap (Nat.le_succ size), ?_⟩
    have moved : (((first :: others) :: lists).take size).Perm (lists.take size) := by
      cases size with
      | zero => exact .refl _
      | succ size =>
        rw [take_succ_cons, take_add_one, show lists[size]? = some (first :: others) from isLast]
        exact (perm_append_singleton _ _).symm
    exact ⟨moved.flatten, fun list member => .inr (moved.mem_iff.mp member)⟩
  · refine ⟨le_rfl, live_cons live le_rfl fun _ => exists_cons_of_ne_nil isEmpty,
      sifting_cons isHeap le_rfl, .refl _, fun list member => ?_⟩
    exact mem_cons.mp member

theorem extract_spec
    {size : Nat} {heap : List HeapStruct}
    (room elements : Nat)
    (live : Live heap size)
    (isHeap : IsHeap (offAt heap) size 0)
    (ascends : ∀ list ∈ heap.take size, Ascends list)
    (count : (heap.take size).flatten.length = elements)
    (roomy : size ≤ room) :
    ExtractSafe room elements heap size ∧
      (extract elements heap size).Perm (heap.take size).flatten ∧
      Ascends (extract elements heap size) := by
  induction elements generalizing heap size with
  | zero => exact ⟨trivial, .of_eq (eq_nil_of_length_eq_zero count).symm, .nil⟩
  | succ elements ih =>
    cases size with
    | zero => cases count
    | succ size =>
      obtain ⟨access, left, isRoot⟩ := live 0 size.succ_pos
      cases heap with
      | nil => cases isRoot
      | cons root lists =>
        cases isRoot
        have ⟨fewer, nextLive, sifting, perm, members⟩ := replaced_spec live isHeap
        have ⟨safe, restLive, restHeap, _, taken⟩ := heapify_spec room
          (replaced left ((access :: left) :: lists) (size + 1)).2 sifting nextLive
          (fewer.trans roomy) le_rfl le_rfl
        have all := taken.flatten.trans perm
        rw [take_succ_cons, forall_mem_cons] at ascends
        obtain ⟨least, leftAscends⟩ := pairwise_cons.mp ascends.1
        have ⟨restSafe, restPerm, restAscends⟩ := ih restLive restHeap
          (fun list member => by
            rcases members list (taken.mem_iff.mp member) with rfl | old
            · exact leftAscends
            · exact ascends.2 list old)
          (by
            rw [all.length_eq]
            exact Nat.succ.inj count)
          (fewer.trans roomy)
        refine ⟨⟨access, left, rfl, by omega, safe, restSafe⟩,
          (restPerm.trans all).cons access, pairwise_cons.mpr ⟨fun other member => ?_, restAscends⟩⟩
        rcases mem_append.mp ((restPerm.trans all).mem_iff.mp member) with isLeft | isLater
        · exact least other isLeft
        · obtain ⟨list, isList, inside⟩ := mem_flatten.mp isLater
          obtain ⟨i, less, atList⟩ := mem_take_iff_getElem.mp isList
          obtain ⟨first, others, isFirst⟩ := live (i + 1) (by omega)
          have rootLe := isHeap.root_le (show i + 1 < size + 1 by omega)
          unfold offAt at rootLe
          rw [isFirst] at rootLe
          have same : list = first :: others := by
            rw [getElem?_cons_succ, getElem?_eq_getElem (by omega), atList] at isFirst
            exact Option.some.inj isFirst
          have listAscends := ascends.2 list isList
          rw [same] at inside listAscends
          rcases mem_cons.mp inside with rfl | behind
          · exact rootLe
          · exact rootLe.trans ((pairwise_cons.mp listAscends).1 other behind)

/-- All elements of the lists are merged by their offsets. -/
theorem heapMerge_correct
    (lists : List HeapStruct)
    (ascends : ∀ list ∈ lists, Ascends list) :
    MergeSafe lists (lists.filter fun list => list ≠ []).length (lists.map length).sum ∧
      (heapMerge lists).Perm lists.flatten ∧ Ascends (heapMerge lists) := by
  have count : (lists.map length).sum = ((lists.filter fun list => list ≠ []).map length).sum := by
    rw [← length_flatten, ← length_flatten, flatten_filter_ne_nil]
  have members : ∀ list ∈ lists.filter (fun list => list ≠ []), list ∈ lists ∧ list ≠ [] :=
    fun list member => (mem_filter.mp member).imp_right of_decide_eq_true
  rw [← flatten_filter_ne_nil (L := lists), count]
  unfold MergeSafe heapMerge
  dsimp only
  generalize (lists.filter fun list => list ≠ []) = heap at *
  have live : Live heap heap.length := by
    intro i inside
    obtain ⟨access, left, isList⟩ := exists_cons_of_ne_nil (members _ (getElem_mem inside)).2
    exact ⟨access, left, by rw [getElem?_eq_getElem inside, isList]⟩
  have noChildren : IsHeap (offAt heap) heap.length (heap.length / 2) := by
    intro i child le childOf inside
    unfold IsChild at childOf
    omega
  have ⟨built, builtLive, builtHeap, perm⟩ :=
    buildHeap_spec (heap.length + 1) noChildren live (Nat.le_succ _)
  generalize buildHeap (heap.length / 2) heap = next at *
  have whole : next.take heap.length = next := by rw [← perm.length_eq, take_length]
  have ⟨safe, merged, ascending⟩ := extract_spec (heap.length + 1) (heap.map length).sum builtLive
    builtHeap
    (fun list member => by
      rw [whole] at member
      exact ascends list (members list (perm.mem_iff.mp member)).1)
    (by rw [whole, perm.flatten.length_eq, length_flatten])
    (Nat.le_succ _)
  rw [whole] at merged
  exact ⟨⟨built, safe⟩, merged.trans perm.flatten, ascending⟩

theorem heapMerge_correct_three :
    MergeSafe [[⟨0, 1⟩, ⟨4, 1⟩], [], [⟨2, 3⟩]] 2 3 ∧
      (heapMerge [[⟨0, 1⟩, ⟨4, 1⟩], [], [⟨2, 3⟩]]).Perm [⟨0, 1⟩, ⟨4, 1⟩, ⟨2, 3⟩] ∧
      Ascends (heapMerge [[⟨0, 1⟩, ⟨4, 1⟩], [], [⟨2, 3⟩]]) :=
  heapMerge_correct [[⟨0, 1⟩, ⟨4, 1⟩], [], [⟨2, 3⟩]] (by unfold Ascends; decide)

end Mpich.Romio.TwoPhase
