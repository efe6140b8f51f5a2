import Mathlib.Algebra.BigOperators.Group.List.Basic
import Mathlib.Algebra.GroupWithZero.Nat
import Mathlib.Algebra.Ring.Int.Defs
import Mathlib.Data.List.Induction
import Mathlib.Data.List.OfFn

/-!
# Arenas

An arena is a range of addresses that is handed out in blocks and taken back.
`Tiling` says that the free and the used blocks partition the range and that
the free ones are kept merged: in address order with no two of them adjacent.
Taking a free block, splitting it first, and giving a used one back while
merging it with its neighbours keep the partition, and an arena with no used
block is one free block again. `Stacked` says that blocks follow one another in a
range.
-/

namespace Mpich.Arena

open List

/-- A range of addresses. -/
@[ext] structure Block where
  start : Int
  size : Int
  deriving DecidableEq, Repr

/-- The first address behind a block. -/
def Block.finish (block : Block) : Int :=
  block.start + block.size

/-- The blocks have no address in common. -/
def Apart (left right : Block) : Prop :=
  left.finish ≤ right.start ∨ right.finish ≤ left.start

/-- There is room between the end of one block and the start of another. -/
def Before (left right : Block) : Prop :=
  left.finish < right.start

/-- The block made of a block and the one that follows it. -/
def Block.merge (left right : Block) : Block :=
  ⟨left.start, left.size + right.size⟩

theorem Apart.symm {left right : Block} (apart : Apart left right) :
    Apart right left :=
  Or.symm apart

/-- The blocks make up the range from `low` to `high`. -/
structure Covers (low high : Int) (blocks : List Block) : Prop where
  apart : blocks.Pairwise Apart
  inside : ∀ block ∈ blocks, low ≤ block.start ∧ 0 < block.size ∧ block.finish ≤ high
  sum : (blocks.map Block.size).sum = high - low

/-- The free and the used blocks make up the range, and the free ones are in
order and merged. -/
structure Tiling (low high : Int) (free used : List Block) : Prop where
  covers : Covers low high (free ++ used)
  ascending : free.Pairwise Before

/-- A tiling, but for the seam between the free blocks `lo` and `hi`: there
two blocks may touch. -/
structure Seamed (low high : Int) (lo hi used : List Block) : Prop where
  covers : Covers low high (lo ++ hi ++ used)
  lower : lo.Pairwise Before
  upper : hi.Pairwise Before
  seam : ∀ left ∈ lo, ∀ right ∈ hi, left.finish ≤ right.start

section

variable {low high : Int}

variable {blocks : List Block}

/-- The order of the blocks does not matter. -/
theorem Covers.perm
    {others : List Block}
    (covers : Covers low high blocks)
    (perm : blocks.Perm others) :
    Covers low high others where
  apart := (perm.pairwise_iff fun apart => apart.symm).mp covers.apart
  inside := by
    intro block member
    exact covers.inside block (perm.mem_iff.mpr member)
  sum := by
    rw [← covers.sum]
    exact ((perm.map Block.size).sum_eq).symm

/-- There are no more blocks than addresses. -/
theorem Covers.length_le
    (covers : Covers low high blocks) :
    (blocks.length : Int) ≤ high - low := by
  rw [← covers.sum]
  have inside := covers.inside
  clear covers
  induction blocks with
  | nil => simp
  | cons block rest ih =>
    rw [forall_mem_cons] at inside
    have later := ih inside.2
    rw [map_cons, sum_cons, length_cons]
    omega

/-- A block may be divided in two. -/
theorem Covers.divide
    {left right : Block}
    (covers : Covers low high (left.merge right :: blocks))
    (adjacent : left.finish = right.start)
    (leftPositive : 0 < left.size)
    (rightPositive : 0 < right.size) :
    Covers low high (left :: right :: blocks) := by
  obtain ⟨apart, inside, sum⟩ := covers
  rw [pairwise_cons] at apart
  simp only [forall_mem_cons, Block.merge, Block.finish] at inside
  simp only [Block.finish] at adjacent
  refine ⟨?_, ?_, ?_⟩
  · simp only [pairwise_cons, forall_mem_cons, Apart, Block.finish]
    refine ⟨⟨?_, ?_⟩, ?_, apart.2⟩
    · omega
    · intro block member
      have whole := apart.1 block member
      simp only [Apart, Block.merge, Block.finish] at whole
      omega
    · intro block member
      have whole := apart.1 block member
      simp only [Apart, Block.merge, Block.finish] at whole
      omega
  · simp only [forall_mem_cons, Block.finish]
    refine ⟨by omega, by omega, inside.2⟩
  · simpa [Block.merge, add_assoc] using sum

/-- Two adjacent blocks may be made one. -/
theorem Covers.unite
    {left right : Block}
    (covers : Covers low high (left :: right :: blocks))
    (adjacent : left.finish = right.start) :
    Covers low high (left.merge right :: blocks) := by
  obtain ⟨apart, inside, sum⟩ := covers
  simp only [pairwise_cons, forall_mem_cons] at apart
  simp only [forall_mem_cons, Block.finish] at inside
  simp only [Block.finish] at adjacent
  refine ⟨?_, ?_, ?_⟩
  · rw [pairwise_cons]
    refine ⟨?_, apart.2.2⟩
    intro block member
    have first := apart.1.2 block member
    have second := apart.2.1 block member
    have positive := inside.2.2 block member
    simp only [Apart, Block.merge, Block.finish] at first second ⊢
    omega
  · simp only [forall_mem_cons, Block.merge, Block.finish]
    refine ⟨by omega, inside.2.2⟩
  · simpa [Block.merge, add_assoc] using sum

end

section

variable {low high : Int} {blocks : List Block}

/-- Distinct positions of a tiling hold blocks with distinct starts. -/
theorem Covers.nodup
    (covers : Covers low high blocks) :
    (blocks.map Block.start).Nodup := by
  rw [List.Nodup, pairwise_map]
  apply covers.apart.imp_of_mem
  intro left right leftMember rightMember apart
  have leftInside := covers.inside left leftMember
  have rightInside := covers.inside right rightMember
  simp only [Apart, Block.finish] at apart
  omega

/-- A free block, brought to the front. -/
theorem perm_free
    (lo hi used : List Block)
    (block : Block) :
    (lo ++ block :: hi ++ used).Perm (block :: (lo ++ hi ++ used)) := by
  rw [append_assoc, append_assoc, cons_append]
  exact perm_middle

variable {lo hi used : List Block}

variable {block : Block}

/-- A free block may be used. -/
theorem Tiling.take
    (tiling : Tiling low high (lo ++ block :: hi) used) :
    Tiling low high (lo ++ hi) (block :: used) where
  covers := by
    apply tiling.covers.perm
    exact (perm_free lo hi used block).trans perm_middle.symm
  ascending := by
    have ascending := tiling.ascending
    rw [pairwise_append, pairwise_cons] at ascending
    rw [pairwise_append]
    refine ⟨ascending.1, ascending.2.1.2, ?_⟩
    intro left leftMember right rightMember
    exact ascending.2.2 left leftMember right (mem_cons_of_mem block rightMember)

/-- The first part of a free block may be used. -/
theorem Tiling.split
    {left right : Block}
    (tiling : Tiling low high (lo ++ left.merge right :: hi) used)
    (adjacent : left.finish = right.start)
    (leftPositive : 0 < left.size)
    (rightPositive : 0 < right.size) :
    Tiling low high (lo ++ right :: hi) (left :: used) where
  covers := by
    have front := tiling.covers.perm (perm_free lo hi used (left.merge right))
    apply (front.divide adjacent leftPositive rightPositive).perm
    apply (List.Perm.swap right left _).trans
    apply List.Perm.symm
    apply (perm_free lo hi (left :: used) right).trans
    exact perm_middle.cons right
  ascending := by
    have ascending := tiling.ascending
    simp only [pairwise_append, pairwise_cons,
      forall_mem_cons, Before, Block.merge, Block.finish] at ascending ⊢
    simp only [Block.finish] at adjacent
    refine ⟨ascending.1, ⟨?_, ascending.2.1.2⟩, ?_⟩
    · intro block member
      have later := ascending.2.1.1 block member
      omega
    · intro block member
      have earlier := ascending.2.2 block member
      refine ⟨by omega, earlier.2⟩

/-- A used block, brought to the front. -/
theorem perm_used
    (free before after : List Block)
    (block : Block) :
    (free ++ (before ++ block :: after)).Perm
      (block :: (free ++ (before ++ after))) := by
  rw [← append_assoc, ← append_assoc]
  exact perm_middle

section

variable
    {lo hi before after : List Block} {block : Block}
    (tiling : Tiling low high (lo ++ hi) (before ++ block :: after))
    (lower : ∀ left ∈ lo, left.start ≤ block.start)
    (upper : ∀ right ∈ hi, block.start < right.start)

include tiling lower upper

/-- A used block lies apart from the free ones: where these are cut at its
start, it fits in between. -/
theorem Tiling.between :
    (∀ left ∈ lo, left.finish ≤ block.start) ∧ ∀ right ∈ hi, block.finish ≤ right.start := by
  have front := tiling.covers.perm (perm_used (lo ++ hi) before after block)
  have apart := (pairwise_cons.mp front.apart).1
  have inside := front.inside
  have positive := (inside block (by simp)).2.1
  refine ⟨?_, ?_⟩
  · intro left member
    have leftApart := apart left (by simp [member])
    have leftStart := lower left member
    simp only [Apart, Block.finish] at leftApart ⊢
    omega
  · intro right member
    have rightApart := apart right (by simp [member])
    have rightStart := upper right member
    have rightInside := inside right (by simp [member])
    simp only [Apart, Block.finish] at rightApart ⊢
    omega

/-- Give a block back that does not touch the next free one. -/
theorem Tiling.release (room : ∀ right ∈ hi.head?, block.finish ≠ right.start) :
    Seamed low high lo (block :: hi) (before ++ after) := by
  have fits := tiling.between lower upper
  have ascending := tiling.ascending
  rw [pairwise_append] at ascending
  refine ⟨?_, ascending.1, ?_, ?_⟩
  · apply tiling.covers.perm
    apply (perm_used (lo ++ hi) before after block).trans
    exact (perm_free lo hi (before ++ after) block).symm
  · refine pairwise_cons.mpr ⟨?_, ascending.2.1⟩
    cases hi with
    | nil => simp
    | cons first rest =>
      have gap := room first rfl
      have firstFits := fits.2 first (by simp)
      have positive := tiling.covers.inside first (by simp)
      have later := (pairwise_cons.mp ascending.2.1).1
      simp only [Before, Block.finish] at gap firstFits later ⊢
      rw [forall_mem_cons]
      refine ⟨by omega, ?_⟩
      intro right member
      have rightLater := later right member
      omega
  · intro left leftMember
    rw [forall_mem_cons]
    refine ⟨fits.1 left leftMember, ?_⟩
    intro right rightMember
    exact le_of_lt (ascending.2.2 left leftMember right rightMember)

end

/-- Give a block back that touches the next free one. -/
theorem Tiling.releaseMerged
    {lo hi before after : List Block} {next : Block}
    (tiling : Tiling low high (lo ++ next :: hi) (before ++ block :: after))
    (lower : ∀ left ∈ lo, left.start ≤ block.start)
    (touches : block.finish = next.start) :
    Seamed low high lo (block.merge next :: hi) (before ++ after) := by
  have ascending := tiling.ascending
  rw [pairwise_append, pairwise_cons] at ascending
  have front := (tiling.covers.perm
    (perm_used (lo ++ next :: hi) before after block)).perm
      ((perm_free lo hi (before ++ after) next).cons block)
  have inside := front.inside
  simp only [forall_mem_cons] at inside
  refine ⟨?_, ascending.1, ?_, ?_⟩
  · apply (front.unite touches).perm
    exact (perm_free lo hi (before ++ after) (block.merge next)).symm
  · refine pairwise_cons.mpr ⟨?_, ascending.2.1.2⟩
    intro right member
    have later := ascending.2.1.1 right member
    simp only [Before, Block.merge, Block.finish] at later touches ⊢
    omega
  · intro left leftMember
    rw [forall_mem_cons]
    have earlier := ascending.2.2 left leftMember
    rw [forall_mem_cons] at earlier
    refine ⟨?_, ?_⟩
    · have apart := (pairwise_cons.mp front.apart).1 left (by simp [leftMember])
      have leftStart := lower left leftMember
      simp only [Apart, Block.merge, Block.finish] at apart ⊢
      omega
    · intro right rightMember
      exact le_of_lt (earlier.2 right rightMember)

/-- Where the blocks at the seam do not touch, there is nothing to merge. -/
theorem Seamed.close
    (seamed : Seamed low high lo (block :: hi) used)
    (room : ∀ left ∈ lo.getLast?, left.finish ≠ block.start) :
    Tiling low high (lo ++ block :: hi) used := by
  refine ⟨seamed.covers, ?_⟩
  rw [pairwise_append]
  refine ⟨seamed.lower, seamed.upper, ?_⟩
  have later := (pairwise_cons.mp seamed.upper).1
  have positive := (seamed.covers.inside block (by simp)).2.1
  have gap : ∀ left ∈ lo, left.finish < block.start := by
    cases lo using reverseRecOn with
    | nil => simp
    | append_singleton others last _ =>
      have lastRoom := room last (by simp)
      have lastSeam := seamed.seam last (by simp) block (by simp)
      have lastPositive := (seamed.covers.inside last (by simp)).2.1
      have earlier := (pairwise_append.mp seamed.lower).2.2
      intro left member
      rcases mem_append.mp member with other | isLast
      · have before := earlier left other last (by simp)
        simp only [Before, Block.finish] at before lastSeam ⊢
        omega
      · rw [mem_singleton] at isLast
        subst isLast
        omega
  intro left leftMember
  have leftGap := gap left leftMember
  rw [forall_mem_cons]
  refine ⟨leftGap, ?_⟩
  intro right rightMember
  have rightLater := later right rightMember
  simp only [Before, Block.finish] at leftGap rightLater ⊢
  omega

/-- Merge the two blocks at the seam where they touch. -/
theorem Seamed.closeMerged
    {previous : Block}
    (seamed : Seamed low high (lo ++ [previous]) (block :: hi) used)
    (touches : previous.finish = block.start) :
    Tiling low high (lo ++ previous.merge block :: hi) used := by
  have lower := seamed.lower
  have upper := seamed.upper
  rw [pairwise_append] at lower
  rw [pairwise_cons] at upper
  refine ⟨?_, ?_⟩
  · have front : Covers low high (previous :: block :: (lo ++ hi ++ used)) := by
      apply seamed.covers.perm
      apply (perm_free (lo ++ [previous]) hi used block).trans
      rw [append_assoc lo]
      apply ((perm_free lo hi used previous).cons block).trans
      exact List.Perm.swap previous block _
    apply (front.unite touches).perm
    exact (perm_free lo hi used (previous.merge block)).symm
  · have positive := (seamed.covers.inside block (by simp)).2.1
    rw [pairwise_append, pairwise_cons]
    refine ⟨lower.1, ⟨?_, upper.2⟩, ?_⟩
    · intro right member
      have later := upper.1 right member
      simp only [Before, Block.merge, Block.finish] at later touches ⊢
      omega
    · intro left leftMember
      have earlier := lower.2.2 left leftMember previous (by simp)
      rw [forall_mem_cons]
      refine ⟨earlier, ?_⟩
      intro right rightMember
      have later := upper.1 right rightMember
      have lastPositive := (seamed.covers.inside previous (by simp)).2.1
      simp only [Before, Block.finish] at earlier later touches ⊢
      omega

/-- Free blocks with room between them do not fill the range. -/
theorem sum_lt_of_ascending
    {first second : Block} {rest : List Block}
    (ascending : (first :: second :: rest).Pairwise Before)
    (inside : ∀ block ∈ first :: second :: rest, block.finish ≤ high) :
    ((first :: second :: rest).map Block.size).sum < high - first.start := by
  induction rest generalizing first second with
  | nil =>
    have gap := (pairwise_cons.mp ascending).1 second (by simp)
    have bound := inside second (by simp)
    simp only [Before, Block.finish] at gap bound
    simp only [map_cons, map_nil, sum_cons, sum_nil]
    omega
  | cons third others ih =>
    have gap := (pairwise_cons.mp ascending).1 second (by simp)
    have later := ih (pairwise_cons.mp ascending).2
      (fun block member => inside block (mem_cons_of_mem first member))
    simp only [Before, Block.finish] at gap
    rw [map_cons, sum_cons]
    omega

/-- An arena with no used block is one free block. -/
theorem Tiling.whole
    {free : List Block}
    (tiling : Tiling low high free [])
    (nonempty : low < high) :
    free = [⟨low, high - low⟩] := by
  obtain ⟨⟨_, inside, sum⟩, ascending⟩ := tiling
  rw [append_nil] at inside sum
  match free with
  | [] =>
    simp at sum
    omega
  | [block] =>
    have bounds := inside block (by simp)
    simp only [map_cons, map_nil, sum_cons, sum_nil, Block.finish] at sum bounds
    congr 1
    ext
    · show block.start = low
      omega
    · show block.size = high - low
      omega
  | first :: second :: rest =>
    have less := sum_lt_of_ascending ascending (fun block member => (inside block member).2.2)
    have firstInside := inside first (by simp)
    omega

end

/-- The blocks follow one another in the range, with room between them or none. -/
def Stacked (low high : Int) : List Block → Prop
  | [] => low ≤ high
  | block :: rest => low ≤ block.start ∧ 0 ≤ block.size ∧ Stacked block.finish high rest

section

variable {low middle high : Int}

variable {blocks : List Block}

theorem Stacked.bounds (stacked : Stacked low high blocks) :
    low ≤ high := by
  induction blocks generalizing low with
  | nil => exact stacked
  | cons block rest ih =>
    obtain ⟨after, nonnegative, others⟩ := stacked
    have behind := ih others
    unfold Block.finish at behind
    omega

theorem Stacked.lower
    (stacked : Stacked middle high blocks)
    (below : low ≤ middle) :
    Stacked low high blocks := by
  cases blocks with
  | nil => exact le_trans below stacked
  | cons block rest => exact ⟨below.trans stacked.1, stacked.2⟩

theorem Stacked.append
    {first second : List Block}
    (front : Stacked low middle first)
    (back : Stacked middle high second) :
    Stacked low high (first ++ second) := by
  induction first generalizing low with
  | nil => exact back.lower front
  | cons block rest ih => exact ⟨front.1, front.2.1, ih front.2.2⟩

theorem Stacked.inside (stacked : Stacked low high blocks) :
    ∀ block ∈ blocks, low ≤ block.start ∧ block.finish ≤ high := by
  induction blocks generalizing low with
  | nil => exact fun _ member => absurd member not_mem_nil
  | cons block rest ih =>
    obtain ⟨after, nonnegative, others⟩ := stacked
    rw [forall_mem_cons]
    refine ⟨⟨after, others.bounds⟩, fun later member => ?_⟩
    have inside := ih others later member
    unfold Block.finish at inside ⊢
    omega

/-- Stacked blocks have no address in common. -/
theorem Stacked.apart (stacked : Stacked low high blocks) :
    blocks.Pairwise Apart := by
  induction blocks generalizing low with
  | nil => exact List.Pairwise.nil
  | cons block rest ih =>
    obtain ⟨-, -, others⟩ := stacked
    refine List.Pairwise.cons (fun later member => ?_) (ih others)
    exact .inl (others.inside later member).1

/-- Stacks that are as high as their sizes, one on top of another. -/
theorem stacked_ofFn
    {count : Nat} {piles : Fin count → List Block} {sizes : Fin count → Nat}
    (start : Int)
    (stacked : ∀ index : Fin count, let place := start + (((ofFn sizes).take index).sum : Nat)
      Stacked place (place + sizes index) (piles index)) :
    Stacked start (start + ((ofFn sizes).sum : Nat)) (ofFn piles).flatten := by
  induction count generalizing start with
  | zero => exact (add_zero start).ge
  | succ count ih =>
    rw [@ofFn_succ _ _ piles, @ofFn_succ _ _ sizes, flatten_cons,
      sum_cons, Int.natCast_add, ← add_assoc]
    have first := stacked 0
    simp only [Fin.val_zero, take_zero, sum_nil, Int.natCast_zero, add_zero] at first
    have others := @ih (fun index => piles index.succ)
      (fun index => sizes index.succ) (start + sizes 0) (fun index => by
        have later := stacked index.succ
        simp only [ofFn_succ, Fin.val_succ, take_succ_cons, sum_cons,
          Int.natCast_add, ← add_assoc] at later
        exact later)
    exact first.append others

end

end Mpich.Arena
