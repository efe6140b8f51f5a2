import Mathlib.Algebra.Group.Nat.Defs
import Mathlib.Algebra.Ring.Int.Defs
import Mathlib.Data.List.Basic

/-!
# Checking that two groups share no process

An intercommunicator needs disjoint groups. The leader records the local process
ids of the first group in a mask of 32-bit words and looks up those of the second
group (`mpi/comm/intercomm_create.c`). The mask is a local array or allocated
memory, of which the first `maxi` words are cleared.
-/

namespace Mpich.Comm

/-- The words of `lpidmask`. -/
abbrev Mask := Nat → BitVec 32

namespace Mask

/-- The bit of the process is set in its word. -/
def get (mask : Mask) (lpid : Nat) : Bool :=
  mask (lpid / 32) &&& 1#32 <<< (lpid % 32) ≠ 0

/-- Set the bit of a process. -/
def set (mask : Mask) (lpid : Nat) : Mask :=
  Function.update mask (lpid / 32) (mask (lpid / 32) ||| 1#32 <<< (lpid % 32))

/-- Look for the processes of the second array: the error, and those that are looked
up. A process that is not found is set, so that it is found when it comes again. -/
def look (mask : Mask) : List Nat → Except Nat Unit × List Nat
  | [] => (.ok (), [])
  | lpid :: lpids =>
    if mask.get lpid then
      (.error lpid, [lpid])
    else
      (((mask.set lpid).look lpids).1, lpid :: ((mask.set lpid).look lpids).2)

end Mask

/-- The largest local process id, or what it was before. -/
def maxLpid (maxlpid : Int) (lpids : List Nat) : Int :=
  lpids.foldl (fun maxlpid lpid => if lpid > maxlpid then lpid else maxlpid) maxlpid

/-- The number of words that are cleared; `maxlpid + 31` is an `int`. -/
def maxi (maxlpid : Int) : Int :=
  ((maxlpid + 31).bmod (2 ^ 32)).tdiv 32

/-- `MPIR_CheckDisjointLpids`: the number of cleared words, the error with the
process id in its message, and the indices of the words that are used. -/
def checkDisjointLpids
    (memory : Mask)
    (lpids1 lpids2 : List Nat) : Int × Except Nat Unit × List Nat :=
  let maxi := maxi (maxLpid (maxLpid (-1) lpids1) lpids2)
  let cleared : Mask := fun idx => if idx < maxi then 0 else memory idx
  let looked := (lpids1.foldl Mask.set cleared).look lpids2
  (maxi, looked.1, (lpids1 ++ looked.2).map (· / 32))

/-- What the check is for: it succeeds exactly on disjoint groups, and uses only
words that have been cleared. -/
def DecidesDisjoint (memory : Mask) (lpids1 lpids2 : List Nat) : Prop :=
  match checkDisjointLpids memory lpids1 lpids2 with
  | (maxi, result, used) =>
    (result = .ok () ↔ lpids1.Disjoint lpids2) ∧ ∀ idx ∈ used, (idx : Int) < maxi

namespace Mask

theorem get_iff
    (mask : Mask)
    (lpid : Nat) :
    mask.get lpid = true ↔ (mask (lpid / 32)).getLsbD (lpid % 32) = true := by
  have isBit : 1#32 <<< (lpid % 32) = BitVec.twoPow 32 (lpid % 32) := (BitVec.twoPow_eq ..).symm
  have inWord : lpid % 32 < 32 := Nat.mod_lt _ (by decide)
  rw [get, isBit, BitVec.and_twoPow]
  cases (mask (lpid / 32)).getLsbD (lpid % 32) with
  | false => simp
  | true =>
    have isSet : BitVec.twoPow 32 (lpid % 32) ≠ 0 := fun isZero => by
      have bit := congrArg (BitVec.getLsbD · (lpid % 32)) isZero
      simp [inWord] at bit
    simpa using isSet

theorem get_set
    (mask : Mask)
    (lpid other : Nat) :
    (mask.set lpid).get other = true ↔ other = lpid ∨ mask.get other = true := by
  rw [get_iff, get_iff, set]
  by_cases word : other / 32 = lpid / 32
  · have same : other = lpid ↔ lpid % 32 = other % 32 := by omega
    have isBit : 1#32 <<< (lpid % 32) = BitVec.twoPow 32 (lpid % 32) := (BitVec.twoPow_eq ..).symm
    rw [word, Function.update_self, BitVec.getLsbD_or, isBit, BitVec.getLsbD_twoPow, same]
    have inSame : lpid % 32 < 32 := Nat.mod_lt _ (by decide)
    simp [inSame, or_comm]
  · have differ : other ≠ lpid := fun same => word (congrArg (· / 32) same)
    rw [Function.update_of_ne word]
    simp [differ]

theorem get_foldl
    (mask : Mask)
    (lpids : List Nat)
    (lpid : Nat) :
    (lpids.foldl set mask).get lpid = true ↔ lpid ∈ lpids ∨ mask.get lpid = true := by
  induction lpids generalizing mask with
  | nil => simp
  | cons first lpids ih => rw [List.foldl_cons, ih, get_set, List.mem_cons, or_left_comm, or_assoc]

/-- Each process outside the cleared words comes after one of the set. -/
def Guarded (maxi : Int) (members : Nat → Prop) (lpids : List Nat) : Prop :=
  ∀ front lpid back, lpids = front ++ lpid :: back → maxi ≤ (lpid / 32 : Nat) →
    ∃ other ∈ front, members other

theorem guarded_cons
    (maxi : Int)
    (members : Nat → Prop)
    (first : Nat)
    (lpids : List Nat) :
    Guarded maxi members (first :: lpids) ↔
      (first / 32 : Nat) < maxi ∧ (members first ∨ Guarded maxi members lpids) := by
  constructor
  · intro guarded
    refine ⟨Int.not_le.mp fun outside => ?_, or_iff_not_imp_left.mpr fun notMember => ?_⟩
    · obtain ⟨_, inEmpty, _⟩ := guarded [] first lpids rfl outside
      cases inEmpty
    · intro front lpid back split outside
      obtain ⟨other, inFront, isMember⟩ :=
        guarded (first :: front) lpid back (congrArg (first :: ·) split) outside
      rcases List.mem_cons.mp inFront with rfl | inFront
      · exact absurd isMember notMember
      · exact ⟨other, inFront, isMember⟩
  · rintro ⟨isCleared, later⟩ front lpid back split outside
    cases front with
    | nil =>
      obtain ⟨rfl, _⟩ := List.cons.inj split
      exact absurd isCleared (Int.not_lt.mpr outside)
    | cons other front =>
      obtain ⟨rfl, rest⟩ := List.cons.inj split
      rcases later with isMember | guarded
      · exact ⟨first, List.mem_cons_self, isMember⟩
      · obtain ⟨other, inFront, isMember⟩ := guarded front lpid back rest outside
        exact ⟨other, List.mem_cons_of_mem first inFront, isMember⟩

/-- The look is right exactly if each process outside the cleared words comes
after one that is found. -/
theorem look_iff
    {mask : Mask} {maxi : Int} {members : Nat → Prop} {lpids : List Nat}
    (holds : ∀ lpid ∈ lpids, (lpid / 32 : Nat) < maxi → (mask.get lpid = true ↔ members lpid))
    (distinct : lpids.Nodup) :
    (((mask.look lpids).1 = .ok () ↔ ∀ lpid ∈ lpids, ¬ members lpid) ∧
        ∀ lpid ∈ (mask.look lpids).2, (lpid / 32 : Nat) < maxi) ↔
      Guarded maxi members lpids := by
  induction lpids generalizing mask with
  | nil => simp [look, Guarded]
  | cons first lpids ih =>
    obtain ⟨isNew, restDistinct⟩ := List.nodup_cons.mp distinct
    rw [guarded_cons, List.forall_mem_cons, look]
    by_cases isCleared : (first / 32 : Nat) < maxi
    · have same := holds first List.mem_cons_self isCleared
      split
      next found => simp [same.mp found]
      next missing =>
        have notMember : ¬ members first := fun isMember => missing (same.mpr isMember)
        have later := @ih (mask.set first) (fun lpid inRest lpidCleared => by
          have differ : lpid ≠ first := fun same => isNew (same ▸ inRest)
          rw [get_set]
          simpa [differ] using holds lpid (List.mem_cons_of_mem first inRest) lpidCleared)
          restDistinct
        rw [List.forall_mem_cons, ← later]
        simp [notMember, and_left_comm]
    · refine iff_of_false (fun right => isCleared (right.2 first ?_)) fun right => isCleared right.1
      split <;> exact List.mem_cons_self

end Mask

theorem maxLpid_spec
    (maxlpid : Int)
    (lpids : List Nat) :
    maxlpid ≤ maxLpid maxlpid lpids ∧ (∀ lpid ∈ lpids, (lpid : Int) ≤ maxLpid maxlpid lpids) ∧
      (maxLpid maxlpid lpids = maxlpid ∨ ∃ lpid ∈ lpids, maxLpid maxlpid lpids = lpid) := by
  induction lpids generalizing maxlpid with
  | nil => simp [maxLpid]
  | cons first lpids ih =>
    have step : maxLpid maxlpid (first :: lpids) =
        maxLpid (if first > maxlpid then first else maxlpid) lpids := rfl
    obtain ⟨start, rest, isOne⟩ := ih (if first > maxlpid then first else maxlpid)
    rw [step, List.forall_mem_cons]
    refine ⟨by omega, ⟨by omega, rest⟩, ?_⟩
    rcases isOne with isStart | ⟨lpid, inRest, isOne⟩
    · split at isStart
      · exact .inr ⟨first, List.mem_cons_self, by simp [*]⟩
      · exact .inl (by simp [*])
    · exact .inr ⟨lpid, List.mem_cons_of_mem first inRest, isOne⟩

theorem lt_maxi_iff
    {lpid maxlpid : Nat}
    (isInt : maxlpid < 2 ^ 31)
    (isLe : lpid ≤ maxlpid) :
    (lpid / 32 : Nat) < maxi maxlpid ↔
      maxlpid < 2 ^ 31 - 31 ∧ (maxlpid % 32 = 0 → lpid ≠ maxlpid) := by
  unfold maxi
  by_cases fits : maxlpid < 2 ^ 31 - 31
  · rw [Int.bmod_eq_of_le (by omega) (by omega), Int.tdiv_eq_ediv_of_nonneg (by omega)]
    omega
  · -- The sum wraps around, and no word is cleared.
    have wraps : ((maxlpid : Int) + 31).bmod (2 ^ 32) = -(2 ^ 32 - 31 - maxlpid) := by
      rw [Int.bmod, if_neg (by omega)]
      omega
    have negative : 0 ≤ ((2 ^ 32 - 31 - maxlpid : Int)).tdiv 32 :=
      Int.tdiv_nonneg (by omega) (by decide)
    rw [wraps, Int.neg_tdiv]
    omega

theorem exists_largest
    (lpids : List Nat)
    (hasSome : lpids ≠ []) :
    ∃ largest ∈ lpids, (∀ other ∈ lpids, other ≤ largest) ∧ maxLpid (-1) lpids = largest := by
  obtain ⟨_, isUpper, isStart | ⟨largest, member, isLargest⟩⟩ := maxLpid_spec (-1) lpids
  · have first := isUpper _ (List.head_mem hasSome)
    omega
  · exact ⟨largest, member, fun other isOther => by have := isUpper other isOther; omega, isLargest⟩

/-- The largest local process id is not one of those whose word the rounding
leaves out, or it is not looked at. -/
def LargestCovered (lpids1 lpids2 : List Nat) : Prop :=
  ∀ lpid ∈ lpids1 ++ lpids2, (∀ other ∈ lpids1 ++ lpids2, other ≤ lpid) →
    lpid < 2 ^ 31 - 31 ∧ (lpid % 32 = 0 → lpid ∉ lpids1 ∧
      ∀ front back, lpids2 = front ++ lpid :: back → ∃ other ∈ front, other ∈ lpids1)

/-- The check does what it is for exactly if the largest local process id is
covered. -/
theorem decidesDisjoint_iff
    (memory : Mask)
    (lpids1 lpids2 : List Nat)
    (areInts : ∀ lpid ∈ lpids1 ++ lpids2, lpid < 2 ^ 31)
    (distinct : lpids2.Nodup) :
    DecidesDisjoint memory lpids1 lpids2 ↔ LargestCovered lpids1 lpids2 := by
  have look := @Mask.look_iff
    (lpids1.foldl Mask.set
      fun idx => if idx < maxi (maxLpid (-1) (lpids1 ++ lpids2)) then 0 else memory idx)
    (maxi (maxLpid (-1) (lpids1 ++ lpids2))) (· ∈ lpids1) lpids2 (fun lpid _ isCleared => by
      rw [Mask.get_foldl]
      simp only [Mask.get, if_pos isCleared]
      simp) distinct
  have isMax : maxLpid (maxLpid (-1) lpids1) lpids2 = maxLpid (-1) (lpids1 ++ lpids2) := by
    simp [maxLpid]
  unfold DecidesDisjoint checkDisjointLpids
  simp only [List.disjoint_right, isMax, List.forall_mem_map, List.forall_mem_append]
  rw [and_left_comm, look]
  by_cases hasSome : lpids1 ++ lpids2 = []
  · obtain ⟨rfl, rfl⟩ := List.append_eq_nil_iff.mp hasSome
    simp [Mask.Guarded, LargestCovered]
  obtain ⟨largest, member, isUpper, isLargest⟩ := exists_largest _ hasSome
  have covered (lpid : Nat) (isOne : lpid ∈ lpids1 ++ lpids2) :=
    @lt_maxi_iff lpid largest (areInts _ member) (isUpper lpid isOne)
  rw [isLargest]
  constructor
  · rintro ⟨first, second⟩ lpid isOne isTop
    obtain rfl : lpid = largest := le_antisymm (isUpper lpid isOne) (isTop largest member)
    have fits : lpid < 2 ^ 31 - 31 := by
      by_contra large
      have outside (other : Nat) (isOther : other ∈ lpids1 ++ lpids2) :
          ¬ (other / 32 : Nat) < maxi lpid := fun isCleared =>
        large ((covered other isOther).mp isCleared).1
      cases lpids1 with
      | cons one lpids1 => exact outside one List.mem_cons_self (first one List.mem_cons_self)
      | nil =>
        cases lpids2 with
        | nil => cases member
        | cons one lpids2 =>
          obtain ⟨_, inEmpty, _⟩ :=
            second [] one lpids2 rfl (Int.not_lt.mp (outside one List.mem_cons_self))
          cases inEmpty
    have outside (aligned : lpid % 32 = 0) : ¬ (lpid / 32 : Nat) < maxi lpid := fun isCleared =>
      ((covered lpid member).mp isCleared).2 aligned rfl
    exact ⟨fits, fun aligned => ⟨fun isFirst => outside aligned (first lpid isFirst),
      fun front back split => second front lpid back split (Int.not_lt.mp (outside aligned))⟩⟩
  · intro isCovered
    obtain ⟨fits, reached⟩ := isCovered largest member isUpper
    refine ⟨fun lpid isFirst => (covered lpid (List.mem_append_left _ isFirst)).mpr
      ⟨fits, fun aligned isTop => (reached aligned).1 (isTop ▸ isFirst)⟩, ?_⟩
    intro front lpid back split outside
    have isOne : lpid ∈ lpids1 ++ lpids2 := List.mem_append_right _ (by simp [split])
    have left := mt (covered lpid isOne).mpr (Int.not_lt.mpr outside)
    obtain ⟨aligned, rfl⟩ : largest % 32 = 0 ∧ lpid = largest := by
      by_contra other
      exact left ⟨fits, fun aligned isTop => other ⟨aligned, isTop⟩⟩
    exact (reached aligned).2 front back split

theorem decidesDisjoint_iff_one :
    DecidesDisjoint (fun _ => 0) [1] [2] ↔ LargestCovered [1] [2] :=
  decidesDisjoint_iff (fun _ => 0) [1] [2] (by decide) (by decide)

/-- The word of the process 64 has not been cleared, and has its bit set. -/
theorem not_decidesDisjoint :
    ¬ ∀ (memory : Mask) (lpids1 lpids2 : List Nat),
      (∀ lpid ∈ lpids1 ++ lpids2, lpid < 2 ^ 31) → lpids1.Nodup → lpids2.Nodup →
        DecidesDisjoint memory lpids1 lpids2 := by
  intro decides
  have holds := (decides (fun _ => 1) [1] [64] (by decide) (by decide) (by decide)).1
  exact absurd (holds.mpr (by simp)) (by decide)

end Mpich.Comm
