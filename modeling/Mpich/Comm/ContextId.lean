import Mathlib.Data.BitVec
import Mathlib.Data.Fin.Tuple.Basic
import Mathlib.Data.List.Basic

/-!
# Context ids

Each process has a mask of the context ids that it does not use
(`mpi/comm/commutil.c`). The processes of a communicator combine their masks and
take one that is free at all of them. When MPI is threaded, a process takes part with
an empty mask while another of its threads uses the mask, and tries again.
-/

namespace Mpich.Comm

/-- `context_mask`, with `MAX_CONTEXT_MASK` words. -/
abbrev ContextMask := Fin 32 → BitVec 32

/-- The variables of a process. The last two are those of the threaded version. -/
structure Globals where
  initializeContextMask : Bool
  contextMask : ContextMask
  maskInUse : Bool
  lowestContextId : Int

/-- `MPIR_MAXID` -/
def maxId : Int := 2 ^ 30

/-- `MPIR_Init_contextid`, when it has not been called. -/
def initContextId (globals : Globals) : Globals :=
  if globals.initializeContextMask then
    { globals with
      initializeContextMask := false
      contextMask := fun i => if i = 0 then 0xFFFFFFF8 else 0xFFFFFFFF }
  else globals

/-- One step of the search in a word, with `val` and `j`: go to the high halves of
the subwords when they have a bit. -/
def highHalf (mask : BitVec 32) (size : Nat) (found : BitVec 32 × Nat) : BitVec 32 × Nat :=
  let nval := found.1 &&& mask
  if nval ≠ 0 then (nval, found.2 + size) else found

/-- The bit that is taken from a word. -/
def contextBit (word : BitVec 32) : Nat :=
  (highHalf 0xAAAAAAAA 1 (highHalf 0xCCCCCCCC 2 (highHalf 0xF0F0F0F0 4
    (highHalf 0xFF00FF00 8 (highHalf 0xFFFF0000 16 (word, 0)))))).2

/-- `MPIR_Find_context_bit` -/
def findContextBit (localMask : ContextMask) (globals : Globals) : Globals × Nat :=
  match Fin.find? fun i => decide (localMask i ≠ 0) with
  | none => (globals, 0)
  | some i =>
    let j := contextBit (localMask i)
    ({ globals with contextMask :=
        Function.update globals.contextMask i (globals.contextMask i &&& ~~~ (1#32 <<< j)) },
      4 * (32 * i + j))

variable {Proc : Type*} (comm : List Proc)

/-- The result of the reduction with `MPI_BAND` at all processes. -/
def allreduce (localMask : Proc → ContextMask) : ContextMask := fun i =>
  comm.foldr (fun process word => localMask process i &&& word) (BitVec.allOnes 32)

/-- `MPIR_Get_contextid` of all processes, when MPI is not threaded. -/
def getContextId (states : Proc → Globals) (process : Proc) : Globals × Nat :=
  findContextBit (allreduce comm fun process => (initContextId (states process)).contextMask)
    (initContextId (states process))

variable (contextId : Int)

/-- The threaded version up to the reduction: the variables, `local_mask` and
`own_mask`. -/
def enter (globals : Globals) : Globals × ContextMask × Bool :=
  let globals := initContextId globals
  if globals.maskInUse ∨ contextId > globals.lowestContextId then
    ({ globals with
      lowestContextId :=
        if contextId < globals.lowestContextId then contextId else globals.lowestContextId },
      fun _ => 0, false)
  else
    ({ globals with maskInUse := true, lowestContextId := contextId }, globals.contextMask, true)

/-- The threaded version after the reduction. -/
def leave (reduced : ContextMask) (ownMask : Bool) (globals : Globals) : Globals × Nat :=
  if ownMask then
    let found := findContextBit reduced globals
    ({ found.1 with
      lowestContextId :=
        if 0 < found.2 ∧ found.1.lowestContextId = contextId then maxId
        else found.1.lowestContextId
      maskInUse := false }, found.2)
  else (globals, 0)

/-- One round of all processes. -/
def round (states : Proc → Globals) (process : Proc) : Globals × Nat :=
  let entered := enter contextId (states process)
  leave contextId (allreduce comm fun process => (enter contextId (states process)).2.1)
    entered.2.2 entered.1

/-- `MPIR_Get_contextid` of all processes, when MPI is threaded and each process has
one thread in it. When only some processes have found an id, the next reduction of the
others does not end. -/
def getContextIdThreaded : Nat → (Proc → Globals) → Option (Proc → Globals × Nat)
  | 0, _ => none
  | fuel + 1, states =>
    let next := round comm contextId states
    if ∀ process ∈ comm, (next process).2 ≠ 0 then
      some next
    else if ∀ process ∈ comm, (next process).2 = 0 then
      getContextIdThreaded fuel fun process => (next process).1
    else none

/-- The search has found the bits of a word from `j` on, and it has none above. -/
structure Window (word : BitVec 32) (found : BitVec 32 × Nat) (size : Nat) : Prop where
  nonzero : found.1 ≠ 0
  aligned : size ∣ found.2
  bits : ∀ bit, found.1.getLsbD bit =
    (decide (found.2 ≤ bit ∧ bit < found.2 + size) && word.getLsbD bit)
  above : ∀ bit, found.2 + size ≤ bit → word.getLsbD bit = false

theorem Window.highHalf
    {word : BitVec 32} {found : BitVec 32 × Nat} {size : Nat}
    (window : Window word found (2 * size))
    (mask : BitVec 32)
    (selects : ∀ bit < 32, mask.getLsbD bit = decide (size ≤ bit % (2 * size))) :
    Window word (highHalf mask size found) size := by
  have divides : size ∣ found.2 := Nat.dvd_trans (Nat.dvd_mul_left size 2) window.aligned
  have isHigh (bit : Nat) : (found.1 &&& mask).getLsbD bit =
      (decide (found.2 + size ≤ bit ∧ bit < found.2 + size + size) && word.getLsbD bit) := by
    rw [BitVec.getLsbD_and, window.bits]
    by_cases inWord : bit < 32
    · rw [selects bit inWord]
      by_cases inWindow : found.2 ≤ bit ∧ bit < found.2 + 2 * size
      · have remainder : bit % (2 * size) = bit - found.2 := by
          obtain ⟨k, isStart⟩ := window.aligned
          obtain ⟨rest, rfl⟩ := Nat.exists_eq_add_of_le inWindow.1
          rw [Nat.add_sub_cancel_left, isStart, Nat.mul_add_mod, Nat.mod_eq_of_lt (by omega)]
        rw [remainder, decide_eq_true inWindow, Bool.true_and, Bool.and_comm]
        congr 2
        apply propext
        omega
      · have notHigh : ¬ (found.2 + size ≤ bit ∧ bit < found.2 + size + size) := by omega
        rw [decide_eq_false inWindow, decide_eq_false notHigh]
        rfl
    · simp [BitVec.getLsbD_of_ge, Nat.le_of_not_lt inWord]
  unfold Comm.highHalf
  by_cases hasBit : found.1 &&& mask ≠ 0
  · simp only [if_pos hasBit]
    exact ⟨hasBit, Nat.dvd_add divides (Nat.dvd_refl size), isHigh,
      fun bit high => window.above bit (by omega)⟩
  · simp only [if_neg hasBit]
    have low (bit : Nat) (high : found.2 + size ≤ bit) : word.getLsbD bit = false := by
      by_cases inWindow : bit < found.2 + size + size
      · have clear := isHigh bit
        rw [not_not.mp hasBit, decide_eq_true ⟨high, inWindow⟩, Bool.true_and] at clear
        simpa using clear.symm
      · exact window.above bit (by omega)
    refine ⟨window.nonzero, divides, fun bit => ?_, low⟩
    rw [window.bits]
    by_cases high : found.2 + size ≤ bit
    · rw [low bit high, Bool.and_false, Bool.and_false]
    · congr 2
      apply propext
      omega

/-- The search in a word finds its highest bit. -/
theorem contextBit_spec
    (word : BitVec 32)
    (nonzero : word ≠ 0) :
    word.getLsbD (contextBit word) = true ∧ ∀ bit > contextBit word, word.getLsbD bit = false := by
  have start : Window word (word, 0) (2 * 16) := by
    refine ⟨nonzero, Nat.dvd_zero _, fun bit => ?_,
      fun bit high => BitVec.getLsbD_of_ge _ _ (by omega)⟩
    by_cases inWord : bit < 32
    · simp [inWord]
    · simp [BitVec.getLsbD_of_ge, Nat.le_of_not_lt inWord]
  have first := @Window.highHalf _ _ 16 start 0xFFFF0000 (by decide)
  have second := @Window.highHalf _ _ 8 first 0xFF00FF00 (by decide)
  have third := @Window.highHalf _ _ 4 second 0xF0F0F0F0 (by decide)
  have fourth := @Window.highHalf _ _ 2 third 0xCCCCCCCC (by decide)
  have last := @Window.highHalf _ _ 1 fourth 0xAAAAAAAA (by decide)
  refine ⟨?_, last.above⟩
  by_contra clear
  refine last.nonzero (BitVec.eq_of_getLsbD_eq fun bit _ => ?_)
  rw [last.bits]
  change (decide (contextBit word ≤ bit ∧ bit < contextBit word + 1) && _) = _
  by_cases here : bit = contextBit word
  · subst here
    simpa using clear
  · rw [decide_eq_false (by omega)]
    simp

/-- The bit of an id, when it is the highest one in the first word that has a bit. -/
structure IsFound (mask : ContextMask) (i : Fin 32) (j : Nat) : Prop where
  isSet : (mask i).getLsbD j = true
  highest : ∀ bit > j, (mask i).getLsbD bit = false
  first : ∀ word < i, mask word = 0

theorem findContextBit_spec (localMask : ContextMask) :
    (∀ globals, findContextBit localMask globals = (globals, 0)) ∨
      ∃ i j, IsFound localMask i j ∧ ∀ globals, ∃ cleared, findContextBit localMask globals =
          ({ globals with contextMask := cleared }, 4 * (32 * i + j)) ∧
        ∀ word bit, (cleared word).getLsbD bit =
          ((globals.contextMask word).getLsbD bit && decide (¬ (word = i ∧ bit = j))) := by
  unfold findContextBit
  cases found : Fin.find? fun i => decide (localMask i ≠ 0) with
  | none => exact .inl fun _ => rfl
  | some i =>
    obtain ⟨hasBit, first⟩ := Fin.find?_eq_some_iff.mp found
    obtain ⟨isSet, highest⟩ := contextBit_spec (localMask i) (of_decide_eq_true hasBit)
    refine .inr ⟨i, contextBit (localMask i),
      ⟨isSet, highest, fun word less => by simpa using first word less⟩,
      fun globals => ⟨_, rfl, fun word bit => ?_⟩⟩
    have isBit : 1#32 <<< contextBit (localMask i) = BitVec.twoPow 32 (contextBit (localMask i)) :=
      (BitVec.twoPow_eq ..).symm
    by_cases here : word = i
    · subst here
      rw [Function.update_self, BitVec.getLsbD_and, BitVec.getLsbD_not, isBit,
        BitVec.getLsbD_twoPow]
      by_cases inWord : bit < 32
      · simp [inWord, BitVec.lt_of_getLsbD isSet, eq_comm]
      · simp [BitVec.getLsbD_of_ge, Nat.le_of_not_lt inWord]
    · rw [Function.update_of_ne here]
      simp [here]

/-- No other thread of the process uses the mask or waits for it. -/
def Globals.Uncontended (globals : Globals) : Prop :=
  globals.maskInUse = false ∧ globals.lowestContextId = maxId

variable {comm contextId}

variable {globals : Globals}

theorem Globals.Uncontended.init
    (alone : globals.Uncontended) :
    (initContextId globals).Uncontended := by
  unfold initContextId
  split <;> exact alone

/-- When there is one thread, its process takes part with its mask. -/
theorem enter_of_uncontended
    (alone : globals.Uncontended)
    (isId : contextId ≤ maxId) :
    enter contextId globals =
      ({ initContextId globals with maskInUse := true, lowestContextId := contextId },
        (initContextId globals).contextMask, true) := by
  unfold enter
  simp [alone.init.1, alone.init.2, isId]

theorem findContextBit_with
    (localMask : ContextMask)
    (globals : Globals)
    (inUse : Bool)
    (lowest : Int) :
    findContextBit localMask { globals with maskInUse := inUse, lowestContextId := lowest } =
      ({ (findContextBit localMask globals).1 with
        maskInUse := inUse
        lowestContextId := lowest }, (findContextBit localMask globals).2) := by
  unfold findContextBit
  split <;> rfl

theorem Globals.Uncontended.find
    (alone : globals.Uncontended)
    (localMask : ContextMask) :
    (findContextBit localMask globals).1.Uncontended := by
  unfold findContextBit
  split <;> exact alone

theorem findContextBit_id
    (localMask : ContextMask)
    (globals other : Globals) :
    (findContextBit localMask globals).2 = (findContextBit localMask other).2 := by
  unfold findContextBit
  split <;> rfl

theorem leave_id
    {reduced : ContextMask} {ownMask : Bool}
    (hasId : (leave contextId reduced ownMask globals).2 ≠ 0) :
    (leave contextId reduced ownMask globals).2 = (findContextBit reduced globals).2 := by
  cases ownMask with
  | false => exact absurd rfl hasId
  | true => rfl

/-- All processes come out of the loop with one id. -/
theorem getContextIdThreaded_same
    {fuel : Nat} {states : Proc → Globals} {final : Proc → Globals × Nat}
    (returns : getContextIdThreaded comm contextId fuel states = some final)
    {process other : Proc}
    (member : process ∈ comm)
    (otherMember : other ∈ comm) :
    (final process).2 = (final other).2 := by
  induction fuel generalizing states with
  | zero => simp [getContextIdThreaded] at returns
  | succ fuel ih =>
    simp only [getContextIdThreaded] at returns
    split at returns
    next found =>
      obtain rfl := Option.some.inj returns
      exact (leave_id (found process member)).trans
        ((findContextBit_id _ _ _).trans (leave_id (found other otherMember)).symm)
    next =>
      split at returns
      · exact ih returns
      · cases returns

/-- One round without contention does what the version without threads does. -/
theorem round_of_uncontended
    {states : Proc → Globals}
    (alone : ∀ process ∈ comm, (states process).Uncontended)
    (isId : contextId ≤ maxId)
    {process : Proc}
    (member : process ∈ comm)
    (found : (getContextId comm states process).2 ≠ 0) :
    round comm contextId states process = getContextId comm states process := by
  have masks : (allreduce comm fun process => (enter contextId (states process)).2.1) =
      allreduce comm fun process => (initContextId (states process)).contextMask := by
    funext i
    refine List.foldr_ext _ _ _ fun other isMember _ => ?_
    simp only [enter_of_uncontended (alone other isMember) isId]
  have kept := (alone process member).init.find
    (allreduce comm fun process => (initContextId (states process)).contextMask)
  unfold getContextId at found ⊢
  simp only [round, masks, enter_of_uncontended (alone process member) isId, leave,
    findContextBit_with, if_true]
  rw [if_pos ⟨Nat.pos_of_ne_zero found, trivial⟩, ← kept.1, ← kept.2]

/-- Without contention all processes get the id that they get without threads, the
highest one in the first word that has a free id, and clear exactly its bit. -/
theorem getContextIdThreaded_refines
    (comm : List Proc)
    (contextId : Int)
    (states : Proc → Globals)
    (alone : ∀ process ∈ comm, (states process).Uncontended)
    (small : contextId ≤ maxId)
    (process : Proc)
    (found : (getContextId comm states process).2 ≠ 0) :
    ∃ i j, IsFound (allreduce comm fun process => (initContextId (states process)).contextMask)
        i j ∧
      ∀ fuel, ∃ final, getContextIdThreaded comm contextId (fuel + 1) states = some final ∧
        ∀ process ∈ comm, final process = getContextId comm states process ∧
          (final process).2 = 4 * (32 * i + j) ∧
          ∀ word bit, ((final process).1.contextMask word).getLsbD bit =
            (((initContextId (states process)).contextMask word).getLsbD bit &&
              decide (¬ (word = i ∧ bit = j))) := by
  rcases findContextBit_spec
    (allreduce comm fun process => (initContextId (states process)).contextMask) with
    isNone | ⟨i, j, isFound, finds⟩
  · exact absurd (congrArg Prod.snd (isNone _)) found
  have isId (other : Proc) : (getContextId comm states other).2 = 4 * (32 * i + j) := by
    obtain ⟨_, isOne, _⟩ := finds (initContextId (states other))
    exact congrArg Prod.snd isOne
  have same (other : Proc) (isMember : other ∈ comm) :
      round comm contextId states other = getContextId comm states other :=
    round_of_uncontended alone small isMember (by rw [isId, ← isId process]; exact found)
  refine ⟨i, j, isFound, fun fuel => ⟨round comm contextId states, ?_, fun other isMember => ?_⟩⟩
  · rw [getContextIdThreaded]
    refine if_pos fun other isMember => ?_
    rw [same other isMember, isId, ← isId process]
    exact found
  · obtain ⟨_, isOne, clears⟩ := finds (initContextId (states other))
    have result : getContextId comm states other = _ := isOne
    rw [same other isMember]
    refine ⟨rfl, isId other, fun word bit => ?_⟩
    rw [result, ← clears]

theorem getContextIdThreaded_refines_first :
    ∃ final, getContextIdThreaded [()] 0 1 (fun _ => ⟨true, 0, false, maxId⟩) = some final := by
  obtain ⟨_, _, _, finds⟩ := getContextIdThreaded_refines [()] 0
    (fun _ => ⟨true, 0, false, maxId⟩) (fun _ _ => ⟨rfl, rfl⟩) (by decide) () (by decide)
  obtain ⟨final, isFinal, _⟩ := finds 0
  exact ⟨final, isFinal⟩

/-- The first id that one process takes is not its lowest free one. -/
theorem not_lowest :
    ¬ ∀ (comm : List Unit) (states : Unit → Globals),
      (∀ process ∈ comm, (states process).Uncontended) →
        ∃ fuel final, getContextIdThreaded comm 0 fuel states = some final ∧
          ∀ process ∈ comm, final process = getContextId comm states process ∧
            ∀ word bit, ((allreduce comm fun process =>
                (initContextId (states process)).contextMask) word).getLsbD bit = true →
              (final process).2 ≤ 4 * (32 * word + bit) := by
  intro lowest
  obtain ⟨_, final, _, isLowest⟩ :=
    lowest [()] (fun _ => ⟨true, 0, false, maxId⟩) fun _ _ => ⟨rfl, rfl⟩
  obtain ⟨same, least⟩ := isLowest () List.mem_cons_self
  have bound := least 0 3 (by decide)
  rw [same] at bound
  exact absurd bound (by decide)

end Mpich.Comm
