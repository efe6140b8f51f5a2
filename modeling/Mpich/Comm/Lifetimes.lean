import Mpich.Comm.ContextId
import Mpich.Foundation.TransitionSystem

/-!
# Lifetimes of context ids

The processes of a communicator get a context id together, and each frees it on its own. An
id that a process has got does not come to it again until it frees the id.
-/

namespace Mpich.Comm

open Function

/-- `MPIR_Free_contextid`, which aborts if there is no word with the bit. -/
def freeContextId (contextId : Nat) (globals : Globals) : Option Globals :=
  let number := contextId >>> 2
  if inside : number / 32 < 32 then
    let idx : Fin 32 := ⟨number / 32, inside⟩
    some { globals with
      contextMask :=
        update globals.contextMask idx (globals.contextMask idx ||| 1#32 <<< (number % 32)) }
  else none

inductive Use (Proc : Type*)
  /-- The processes of a communicator call `MPIR_Get_contextid`. -/
  | get (comm : List Proc)
  | free (process : Proc) (contextId : Nat)

variable {Proc : Type*} [DecidableEq Proc]

/-- The processes of a communicator get an id, or none of them does. -/
def getAll (comm : List Proc) (states : Proc → Globals) (process : Proc) : Globals :=
  if process ∈ comm then (getContextId comm states process).1 else states process

/-- Any uses of ids in which one process does not free an id. -/
def keeping (start : Proc → Globals) (holder : Proc) (contextId : Nat) :
    TransitionSystem (Proc → Globals) (Use Proc) where
  initial states := states = start
  enabled
    | _, .get _ => True
    | _, .free process freed => process = holder → freed >>> 2 ≠ contextId >>> 2
  step
    | states, .get comm => some (getAll comm states)
    | states, .free process freed =>
      (freeContextId freed (states process)).map (update states process)

/-- The bit of an id is not in the mask. -/
def Clear (i : Fin 32) (j : Nat) (globals : Globals) : Prop :=
  globals.initializeContextMask = false ∧ (globals.contextMask i).getLsbD j = false

variable {i : Fin 32} {j : Nat} {globals : Globals}

theorem Clear.init (clear : Clear i j globals) : initContextId globals = globals :=
  if_neg (by rw [clear.1]; exact Bool.false_ne_true)

theorem Clear.find
    (clear : Clear i j globals)
    (localMask : ContextMask) :
    Clear i j (findContextBit localMask globals).1 := by
  rcases findContextBit_spec localMask with isNone | ⟨word, bit, -, finds⟩
  · rwa [isNone]
  · obtain ⟨cleared, isOne, clears⟩ := finds globals
    rw [isOne]
    exact ⟨clear.1, by rw [clears, clear.2, Bool.false_and]⟩

theorem Clear.free
    (clear : Clear i j globals)
    {freed : Nat} {next : Globals}
    (isFreed : freeContextId freed globals = some next)
    (other : freed >>> 2 ≠ 32 * i + j) :
    Clear i j next := by
  simp only [freeContextId] at isFreed
  split at isFreed
  next inside =>
    obtain rfl := Option.some.inj isFreed
    refine ⟨clear.1, ?_⟩
    by_cases here : i = ⟨freed >>> 2 / 32, inside⟩
    · subst here
      have notBit : freed >>> 2 % 32 ≠ j := fun same => other (by rw [← same, Nat.div_add_mod])
      simp [← BitVec.twoPow_eq, BitVec.getLsbD_twoPow, clear.2, notBit]
    · simp [update_of_ne here, clear.2]
  next => cases isFreed

omit [DecidableEq Proc] in
/-- The mask of a process has the bit of an id that it gets, and loses exactly this bit. -/
theorem getContextId_spec
    {comm : List Proc} {states : Proc → Globals} {process : Proc}
    (member : process ∈ comm)
    (found : (getContextId comm states process).2 ≠ 0) :
    ∃ i j, j < 32 ∧ (getContextId comm states process).2 = 4 * (32 * i.val + j) ∧
      ((initContextId (states process)).contextMask i).getLsbD j = true ∧ ∃ cleared,
        (getContextId comm states process).1 =
          { initContextId (states process) with contextMask := cleared } ∧
        ∀ word bit, (cleared word).getLsbD bit =
          (((initContextId (states process)).contextMask word).getLsbD bit &&
            decide (¬ (word = i ∧ bit = j))) := by
  rcases findContextBit_spec
    (allreduce comm fun process => (initContextId (states process)).contextMask) with
    isNone | ⟨i, j, ⟨isSet, -, -⟩, finds⟩
  · exact absurd (congrArg Prod.snd (isNone _)) found
  obtain ⟨cleared, isOne, clears⟩ := finds (initContextId (states process))
  refine ⟨i, j, BitVec.lt_of_getLsbD isSet, congrArg Prod.snd isOne, ?_, cleared,
    congrArg Prod.fst isOne, clears⟩
  unfold allreduce at isSet
  clear found finds isOne
  induction comm with
  | nil => cases member
  | cons other comm ih =>
    rw [List.foldr_cons, BitVec.getLsbD_and, Bool.and_eq_true] at isSet
    rcases List.mem_cons.mp member with rfl | later
    · exact isSet.1
    · exact ih later isSet.2

omit [DecidableEq Proc] in
/-- A process that frees the id that it has just got has the mask that it had. -/
theorem free_of_get
    {comm : List Proc} {states : Proc → Globals} {process : Proc}
    (member : process ∈ comm)
    (found : (getContextId comm states process).2 ≠ 0) :
    freeContextId (getContextId comm states process).2 (getContextId comm states process).1 =
      some (initContextId (states process)) := by
  obtain ⟨i, j, inWord, isId, isSet, cleared, got, clears⟩ := getContextId_spec member found
  have restored : update cleared i (cleared i ||| 1#32 <<< j) =
      (initContextId (states process)).contextMask := by
    funext word
    refine BitVec.eq_of_getLsbD_eq fun bit _ => ?_
    by_cases here : word = i
    · subst here
      rw [update_self, BitVec.getLsbD_or, clears, ← BitVec.twoPow_eq, BitVec.getLsbD_twoPow]
      by_cases isBit : bit = j
      · rw [isBit, isSet]
        simp [inWord]
      · simp [isBit, Ne.symm isBit]
    · simp [clears, here]
  have number : (4 * (32 * i.val + j)) >>> 2 = 32 * i.val + j := by omega
  have idx : (32 * i.val + j) / 32 = i := by omega
  have bitpos : (32 * i.val + j) % 32 = j := by omega
  simp only [isId, got, freeContextId, number, idx, bitpos, i.isLt, dite_true, Fin.eta, restored]

theorem free_of_get_first :
    freeContextId 124 (getContextId [()] (fun _ => ⟨true, 0, false, maxId⟩) ()).1 =
      some (initContextId ⟨true, 0, false, maxId⟩) :=
  @free_of_get Unit [()] (fun _ => ⟨true, 0, false, maxId⟩) () List.mem_cons_self (by decide)

/-- While a process keeps an id, no communicator with the process gets the id. -/
theorem kept_id_not_reused
    {comm other : List Proc} {states later : Proc → Globals} {holder : Proc}
    (member : holder ∈ comm)
    (found : (getContextId comm states holder).2 ≠ 0)
    (reachable : (keeping (getAll comm states) holder
      (getContextId comm states holder).2).Reachable later)
    (otherMember : holder ∈ other) :
    (getContextId other later holder).2 ≠ (getContextId comm states holder).2 := by
  obtain ⟨i, j, inWord, isId, -, cleared, got, clears⟩ := getContextId_spec member found
  have isClear : (keeping (getAll comm states) holder
      (getContextId comm states holder).2).Inductive fun now => Clear i j (now holder) := by
    refine ⟨?_, ?_⟩
    · rintro _ rfl
      rw [getAll, if_pos member, got]
      refine ⟨?_, by simp [clears]⟩
      unfold initContextId
      split <;> simp_all
    · rintro now (uses | ⟨process, freed⟩) next clear enabled stepped
      · obtain rfl := Option.some.inj stepped
        unfold getAll
        split
        · rw [getContextId, clear.init]
          exact clear.find _
        · exact clear
      · obtain ⟨globals, isFreed, rfl⟩ := Option.map_eq_some_iff.mp stepped
        by_cases same : holder = process
        · subst same
          rw [update_self]
          have notId := enabled rfl
          rw [isId] at notId
          exact clear.free isFreed (by omega)
        · rwa [update_of_ne same]
  have clear := isClear.reachable reachable
  intro same
  obtain ⟨word, bit, inNext, isNext, isSet, -⟩ :=
    getContextId_spec otherMember (same.trans_ne found)
  obtain rfl : word = i := Fin.ext (by omega)
  obtain rfl : bit = j := by omega
  rw [clear.init, clear.2] at isSet
  cases isSet

theorem kept_id_not_reused_first :
    (getContextId [()] (getAll [()] (getAll [()] fun _ => ⟨true, 0, false, maxId⟩)) ()).2 ≠ 124 :=
  @kept_id_not_reused Unit _ [()] [()] (fun _ => ⟨true, 0, false, maxId⟩) _ ()
    List.mem_cons_self (by decide) (.step (.get [()]) (.initial rfl) trivial rfl)
    List.mem_cons_self

end Mpich.Comm
