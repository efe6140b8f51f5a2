import Mpich.Comm.ContextId

/-!
# Merging the groups of an intercommunicator

`MPI_Intercomm_merge` (`mpi/comm/intercomm_merge.c`): the leaders of both groups
exchange their values of `high`, and their gpids when these are equal, and each one
decides which group comes first. The processes of both groups then agree exactly if
the leaders come to opposite decisions.
-/

namespace Mpich.Comm

variable {Proc : Type*}

/-- The two groups of an intercommunicator, with the context ids on which they
receive. A group sends on the context id of the other one. -/
structure Intercomm (Proc : Type*) where
  leader : Bool → Proc
  others : Bool → List Proc
  recvcontextId : Bool → Int

/-- The processes of a group in the order of their ranks. -/
def Intercomm.group (comm : Intercomm Proc) (side : Bool) : List Proc :=
  comm.leader side :: comm.others side

/-- What a leader makes of the values of `high`. `MPID_GPID_Get` of an
intercommunicator gives the gpid `ingpid` of the other leader, and `outgpid` is what
the other leader has got. -/
def chooseHigh (localHigh remoteHigh : Int) (ingpid outgpid : Int × Int) : Int :=
  if localHigh = remoteHigh then
    if ingpid.1 < outgpid.1 ∨ ingpid.1 = outgpid.1 ∧ ingpid.2 < outgpid.2 then 0 else 1
  else localHigh

/-- A call of all processes. In each group the values of `high` have the same truth
value, so that the check of the arguments succeeds. -/
structure MergeCall (Proc : Type*) extends Intercomm Proc where
  gpid : Proc → Int × Int
  high : Bool → Proc → Int
  sameTruth : ∀ side, ∀ process ∈ toIntercomm.group side,
    high side process = 0 ↔ high side (leader side) = 0

namespace MergeCall

variable (call : MergeCall Proc)

/-- The value of the leader that is broadcast in its group. -/
def localHigh (side : Bool) : Int :=
  chooseHigh (call.high side (call.leader side)) (call.high (!side) (call.leader !side))
    (call.gpid (call.leader !side)) (call.gpid (call.leader side))

/-- `newcomm_ptr` at a process. -/
structure Merged (Proc : Type*) where
  rank : Nat
  contextId : Int
  vcr : List Proc

/-- The communicator that a process builds, with the temporary context id. -/
def newcomm (side : Bool) (rank : Nat) : Merged Proc :=
  if call.localHigh side ≠ 0 then
    { rank := (call.group !side).length + rank
      contextId := call.recvcontextId side + 2
      vcr := call.group (!side) ++ call.group side }
  else
    { rank := rank
      contextId := call.recvcontextId (!side) + 2
      vcr := call.group side ++ call.group (!side) }

/-- The final context id that a process gets for its communicator, with threads or
without. -/
def newContextId (threaded : Bool) (fuel : Nat) (states : Proc → Globals) (merged : Merged Proc)
    (process : Proc) : Option Nat :=
  if threaded then
    (getContextIdThreaded merged.vcr merged.contextId fuel states).map fun final =>
      (final process).2
  else
    some (getContextId merged.vcr states process).2

/-- Exactly one group comes first, and all processes build the same sequence, in which
each one is at its rank, and use the same context ids. -/
structure Agrees : Prop where
  first : ∃ side, call.localHigh side = 0 ∧ call.localHigh (!side) ≠ 0
  sameOrder : ∀ side rank other otherRank,
    (call.newcomm side rank).vcr = (call.newcomm other otherRank).vcr
  atRank : ∀ side rank, rank < (call.group side).length →
    (call.newcomm side rank).vcr[(call.newcomm side rank).rank]? = (call.group side)[rank]?
  sameContextId : ∀ side rank other otherRank,
    (call.newcomm side rank).contextId = (call.newcomm other otherRank).contextId
  sameNewContextId : ∀ threaded fuel states side rank other otherRank,
    ∀ process ∈ (call.newcomm side rank).vcr, ∀ last ∈ (call.newcomm side rank).vcr,
      newContextId threaded fuel states (call.newcomm side rank) process =
        newContextId threaded fuel states (call.newcomm other otherRank) last

/-- The leaders give one value and have different gpids, or they give two values of
which one is zero. -/
def Decides : Prop :=
  if call.high true (call.leader true) = call.high false (call.leader false) then
    call.gpid (call.leader true) ≠ call.gpid (call.leader false)
  else
    call.high true (call.leader true) = 0 ∨ call.high false (call.leader false) = 0

variable {call}

theorem chooseHigh_iff (high otherHigh : Int) (gpid otherGpid : Int × Int) :
    (chooseHigh high otherHigh otherGpid gpid = 0 ↔ chooseHigh otherHigh high gpid otherGpid ≠ 0) ↔
      if high = otherHigh then gpid ≠ otherGpid else high = 0 ∨ otherHigh = 0 := by
  unfold chooseHigh
  by_cases same : high = otherHigh
  · rw [if_pos same, if_pos same.symm, if_pos same, Ne, Ne, Prod.ext_iff]
    split_ifs <;> omega
  · rw [if_neg same, if_neg (Ne.symm same), if_neg same]
    omega

theorem newcomm_of_first
    {side : Bool}
    (isFirst : call.localHigh side = 0)
    (isLast : call.localHigh (!side) ≠ 0)
    (other : Bool)
    (rank : Nat) :
    call.newcomm other rank =
      { rank := if other = side then rank else (call.group side).length + rank
        contextId := call.recvcontextId (!side) + 2
        vcr := call.group side ++ call.group !side } := by
  unfold newcomm
  rcases Bool.eq_or_eq_not other side with rfl | rfl
  · simp [isFirst]
  · simp [isLast]

/-- All processes agree exactly if the leaders can decide. -/
theorem agrees_iff (call : MergeCall Proc) : call.Agrees ↔ call.Decides := by
  have opposite := chooseHigh_iff (call.high true (call.leader true))
    (call.high false (call.leader false)) (call.gpid (call.leader true))
    (call.gpid (call.leader false))
  refine Iff.trans ⟨fun agrees => ?_, fun differ => ?_⟩ opposite
  · obtain ⟨side, isFirst, isLast⟩ := agrees.first
    cases side with
    | true => exact iff_of_true isFirst isLast
    | false => exact iff_of_false isLast (not_not.mpr isFirst)
  · obtain ⟨side, isFirst, isLast⟩ :
        ∃ side, call.localHigh side = 0 ∧ call.localHigh (!side) ≠ 0 := by
      by_cases isFirst : call.localHigh true = 0
      · exact ⟨true, isFirst, differ.mp isFirst⟩
      · exact ⟨false, not_not.mp (mt differ.mpr isFirst), isFirst⟩
    have builds := newcomm_of_first isFirst isLast
    refine ⟨⟨side, isFirst, isLast⟩, ?_, ?_, ?_, ?_⟩
    · intro one rank other otherRank
      rw [builds, builds]
    · intro other rank inGroup
      rw [builds]
      rcases Bool.eq_or_eq_not other side with rfl | rfl
      · simpa using List.getElem?_append_left inGroup
      · simp [List.getElem?_append_right]
    · intro one rank other otherRank
      rw [builds, builds]
    · intro threaded fuel states one rank other otherRank process member last isLast
      rw [builds] at member isLast ⊢
      rw [builds other]
      unfold newContextId
      cases threaded with
      | false => exact congrArg some (findContextBit_id _ _ _)
      | true =>
        cases returns : getContextIdThreaded (call.group side ++ call.group !side)
            (call.recvcontextId (!side) + 2) fuel states with
        | none => rfl
        | some final => exact congrArg some (getContextIdThreaded_same returns member isLast)

/-- Two processes with different values that are both true: each puts the other one
first. -/
theorem not_agrees : ¬ ∀ call : MergeCall Bool, call.Agrees := by
  intro agrees
  obtain ⟨side, isFirst, _⟩ := (agrees
    { leader := id
      others := fun _ => []
      recvcontextId := fun side => if side then 128 else 132
      gpid := fun process => (0, if process then 1 else 0)
      high := fun _ process => if process then 1 else 2
      sameTruth := fun side process member => by simp_all [Intercomm.group] }).first
  cases side <;> exact absurd isFirst (by decide)

end MergeCall
end Mpich.Comm
