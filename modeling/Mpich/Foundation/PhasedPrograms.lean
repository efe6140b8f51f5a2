import Mpich.Foundation.TransitionSystem
import Mathlib.Algebra.Order.BigOperators.Group.Finset
import Mathlib.Data.Finset.Max

/-!
# Programs of phases that wait for each other

Every process has a list of phases. It passes a phase when all processes it
waits for there have come to that phase; a process that has the phase not in its
list never comes to it. When the lists are sorted by a common rank, the
processes complete exactly when nobody waits for a process without the phase.
-/

namespace Mpich

open List Function

/-- The phases of each process, and whom a process waits for in a phase. -/
structure PhasedPrograms (Process : Type*) (Phase : Type*) where
  program : Process → List Phase
  waitsFor : Process → Phase → Process → Prop

namespace PhasedPrograms

variable {Process Phase : Type*}

/-- With so many phases passed, the process is in the phase or behind it. -/
def Arrived
    (phased : PhasedPrograms Process Phase)
    (passed : Process → Nat)
    (process : Process)
    (phase : Phase) : Prop :=
  ∃ index ≤ passed process, (phased.program process)[index]? = some phase

/-- The process is in a phase, and all it waits for have come. -/
def CanPass
    (phased : PhasedPrograms Process Phase)
    (passed : Process → Nat)
    (process : Process) : Prop :=
  ∃ phase, (phased.program process)[passed process]? = some phase ∧
    ∀ other, phased.waitsFor process phase other → phased.Arrived passed other phase

/-- The process has passed all its phases. -/
def Finished
    (phased : PhasedPrograms Process Phase)
    (passed : Process → Nat)
    (process : Process) : Prop :=
  passed process = (phased.program process).length

/-- A state is the number of phases each process has passed. -/
def system
    [DecidableEq Process]
    (phased : PhasedPrograms Process Phase) :
    TransitionSystem (Process → Nat) Process where
  initial := fun passed => ∀ process, passed process = 0
  enabled := phased.CanPass
  step := fun passed process =>
    some (update passed process (passed process + 1))

/-- However the processes run, when none of them can go on all have finished. -/
def Completes
    [DecidableEq Process]
    (phased : PhasedPrograms Process Phase) : Prop :=
  ∀ passed, phased.system.Reachable passed → (∀ process, ¬ phased.CanPass passed process) →
      ∀ process, phased.Finished passed process

/-- Nobody waits for a process that does not have the phase. -/
def Attended
    (phased : PhasedPrograms Process Phase) : Prop :=
  ∀ process, ∀ phase ∈ phased.program process, ∀ other,
    phased.waitsFor process phase other → phase ∈ phased.program other

variable {phased : PhasedPrograms Process Phase}

variable {passed : Process → Nat}

theorem Arrived.mem
    {process : Process} {phase : Phase}
    (arrived : phased.Arrived passed process phase) :
    phase ∈ phased.program process := by
  obtain ⟨index, _, found⟩ := arrived
  exact mem_of_getElem? found

theorem CanPass.lt
    {process : Process}
    (canPass : phased.CanPass passed process) :
    passed process < (phased.program process).length := by
  obtain ⟨phase, isPhase, _⟩ := canPass
  exact (List.getElem?_eq_some_iff.mp isPhase).1

variable [DecidableEq Process]

/-- A process passes no more phases than it has. -/
theorem passed_le
    (reachable : phased.system.Reachable passed)
    (process : Process) :
    passed process ≤ (phased.program process).length := by
  have bounded : phased.system.Inductive
      fun passed => ∀ process, passed process ≤ (phased.program process).length :=
    { initial := fun passed start process => by
        rw [start process]
        exact Nat.zero_le _
      step := fun passed mover next before canPass stepped process => by
        obtain rfl := Option.some.inj stepped
        rw [update_apply]
        split
        case isTrue same =>
          rw [same]
          exact canPass.lt
        case isFalse => exact before process }
  exact bounded.reachable reachable process

/-- A process never gets behind a phase in which it waits for a process that
does not have it. -/
theorem passed_le_of_unattended
    {process other : Process} {phase : Phase} {index : Nat}
    (isPhase : (phased.program process)[index]? = some phase)
    (waits : phased.waitsFor process phase other)
    (unattended : phase ∉ phased.program other)
    (reachable : phased.system.Reachable passed) :
    passed process ≤ index := by
  have stays : phased.system.Inductive fun passed => passed process ≤ index :=
    { initial := fun passed start => by
        rw [start process]
        exact Nat.zero_le _
      step := fun passed mover next before canPass stepped => by
        obtain rfl := Option.some.inj stepped
        rw [update_apply]
        split
        case isFalse => exact before
        case isTrue same =>
          obtain rfl := same
          obtain ⟨current, isCurrent, arrived⟩ := canPass
          apply lt_of_le_of_ne before
          intro equal
          rw [equal, isPhase] at isCurrent
          obtain rfl := Option.some.inj isCurrent
          exact unattended (arrived other waits).mem }
  exact stays.reachable reachable

/-- The process whose phase comes first can go on. -/
theorem completes_of_attended
    [Fintype Process] {rank : Phase → Nat}
    (sorted : ∀ process, (phased.program process).Pairwise
      fun first second => rank first < rank second)
    (attended : phased.Attended) :
    phased.Completes := by
  intro passed reachable stuck
  by_contra unfinished
  rw [not_forall] at unfinished
  obtain ⟨someone, notFinished⟩ := unfinished
  let rankOf (process : Process) : Nat :=
    ((phased.program process)[passed process]?.map rank).getD 0
  have inPhase (process : Process) (running : ¬ phased.Finished passed process) :
      ∃ phase, (phased.program process)[passed process]? = some phase := by
    have bound := passed_le reachable process
    have below : passed process < (phased.program process).length :=
      lt_of_le_of_ne bound running
    exact ⟨_, getElem?_eq_getElem below⟩
  classical
  obtain ⟨first, isRunning, least⟩ := Finset.exists_min_image
    (Finset.univ.filter fun process => ¬ phased.Finished passed process) rankOf
    ⟨someone, Finset.mem_filter.mpr ⟨Finset.mem_univ someone, notFinished⟩⟩
  rw [Finset.mem_filter] at isRunning
  obtain ⟨phase, isPhase⟩ := inPhase first isRunning.2
  refine stuck first ⟨phase, isPhase, fun other waits => ?_⟩
  obtain ⟨index, isIndex⟩ := mem_iff_getElem?.mp
    (attended first phase (mem_of_getElem? isPhase) other waits)
  refine ⟨index, ?_, isIndex⟩
  by_cases finished : phased.Finished passed other
  case pos =>
    rw [finished]
    exact le_of_lt (List.getElem?_eq_some_iff.mp isIndex).1
  case neg =>
    obtain ⟨current, isCurrent⟩ := inPhase other finished
    have order := least other (Finset.mem_filter.mpr ⟨Finset.mem_univ other, finished⟩)
    simp only [rankOf, isPhase, isCurrent, Option.map_some, Option.getD_some] at order
    by_contra later
    obtain ⟨currentBound, currentGet⟩ := List.getElem?_eq_some_iff.mp isCurrent
    obtain ⟨indexBound, indexGet⟩ := List.getElem?_eq_some_iff.mp isIndex
    have increasing := pairwise_iff_getElem.mp (sorted other)
      (passed other) index currentBound indexBound (Nat.lt_of_not_le later)
    rw [currentGet, indexGet] at increasing
    omega

/-- Every run can be continued until nobody can go on. -/
theorem exists_stuck
    [Fintype Process]
    (reachable : phased.system.Reachable passed) :
    ∃ last, phased.system.Reachable last ∧ ∀ process, ¬ phased.CanPass last process := by
  induction remaining :
      ∑ process, ((phased.program process).length - passed process)
      using Nat.strong_induction_on generalizing passed with
  | _ remaining ih =>
    by_cases stuck : ∀ process, ¬ phased.CanPass passed process
    case pos => exact ⟨passed, reachable, stuck⟩
    case neg =>
      rw [not_forall] at stuck
      obtain ⟨mover, canPass⟩ := stuck
      rw [not_not] at canPass
      refine ih _ ?_ (reachable.step mover canPass rfl) rfl
      rw [← remaining]
      apply Finset.sum_lt_sum
      · intro process _
        apply Nat.sub_le_sub_left
        rw [update_apply]
        split
        case isTrue same =>
          rw [same]
          exact Nat.le_succ _
        case isFalse => exact le_refl _
      · refine ⟨mover, Finset.mem_univ mover, ?_⟩
        rw [update_self]
        have below := canPass.lt
        omega

/-- Programs with a common order of the phases complete exactly when nobody
waits for a process without the phase. -/
theorem completes_iff_attended
    [Fintype Process] {rank : Phase → Nat}
    (sorted : ∀ process, (phased.program process).Pairwise
      fun first second => rank first < rank second) :
    phased.Completes ↔ phased.Attended := by
  constructor
  · intro completes process phase isPhase other waits
    by_contra unattended
    obtain ⟨index, isIndex⟩ := mem_iff_getElem?.mp isPhase
    have start : phased.system.Reachable fun _ => 0 := .initial fun _ => rfl
    obtain ⟨last, reachable, stuck⟩ := exists_stuck start
    have finished := completes last reachable stuck process
    have stays := passed_le_of_unattended isIndex waits unattended reachable
    have bound := (List.getElem?_eq_some_iff.mp isIndex).1
    rw [finished] at stays
    omega
  · exact completes_of_attended sorted

end Mpich.PhasedPrograms
