import Mpich.Romio.Independent.Invariant

/-!
# Interleaved independent writes

In a run whose steps are all harmless, every byte holds its writer's value when
the processes have finished. Nothing in the code makes the steps harmless: a
contiguous write takes no lock in non-atomic mode, and when it lands in a
window that another process has read, the write back of the window undoes it.
-/

namespace Mpich.Romio.Independent

open Pieces Option

variable {Process : Type*} [DecidableEq Process]

variable {state : State Process}

/-- The invariant holds where a run starts. -/
theorem safe_initial
    {setup : Setup Process}
    (start : (system setup).initial state) :
    ∃ progress, Safe setup progress state := by
  refine ⟨⟨fun _ => .idle, fun _ _ => none, fun _ => False⟩, ?_, ?_, ?_⟩
  · intro process
    obtain ⟨isProgram, loaded, held⟩ := start process
    obtain ⟨ops, runs, follows, values⟩ :=
      program_spec (setup.positive process) (setup.calls process)
    obtain rfl := Option.some.inj (runs.symm.trans isProgram)
    have all (place : Nat) :
        ahead (state.writer process) (fun _ => none) place =
          written (setup.calls process) place := by
      rw [ahead, or_none, values]
    refine ⟨follows, ⟨held, loaded, rfl⟩, ?_, ?_⟩
    · intro place value isAhead
      rw [← all]
      exact isAhead
    · intro place value isGoal nothing
      rw [all, isGoal] at nothing
      exact absurd nothing (some_ne_none _)
  · intro first second _ lock isLock
    rw [(start first).2.2] at isLock
    exact absurd isLock List.not_mem_nil
  · exact fun _ impossible => impossible.elim

/-- The invariant holds in every run of harmless steps. -/
theorem safe_of_reachable
    {setup : Setup Process}
    (disjoint : setup.Disjoint)
    (reachable : ((system setup).restrict Harmless).Reachable state) :
    ∃ progress, Safe setup progress state := by
  have inductive_ : ((system setup).restrict Harmless).Inductive
      fun state => ∃ progress, Safe setup progress state :=
    { initial := fun _ start => safe_initial start
      step := fun _ _ _ ⟨_, safe⟩ enabled stepped =>
        safe.step disjoint enabled.1 enabled.2 stepped }
  exact inductive_.reachable reachable

omit [DecidableEq Process] in
/-- Every call makes finitely many accesses, so its list of accesses exists. -/
theorem program_isSome
    (setup : Setup Process)
    (process : Process) :
    (program (setup.indWrBufferSize process) (setup.calls process)).isSome := by
  obtain ⟨ops, runs, _⟩ := program_spec (setup.positive process) (setup.calls process)
  rw [runs]
  rfl

/-- Processes write disjoint bytes, and no step writes without a lock a byte
of a window that another process has read and not yet written back. Then every
byte holds its writer's value when all processes have finished. -/
theorem valuesKept_of_harmless
    {setup : Setup Process} {state : State Process}
    (disjoint : setup.Disjoint)
    (reachable : ((system setup).restrict Harmless).Reachable state)
    (finished : Finished state) :
    ValuesKept setup state := by
  obtain ⟨progress, safe⟩ := safe_of_reachable disjoint reachable
  intro process place value isWritten
  have good := safe.good process
  have nothing : ahead (state.writer process) (progress.pending process) place = none := by
    have follows := good.follows
    have fits := good.fits
    rw [finished process] at follows
    generalize progress.mode process = mode at follows fits
    cases follows with
    | done =>
      rw [ahead, finished process, fits.2.2]
      rfl
  obtain ⟨isSettled, holds⟩ := good.arrived place value isWritten nothing
  exact ⟨safe.inFile place isSettled, holds⟩

omit [DecidableEq Process] in
/-- No other process has a window open. -/
theorem harmless_of_noWindow
    {action : Action Process}
    (noWindow : ∀ other, other ≠ action.process → (state.writer other).window = none) :
    Harmless state action := by
  intro op _ _ range _ other different window isWindow
  rw [noWindow other different] at isWindow
  exact absurd isWindow (not_mem_none window)

/-- One process writes bytes 0 and 2 with data sieving, the other one writes
byte 1 with a contiguous write. -/
def neighbours : Setup Bool where
  calls := fun process =>
    if process then [.contig 1 [7]]
    else [.strided ⟨[(0, [5]), (2, [6])], by decide, by decide⟩]
  indWrBufferSize := fun _ => 4
  positive := fun _ => by decide

/-- A file of three zeros, and the two processes about to write. -/
def neighboursStart : State Bool where
  file := ⟨3, fun _ => 0⟩
  writer := fun process =>
    { todo :=
        if process then [.writeContig 1 [7]]
        else [.malloc, .memset, .writeLock ⟨0, 3⟩, .readContig ⟨0, 3⟩,
          .memcpy 0 0 [5], .memcpy 0 2 [6], .writeBuf ⟨0, 3⟩, .unlock ⟨0, 3⟩]
      writebuf := fun _ => 0
      window := none
      held := [] }

/-- The process makes its next access; new memory is filled with zeros. -/
def next (process : Bool) : Action Bool :=
  ⟨process, fun _ => 0⟩

theorem neighbours_disjoint : neighbours.Disjoint := by
  have either (place : Nat) :
      written (neighbours.calls true) place = none ∨
        written (neighbours.calls false) place = none := by
    match place with
    | 0 => exact .inl rfl
    | 1 => exact .inr rfl
    | 2 => exact .inl rfl
    | _ + 3 => exact .inl rfl
  intro first second different place
  cases first <;> cases second
  · exact absurd rfl different
  · exact (either place).symm
  · exact either place
  · exact absurd rfl different

theorem neighboursStart_initial :
    (system neighbours).initial neighboursStart := by
  intro process
  cases process with
  | false => exact ⟨by rfl, rfl, rfl⟩
  | true => exact ⟨by rfl, rfl, rfl⟩

/-- A lock of the first process is granted when the second one has none. -/
theorem not_locked_neighbour
    {state : State Bool} {window : Window}
    (free : (state.writer true).held = []) :
    ¬ Locked state false window := by
  rintro ⟨other, different, lock, isLock, _⟩
  cases other with
  | false => exact different rfl
  | true =>
    rw [free] at isLock
    exact List.not_mem_nil isLock

theorem harmless_neighbour
    {state : State Bool} {process : Bool}
    (noWindow : (state.writer (!process)).window = none) :
    Harmless state (next process) := by
  apply harmless_of_noWindow
  intro other different
  rw [Bool.eq_not_of_ne different]
  exact noWindow

/-- The contiguous write comes first, and the window is read after it. -/
theorem valuesKept_neighbours :
    ∃ state, Finished state ∧ ValuesKept neighbours state := by
  have start : ((system neighbours).restrict Harmless).Reachable
      neighboursStart := .initial neighboursStart_initial
  have one := start.step (next true) ⟨trivial, harmless_neighbour rfl⟩ rfl
  have two := one.step (next false) ⟨trivial, harmless_neighbour rfl⟩ rfl
  have three := two.step (next false) ⟨trivial, harmless_neighbour rfl⟩ rfl
  have four := three.step (next false) ⟨not_locked_neighbour rfl, harmless_neighbour rfl⟩ rfl
  have five := four.step (next false) ⟨trivial, harmless_neighbour rfl⟩ rfl
  have six := five.step (next false) ⟨trivial, harmless_neighbour rfl⟩ rfl
  have seven := six.step (next false) ⟨trivial, harmless_neighbour rfl⟩ rfl
  have eight := seven.step (next false) ⟨trivial, harmless_neighbour rfl⟩ rfl
  have nine := eight.step (next false) ⟨trivial, harmless_neighbour rfl⟩ rfl
  refine ⟨_, ?_, valuesKept_of_harmless neighbours_disjoint nine ?_⟩
  · intro process
    cases process with
    | false => rfl
    | true => rfl
  · intro process
    cases process with
    | false => rfl
    | true => rfl

/-- The contiguous write comes between the read of the window and its write
back, and its byte is lost. -/
theorem not_valuesKept_neighbours :
    neighbours.Disjoint ∧ ∃ state, (system neighbours).Reachable state ∧ Finished state ∧
        ¬ ValuesKept neighbours state := by
  have start : (system neighbours).Reachable neighboursStart := .initial neighboursStart_initial
  have one := start.step (next false) trivial rfl
  have two := one.step (next false) trivial rfl
  have three := two.step (next false) (not_locked_neighbour rfl) rfl
  have four := three.step (next false) trivial rfl
  have five := four.step (next true) trivial rfl
  have six := five.step (next false) trivial rfl
  have seven := six.step (next false) trivial rfl
  have eight := seven.step (next false) trivial rfl
  have nine := eight.step (next false) trivial rfl
  refine ⟨neighbours_disjoint, _, nine, ?_, ?_⟩
  · intro process
    cases process with
    | false => rfl
    | true => rfl
  · intro kept
    have lost := (kept true 1 7 rfl).2
    exact absurd lost (by decide)

end Mpich.Romio.Independent
