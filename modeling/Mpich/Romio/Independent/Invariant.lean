import Mpich.Romio.Independent.Sessions

/-!
# The invariant of interleaved independent writes

A sieving window rewrites bytes that its process does not write, with the
values it has read. The invariant is that those values are still the ones in
the file: nobody changes a byte of a window between the read and the write
back. Other sieving windows keep away because of the lock. Writes without a
lock keep away only by chance, and a step keeps the invariant when they do.
-/

namespace Mpich.Romio.Independent

open Pieces List Function Option

/-- The values that a process still has to bring into the file: those it has
not copied yet and those in its buffer. -/
def ahead
    (writer : Writer)
    (pending : Nat → Option Byte)
    (place : Nat) : Option Byte :=
  (valueAt (piecesOf writer.todo) place).or (pending place)

/-- How the locks and the buffer of a process fit its mode. `pending` are the
values it has copied and not yet written to the file, `settled` the bytes that
some process has written to the file. -/
def Fits
    (file : File)
    (settled : Nat → Prop)
    (pending : Nat → Option Byte)
    (writer : Writer) : Mode → Prop
  | .idle => writer.held = [] ∧ writer.window = none ∧ pending = fun _ => none
  | .locked window =>
    writer.held = [window] ∧ writer.window = none ∧ pending = fun _ => none
  | .sieving window =>
    writer.held = [window] ∧ writer.window = some window ∧
      (∀ place value, pending place = some value → window.Has place ∧
          writer.writebuf (place - window.off) = value) ∧
      ∀ place, window.Has place → pending place = none → settled place →
        writer.writebuf (place - window.off) = file.contents place
  | .written window =>
    writer.held = [window] ∧ writer.window = none ∧ pending = fun _ => none
  | .packing off filled =>
    writer.held = [] ∧ writer.window = none ∧
      (∀ place, off ≤ place → place < off + filled → pending place ≠ none) ∧
      ∀ place value, pending place = some value → off ≤ place ∧ place < off + filled ∧
          writer.writebuf (place - off) = value

/-- What holds of a process that has to write `goal`. -/
structure Good
    (goal : Nat → Option Byte)
    (file : File)
    (settled : Nat → Prop)
    (mode : Mode)
    (pending : Nat → Option Byte)
    (writer : Writer) : Prop where
  follows : Follows mode writer.todo
  fits : Fits file settled pending writer mode
  /-- It brings no value but its own. -/
  own : ∀ place value, ahead writer pending place = some value → goal place = some value
  /-- What it need not bring any more is in the file. -/
  arrived : ∀ place value, goal place = some value → ahead writer pending place = none →
      settled place ∧ file.contents place = value

/-- Where the processes are, and which bytes are in the file. -/
structure Progress (Process : Type*) where
  mode : Process → Mode
  pending : Process → Nat → Option Byte
  settled : Nat → Prop

variable {Process : Type*} [DecidableEq Process]

/-- The invariant of a run. -/
structure Safe
    (setup : Setup Process)
    (progress : Progress Process)
    (state : State Process) : Prop where
  good : ∀ process, Good (written (setup.calls process)) state.file progress.settled
      (progress.mode process) (progress.pending process) (state.writer process)
  exclusive : ∀ first second, first ≠ second → ∀ lock ∈ (state.writer first).held,
      ∀ other ∈ (state.writer second).held, lock.overlaps other = false
  inFile : ∀ place, progress.settled place → place < state.file.size

/-- A process is still fine after another one has written to the file bytes
that are neither its own nor in its window. -/
theorem Good.frame
    {goal : Nat → Option Byte} {file file' : File}
    {settled settled' : Nat → Prop} {mode : Mode} {pending : Nat → Option Byte}
    {writer : Writer}
    (flushed : Nat → Option Byte)
    (good : Good goal file settled mode pending writer)
    (kept : ∀ place, flushed place = none → settled place →
      settled' place ∧ file'.contents place = file.contents place)
    (new : ∀ place, flushed place = none → settled' place → settled place)
    (foreign : ∀ place value, goal place = some value → flushed place = none)
    (away : ∀ window, writer.window = some window →
      ∀ place, window.Has place → flushed place = none) :
    Good goal file' settled' mode pending writer where
  follows := good.follows
  own := good.own
  arrived := by
    intro place value isGoal nothing
    obtain ⟨isSettled, holds⟩ := good.arrived place value isGoal nothing
    obtain ⟨still, same⟩ := kept place (foreign place value isGoal) isSettled
    exact ⟨still, same.trans holds⟩
  fits := by
    have fits := good.fits
    cases mode with
    | idle => exact fits
    | locked window => exact fits
    | written window => exact fits
    | packing off filled => exact fits
    | sieving window =>
      obtain ⟨held, loaded, copied, read⟩ := fits
      refine ⟨held, loaded, copied, ?_⟩
      intro place inside notCopied isSettled
      have notFlushed := away window loaded place inside
      have before := new place notFlushed isSettled
      rw [(kept place notFlushed before).2]
      exact read place inside notCopied before

section

variable
  {file : File}
  {settled : Nat → Prop}
  {pending : Nat → Option Byte}
  {writer : Writer}
  {window : Window}

/-- Fewer bytes need to be right when fewer are settled. -/
theorem Fits.mono
    {mode : Mode} {fewer : Nat → Prop}
    (fits : Fits file settled pending writer mode)
    (subset : ∀ place, fewer place → settled place) :
    Fits file fewer pending writer mode := by
  cases mode with
  | sieving window =>
    obtain ⟨held, loaded, copied, read⟩ := fits
    exact ⟨held, loaded, copied, fun place inside notCopied isSettled =>
      read place inside notCopied (subset place isSettled)⟩
  | idle | locked | written | packing => exact fits

/-- A window that has been read holds what the file holds. -/
theorem Fits.read
    (fits : Fits file settled pending writer (.locked window))
    (inFile : ∀ place, settled place → place < file.size)
    (rest : List Op) :
    Fits file settled pending
      { writer with
        todo := rest
        writebuf := file.readContig window.off window.len writer.writebuf
        window := some window }
      (.sieving window) := by
  obtain ⟨held, _, nothing⟩ := fits
  refine ⟨held, rfl, ?_, ?_⟩
  · intro place value isPending
    rw [nothing] at isPending
    exact absurd isPending (some_ne_none _).symm
  · intro place inside _ isSettled
    exact File.readContig_inside file _ inside.1 inside.2 (inFile place isSettled)

/-- Data copied to a place of the window is what the buffer has there. -/
theorem copyInto_window
    {origin reqOff place : Nat}
    (buffer : Nat → Byte)
    (data : List Byte)
    (startAbove : origin ≤ reqOff)
    (placeAbove : origin ≤ place) :
    copyInto buffer (reqOff - origin) data (place - origin) =
      (pieceAt (reqOff, data) place).getD (buffer (place - origin)) := by
  rw [copyInto, pieceAt_sub data startAbove placeAbove]

/-- A copy into a sieving window. -/
theorem Fits.modify
    {reqOff : Nat} {data : List Byte}
    (fits : Fits file settled pending writer (.sieving window))
    (above : window.off ≤ reqOff)
    (below : reqOff + data.length ≤ window.off + window.len)
    (rest : List Op) :
    Fits file settled
      (fun place => (pieceAt (reqOff, data) place).or (pending place))
      { writer with
        todo := rest
        writebuf := copyInto writer.writebuf (reqOff - window.off) data }
      (.sieving window) := by
  obtain ⟨held, loaded, copied, read⟩ := fits
  refine ⟨held, loaded, ?_, ?_⟩
  · intro place value isPending
    cases isCopied : pieceAt (reqOff, data) place with
    | some found =>
      have range := pieceAt_eq_some isCopied
      simp only [isCopied, some_or, Option.some.injEq] at isPending range
      refine ⟨⟨by omega, by omega⟩, ?_⟩
      refine (copyInto_window _ _ above (by omega)).trans ?_
      rw [isCopied]
      exact isPending
    | none =>
      simp only [isCopied, none_or] at isPending
      obtain ⟨inside, holds⟩ := copied place value isPending
      refine ⟨inside, ?_⟩
      refine (copyInto_window _ _ above inside.1).trans ?_
      rw [isCopied]
      exact holds
  · intro place inside notPending isSettled
    obtain ⟨notCopied, notBefore⟩ := or_eq_none_iff.1 notPending
    refine (copyInto_window _ _ above inside.1).trans ?_
    rw [notCopied]
    exact read place inside notBefore isSettled

/-- A copy behind the packed part of a window. -/
theorem Fits.pack
    {off filled : Nat}
    (data : List Byte)
    (fits : Fits file settled pending writer (.packing off filled))
    (rest : List Op) :
    Fits file settled
      (fun place => (pieceAt (off + filled, data) place).or (pending place))
      { writer with
        todo := rest
        writebuf := copyInto writer.writebuf (off + filled - off) data }
      (.packing off (filled + data.length)) := by
  obtain ⟨held, loaded, covered, copied⟩ := fits
  refine ⟨held, loaded, ?_, ?_⟩
  · intro place above below nothing
    obtain ⟨notCopied, notBefore⟩ := or_eq_none_iff.1 nothing
    have outside := mt pieceAt_isSome.2 (not_isSome_iff_eq_none.2 notCopied)
    exact covered place above (by simp only at outside; omega) notBefore
  · intro place value isPending
    cases isCopied : pieceAt (off + filled, data) place with
    | some found =>
      have range := pieceAt_eq_some isCopied
      simp only [isCopied, some_or, Option.some.injEq] at isPending range
      refine ⟨by omega, by omega, ?_⟩
      refine (copyInto_window _ _ (Nat.le_add_right _ _) (by omega)).trans ?_
      rw [isCopied]
      exact isPending
    | none =>
      simp only [isCopied, none_or] at isPending
      obtain ⟨above, below, holds⟩ := copied place value isPending
      refine ⟨above, by omega, ?_⟩
      refine (copyInto_window _ _ (Nat.le_add_right _ _) above).trans ?_
      rw [isCopied]
      exact holds

end

/-- The process goes on to another mode. -/
def Progress.advance
    (progress : Progress Process)
    (process : Process)
    (mode : Mode)
    (pending : Nat → Option Byte)
    (settled : Nat → Prop) : Progress Process where
  mode := update progress.mode process mode
  pending := update progress.pending process pending
  settled := settled

section

variable
  {setup : Setup Process}
  {progress : Progress Process}
  {state : State Process}
  {process : Process}

section

variable
    (safe : Safe setup progress state)
    (disjoint : setup.Disjoint)
    (writer : Writer)
    (mode : Mode)
    (follows : Follows mode writer.todo)

include safe disjoint follows

/-- The step of a process that writes the values `flushed` to the file, and
whose write changes nothing else that is settled. -/
theorem Safe.advance
    (file : File)
    (pending flushed : Nat → Option Byte)
    (fits : ∀ settled : Nat → Prop,
      (∀ place, settled place → progress.settled place ∨ flushed place ≠ none) →
        Fits file settled pending writer mode)
    (brought : ∀ place, ahead (state.writer process) (progress.pending process) place =
        (ahead writer pending place).or (flushed place))
    (writes : ∀ place value, flushed place = some value →
      place < file.size ∧ file.contents place = value)
    (keeps : ∀ place, flushed place = none → progress.settled place →
      file.contents place = state.file.contents place)
    (grows : state.file.size ≤ file.size)
    (away : ∀ other, other ≠ process → ∀ window, (state.writer other).window = some window →
        ∀ place, window.Has place → flushed place = none)
    (exclusive : ∀ other, other ≠ process → ∀ lock ∈ writer.held,
      ∀ foreign ∈ (state.writer other).held, lock.overlaps foreign = false) :
    ∃ progress', Safe setup progress'
      { file := file, writer := update state.writer process writer } := by
  generalize isSettled : (fun place =>
    progress.settled place ∨ flushed place ≠ none) = settled
  have settled_iff (place : Nat) :
      settled place ↔ progress.settled place ∨ flushed place ≠ none := by
    rw [← isSettled]
  refine ⟨progress.advance process mode pending settled, ?_, ?_, ?_⟩
  case refine_1 =>
    intro other
    simp only [Progress.advance]
    rcases eq_or_ne other process with rfl | different
    · rw [update_self, update_self, update_self]
      have good := safe.good other
      refine ⟨follows, fits settled fun place => (settled_iff place).1, ?_, ?_⟩
      · intro place value isAhead
        apply good.own
        rw [brought, isAhead, some_or]
      · intro place value isGoal nothing
        rw [settled_iff]
        cases isFlushed : flushed place with
        | some found =>
          have isOwn := good.own place found (by rw [brought, nothing, isFlushed, none_or])
          refine ⟨.inr (some_ne_none _), ?_⟩
          rw [(writes place found isFlushed).2]
          exact Option.some.inj (isOwn.symm.trans isGoal)
        | none =>
          obtain ⟨before, holds⟩ := good.arrived place value isGoal
            (by rw [brought, nothing, isFlushed, none_or])
          exact ⟨.inl before, (keeps place isFlushed before).trans holds⟩
    · rw [update_of_ne different, update_of_ne different, update_of_ne different]
      apply (safe.good other).frame flushed
      · intro place notFlushed before
        exact ⟨(settled_iff place).2 (.inl before), keeps place notFlushed before⟩
      · intro place notFlushed after
        exact ((settled_iff place).1 after).resolve_right (not_not_intro notFlushed)
      · intro place value isGoal
        by_contra isFlushed
        obtain ⟨found, isFound⟩ := ne_none_iff_exists'.1 isFlushed
        have isOwn : written (setup.calls process) place ≠ none := by
          cases isAhead : ahead writer pending place with
          | some first =>
            rw [(safe.good process).own place first (by rw [brought, isAhead, some_or])]
            exact some_ne_none _
          | none =>
            rw [(safe.good process).own place found (by rw [brought, isAhead, isFound, none_or])]
            exact some_ne_none _
        rcases disjoint other process different place with isNone | isNone
        · rw [isGoal] at isNone
          exact some_ne_none _ isNone
        · exact isOwn isNone
      · exact away other different
  case refine_2 =>
    intro first second different lock isLock other isOther
    simp only at isLock isOther
    rcases eq_or_ne first process with rfl | notFirst
    · rw [update_self] at isLock
      rw [update_of_ne different.symm] at isOther
      exact exclusive second different.symm lock isLock other isOther
    · rw [update_of_ne notFirst] at isLock
      rcases eq_or_ne second process with rfl | notSecond
      · rw [update_self] at isOther
        rw [Window.overlaps_comm]
        exact exclusive first notFirst other isOther lock isLock
      · rw [update_of_ne notSecond] at isOther
        exact safe.exclusive first second different lock isLock other isOther
  case refine_3 =>
    intro place isSettledNow
    rcases (settled_iff place).1 isSettledNow with before | isFlushed
    · exact lt_of_lt_of_le (safe.inFile place before) grows
    · obtain ⟨value, isValue⟩ := ne_none_iff_exists'.1 isFlushed
      exact (writes place value isValue).1

/-- The step of a process that leaves the file alone. -/
theorem Safe.quiet
    (pending : Nat → Option Byte)
    (fits : ∀ settled : Nat → Prop, (∀ place, settled place → progress.settled place) →
        Fits state.file settled pending writer mode)
    (brought : ahead (state.writer process) (progress.pending process) = ahead writer pending)
    (exclusive : ∀ other, other ≠ process → ∀ lock ∈ writer.held,
      ∀ foreign ∈ (state.writer other).held, lock.overlaps foreign = false) :
    ∃ progress', Safe setup progress'
      { file := state.file
        writer := update state.writer process writer } := by
  apply safe.advance disjoint writer mode follows state.file pending fun _ => none
  case fits =>
    intro settled before
    apply fits
    intro place isSettled
    exact (before place isSettled).resolve_right (not_not_intro rfl)
  case brought =>
    intro place
    rw [brought, or_none]
  case writes =>
    intro place value impossible
    exact absurd impossible (some_ne_none _).symm
  case keeps => exact fun _ _ _ => rfl
  case grows => exact le_refl _
  case away => exact fun _ _ _ _ _ _ => rfl
  case exclusive => exact exclusive

/-- A write to a window. What the process writes are its own values and values
that the file already has. -/
theorem Safe.write
    (window : Window)
    (bytes : Nat → Byte)
    (flushed : Nat → Option Byte)
    (fits : ∀ file settled, Fits file settled (fun _ => none) writer mode)
    (brought : ∀ place, ahead (state.writer process) (progress.pending process) place =
        (valueAt (piecesOf writer.todo) place).or (flushed place))
    (inside : ∀ place value, flushed place = some value →
      window.Has place ∧ bytes (place - window.off) = value)
    (same : ∀ place, window.Has place → flushed place = none → progress.settled place →
        bytes (place - window.off) = state.file.contents place)
    (away : ∀ other, other ≠ process → ∀ foreign,
      (state.writer other).window = some foreign → window.overlaps foreign = false)
    (exclusive : ∀ other, other ≠ process → ∀ lock ∈ writer.held,
      ∀ foreign ∈ (state.writer other).held, lock.overlaps foreign = false) :
    ∃ progress', Safe setup progress'
      { file := state.file.writeContig window.off window.len bytes
        writer := update state.writer process writer } := by
  apply safe.advance disjoint writer mode follows _ (fun _ => none) flushed
  case fits => exact fun settled _ => fits _ settled
  case brought =>
    intro place
    rw [brought, ahead, or_none]
  case writes =>
    intro place value isFlushed
    obtain ⟨⟨above, below⟩, holds⟩ := inside place value isFlushed
    refine ⟨File.lt_size_writeContig _ _ above below, ?_⟩
    rw [File.contents_writeContig_inside _ _ above below, holds]
  case keeps =>
    intro place notFlushed isSettled
    by_cases within : window.Has place
    · rw [File.contents_writeContig_inside _ _ within.1 within.2]
      exact same place within notFlushed isSettled
    · exact File.contents_writeContig_outside _ _ within (safe.inFile place isSettled)
  case grows => exact File.size_le_writeContig _ _ _ _
  case away =>
    intro other different foreign isForeign place within
    by_contra isFlushed
    obtain ⟨value, isValue⟩ := ne_none_iff_exists'.1 isFlushed
    have common := Window.overlaps_of_has (inside place value isValue).1 within
    rw [away other different foreign isForeign] at common
    exact Bool.false_ne_true common
  case exclusive => exact exclusive

end

variable (safe : Safe setup progress state)

include safe in
omit [DecidableEq Process] in
/-- Locks that a process had before are exclusive. -/
theorem Safe.exclusive_of_subset
    {held : List Window}
    (subset : held ⊆ (state.writer process).held) :
    ∀ other, other ≠ process → ∀ lock ∈ held,
      ∀ foreign ∈ (state.writer other).held, lock.overlaps foreign = false := by
  intro other different lock isLock
  exact safe.exclusive process other different.symm lock (subset isLock)

include safe in
omit [DecidableEq Process] in
/-- The window that a process has read is one it has locked. -/
theorem Safe.held_of_window
    {other : Process} {window : Window}
    (loaded : (state.writer other).window = some window) :
    window ∈ (state.writer other).held := by
  have fits := (safe.good other).fits
  cases isMode : progress.mode other with
  | sieving sieved =>
    simp only [isMode, Fits] at fits
    rw [fits.2.1, Option.some.injEq] at loaded
    rw [fits.1, ← loaded]
    exact mem_singleton_self _
  | idle | locked | written | packing =>
    simp only [isMode, Fits] at fits
    rw [fits.2.1] at loaded
    exact absurd loaded (some_ne_none _).symm

include safe in
/-- A packed window is written when all its bytes are the process's own. -/
theorem Safe.flushPacked
    (disjoint : setup.Disjoint)
    {writer : Writer}
    (isWriter : state.writer process = writer)
    {off filled : Nat} {rest : List Op}
    (isTodo : writer.todo = .writeBuf ⟨off, filled⟩ :: rest)
    (fits : Fits state.file progress.settled (progress.pending process)
      writer (.packing off filled))
    (mode : Mode)
    (follows : Follows mode rest)
    (fitsAfter : ∀ file settled, Fits file settled (fun _ => none)
        { writer with todo := rest, window := none } mode)
    (away : ∀ other, other ≠ process → ∀ foreign, (state.writer other).window = some foreign →
        Window.overlaps ⟨off, filled⟩ foreign = false) :
    ∃ progress', Safe setup progress'
      { file := state.file.writeContig off filled writer.writebuf
        writer := update state.writer process
          { writer with todo := rest, window := none } } := by
  refine safe.write disjoint { writer with todo := rest, window := none } mode follows
    ⟨off, filled⟩ _ (progress.pending process) fitsAfter ?_ ?_ ?_ away ?_
  · intro place
    rw [ahead, isWriter, isTodo]
    rfl
  · intro place value isPending
    obtain ⟨above, below, holds⟩ := fits.2.2.2 place value isPending
    exact ⟨⟨above, below⟩, holds⟩
  · intro place inside notPending
    exact absurd notPending (fits.2.2.1 place inside.1 inside.2)
  · exact safe.exclusive_of_subset (isWriter ▸ List.Subset.refl _)

end

/-- What a step does: the process makes the first of its accesses. -/
theorem step_cases
    {state next : State Process} {action : Action Process}
    (stepped : step state action = some next) :
    ∃ op rest, (state.writer action.process).todo = op :: rest ∧ next =
        { file := (perform state.file (state.writer action.process)
            action.garbage rest op).1
          writer := update state.writer action.process
            (perform state.file (state.writer action.process)
              action.garbage rest op).2 } := by
  simp only [step] at stepped
  split at stepped
  case h_1 => exact absurd stepped (some_ne_none _).symm
  case h_2 op rest isTodo => exact ⟨op, rest, isTodo, (Option.some.inj stepped).symm⟩

/-- A harmless step keeps the invariant. -/
theorem Safe.step
    {setup : Setup Process} {progress : Progress Process}
    {state next : State Process} {action : Action Process}
    (safe : Safe setup progress state)
    (disjoint : setup.Disjoint)
    (enabled : Enabled state action)
    (harmless : Harmless state action)
    (stepped : step state action = some next) :
    ∃ progress', Safe setup progress' next := by
  obtain ⟨op, rest, isTodo, rfl⟩ := step_cases stepped
  obtain ⟨process, garbage⟩ := action
  simp only [Enabled, isTodo] at enabled
  simp only [Harmless, isTodo, head?_cons, mem_some_iff, forall_eq'] at harmless
  have follows := (safe.good process).follows
  have fits := (safe.good process).fits
  have todo : ahead (state.writer process) (progress.pending process) =
      fun place => (valueAt (piecesOf (op :: rest)) place).or (progress.pending process place) := by
    funext place
    rw [ahead, isTodo]
  rw [isTodo] at follows
  generalize isMode : progress.mode process = mode at follows fits
  generalize isPending : progress.pending process = pending at fits todo
  generalize isWriter : state.writer process = writer at *
  cases follows with
  | malloc follows =>
    refine safe.quiet disjoint _ .idle follows pending ?_ ?_ ?_
    · exact fun _ _ => fits
    · rw [isWriter, isPending, todo]
      rfl
    · exact safe.exclusive_of_subset (isWriter ▸ List.Subset.refl _)
  | fill follows =>
    refine safe.quiet disjoint _ (.packing _ 0) follows pending ?_ ?_ ?_
    · intro _ _
      obtain ⟨held, loaded, nothing⟩ := fits
      refine ⟨held, loaded, fun place above below => by omega, ?_⟩
      intro place value isPending
      rw [nothing] at isPending
      exact absurd isPending (some_ne_none _).symm
    · rw [isWriter, isPending, todo]
      rfl
    · exact safe.exclusive_of_subset (isWriter ▸ List.Subset.refl _)
  | memset follows =>
    refine safe.quiet disjoint _ .idle follows pending ?_ ?_ ?_
    · exact fun _ _ => fits
    · rw [isWriter, isPending, todo]
      rfl
    · exact safe.exclusive_of_subset (isWriter ▸ List.Subset.refl _)
  | lock follows =>
    refine safe.quiet disjoint _ (.locked _) follows pending ?_ ?_ ?_
    · intro _ _
      obtain ⟨held, loaded, nothing⟩ := fits
      exact ⟨congrArg _ held, loaded, nothing⟩
    · rw [isWriter, isPending, todo]
      rfl
    · obtain ⟨held, _, _⟩ := fits
      intro other different lock isLock foreign isForeign
      simp only [perform, held, mem_singleton] at isLock
      rw [isLock, Window.overlaps_comm]
      by_contra common
      exact enabled ⟨other, different, foreign, isForeign, Bool.not_eq_false _ ▸ common⟩
  | read follows =>
    refine safe.quiet disjoint _ (.sieving _) follows pending ?_ ?_ ?_
    · intro settled subset
      exact (fits.read safe.inFile rest).mono subset
    · rw [isWriter, isPending, todo]
      rfl
    · exact safe.exclusive_of_subset (isWriter ▸ List.Subset.refl _)
  | @modify window reqOff data _ above below follows =>
    refine safe.quiet disjoint _ (.sieving window) follows
      (fun place => (pieceAt (reqOff, data) place).or (pending place)) ?_ ?_ ?_
    · intro settled subset
      exact (fits.modify above below rest).mono subset
    · rw [isWriter, isPending, todo]
      funext place
      exact Option.or_assoc
    · exact safe.exclusive_of_subset (isWriter ▸ List.Subset.refl _)
  | @pack off filled data _ follows =>
    refine safe.quiet disjoint _ (.packing off (filled + data.length)) follows
      (fun place => (pieceAt (off + filled, data) place).or (pending place)) ?_ ?_ ?_
    · intro settled subset
      exact (fits.pack data rest).mono subset
    · rw [isWriter, isPending, todo]
      funext place
      exact Option.or_assoc
    · exact safe.exclusive_of_subset (isWriter ▸ List.Subset.refl _)
  | @unlock window _ follows =>
    refine safe.quiet disjoint _ .idle follows pending ?_ ?_ ?_
    · intro _ _
      obtain ⟨held, loaded, nothing⟩ := fits
      refine ⟨?_, loaded, nothing⟩
      simp only [perform, held, erase_cons_head]
    · rw [isWriter, isPending, todo]
      rfl
    · apply safe.exclusive_of_subset
      rw [isWriter]
      exact erase_subset
  | @direct off data _ follows =>
    refine safe.write disjoint { writer with todo := rest } .idle follows ⟨off, data.length⟩
      (fun index => data.getD index 0) (pieceAt (off, data))
      ?_ ?_ ?_ ?_ ?_ ?_
    · exact fun _ _ => ⟨fits.1, fits.2.1, rfl⟩
    · intro place
      rw [isWriter, isPending, todo, fits.2.2]
      exact or_none
    · intro place value isCopied
      have range := pieceAt_eq_some isCopied
      refine ⟨range, ?_⟩
      rw [pieceAt, if_pos range.1] at isCopied
      rw [getD_eq_getElem?_getD, isCopied]
      rfl
    · intro place inside notCopied
      have covered : (pieceAt (off, data) place).isSome := pieceAt_isSome.2 ⟨inside.1, inside.2⟩
      rw [notCopied] at covered
      exact absurd covered Bool.false_ne_true
    · exact fun other different foreign isForeign =>
        harmless fits.1 _ rfl other different foreign isForeign
    · exact safe.exclusive_of_subset (isWriter ▸ List.Subset.refl _)
  | @writeBack window _ follows =>
    refine safe.write disjoint { writer with todo := rest, window := none } (.written window)
      follows window _ pending ?_ ?_ ?_ ?_ ?_ ?_
    · exact fun _ _ => ⟨fits.1, rfl, rfl⟩
    · intro place
      rw [isWriter, isPending, todo]
      rfl
    · exact fits.2.2.1
    · exact fits.2.2.2
    · intro other different foreign isForeign
      apply safe.exclusive process other different.symm window _ foreign
        (safe.held_of_window isForeign)
      rw [isWriter, fits.1]
      exact mem_singleton_self _
    · exact safe.exclusive_of_subset (isWriter ▸ List.Subset.refl _)
  | @flush off filled next _ follows =>
    refine safe.flushPacked disjoint isWriter isTodo (isPending ▸ fits)
      (.packing next 0) follows (fun _ _ => ?_) (harmless fits.1 _ rfl)
    exact ⟨fits.1, rfl, fun _ _ _ => by omega,
      fun _ _ isSome => absurd isSome (some_ne_none _).symm⟩
  | @flushLast off filled _ follows =>
    refine safe.flushPacked disjoint isWriter isTodo (isPending ▸ fits)
      .idle follows (fun _ _ => ?_) (harmless fits.1 _ rfl)
    exact ⟨fits.1, rfl, rfl⟩

end Mpich.Romio.Independent
