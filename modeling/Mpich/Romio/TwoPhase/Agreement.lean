import Mpich.Foundation.FiniteSum
import Mpich.Romio.TwoPhase.Departures
import Mpich.Romio.TwoPhase.Rounds

/-!
# Failures in the middle of a collective access

The number of rounds is agreed on before the first one. A process whose read or
write of the file fails returns at once, so it does not take part in the rounds
that are left. The others finish exactly when they do not wait for it: when all
processes return in the same round, or when the round is the last one and the
process, if it returns in front of the exchange of data, has no data to exchange
with a process that stays.
-/

namespace Mpich.Romio.TwoPhase

def mpiSuccess : Nat := 0

def mpiErrArg : Nat := 12

def mpiErrIo : Nat := 32

/-- What the file system and the messages do: the error codes of
`ADIO_ReadContig` and `ADIO_WriteContig` of a process in a round, the error code
`MPIO_Err_create_code` makes for a class, and the sizes of messages that are
sent without waiting for the receiver. -/
structure Environment (nprocs : Nat) where
  readContig : Fin nprocs → Nat → Nat
  writeContig : Fin nprocs → Nat → Nat
  errCreateCode : Nat → Nat
  eager : Nat → Bool
  errCreateCode_ne : ∀ errorClass, errCreateCode errorClass ≠ mpiSuccess

/-- What a process does by itself: its exchanges, the error codes of its
accesses to the file, and its own `error_code`. -/
structure LocalRun where
  phases : List Phase
  accessCodes : List Nat
  errorCode : Nat

namespace Aggregation

variable {nprocs : Nat}
  (aggregation : Aggregation nprocs)
  (environment : Environment nprocs)

/-- `nprocs_recv` is not zero. -/
def Receives
    (myrank : Fin nprocs)
    (round : Nat) : Prop :=
  ∃ process, aggregation.volume myrank process round ≠ 0

/-- The window is read before it is written. -/
def ReadsFirst
    (myrank : Fin nprocs)
    (round : Nat) : Prop :=
  aggregation.Receives myrank round ∧ aggregation.hole myrank round = true

/-- The error "filetype specifies overlapping write regions". -/
def Overlapping
    (myrank : Fin nprocs)
    (round : Nat) : Prop :=
  round < aggregation.ntimes myrank ∧
    ∃ process, (aggregation.scanned myrank process round).behind.isSome = true

instance
    (myrank : Fin nprocs)
    (round : Nat) : Decidable (aggregation.Receives myrank round) :=
  inferInstanceAs (Decidable (∃ _, _))

instance
    (myrank : Fin nprocs)
    (round : Nat) : Decidable (aggregation.ReadsFirst myrank round) :=
  inferInstanceAs (Decidable (_ ∧ _))

instance
    (myrank : Fin nprocs)
    (round : Nat) : Decidable (aggregation.Overlapping myrank round) :=
  inferInstanceAs (Decidable (_ ∧ _))

/-- The rounds of `ADIOI_Exch_and_write`, with `ADIOI_W_Exchange_data`. -/
def writeRounds
    (myrank : Fin nprocs) : Nat → Nat → LocalRun
  | 0, _ => ⟨[], [], mpiSuccess⟩
  | remaining + 1, round =>
    let overlapping :=
      if aggregation.Overlapping myrank round then
        environment.errCreateCode mpiErrArg
      else mpiSuccess
    let readCodes :=
      if aggregation.ReadsFirst myrank round then
        [environment.readContig myrank round]
      else []
    if aggregation.ReadsFirst myrank round ∧ environment.readContig myrank round ≠ mpiSuccess then
      ⟨[.sizes round], readCodes, environment.errCreateCode mpiErrIo⟩
    else if overlapping ≠ mpiSuccess then
      ⟨[.sizes round, .data round], readCodes, overlapping⟩
    else
      let writeCodes :=
        if aggregation.Occupied myrank round then
          [environment.writeContig myrank round]
        else []
      if aggregation.Occupied myrank round ∧ environment.writeContig myrank round ≠ mpiSuccess then
        ⟨[.sizes round, .data round], readCodes ++ writeCodes, environment.writeContig myrank round⟩
      else
        let later := writeRounds myrank remaining (round + 1)
        ⟨.sizes round :: .data round :: later.phases,
          readCodes ++ writeCodes ++ later.accessCodes, later.errorCode⟩

/-- `ADIOI_Exch_and_write`. -/
def exchAndWrite
    (myrank : Fin nprocs) : LocalRun :=
  aggregation.writeRounds environment myrank aggregation.maxNtimes 0

/-- A process waits for the data it receives, and for the receiver of data that
is not sent at once. -/
def WriteMeets
    (process other : Fin nprocs)
    (round : Nat) : Prop :=
  aggregation.volume process other round ≠ 0 ∨ aggregation.volume other process round ≠ 0 ∧
      environment.eager (aggregation.volume other process round) = false

/-- `ranklist[0]`. -/
def root : Fin nprocs :=
  aggregation.ranklist ⟨0, aggregation.cbNodesPositive⟩

/-- The error codes come from the only aggregator by `MPI_Bcast`, or from all
processes by `MPI_Allreduce`. -/
def CodesFrom
    (_process other : Fin nprocs) : Prop :=
  aggregation.cbNodes = 1 → other = aggregation.root

/-- The exchanges of a collective write, from the first round to the exchange of
the error codes in `ADIOI_GEN_WriteStridedColl`. -/
def writePrograms : PhasedPrograms (Fin nprocs) Phase where
  program := fun myrank =>
    (aggregation.exchAndWrite environment myrank).phases ++ [.codes]
  waitsFor := fun process phase other =>
    match phase with
    | .sizes _ => True
    | .data round => aggregation.WriteMeets environment process other round
    | .codes => aggregation.CodesFrom process other

/-- The error code that is sent to the others. -/
def classOf
    (errorCode : Nat) : Nat :=
  if errorCode ≠ mpiSuccess then mpiErrIo else mpiSuccess

/-- The result of the exchange of the error codes. -/
def exchangedCode : Nat :=
  let sent (myrank : Fin nprocs) : Nat :=
    classOf (aggregation.exchAndWrite environment myrank).errorCode
  if aggregation.cbNodes = 1 then sent aggregation.root
  else (List.ofFn sent).foldl max mpiSuccess

/-- The error code that `ADIOI_GEN_WriteStridedColl` returns. -/
def writeErrorCode
    (myrank : Fin nprocs) : Nat :=
  let oldError := (aggregation.exchAndWrite environment myrank).errorCode
  if oldError ≠ mpiSuccess ∧ oldError ≠ mpiErrIo then oldError
  else aggregation.exchangedCode environment

/-- A collective write agrees on failure: all processes finish their exchanges,
and all return an error if an access to the file has failed. -/
def WriteAgrees : Prop :=
  (aggregation.writePrograms environment).Completes ∧ ((∃ myrank, ∃ code ∈
        (aggregation.exchAndWrite environment myrank).accessCodes, code ≠ mpiSuccess) →
      ∀ myrank, aggregation.writeErrorCode environment myrank ≠ mpiSuccess)

/-- The rounds of `ADIOI_Read_and_exch`. -/
def readRounds
    (myrank : Fin nprocs) : Nat → Nat → LocalRun
  | 0, _ => ⟨[], [], mpiSuccess⟩
  | remaining + 1, round =>
    let readCodes :=
      if aggregation.Occupied myrank round then
        [environment.readContig myrank round]
      else []
    if aggregation.Occupied myrank round ∧ environment.readContig myrank round ≠ mpiSuccess then
      ⟨[], readCodes, environment.readContig myrank round⟩
    else
      let later := readRounds myrank remaining (round + 1)
      ⟨.sizes round :: .data round :: later.phases, readCodes ++ later.accessCodes, later.errorCode⟩

/-- `ADIOI_Read_and_exch`. -/
def readAndExch
    (myrank : Fin nprocs) : LocalRun :=
  aggregation.readRounds environment myrank aggregation.maxNtimes 0

/-- A process waits for the data it receives, and for the receiver of data that
is not sent at once. -/
def ReadMeets
    (process other : Fin nprocs)
    (round : Nat) : Prop :=
  aggregation.volume other process round ≠ 0 ∨ aggregation.volume process other round ≠ 0 ∧
      environment.eager (aggregation.volume process other round) = false

/-- The exchanges of a collective read. -/
def readPrograms : PhasedPrograms (Fin nprocs) Phase where
  program := fun myrank => (aggregation.readAndExch environment myrank).phases
  waitsFor := fun process phase other =>
    match phase with
    | .sizes _ => True
    | .data round => aggregation.ReadMeets environment process other round
    | .codes => False

/-- A collective read agrees on failure: all processes finish their exchanges.
-/
def ReadAgrees : Prop :=
  (aggregation.readPrograms environment).Completes

/-- The read of a read-modify-write fails. -/
def ModifyReadFails
    (myrank : Fin nprocs)
    (round : Nat) : Prop :=
  aggregation.ReadsFirst myrank round ∧ environment.readContig myrank round ≠ mpiSuccess

/-- The read of a collective read fails. -/
def ReadFails
    (myrank : Fin nprocs)
    (round : Nat) : Prop :=
  aggregation.Occupied myrank round ∧ environment.readContig myrank round ≠ mpiSuccess

/-- A process returns from a collective write in the round, behind it at the
latest. -/
def ReturnsIn
    (myrank : Fin nprocs)
    (round : Nat) : Prop :=
  aggregation.ModifyReadFails environment myrank round ∨
    aggregation.Overlapping myrank round ∨ aggregation.Occupied myrank round ∧
      environment.writeContig myrank round ≠ mpiSuccess

/-- In the first round of a write in which a process returns, a process whose
read fails has no data to exchange with a process that stays, and if the round
is not the last one, all processes return. -/
def WriteHarmless : Prop :=
  ∀ round < aggregation.maxNtimes, (∀ myrank, ∀ earlier < round,
      ¬ aggregation.ReturnsIn environment myrank earlier) →
    (∀ process other, ¬ aggregation.ModifyReadFails environment process round →
        aggregation.WriteMeets environment process other round →
          ¬ aggregation.ModifyReadFails environment other round) ∧
    (round + 1 < aggregation.maxNtimes →
      (∃ myrank, aggregation.ReturnsIn environment myrank round) →
        ∀ myrank, aggregation.ReturnsIn environment myrank round)

/-- In the first round of a read in which a read of the file fails, it fails at
all processes. -/
def ReadHarmless : Prop :=
  ∀ round < aggregation.maxNtimes, (∀ myrank, ∀ earlier < round,
      ¬ aggregation.ReadFails environment myrank earlier) →
    (∃ myrank, aggregation.ReadFails environment myrank round) →
      ∀ myrank, aggregation.ReadFails environment myrank round

end Mpich.Romio.TwoPhase.Aggregation

/-!
## When a collective access agrees on failure

The exchanges of a write and of a read are programs with departures, which
complete exactly when they are orderly. The error codes of a write always agree:
a failed access leaves an error code at its process, and only an aggregator
accesses the file.
-/

namespace Mpich.Romio.TwoPhase.Aggregation

open List

variable {nprocs : Nat}
  {aggregation : Aggregation nprocs}
  {environment : Environment nprocs}

/-- Where a process leaves a collective write. -/
def writeDeparture
    (aggregation : Aggregation nprocs)
    (environment : Environment nprocs)
    (myrank : Fin nprocs) : Departure where
  infront := fun round =>
    match round with
    | 0 => False
    | earlier + 1 =>
      aggregation.Overlapping myrank earlier ∨ aggregation.Occupied myrank earlier ∧
          environment.writeContig myrank earlier ≠ mpiSuccess
  between := aggregation.ModifyReadFails environment myrank

variable {round : Nat}

theorem phases_of_infront
    {departure : Departure} {remaining : Nat}
    (infront : departure.infront round) :
    departure.phases remaining round = [] := by
  cases remaining with
  | zero => rfl
  | succ remaining => rw [Departure.phases, if_pos infront]

variable {myrank : Fin nprocs}

theorem writeRounds_phases
    {remaining : Nat}
    (comes : ¬ (aggregation.writeDeparture environment myrank).infront round) :
    (aggregation.writeRounds environment myrank remaining round).phases =
      (aggregation.writeDeparture environment myrank).phases remaining round := by
  induction remaining generalizing round with
  | zero => rfl
  | succ remaining ih =>
    have createsError := environment.errCreateCode_ne mpiErrArg
    rw [Departure.phases, if_neg comes, writeRounds]
    by_cases modifyReadFails :
        aggregation.ModifyReadFails environment myrank round
    case pos =>
      rw [if_pos (show (aggregation.writeDeparture environment
        myrank).between round from modifyReadFails)]
      unfold ModifyReadFails at modifyReadFails
      simp only [if_pos modifyReadFails]
    case neg =>
      rw [if_neg (show ¬ (aggregation.writeDeparture environment
        myrank).between round from modifyReadFails)]
      unfold ModifyReadFails at modifyReadFails
      simp only [if_neg modifyReadFails]
      by_cases leaves :
          (aggregation.writeDeparture environment myrank).infront (round + 1)
      case pos =>
        rw [phases_of_infront leaves]
        rcases leaves with overlapping | writeFails
        · simp only [if_pos overlapping, if_pos createsError]
        · simp only [if_pos writeFails]
          split <;> rfl
      case neg =>
        have later := ih leaves
        have stays := not_or.mp leaves
        have notOverlapping : ¬ mpiSuccess ≠ mpiSuccess := not_not.mpr rfl
        simp only [if_neg stays.1, if_neg stays.2, if_neg notOverlapping, later]

/-- The exchanges of a collective write. -/
def writeExchanges
    (aggregation : Aggregation nprocs)
    (environment : Environment nprocs) : Exchanges (Fin nprocs) where
  rounds := aggregation.maxNtimes
  departure := aggregation.writeDeparture environment
  meets := aggregation.WriteMeets environment
  agree := true
  codesFrom := aggregation.CodesFrom

theorem writePrograms_eq :
    aggregation.writePrograms environment = (aggregation.writeExchanges environment).programs := by
  have programs : (fun myrank =>
      (aggregation.exchAndWrite environment myrank).phases ++ [.codes]) =
        (aggregation.writeExchanges environment).programs.program := by
    funext myrank
    have comes : ¬ (aggregation.writeDeparture environment myrank).infront 0 := not_false
    rw [exchAndWrite, writeRounds_phases comes]
    rfl
  rw [writePrograms, programs]
  rfl

theorem write_left_iff :
    ¬ (aggregation.writeDeparture environment myrank).Left round ↔
      ∀ earlier < round, ¬ aggregation.ReturnsIn environment myrank earlier := by
  induction round with
  | zero =>
    refine iff_of_true not_false fun earlier below => ?_
    exact absurd below (Nat.not_lt_zero earlier)
  | succ round ih =>
    rw [Departure.Left, not_or, ih]
    constructor
    · rintro ⟨before, last⟩ earlier below
      rcases Nat.lt_succ_iff_lt_or_eq.mp below with below | rfl
      · exact before earlier below
      · exact last
    · intro all
      exact ⟨fun earlier below => all earlier (Nat.lt_succ_of_lt below),
        all round (Nat.lt_succ_self round)⟩

theorem writeExchanges_orderly :
    (aggregation.writeExchanges environment).Orderly ↔ aggregation.WriteHarmless environment := by
  have together (round : Nat) :
      (aggregation.writeExchanges environment).Together round ↔
        ∀ myrank, ∀ earlier < round, ¬ aggregation.ReturnsIn environment myrank earlier :=
    forall_congr' fun myrank => write_left_iff
  constructor
  · intro orderly round below stays
    exact ⟨orderly.data round below ((together round).mpr stays),
      fun next => orderly.next round next ((together round).mpr stays)⟩
  · intro harmless
    exact
      { start := fun _ ⟨_, impossible⟩ => impossible.elim
        data := fun round below all =>
          (harmless round below ((together round).mp all)).1
        next := fun round next all =>
          (harmless round (Nat.lt_of_succ_lt next) ((together round).mp all)).2
            next }

/-- Where a process leaves a collective read. -/
def readDeparture
    (aggregation : Aggregation nprocs)
    (environment : Environment nprocs)
    (myrank : Fin nprocs) : Departure where
  infront := aggregation.ReadFails environment myrank
  between := fun _ => False

theorem readRounds_phases
    (myrank : Fin nprocs)
    (remaining round : Nat) :
    (aggregation.readRounds environment myrank remaining round).phases =
      (aggregation.readDeparture environment myrank).phases remaining round := by
  induction remaining generalizing round with
  | zero => rfl
  | succ remaining ih =>
    have notBetween :
        ¬ (aggregation.readDeparture environment myrank).between round :=
      not_false
    rw [Departure.phases, if_neg notBetween, readRounds]
    by_cases readFails : aggregation.ReadFails environment myrank round
    case pos =>
      rw [if_pos (show (aggregation.readDeparture environment myrank).infront round from readFails)]
      unfold ReadFails at readFails
      simp only [if_pos readFails]
    case neg =>
      rw [if_neg (show ¬ (aggregation.readDeparture environment
        myrank).infront round from readFails)]
      unfold ReadFails at readFails
      simp only [if_neg readFails, ih]

/-- The exchanges of a collective read. -/
def readExchanges
    (aggregation : Aggregation nprocs)
    (environment : Environment nprocs) : Exchanges (Fin nprocs) where
  rounds := aggregation.maxNtimes
  departure := aggregation.readDeparture environment
  meets := aggregation.ReadMeets environment
  agree := false
  codesFrom := fun _ _ => False

theorem readPrograms_eq :
    aggregation.readPrograms environment = (aggregation.readExchanges environment).programs := by
  have programs : (fun myrank =>
      (aggregation.readAndExch environment myrank).phases) =
        (aggregation.readExchanges environment).programs.program := by
    funext myrank
    rw [readAndExch, readRounds_phases]
    exact (append_nil _).symm
  rw [readPrograms, programs]
  rfl

theorem read_left_iff :
    ¬ (aggregation.readDeparture environment myrank).Left round ↔
      ∀ earlier ≤ round, ¬ aggregation.ReadFails environment myrank earlier := by
  induction round with
  | zero =>
    refine ⟨fun comes earlier below => ?_, fun all => all 0 (le_refl 0)⟩
    rw [Nat.le_zero.mp below]
    exact comes
  | succ round ih =>
    rw [Departure.Left, Departure.Leaves, not_or, not_or, ih]
    constructor
    · rintro ⟨before, _, last⟩ earlier below
      rcases Nat.le_succ_iff.mp below with below | rfl
      · exact before earlier below
      · exact last
    · intro all
      exact ⟨fun earlier below => all earlier (Nat.le_succ_of_le below),
        not_false, all (round + 1) (le_refl _)⟩

theorem readExchanges_orderly :
    (aggregation.readExchanges environment).Orderly ↔ aggregation.ReadHarmless environment := by
  have together (round : Nat) :
      (aggregation.readExchanges environment).Together round ↔ ∀ myrank, ∀ earlier < round + 1,
          ¬ aggregation.ReadFails environment myrank earlier := by
    simp only [Nat.lt_succ_iff]
    exact forall_congr' fun myrank => read_left_iff
  constructor
  · intro orderly round below stays someone
    cases round with
    | zero => exact orderly.start below someone
    | succ round =>
      have next := orderly.next round below ((together round).mpr stays)
      obtain ⟨process, fails⟩ := someone
      intro myrank
      rcases next ⟨process, .inr fails⟩ myrank with impossible | fails
      · exact impossible.elim
      · exact fails
  · intro harmless
    refine
      { start := fun below someone => harmless 0 below
          (fun _ earlier impossible => absurd impossible (Nat.not_lt_zero _))
          someone
        data := fun _ _ _ _ _ _ _ => not_false
        next := fun round next all someone myrank => .inr ?_ }
    obtain ⟨process, impossible | fails⟩ := someone
    · exact impossible.elim
    · exact harmless (round + 1) next ((together round).mp all) ⟨process, fails⟩ myrank

section

variable
    {myrank : Fin nprocs}

theorem requests_ne_nil
    (occupied : aggregation.Occupied myrank round) :
    aggregation.requests myrank ≠ [] := by
  obtain ⟨process, some⟩ := occupied
  intro none
  apply some
  have noWindow : ¬ round < aggregation.ntimes myrank := by
    rw [ntimes, if_pos none]
    exact Nat.not_lt_zero round
  rw [entries, if_neg noWindow]

theorem Receives.occupied
    (receives : aggregation.Receives myrank round) :
    aggregation.Occupied myrank round := by
  obtain ⟨process, some⟩ := receives
  refine ⟨process, fun none => some ?_⟩
  rw [volume, none]
  rfl

/-- Only an aggregator has requests in its file domain. -/
theorem aggregator_of_requests (some : aggregation.requests myrank ≠ []) :
    myrank ∈ Set.range aggregation.ranklist := by
  obtain ⟨access, member⟩ := exists_mem_of_ne_nil _ some
  obtain ⟨process, _, isRequest⟩ := mem_flatMap.mp member
  exact aggregation.aggregator myrank process (ne_nil_of_mem isRequest)

/-- A process without requests in its file domain does not access the file. -/
theorem accessCodes_eq_nil
    (none : aggregation.requests myrank = [])
    (remaining round : Nat) :
    (aggregation.writeRounds environment myrank remaining round).accessCodes = [] := by
  have notOccupied (round : Nat) : ¬ aggregation.Occupied myrank round :=
    fun occupied => requests_ne_nil occupied none
  have notReads (round : Nat) : ¬ aggregation.ReadsFirst myrank round :=
    fun reads => notOccupied round reads.1.occupied
  induction remaining generalizing round with
  | zero => rfl
  | succ remaining ih =>
    simp only [writeRounds, notReads round, notOccupied round, false_and, if_false]
    split
    case isTrue => rw [if_pos (environment.errCreateCode_ne mpiErrArg)]
    case isFalse => exact ih (round + 1)

/-- A failed access leaves an error code at its process. -/
theorem errorCode_ne
    {remaining : Nat} {code : Nat}
    (member : code ∈ (aggregation.writeRounds environment myrank remaining round).accessCodes)
    (failed : code ≠ mpiSuccess) :
    (aggregation.writeRounds environment myrank remaining round).errorCode ≠ mpiSuccess := by
  induction remaining generalizing round with
  | zero => exact absurd member not_mem_nil
  | succ remaining ih =>
    rw [writeRounds] at member ⊢
    by_cases readFails : aggregation.ReadsFirst myrank round ∧
        environment.readContig myrank round ≠ mpiSuccess
    case pos =>
      simp only [if_pos readFails]
      exact environment.errCreateCode_ne mpiErrIo
    case neg =>
      simp only [if_neg readFails] at member ⊢
      by_cases overlapping : aggregation.Overlapping myrank round
      case pos =>
        have createsError := environment.errCreateCode_ne mpiErrArg
        simp only [if_pos overlapping, if_pos createsError]
        exact createsError
      case neg =>
        have noError : ¬ mpiSuccess ≠ mpiSuccess := not_not.mpr rfl
        simp only [if_neg overlapping, if_neg noError] at member ⊢
        by_cases writeFails : aggregation.Occupied myrank round ∧
            environment.writeContig myrank round ≠ mpiSuccess
        case pos =>
          rw [if_pos writeFails]
          exact writeFails.2
        case neg =>
          rw [if_neg writeFails] at member ⊢
          rw [mem_append, mem_append] at member
          rcases member with (read | written) | later
          · split at read
            case isTrue reads =>
              rw [mem_singleton.mp read] at failed
              exact absurd ⟨reads, failed⟩ readFails
            case isFalse => exact absurd read not_mem_nil
          · split at written
            case isTrue occupied =>
              rw [mem_singleton.mp written] at failed
              exact absurd ⟨occupied, failed⟩ writeFails
            case isFalse => exact absurd written not_mem_nil
          · exact ih later

end

theorem classOf_ne
    {errorCode : Nat}
    (failed : errorCode ≠ mpiSuccess) :
    classOf errorCode = mpiErrIo :=
  if_pos failed

/-- If an access has failed, the exchanged code is an error. -/
theorem exchangedCode_ne
    {code : Nat}
    (member : code ∈ (aggregation.exchAndWrite environment myrank).accessCodes)
    (failed : code ≠ mpiSuccess) :
    aggregation.exchangedCode environment ≠ mpiSuccess := by
  have ownError : classOf (aggregation.exchAndWrite environment myrank).errorCode = mpiErrIo :=
    classOf_ne (errorCode_ne member failed)
  have isError : mpiErrIo ≠ mpiSuccess := by decide
  simp only [exchangedCode]
  split
  case isTrue single =>
    have some : aggregation.requests myrank ≠ [] := by
      intro none
      rw [exchAndWrite, accessCodes_eq_nil none] at member
      exact not_mem_nil member
    obtain ⟨index, isAggregator⟩ := aggregator_of_requests some
    have first : index = ⟨0, aggregation.cbNodesPositive⟩ := by
      apply Fin.ext
      have bound : index.val < 1 := single ▸ index.isLt
      exact Nat.lt_one_iff.mp bound
    rw [root, ← first, isAggregator, ownError]
    exact isError
  case isFalse =>
    have sent : mpiErrIo ∈ ofFn fun process =>
        classOf (aggregation.exchAndWrite environment process).errorCode :=
      mem_ofFn.mpr ⟨myrank, ownError⟩
    have most : mpiErrIo ≤ _ := Extremes.le_foldl_max id sent mpiSuccess
    exact ne_of_gt (lt_of_lt_of_le (by decide) most)

theorem writeErrorCode_ne
    (someFailed : ∃ myrank, ∃ code ∈
      (aggregation.exchAndWrite environment myrank).accessCodes, code ≠ mpiSuccess)
    (myrank : Fin nprocs) :
    aggregation.writeErrorCode environment myrank ≠ mpiSuccess := by
  obtain ⟨process, code, member, failed⟩ := someFailed
  simp only [writeErrorCode]
  split
  case isTrue own => exact own.1
  case isFalse => exact exchangedCode_ne member failed

theorem writeAgrees_iff :
    aggregation.WriteAgrees environment ↔ aggregation.WriteHarmless environment := by
  rw [WriteAgrees, and_iff_left writeErrorCode_ne, writePrograms_eq,
    Exchanges.completes_iff_orderly, writeExchanges_orderly]

theorem readAgrees_iff :
    aggregation.ReadAgrees environment ↔ aggregation.ReadHarmless environment := by
  rw [ReadAgrees, readPrograms_eq, Exchanges.completes_iff_orderly, readExchanges_orderly]

/-- One aggregator with a buffer of one byte; each of two processes writes, or
reads, one of two bytes. -/
def twoBytes : Aggregation 2 where
  cbNodes := 1
  ranklist := fun _ => ⟨0, Nat.two_pos⟩
  collBufsize := 1
  othersReq := fun myrank process => if myrank.val = 0 then [⟨process, 1⟩] else []
  cbNodesPositive := Nat.one_pos
  collBufsizePositive := Nat.one_pos
  lensPositive := by decide
  aggregator := by decide

/-- All accesses to the file fail with the class of errors of input and output.
-/
def broken : Environment 2 where
  readContig := fun _ _ => mpiErrIo
  writeContig := fun _ _ => mpiErrIo
  errCreateCode := fun _ => mpiErrIo
  eager := fun _ => true
  errCreateCode_ne := fun _ => by decide

end Mpich.Romio.TwoPhase.Aggregation
