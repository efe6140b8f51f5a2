import Mpich.Foundation.PhasedPrograms

/-!
# Leaving the rounds of a collective access

In every round all processes exchange the sizes of their messages, then the
data. A process may leave in front of a round or between the sizes and the data;
in the end it comes to the exchange of the error codes. An exchange of sizes
waits for all processes, one of data for the processes that data comes from or
goes to.
-/

namespace Mpich.Romio.TwoPhase

open List

/-- The exchanges of a process. -/
inductive Phase
  | sizes (round : Nat)
  | data (round : Nat)
  | codes
deriving DecidableEq

/-- Where a process would leave: in front of a round, or between the sizes and
the data of a round. -/
structure Departure where
  infront : Nat → Prop
  between : Nat → Prop

namespace Departure

variable (departure : Departure)

/-- The process does not come from the sizes of this round to those of the next
one. -/
def Leaves
    (round : Nat) : Prop :=
  departure.between round ∨ departure.infront (round + 1)

/-- The process does not come to the sizes of the round. -/
def Left : Nat → Prop
  | 0 => departure.infront 0
  | round + 1 => Left round ∨ departure.Leaves round

open Classical in
/-- The exchanges of so many rounds, the first of which is `round`. -/
noncomputable def phases : Nat → Nat → List Phase
  | 0, _ => []
  | remaining + 1, round =>
    if departure.infront round then []
    else .sizes round ::
      if departure.between round then []
      else .data round :: phases remaining (round + 1)

variable {departure}

/-- From the first round on, the process comes to the sizes of this one. -/
def Stays
    (departure : Departure)
    (first round : Nat) : Prop :=
  ¬ departure.infront first ∧
    ∀ earlier, first ≤ earlier → earlier < round → ¬ departure.Leaves earlier

variable {first : Nat}

theorem stays_self :
    departure.Stays first first ↔ ¬ departure.infront first := by
  refine and_iff_left ?_
  omega

variable {round : Nat}

theorem stays_cons
    (later : first < round) :
    departure.Stays first round ↔ ¬ departure.infront first ∧ ¬ departure.between first ∧
        departure.Stays (first + 1) round := by
  constructor
  · rintro ⟨infront, stays⟩
    have staysFirst := not_or.mp (stays first (le_refl first) later)
    exact ⟨infront, staysFirst.1, staysFirst.2, fun earlier above below =>
      stays earlier (Nat.le_of_succ_le above) below⟩
  · rintro ⟨infront, between, next, stays⟩
    refine ⟨infront, fun earlier above below => ?_⟩
    rcases Nat.eq_or_lt_of_le above with rfl | above
    · exact not_or.mpr ⟨between, next⟩
    · exact stays earlier above below

theorem stays_zero :
    departure.Stays 0 round ↔ ¬ departure.Left round := by
  induction round with
  | zero => exact stays_self
  | succ round ih =>
    rw [Left, not_or, ← ih]
    constructor
    · rintro ⟨infront, stays⟩
      exact ⟨⟨infront, fun earlier above below =>
        stays earlier above (Nat.lt_succ_of_lt below)⟩,
        stays round (Nat.zero_le round) (Nat.lt_succ_self round)⟩
    · rintro ⟨⟨infront, stays⟩, last⟩
      refine ⟨infront, fun earlier above below => ?_⟩
      rcases Nat.lt_succ_iff_lt_or_eq.mp below with below | rfl
      · exact stays earlier above below
      · exact last

theorem mem_phases_succ
    {remaining : Nat}
    {phase : Phase} :
    phase ∈ departure.phases (remaining + 1) first ↔
      ¬ departure.infront first ∧ (phase = .sizes first ∨
        ¬ departure.between first ∧ (phase = .data first ∨
          phase ∈ departure.phases remaining (first + 1))) := by
  simp only [phases, apply_ite (phase ∈ ·), mem_cons, not_mem_nil, if_false_left]

/-- The sizes are exchanged in the rounds that the process comes to. -/
theorem sizes_mem_phases {remaining : Nat} :
    .sizes round ∈ departure.phases remaining first ↔
      first ≤ round ∧ round < first + remaining ∧ departure.Stays first round := by
  induction remaining generalizing first with
  | zero =>
    simp only [phases, not_mem_nil, false_iff]
    omega
  | succ remaining ih =>
    rw [mem_phases_succ, ih, Phase.sizes.injEq]
    rcases lt_trichotomy round first with below | rfl | above
    · refine iff_of_false ?_ (by omega)
      rintro ⟨_, same | ⟨_, impossible | ⟨lower, _⟩⟩⟩
      · omega
      · exact Phase.noConfusion impossible
      · omega
    · simp [stays_self]
    · rw [stays_cons above]
      constructor
      · rintro ⟨infront, same | ⟨between, impossible | ⟨_, upper, stays⟩⟩⟩
        · omega
        · exact Phase.noConfusion impossible
        · exact ⟨by omega, by omega, infront, between, stays⟩
      · rintro ⟨_, upper, infront, between, stays⟩
        exact ⟨infront, .inr ⟨between, .inr ⟨above, by omega, stays⟩⟩⟩

/-- The data follows the sizes, unless the process leaves between them. -/
theorem data_mem_phases {remaining : Nat} :
    .data round ∈ departure.phases remaining first ↔
      .sizes round ∈ departure.phases remaining first ∧ ¬ departure.between round := by
  induction remaining generalizing first with
  | zero => simp [phases]
  | succ remaining ih =>
    rw [mem_phases_succ, mem_phases_succ, ih, Phase.data.injEq, Phase.sizes.injEq]
    constructor
    · rintro ⟨infront, impossible | ⟨between, rfl | ⟨member, stays⟩⟩⟩
      · exact Phase.noConfusion impossible
      · exact ⟨⟨infront, .inl rfl⟩, between⟩
      · exact ⟨⟨infront, .inr ⟨between, .inr member⟩⟩, stays⟩
    · rintro ⟨⟨infront, rfl | ⟨between, impossible | member⟩⟩, stays⟩
      · exact ⟨infront, .inr ⟨stays, .inl rfl⟩⟩
      · exact Phase.noConfusion impossible
      · exact ⟨infront, .inr ⟨between, .inr ⟨member, stays⟩⟩⟩

theorem codes_not_mem_phases (remaining first : Nat) :
    .codes ∉ departure.phases remaining first := by
  induction remaining generalizing first with
  | zero => exact not_mem_nil
  | succ remaining ih =>
    rw [mem_phases_succ]
    rintro ⟨_, impossible | ⟨_, impossible | member⟩⟩
    · exact Phase.noConfusion impossible
    · exact Phase.noConfusion impossible
    · exact ih (first + 1) member

/-- The order in which a process comes to its exchanges. -/
def rank
    (rounds : Nat) : Phase → Nat
  | .sizes round => 2 * round
  | .data round => 2 * round + 1
  | .codes => 2 * rounds

theorem rank_mem_phases
    (rounds : Nat)
    {remaining : Nat} {phase : Phase}
    (member : phase ∈ departure.phases remaining first) :
    2 * first ≤ rank rounds phase ∧ rank rounds phase < 2 * (first + remaining) := by
  induction remaining generalizing first with
  | zero => exact absurd member not_mem_nil
  | succ remaining ih =>
    rw [mem_phases_succ] at member
    rcases member with ⟨_, rfl | ⟨_, rfl | member⟩⟩
    · simp only [rank]
      omega
    · simp only [rank]
      omega
    · have bounds := ih member
      omega

theorem pairwise_phases (rounds remaining first : Nat) :
    (departure.phases remaining first).Pairwise fun phase next =>
      rank rounds phase < rank rounds next := by
  induction remaining generalizing first with
  | zero => exact List.Pairwise.nil
  | succ remaining ih =>
    have later (phase : Phase)
        (member : phase ∈ departure.phases remaining (first + 1)) :
        2 * (first + 1) ≤ rank rounds phase := (rank_mem_phases rounds member).1
    simp only [phases]
    split
    case isTrue => exact List.Pairwise.nil
    case isFalse =>
      split
      case isTrue => exact pairwise_singleton ..
      case isFalse =>
        refine .cons ?_ (.cons ?_ (ih (first + 1)))
        · intro phase member
          rcases mem_cons.mp member with rfl | member
          · simp only [rank]
            omega
          · have order := later phase member
            simp only [rank] at order ⊢
            omega
        · intro phase member
          have order := later phase member
          simp only [rank] at order ⊢
          omega

end Departure

/-- A collective access of so many rounds. `meets` says that the data of a round
goes from or to the other process, so that the first one waits for it;
`codesFrom` says the same for the error codes, which are exchanged if `agree`
holds. -/
structure Exchanges (Process : Type*) where
  rounds : Nat
  departure : Process → Departure
  meets : Process → Process → Nat → Prop
  agree : Bool
  codesFrom : Process → Process → Prop

namespace Exchanges

variable {Process : Type*} (exchanges : Exchanges Process)

/-- The exchanges as programs of phases. -/
noncomputable def programs : PhasedPrograms Process Phase where
  program := fun process =>
    (exchanges.departure process).phases exchanges.rounds 0 ++
      if exchanges.agree then [.codes] else []
  waitsFor := fun process phase other =>
    match phase with
    | .sizes _ => True
    | .data round => exchanges.meets process other round
    | .codes => exchanges.codesFrom process other

/-- All processes come to the sizes of the round. -/
def Together
    (round : Nat) : Prop :=
  ∀ process, ¬ (exchanges.departure process).Left round

/-- All processes come to the first round or none does. From a round that all
come to, all or none come to the next one, and whoever exchanges data in it
meets the others. -/
structure Orderly : Prop where
  start : 0 < exchanges.rounds → (∃ process, (exchanges.departure process).infront 0) →
      ∀ process, (exchanges.departure process).infront 0
  data : ∀ round < exchanges.rounds, exchanges.Together round →
    ∀ process other, ¬ (exchanges.departure process).between round →
      exchanges.meets process other round → ¬ (exchanges.departure other).between round
  next : ∀ round, round + 1 < exchanges.rounds → exchanges.Together round →
    (∃ process, (exchanges.departure process).Leaves round) →
      ∀ process, (exchanges.departure process).Leaves round

variable {exchanges}

variable {process : Process} {round : Nat}

theorem sizes_mem_program :
    .sizes round ∈ exchanges.programs.program process ↔ round < exchanges.rounds ∧
        ¬ (exchanges.departure process).Left round := by
  have notCodes : Phase.sizes round ∉ (if exchanges.agree then [Phase.codes] else []) := by
    split <;> simp
  rw [programs, mem_append, or_iff_left notCodes,
    Departure.sizes_mem_phases, Departure.stays_zero, zero_add]
  exact ⟨fun both => both.2, fun all => ⟨Nat.zero_le round, all⟩⟩

theorem data_mem_program :
    .data round ∈ exchanges.programs.program process ↔
      .sizes round ∈ exchanges.programs.program process ∧
        ¬ (exchanges.departure process).between round := by
  have notCodes (phase : Phase) (different : phase ≠ .codes) :
      phase ∉ (if exchanges.agree then [Phase.codes] else []) := by
    split <;> simp [different]
  rw [programs, mem_append, mem_append, or_iff_left (notCodes (.data round) Phase.noConfusion),
    or_iff_left (notCodes (.sizes round) Phase.noConfusion), Departure.data_mem_phases]

theorem codes_mem_program :
    .codes ∈ exchanges.programs.program process ↔ exchanges.agree = true := by
  have notInRounds := (exchanges.departure process).codes_not_mem_phases exchanges.rounds 0
  simp only [programs, mem_append, notInRounds, false_or]
  cases exchanges.agree <;> simp

theorem pairwise_program (process : Process) :
    (exchanges.programs.program process).Pairwise fun phase next =>
      Departure.rank exchanges.rounds phase < Departure.rank exchanges.rounds next := by
  refine pairwise_append.mpr
    ⟨Departure.pairwise_phases .., ?_, fun phase member ending isEnding => ?_⟩
  · split
    case isTrue => exact pairwise_singleton ..
    case isFalse => exact List.Pairwise.nil
  · have bounds := Departure.rank_mem_phases exchanges.rounds member
    split at isEnding
    case isTrue =>
      have last : Departure.rank exchanges.rounds ending = 2 * exchanges.rounds := by
        rw [mem_singleton.mp isEnding, Departure.rank]
      omega
    case isFalse => exact absurd isEnding not_mem_nil

/-- In an orderly access all processes come to a round or none does. -/
theorem Orderly.together_or_left
    (orderly : exchanges.Orderly)
    (below : round < exchanges.rounds) :
    exchanges.Together round ∨ ∀ process, (exchanges.departure process).Left round := by
  induction round with
  | zero =>
    by_contra neither
    rw [not_or, Together, not_forall] at neither
    obtain ⟨⟨process, left⟩, notAll⟩ := neither
    exact notAll (orderly.start below ⟨process, not_not.mp left⟩)
  | succ round ih =>
    rcases ih (Nat.lt_of_succ_lt below) with together | left
    · by_contra neither
      rw [not_or, Together, not_forall] at neither
      obtain ⟨⟨process, left⟩, notAll⟩ := neither
      rw [not_not, Departure.Left, or_iff_right (together process)] at left
      have all := orderly.next round below together ⟨process, left⟩
      exact notAll fun other => .inr (all other)
    · exact .inr fun process => .inl (left process)

theorem Orderly.attended (orderly : exchanges.Orderly) :
    exchanges.programs.Attended := by
  have sizes {round : Nat} {process : Process}
      (member : .sizes round ∈ exchanges.programs.program process) :
      exchanges.Together round ∧ ∀ other, .sizes round ∈ exchanges.programs.program other := by
    obtain ⟨below, notLeft⟩ := sizes_mem_program.mp member
    rcases orderly.together_or_left below with together | left
    · exact ⟨together, fun other =>
        sizes_mem_program.mpr ⟨below, together other⟩⟩
    · exact absurd (left process) notLeft
  intro process phase member other waits
  cases phase with
  | sizes round => exact (sizes member).2 other
  | data round =>
    obtain ⟨inSizes, notBetween⟩ := data_mem_program.mp member
    obtain ⟨together, all⟩ := sizes inSizes
    exact data_mem_program.mpr ⟨all other,
      orderly.data round (sizes_mem_program.mp inSizes).1 together process other notBetween waits⟩
  | codes =>
    rw [codes_mem_program] at member ⊢
    exact member

theorem orderly_of_attended (attended : exchanges.programs.Attended) :
    exchanges.Orderly := by
  have sizes {round : Nat} {process : Process}
      (below : round < exchanges.rounds)
      (notLeft : ¬ (exchanges.departure process).Left round)
      (other : Process) :
      ¬ (exchanges.departure other).Left round :=
    (sizes_mem_program.mp (attended process (.sizes round)
      (sizes_mem_program.mpr ⟨below, notLeft⟩) other trivial)).2
  constructor
  · rintro below ⟨someone, infront⟩ process
    by_contra comes
    exact sizes below comes someone infront
  · intro round below together process other notBetween meets
    have member := data_mem_program.mpr
      ⟨sizes_mem_program.mpr ⟨below, together process⟩, notBetween⟩
    exact (data_mem_program.mp (attended process (.data round) member other meets)).2
  · rintro round below together ⟨someone, leaves⟩ process
    by_contra stays
    have comes : ¬ (exchanges.departure process).Left (round + 1) :=
      not_or.mpr ⟨together process, stays⟩
    exact sizes below comes someone (.inr leaves)

/-- All processes finish the access exactly when it is orderly. -/
theorem completes_iff_orderly
    [Fintype Process] [DecidableEq Process]
    (exchanges : Exchanges Process) :
    exchanges.programs.Completes ↔ exchanges.Orderly := by
  rw [PhasedPrograms.completes_iff_attended pairwise_program]
  exact ⟨orderly_of_attended, Orderly.attended⟩

end Mpich.Romio.TwoPhase.Exchanges
