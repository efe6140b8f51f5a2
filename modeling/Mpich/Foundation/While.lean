import Mathlib.Order.WellFounded

/-!
# While loops

A loop of a program is run with fuel. What a computation yields is what it returns
with any fuel from some bound on, so that loops that follow each other may share their
fuel. A loop with an invariant and with a measure that goes down yields a state in
which its condition fails.
-/

namespace Mpich

open Option

section

variable {α β : Type*}

/-- With enough fuel the computation returns the result. -/
def Yields
    (computation : Nat → Option α)
    (result : α) : Prop :=
  ∃ bound, ∀ fuel, bound ≤ fuel → computation fuel = some result

namespace Yields

variable {computation : Nat → Option α}

variable {result : α}

theorem of_eq
    (same : ∀ fuel, computation fuel = some result) :
    Yields computation result :=
  ⟨0, fun fuel _ => same fuel⟩

/-- One computation follows the other. -/
theorem bind
    {first : Nat → Option α} {second : Nat → α → Option β} {middle : α}
    {result : β}
    (yieldsFirst : Yields first middle)
    (yieldsSecond : Yields (fun fuel => second fuel middle) result) :
    Yields (fun fuel => (first fuel).bind (second fuel)) result := by
  obtain ⟨firstBound, isMiddle⟩ := yieldsFirst
  obtain ⟨secondBound, isResult⟩ := yieldsSecond
  refine ⟨max firstBound secondBound, fun fuel enough => ?_⟩
  dsimp only
  rw [isMiddle fuel (le_trans (le_max_left _ _) enough), bind_some]
  exact isResult fuel (le_trans (le_max_right _ _) enough)

theorem map
    (yields : Yields computation result)
    (convert : α → β) :
    Yields (fun fuel => (computation fuel).map convert) (convert result) := by
  obtain ⟨bound, isResult⟩ := yields
  refine ⟨bound, fun fuel enough => ?_⟩
  dsimp only
  rw [isResult fuel enough, map_some]

theorem congr
    {first second : Nat → Option α}
    (yields : Yields first result)
    (same : ∀ fuel, second fuel = first fuel) :
    Yields second result := by
  obtain ⟨bound, isResult⟩ := yields
  exact ⟨bound, fun fuel enough => (same fuel).trans (isResult fuel enough)⟩

/-- One step is done first. -/
theorem of_succ
    {first second : Nat → Option α}
    (yields : Yields first result)
    (step : ∀ fuel, second (fuel + 1) = first fuel) :
    Yields second result := by
  obtain ⟨bound, isResult⟩ := yields
  refine ⟨bound + 1, fun fuel enough => ?_⟩
  obtain ⟨less, rfl⟩ := Nat.exists_eq_add_of_le' enough
  rw [← Nat.add_assoc, step]
  exact isResult (less + bound) (Nat.le_add_left bound less)

/-- One step is enough. -/
theorem of_done
    (done : ∀ fuel, computation (fuel + 1) = some result) :
    Yields computation result :=
  of_succ (of_eq fun _ => rfl) done

/-- A computation yields one result. -/
theorem unique
    {first second : α}
    (yieldsFirst : Yields computation first)
    (yieldsSecond : Yields computation second) :
    first = second := by
  obtain ⟨firstBound, isFirst⟩ := yieldsFirst
  obtain ⟨secondBound, isSecond⟩ := yieldsSecond
  apply Option.some.inj
  rw [← isFirst (max firstBound secondBound) (le_max_left _ _),
    isSecond (max firstBound secondBound) (le_max_right _ _)]

end Yields

end

section

variable {State : Type*} (condition : State → Bool) (body : State → Option State)

/-- The body is done as long as the condition holds; `none` when it fails, or when the
fuel does not suffice. -/
def whileLoop : Nat → State → Option State
  | 0, _ => none
  | fuel + 1, state =>
    if condition state then (body state).bind (whileLoop fuel) else some state

variable {condition body}

variable {state : State}

theorem whileLoop_done
    (done : condition state = false) :
    Yields (whileLoop condition body · state) state := by
  apply Yields.of_done
  intro fuel
  rw [whileLoop, if_neg (by rw [done]; exact Bool.false_ne_true)]

theorem whileLoop_step
    {later final : State}
    (goesOn : condition state = true)
    (stepped : body state = some later)
    (yields : Yields (whileLoop condition body · later) final) :
    Yields (whileLoop condition body · state) final := by
  apply yields.of_succ
  intro fuel
  rw [whileLoop, if_pos goesOn, stepped, bind_some]

/-- A loop whose body keeps an invariant and lowers a measure. -/
theorem whileLoop_of_invariant
    {Measure : Type*} [LT Measure] [WellFoundedLT Measure]
    (invariant : State → Prop)
    (measure : State → Measure)
    (step : ∀ state, invariant state → condition state = true →
      ∃ later, body state = some later ∧ invariant later ∧ measure later < measure state)
    (start : invariant state) :
    ∃ final, invariant final ∧ condition final = false ∧
      Yields (whileLoop condition body · state) final := by
  generalize isMeasure : measure state = value
  induction value using WellFoundedLT.induction generalizing state with
  | ind value ih =>
    cases goesOn : condition state with
    | false => exact ⟨state, start, goesOn, whileLoop_done goesOn⟩
    | true =>
      obtain ⟨later, stepped, kept, less⟩ := step state start goesOn
      rw [isMeasure] at less
      obtain ⟨final, isFinal, done, yields⟩ := ih _ less kept rfl
      exact ⟨final, isFinal, done, whileLoop_step goesOn stepped yields⟩

end

end Mpich
