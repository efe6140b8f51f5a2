import Mathlib.Algebra.Group.Action.Defs
import Mathlib.Algebra.Order.Ring.Int
import Mathlib.Data.List.Nodup
import Mathlib.Data.List.Range
import Mathlib.Tactic.Ring

/-!
# Pieces and runs of positions

A piece is a run of values and the place of its first value. A list of pieces
is written from the first to the last, so the value that a place has in the end
is the one of the last piece that covers it. `runs` counts the maximal runs of a list
of positions; it does not grow when lists are appended or shifted.
-/

namespace Mpich

/-- A run of values and the place of the first of them. -/
abbrev Piece (α : Type*) :=
  Nat × List α

namespace Pieces

variable {α : Type*}

/-- The value one piece gives to a place. -/
def pieceAt
    (piece : Piece α)
    (place : Nat) : Option α :=
  if piece.1 ≤ place then piece.2[place - piece.1]? else none

/-- The value a place has after the pieces are written in order. -/
def valueAt : List (Piece α) → Nat → Option α
  | [], _ => none
  | piece :: rest, place => (valueAt rest place).or (pieceAt piece place)

@[simp] theorem valueAt_nil
    (place : Nat) :
    valueAt ([] : List (Piece α)) place = none := rfl

theorem valueAt_cons
    (piece : Piece α)
    (rest : List (Piece α))
    (place : Nat) :
    valueAt (piece :: rest) place = (valueAt rest place).or (pieceAt piece place) := rfl

/-- Later pieces win. -/
theorem valueAt_append
    (first second : List (Piece α))
    (place : Nat) :
    valueAt (first ++ second) place = (valueAt second place).or (valueAt first place) := by
  induction first with
  | nil => simp
  | cons piece rest ih =>
    rw [List.cons_append, valueAt_cons, ih, valueAt_cons]
    rw [Option.or_assoc]

/-- Lists of pieces that give the same values may be exchanged. -/
theorem valueAt_append_congr
    {first first' second second' : List (Piece α)}
    (sameFirst : valueAt first = valueAt first')
    (sameSecond : valueAt second = valueAt second') :
    valueAt (first ++ second) = valueAt (first' ++ second') := by
  funext place
  rw [valueAt_append, valueAt_append, sameFirst, sameSecond]

variable {place : Nat}

/-- A piece covers the places from its first on. -/
theorem pieceAt_isSome
    {piece : Piece α} :
    (pieceAt piece place).isSome ↔ piece.1 ≤ place ∧ place < piece.1 + piece.2.length := by
  unfold pieceAt
  split
  case isTrue above =>
    rw [Option.isSome_iff_ne_none, ne_eq, List.getElem?_eq_none_iff]
    omega
  case isFalse below => simp [below]

theorem pieceAt_eq_some
    {piece : Piece α} {value : α}
    (covers : pieceAt piece place = some value) :
    piece.1 ≤ place ∧ place < piece.1 + piece.2.length :=
  pieceAt_isSome.1 (covers ▸ rfl)

@[simp] theorem pieceAt_nil
    (start place : Nat) :
    pieceAt ((start, []) : Piece α) place = none := by
  simp [pieceAt]

/-- Places may be counted from a later start. -/
theorem pieceAt_sub
    {start origin : Nat}
    (values : List α)
    (startAbove : origin ≤ start)
    (placeAbove : origin ≤ place) :
    pieceAt (start - origin, values) (place - origin) = pieceAt (start, values) place := by
  have positions : place - origin - (start - origin) = place - start := by omega
  have order : start - origin ≤ place - origin ↔ start ≤ place := by omega
  simp only [pieceAt, positions, order]

/-- A piece may be written in two parts. -/
theorem pieceAt_split
    (start count : Nat)
    (values : List α)
    (place : Nat) :
    (pieceAt (start + count, values.drop count) place).or
        (pieceAt (start, values.take count) place) =
      pieceAt (start, values) place := by
  simp only [pieceAt]
  split
  case isTrue second =>
    have later : ¬ place - start < count := by omega
    rw [if_pos (by omega), if_pos (by omega), List.getElem?_drop,
      List.getElem?_take, if_neg later, Option.or_none]
    congr 1
    omega
  case isFalse first =>
    split
    case isTrue above => exact List.getElem?_take_of_lt (by omega)
    case isFalse below => rfl

end Mpich.Pieces

/-!
## Copies of a list at equal distances

Lists of things that have a place on a line, such as positions or blocks, can be
shifted along the line. A loop that appends the last elements once more, shifted
by a fixed distance, makes copies of a list at equal distances.
-/

namespace Mpich.Copies

open List

variable {α : Type*} [AddAction Int α]

/-- All elements of the list are shifted by the distance. -/
def shifted
    (distance : Int)
    (list : List α) : List α :=
  list.map (distance +ᵥ ·)

/-- So many copies of the list; each is shifted by the distance against the one
in front of it. -/
def copies : Nat → Int → List α → List α
  | 0, _, _ => []
  | count + 1, distance, list =>
    list ++ copies count distance (shifted distance list)

/-- A loop that appends the last `width` elements, shifted by the distance, so
many times. -/
def again
    (width : Nat)
    (distance : Int) : Nat → List α → List α
  | 0, list => list
  | times + 1, list =>
    again width distance times (list ++ shifted distance (list.drop (list.length - width)))

@[simp] theorem shifted_nil
    (distance : Int) :
    shifted distance ([] : List α) = [] := rfl

@[simp] theorem shifted_zero
    (list : List α) :
    shifted 0 list = list := by
  simp [shifted]

@[simp] theorem shifted_append
    (distance : Int)
    (first second : List α) :
    shifted distance (first ++ second) = shifted distance first ++ shifted distance second := by
  simp [shifted]

theorem shifted_shifted
    (first second : Int)
    (list : List α) :
    shifted first (shifted second list) = shifted (first + second) list := by
  simp [shifted, add_vadd]

@[simp] theorem length_shifted
    (distance : Int)
    (list : List α) :
    (shifted distance list).length = list.length := by
  simp [shifted]

variable {list : List α}

theorem shifted_eq_nil
    {distance : Int} :
    shifted distance list = [] ↔ list = [] :=
  map_eq_nil_iff

/-- A shift can be undone. -/
theorem shifted_injective (distance : Int) :
    Function.Injective (shifted distance : List α → List α) := by
  intro first second equal
  have undone := congrArg (shifted (-distance)) equal
  rwa [shifted_shifted, shifted_shifted, neg_add_cancel, shifted_zero, shifted_zero] at undone

theorem copies_succ
    (count : Nat)
    (distance : Int)
    (list : List α) :
    copies (count + 1) distance list = list ++ copies count distance (shifted distance list) := rfl

@[simp] theorem copies_one
    (distance : Int)
    (list : List α) :
    copies 1 distance list = list := by
  simp [copies]

@[simp] theorem copies_nil
    (count : Nat)
    (distance : Int) :
    copies count distance ([] : List α) = [] := by
  induction count with
  | zero => rfl
  | succ count ih => rw [copies, shifted_nil, ih, append_nil]

@[simp] theorem length_copies
    (count : Nat)
    (distance : Int)
    (list : List α) :
    (copies count distance list).length = count * list.length := by
  induction count generalizing list with
  | zero => simp [copies]
  | succ count ih =>
    rw [copies, length_append, ih, length_shifted]
    ring

theorem shifted_copies
    (shift : Int)
    (count : Nat)
    (distance : Int)
    (list : List α) :
    shifted shift (copies count distance list) = copies count distance (shifted shift list) := by
  induction count generalizing list with
  | zero => rfl
  | succ count ih =>
    rw [copies, shifted_append, ih, copies, shifted_shifted, shifted_shifted, add_comm shift]

variable {first : Int}

/-- The distance does not matter for fewer than two copies, or for copies of
nothing. -/
theorem copies_congr
    {count : Nat} {second : Int}
    (same : count ≤ 1 ∨ list = [] ∨ first = second) :
    copies count first list = copies count second list := by
  rcases same with few | rfl | rfl
  · match count with
    | 0 => rfl
    | 1 => simp
  · simp
  · rfl

/-- The loop leaves what is in front of the last elements and makes copies of
these. -/
theorem again_append
    {width : Nat}
    (isWidth : list.length = width)
    (front : List α)
    (distance : Int)
    (times : Nat) :
    again width distance times (front ++ list) = front ++ copies (times + 1) distance list := by
  induction times generalizing front list with
  | zero => simp [again]
  | succ times ih =>
    have last : (front ++ list).drop ((front ++ list).length - width) = list := by
      rw [length_append, isWidth, Nat.add_sub_cancel, drop_left]
    rw [again, last, ih ((length_shifted ..).trans isWidth), append_assoc, ← copies_succ]

/-- The loop makes copies of a list. -/
theorem again_eq_copies
    (list : List α)
    (distance : Int)
    (times : Nat) :
    again list.length distance times list = copies (times + 1) distance list := by
  have loop : again list.length distance times ([] ++ list) =
      [] ++ copies (times + 1) distance list :=
    again_append rfl [] distance times
  rwa [nil_append, nil_append] at loop

/-- So many positions, one after the other. -/
def run : Int → Nat → List Int
  | _, 0 => []
  | start, length + 1 => start :: run (start + 1) length

@[simp] theorem length_run
    (start : Int)
    (length : Nat) :
    (run start length).length = length := by
  induction length generalizing start with
  | zero => rfl
  | succ length ih => simp [run, ih]

theorem run_append
    (start : Int)
    (first second : Nat) :
    run start first ++ run (start + first) second = run start (first + second) := by
  induction first generalizing start with
  | zero => simp [run]
  | succ first ih =>
    have next : start + (first + 1 : Nat) = start + 1 + first := by
      push_cast
      ring
    rw [run, cons_append, next, ih, Nat.add_right_comm, run]

theorem shifted_run
    (distance start : Int)
    (length : Nat) :
    shifted distance (run start length) = run (distance + start) length := by
  induction length generalizing start with
  | zero => rfl
  | succ length ih =>
    have rest := ih (start + 1)
    rw [← add_assoc] at rest
    rw [run, run, ← rest]
    rfl

variable {positions : List Int}

/-- Two shifts of the same positions differ, unless there are none. -/
theorem shifted_inj_distance
    {second : Int} :
    shifted first positions = shifted second positions ↔ positions = [] ∨ first = second := by
  cases positions with
  | nil => simp
  | cons position positions =>
    constructor
    · intro equal
      exact .inr (add_right_cancel (List.cons.inj equal).1)
    · rintro (impossible | rfl)
      · exact absurd impossible (cons_ne_nil position positions)
      · rfl

/-- Copies of lists of one length are equal if the lists are, and the distances,
where there is more than one copy of something. -/
theorem copies_inj
    {count : Nat}
    (positive : count ≠ 0)
    {second : Int} {list other : List Int}
    (sameLength : list.length = other.length) :
    copies count first list = copies count second other ↔
      list = other ∧ (count = 1 ∨ list = [] ∨ first = second) := by
  constructor
  · intro equal
    match count, positive with
    | 1, _ =>
      rw [copies_one, copies_one] at equal
      exact ⟨equal, .inl rfl⟩
    | count + 2, _ =>
      obtain ⟨rfl, later⟩ := append_inj equal sameLength
      have lengths : (shifted first list).length = (shifted second list).length := by
        rw [length_shifted, length_shifted]
      have same := (append_inj later lengths).1
      exact ⟨rfl, .inr (shifted_inj_distance.mp same)⟩
  · rintro ⟨rfl, same⟩
    exact copies_congr (same.imp_left (le_of_eq ·))

/-- Concatenations of pieces of the same lengths are equal only if the pieces
are. -/
theorem flatMap_inj
    {Index Element : Type*} {list : List Index}
    {first second : Index → List Element}
    (sameLength : ∀ index ∈ list, (first index).length = (second index).length) :
    list.flatMap first = list.flatMap second ↔ ∀ index ∈ list, first index = second index := by
  induction list with
  | nil => simp
  | cons index list ih =>
    have inside : ∀ later ∈ list, (first later).length = (second later).length :=
      fun later member => sameLength later (mem_cons_of_mem _ member)
    rw [flatMap_cons, flatMap_cons, forall_mem_cons, ← ih inside]
    constructor
    · exact fun equal =>
        append_inj equal (sameLength index (mem_cons_self ..))
    · rintro ⟨head, tail⟩
      rw [head, tail]

/-- Copies of a run end to end. -/
theorem copies_run
    (count : Nat)
    (start : Int)
    (length : Nat) :
    copies count length (run start length) = run start (count * length) := by
  induction count generalizing start with
  | zero => simp [copies, run]
  | succ count ih =>
    rw [copies, shifted_run, ih, add_comm (length : Int) start, run_append]
    congr 1
    ring

theorem mem_run
    {position start : Int}
    {length : Nat} :
    position ∈ run start length ↔ start ≤ position ∧ position < start + length := by
  induction length generalizing start with
  | zero => simp [run]
  | succ length ih =>
    rw [run, mem_cons, ih]
    omega

theorem pairwise_run
    (start : Int)
    (length : Nat) :
    (run start length).Pairwise (· < ·) := by
  induction length generalizing start with
  | zero => exact .nil
  | succ length ih =>
    refine .cons ?_ (ih _)
    intro position member
    rw [mem_run] at member
    omega

/-- An increasing list in an interval is no longer than the interval. -/
theorem length_le_of_pairwise
    (increasing : positions.Pairwise (· < ·))
    {last : Int}
    (ordered : first ≤ last)
    (inside : ∀ position ∈ positions, first ≤ position ∧ position < last) :
    (positions.length : Int) ≤ last - first := by
  induction positions generalizing first with
  | nil =>
    rw [length_nil]
    omega
  | cons position positions ih =>
    rw [pairwise_cons] at increasing
    rw [forall_mem_cons] at inside
    have rest := ih increasing.2
      (show position + 1 ≤ last by omega)
      (fun later member => by
        have after := increasing.1 later member
        have within := inside.2 later member
        omega)
    rw [length_cons]
    omega

/-- An increasing list that fills an interval. -/
theorem eq_run_of_pairwise
    (increasing : positions.Pairwise (· < ·))
    (inside : ∀ position ∈ positions, first ≤ position ∧ position < first + positions.length) :
    positions = run first positions.length := by
  induction positions generalizing first with
  | nil => rfl
  | cons position positions ih =>
    rw [pairwise_cons] at increasing
    rw [forall_mem_cons, length_cons] at inside
    have rest := length_le_of_pairwise increasing.2
      (show position + 1 ≤ first + (positions.length + 1) by omega)
      (fun later member => by
        have after := increasing.1 later member
        have within := inside.2 later member
        omega)
    have isFirst : position = first := by omega
    subst isFirst
    rw [length_cons, run, ← ih increasing.2]
    intro later member
    have after := increasing.1 later member
    have within := inside.2 later member
    omega

/-- The number of maximal runs. -/
def runs : List Int → Nat
  | [] => 0
  | [_] => 1
  | first :: second :: rest =>
    (if second = first + 1 then 0 else 1) + runs (second :: rest)

theorem runs_cons_le
    (first : Int)
    (rest : List Int) :
    runs (first :: rest) ≤ 1 + runs rest := by
  cases rest with
  | nil => exact le_refl 1
  | cons second rest =>
    rw [runs]
    split <;> omega

theorem runs_append_le (front rest : List Int) :
    runs (front ++ rest) ≤ runs front + runs rest := by
  induction front with
  | nil => simp [runs]
  | cons first front ih =>
    cases front with
    | nil => exact runs_cons_le first rest
    | cons second front =>
      rw [cons_append, cons_append, runs, runs]
      rw [cons_append] at ih
      omega

theorem runs_shifted
    (distance : Int)
    (positions : List Int) :
    runs (shifted distance positions) = runs positions := by
  induction positions with
  | nil => rfl
  | cons first rest ih =>
    cases rest with
    | nil => rfl
    | cons second rest =>
      have next : distance + second = distance + first + 1 ↔ second = first + 1 := by omega
      change (if distance + second = distance + first + 1 then 0 else 1) +
        runs (shifted distance (second :: rest)) = _
      rw [ih, runs]
      simp only [next]

theorem runs_copies_le
    (count : Nat)
    (distance : Int)
    (positions : List Int) :
    runs (copies count distance positions) ≤ count * runs positions := by
  induction count generalizing positions with
  | zero => simp [copies, runs]
  | succ count ih =>
    have later := ih (shifted distance positions)
    rw [runs_shifted] at later
    rw [copies, Nat.succ_mul]
    have joined := runs_append_le positions (copies count distance (shifted distance positions))
    omega

theorem runs_flatMap_le
    {Index : Type*}
    (list : List Index)
    (part : Index → List Int) :
    runs (list.flatMap part) ≤ (list.map fun index => runs (part index)).sum := by
  induction list with
  | nil => simp [runs]
  | cons index list ih =>
    rw [flatMap_cons, map_cons, sum_cons]
    have joined := runs_append_le (part index) (list.flatMap part)
    omega

theorem runs_run_le
    (start : Int)
    (length : Nat) :
    runs (run start length) ≤ 1 := by
  induction length generalizing start with
  | zero => simp [run, runs]
  | succ length ih =>
    cases length with
    | zero => simp [run, runs]
    | succ length =>
      have rest := ih (start + 1)
      rw [run, run, runs, if_pos rfl, zero_add]
      exact rest

end Mpich.Copies
