import Mathlib.Order.Lattice

/-!
# Sorted association lists

The pairs of a list stand in the order of their keys, each key once. A search that ends
when it has gone past the place of its key finds the key if it is there, and a pair that is
put in its place is found again while all others are found as before.
-/

namespace Mpich.SortedAssoc

open List Option

variable {Key Value : Type*} [LinearOrder Key]

/-- The value of a key. -/
def find : List (Key × Value) → Key → Option Value
  | [], _ => none
  | pair :: rest, key =>
    if pair.1 = key then some pair.2
    else if key < pair.1 then none
    else find rest key

/-- The pair in the place of a key; `none` if the key is there. -/
def insert
    (key : Key)
    (entry : Key × Value) : List (Key × Value) → Option (List (Key × Value))
  | [] => some [entry]
  | pair :: rest =>
    if pair.1 = key then none
    else if key < pair.1 then some (entry :: pair :: rest)
    else (insert key entry rest).map (pair :: ·)

/-- The value of a key is changed. -/
def modify
    (key : Key)
    (change : Value → Value) : List (Key × Value) → List (Key × Value)
  | [] => []
  | pair :: rest =>
    if pair.1 = key then (pair.1, change pair.2) :: rest
    else pair :: modify key change rest

/-- The keys stand in order. -/
def Sorted
    (pairs : List (Key × Value)) : Prop :=
  pairs.Pairwise fun first second => first.1 < second.1

variable {pairs later : List (Key × Value)} {pair : Key × Value} {key other : Key}
  {value : Value} {change : Value → Value}

theorem find_cons_self :
    find (pair :: pairs) pair.1 = some pair.2 :=
  if_pos rfl

theorem find_cons_less (less : key < pair.1) :
    find (pair :: pairs) key = none :=
  (if_neg (ne_of_gt less)).trans (if_pos less)

theorem find_cons_greater (greater : pair.1 < key) :
    find (pair :: pairs) key = find pairs key :=
  (if_neg (ne_of_lt greater)).trans (if_neg (not_lt_of_gt greater))

/-- The search finds the pairs of the list. -/
theorem find_eq_some (sorted : Sorted pairs) :
    find pairs key = some value ↔ (key, value) ∈ pairs := by
  induction pairs with
  | nil => exact iff_of_false nofun not_mem_nil
  | cons pair rest ih =>
    obtain ⟨above, sortedRest⟩ := pairwise_cons.mp sorted
    rw [mem_cons]
    rcases lt_trichotomy key pair.1 with less | rfl | greater
    · rw [find_cons_less less]
      refine iff_of_false nofun ?_
      rintro (rfl | member)
      · exact lt_irrefl _ less
      · exact lt_asymm less (above _ member)
    · rw [find_cons_self, Option.some.injEq]
      constructor
      · rintro rfl
        exact .inl rfl
      · rintro (same | member)
        · exact (congrArg Prod.snd same).symm
        · exact absurd (above _ member) (lt_irrefl _)
    · rw [find_cons_greater greater, ih sortedRest]
      constructor
      · exact .inr
      · rintro (rfl | member)
        · exact absurd greater (lt_irrefl _)
        · exact member

/-- A pair is not put where its key is. -/
theorem insert_eq_none
    (sorted : Sorted pairs)
    (entry : Key × Value) :
    insert key entry pairs = none ↔ find pairs key ≠ none := by
  induction pairs with
  | nil => exact iff_of_false nofun fun differs => differs rfl
  | cons pair rest ih =>
    obtain ⟨_, sortedRest⟩ := pairwise_cons.mp sorted
    unfold insert
    rcases lt_trichotomy key pair.1 with less | rfl | greater
    · rw [if_neg (ne_of_gt less), if_pos less, find_cons_less less]
      exact iff_of_false nofun fun differs => differs rfl
    · rw [if_pos rfl, find_cons_self]
      exact iff_of_true rfl nofun
    · rw [if_neg (ne_of_lt greater), if_neg (not_lt_of_gt greater),
        find_cons_greater greater, map_eq_none_iff]
      exact ih sortedRest

theorem mem_of_insert (inserted : insert key (key, value) pairs = some later) :
    ∀ pair, pair ∈ later ↔ pair = (key, value) ∨ pair ∈ pairs := by
  induction pairs generalizing later with
  | nil =>
    obtain rfl := Option.some.inj inserted
    exact fun pair => mem_cons
  | cons first rest ih =>
    unfold insert at inserted
    split_ifs at inserted with same less
    · obtain rfl := Option.some.inj inserted
      exact fun pair => mem_cons
    · obtain ⟨laterRest, isRest, rfl⟩ := map_eq_some_iff.mp inserted
      intro pair
      rw [mem_cons, mem_cons, ih isRest, or_left_comm]

/-- A pair is put among the others. -/
theorem perm_of_insert
    {entry : Key × Value}
    (inserted : insert key entry pairs = some later) :
    later.Perm (entry :: pairs) := by
  induction pairs generalizing later with
  | nil =>
    obtain rfl := Option.some.inj inserted
    exact .refl _
  | cons first rest ih =>
    unfold insert at inserted
    split_ifs at inserted
    · obtain rfl := Option.some.inj inserted
      exact .refl _
    · obtain ⟨laterRest, isRest, rfl⟩ := map_eq_some_iff.mp inserted
      exact ((ih isRest).cons first).trans (.swap entry first rest)

section

variable
    (sorted : Sorted pairs)
    (inserted : insert key (key, value) pairs = some later)

include sorted inserted

theorem sorted_of_insert :
    Sorted later := by
  induction pairs generalizing later with
  | nil =>
    obtain rfl := Option.some.inj inserted
    exact pairwise_singleton _ _
  | cons first rest ih =>
    obtain ⟨above, sortedRest⟩ := pairwise_cons.mp sorted
    unfold insert at inserted
    split_ifs at inserted with same less
    · obtain rfl := Option.some.inj inserted
      refine pairwise_cons.mpr ⟨fun pair member => ?_, sorted⟩
      rcases mem_cons.mp member with rfl | member
      · exact less
      · exact lt_trans less (above pair member)
    · obtain ⟨laterRest, isRest, rfl⟩ := map_eq_some_iff.mp inserted
      refine pairwise_cons.mpr ⟨fun pair member => ?_, ih sortedRest isRest⟩
      rcases (mem_of_insert isRest pair).mp member with rfl | member
      · exact lt_of_le_of_ne (not_lt.mp less) same
      · exact above pair member

/-- The pair is found. -/
theorem find_insert_self :
    find later key = some value :=
  (find_eq_some (sorted_of_insert sorted inserted)).mpr ((mem_of_insert inserted _).mpr (.inl rfl))

/-- The others are found as before. -/
theorem find_insert_of_ne (differs : other ≠ key) :
    find later other = find pairs other := by
  apply ext
  intro found
  rw [find_eq_some (sorted_of_insert sorted inserted), mem_of_insert inserted, find_eq_some sorted]
  exact or_iff_right fun same => differs (congrArg Prod.fst same)

end

theorem fst_modify
    (key : Key)
    (change : Value → Value)
    (pairs : List (Key × Value)) :
    (modify key change pairs).map Prod.fst = pairs.map Prod.fst := by
  induction pairs with
  | nil => rfl
  | cons pair rest ih =>
    unfold modify
    split_ifs
    · rfl
    · exact congrArg (pair.1 :: ·) ih

theorem mem_modify (member : pair ∈ modify key change pairs) :
    pair ∈ pairs ∨ ∃ old ∈ pairs, pair.2 = change old.2 := by
  induction pairs with
  | nil => exact absurd member not_mem_nil
  | cons first rest ih =>
    unfold modify at member
    split_ifs at member
    · rcases mem_cons.mp member with rfl | member
      · exact .inr ⟨first, mem_cons_self, rfl⟩
      · exact .inl (mem_cons_of_mem _ member)
    · rcases mem_cons.mp member with rfl | member
      · exact .inl mem_cons_self
      · rcases ih member with same | ⟨old, isOld, isChanged⟩
        · exact .inl (mem_cons_of_mem _ same)
        · exact .inr ⟨old, mem_cons_of_mem _ isOld, isChanged⟩

/-- The order is that of the keys. -/
theorem Sorted.of_fst
    (sorted : Sorted pairs)
    (same : later.map Prod.fst = pairs.map Prod.fst) :
    Sorted later := by
  unfold Sorted
  rw [← pairwise_map (f := Prod.fst) (R := (· < ·)), same, pairwise_map]
  exact sorted

theorem sorted_modify (sorted : Sorted pairs) :
    Sorted (modify key change pairs) :=
  sorted.of_fst (fst_modify key change pairs)

theorem find_modify_self (pairs : List (Key × Value)) :
    find (modify key change pairs) key = (find pairs key).map change := by
  induction pairs with
  | nil => rfl
  | cons pair rest ih =>
    unfold modify
    split_ifs with isKey
    · subst isKey
      exact find_cons_self.trans (congrArg (Option.map change) find_cons_self.symm)
    · unfold find
      rw [if_neg isKey, if_neg isKey, ih]
      split_ifs
      · rfl
      · rfl

theorem find_modify_of_ne
    (differs : other ≠ key)
    (pairs : List (Key × Value)) :
    find (modify key change pairs) other = find pairs other := by
  induction pairs with
  | nil => rfl
  | cons pair rest ih =>
    unfold modify
    split_ifs with isKey
    · have notOther : pair.1 ≠ other := fun same => differs (same.symm.trans isKey)
      unfold find
      rw [if_neg notOther, if_neg notOther]
    · unfold find
      rw [ih]

end Mpich.SortedAssoc
