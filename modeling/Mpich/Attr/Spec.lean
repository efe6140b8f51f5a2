import Mathlib.Algebra.BigOperators.Finprod
import Mpich.Attr.Defs

/-!
# Attribute lists

In a list that is ordered by the handles of its keyvals the loop of `MPI_Comm_set_attr`
finds an attribute that is there. It keeps the order when it finds one, and when all of
the handles are smaller; otherwise it puts the new attribute behind a greater one.
-/

namespace Mpich.Attr

open List

variable {keyval value : Int} {list : List Attribute}

/-- The handles of a list. -/
def keys
    (list : List Attribute) : List Int :=
  list.map Attribute.keyval

/-- Each keyval at most once, ordered by handle. -/
def Ordered
    (list : List Attribute) : Prop :=
  (keys list).Pairwise (· < ·)

instance : Decidable (Ordered list) :=
  inferInstanceAs (Decidable ((keys list).Pairwise (· < ·)))

/-- The attribute of a keyval, as `MPI_Comm_get_attr` finds it. -/
def find
    (list : List Attribute)
    (keyval : Int) : Option Attribute :=
  list.find? (·.keyval = keyval)

variable {attr : Attribute}

theorem ordered_cons :
    Ordered (attr :: list) ↔ (∀ other ∈ list, attr.keyval < other.keyval) ∧ Ordered list := by
  unfold Ordered keys
  rw [map_cons, pairwise_cons]
  apply and_congr_left
  intro _
  exact ⟨fun less other member => less _ (mem_map_of_mem member), fun less key member => by
      obtain ⟨other, isOther, rfl⟩ := mem_map.mp member
      exact less other isOther⟩

theorem find_cons
    (attr : Attribute)
    (list : List Attribute)
    (keyval : Int) :
    find (attr :: list) keyval = if attr.keyval = keyval then some attr else find list keyval := by
  unfold find
  rw [find?_cons]
  by_cases same : attr.keyval = keyval
  · rw [decide_eq_true same, if_pos same]
  · rw [decide_eq_false same, if_neg same]

theorem find_eq_none :
    find list keyval = none ↔ ∀ attr ∈ list, attr.keyval ≠ keyval := by
  unfold find
  rw [find?_eq_none]
  simp only [decide_eq_true_eq, ne_eq]

theorem keyval_of_find (found : find list keyval = some attr) :
    attr.keyval = keyval ∧ attr ∈ list := by
  exact ⟨by simpa using find?_some found, mem_of_find?_eq_some found⟩

/-- An attribute that is found gets its value where it is. -/
theorem place_of_find
    (ordered : Ordered list)
    (found : find list keyval = some attr) :
    (place keyval value list).1 = some attr ∧ keys (place keyval value list).2 = keys list ∧
      ∀ other, find (place keyval value list).2 other =
        if other = keyval then some ⟨keyval, value⟩ else find list other := by
  induction list with
  | nil => cases found
  | cons first rest ih =>
    obtain ⟨less, restOrdered⟩ := ordered_cons.mp ordered
    rw [find_cons] at found
    unfold place
    by_cases same : first.keyval = keyval
    · rw [if_pos same] at found ⊢
      refine ⟨found, ?_, fun other => ?_⟩
      · unfold keys
        rw [map_cons, map_cons, same]
      · rw [find_cons, find_cons, same]
        by_cases isKeyval : other = keyval
        · rw [if_pos isKeyval.symm, if_pos isKeyval]
        · rw [if_neg (Ne.symm isKeyval), if_neg isKeyval, if_neg (Ne.symm isKeyval)]
    · rw [if_neg same] at found ⊢
      obtain ⟨isKeyval, member⟩ := keyval_of_find found
      have isLess := less attr member
      obtain ⟨isFound, sameKeys, finds⟩ := ih restOrdered found
      rw [if_neg (by omega)]
      refine ⟨isFound, ?_, fun other => ?_⟩
      · unfold keys at sameKeys ⊢
        rw [map_cons, map_cons, sameKeys]
      · rw [find_cons, find_cons, finds]
        by_cases isFirst : first.keyval = other
        · rw [if_pos isFirst, if_neg (by omega), if_pos isFirst]
        · rw [if_neg isFirst, if_neg isFirst]

/-- No attribute is found that is not there. -/
theorem place_of_find_none (absent : find list keyval = none) :
    (place keyval value list).1 = none := by
  induction list with
  | nil => rfl
  | cons first rest ih =>
    rw [find_cons] at absent
    unfold place
    by_cases same : first.keyval = keyval
    · rw [if_pos same] at absent
      cases absent
    · rw [if_neg same] at absent ⊢
      split
      case isTrue => rfl
      case isFalse => exact ih absent

/-- A keyval with the greatest handle goes to the end. -/
theorem place_of_greatest (greatest : ∀ attr ∈ list, attr.keyval < keyval) :
    place keyval value list = (none, list ++ [⟨keyval, value⟩]) := by
  induction list with
  | nil => rfl
  | cons first rest ih =>
    have less := greatest first mem_cons_self
    have isRest := ih fun attr member =>
      greatest attr (mem_cons_of_mem first member)
    unfold place
    rw [if_neg (by omega), if_neg (by omega), isRest]
    rfl

/-- A new attribute in front of whose keyval there is a greater one breaks the order. -/
theorem not_ordered_place
    (absent : find list keyval = none)
    (member : attr ∈ list)
    (greater : keyval ≤ attr.keyval) :
    ¬ Ordered (place keyval value list).2 := by
  induction list with
  | nil => cases member
  | cons first rest ih =>
    rw [find_cons] at absent
    unfold place
    by_cases same : first.keyval = keyval
    · rw [if_pos same] at absent
      cases absent
    rw [if_neg same] at absent ⊢
    by_cases stops : keyval < first.keyval
    · rw [if_pos stops]
      intro ordered
      have less := (ordered_cons.mp ordered).1 ⟨keyval, value⟩ mem_cons_self
      dsimp only at less
      omega
    · rw [if_neg stops]
      have inRest : attr ∈ rest := by
        rcases mem_cons.mp member with rfl | later
        · omega
        · exact later
      intro ordered
      exact ih absent inRest (ordered_cons.mp ordered).2

theorem ordered_append
    (ordered : Ordered list)
    (greatest : ∀ attr ∈ list, attr.keyval < keyval) :
    Ordered (list ++ [⟨keyval, value⟩]) := by
  unfold Ordered keys at ordered ⊢
  rw [map_append, pairwise_append]
  refine ⟨ordered, pairwise_singleton _ _, fun key member other isOther => ?_⟩
  obtain ⟨attr, isAttr, rfl⟩ := mem_map.mp member
  rw [map_singleton, mem_singleton] at isOther
  rw [isOther]
  exact greatest attr isAttr

theorem find_append
    (absent : find list keyval = none)
    (other : Int) :
    find (list ++ [⟨keyval, value⟩]) other =
      if other = keyval then some ⟨keyval, value⟩ else find list other := by
  unfold find at absent ⊢
  rw [find?_append, find?_singleton]
  by_cases same : other = keyval
  · rw [same, if_pos rfl, absent, Option.none_or, if_pos (decide_eq_true rfl)]
  · rw [if_neg same, if_neg (by simpa using Ne.symm same), Option.or_none]

theorem keys_eraseP
    (keyval : Int)
    (list : List Attribute) :
    keys (list.eraseP (·.keyval = keyval)) = (keys list).erase keyval := by
  induction list with
  | nil => rfl
  | cons first rest ih =>
    unfold keys at ih ⊢
    rw [map_cons]
    by_cases same : first.keyval = keyval
    · rw [eraseP_cons_of_pos (by simpa using same), same, erase_cons_head]
    · rw [eraseP_cons_of_neg (by simpa using same), map_cons,
        erase_cons_tail (by simpa using same), ih]

/-- What is left without an attribute. -/
theorem eraseP_of_find
    (ordered : Ordered list)
    (found : find list keyval = some attr) :
    Ordered (list.eraseP (·.keyval = keyval)) ∧
      keys (list.eraseP (·.keyval = keyval)) = (keys list).erase keyval ∧
      ∀ other, find (list.eraseP (·.keyval = keyval)) other =
        if other = keyval then none else find list other := by
  have sameKeys := keys_eraseP keyval list
  refine ⟨?_, sameKeys, fun other => ?_⟩
  · unfold Ordered at ordered ⊢
    rw [sameKeys]
    exact ordered.sublist erase_sublist
  · induction list with
    | nil => cases found
    | cons first rest ih =>
      obtain ⟨less, restOrdered⟩ := ordered_cons.mp ordered
      rw [find_cons] at found
      by_cases same : first.keyval = keyval
      · rw [eraseP_cons_of_pos (by simpa using same), find_cons, same]
        by_cases isKeyval : other = keyval
        · rw [if_pos isKeyval]
          refine find_eq_none.mpr fun attr member isOther => ?_
          have isLess := less attr member
          omega
        · rw [if_neg isKeyval, if_neg (Ne.symm isKeyval)]
      · rw [if_neg same] at found
        rw [eraseP_cons_of_neg (by simpa using same), find_cons, find_cons]
        by_cases isFirst : first.keyval = other
        · rw [if_pos isFirst, if_neg (by omega), if_pos isFirst]
        · rw [if_neg isFirst, if_neg isFirst]
          exact ih restOrdered found (keys_eraseP keyval rest)

end Mpich.Attr

/-!
## Attribute lists as maps

An object maps keyvals to values. What each operation does to the maps, to the calls of
delete functions and to the reference counts is stated without the order in which a list
is searched. Some operations do something else: `Meets` leaves them out.
-/

namespace Mpich.Attr.State

variable {Object : Type*}

/-- The reference count of a keyval. -/
def refs
    (state : State Object)
    (handle : Int) : Nat :=
  ((state.keyvals handle).map Keyval.refCount).getD 0

/-- The number of live attributes of a keyval. -/
noncomputable def live
    (state : State Object)
    (handle : Int) : Nat :=
  ∑ᶠ object, (keys (state.attributes object)).count handle

/-- Every list holds each keyval at most once and is ordered, and the reference count of
a keyval is the number of its live attributes and one for its own handle. -/
structure Good
    (state : State Object) : Prop where
  finite : {object | state.attributes object ≠ []}.Finite
  ordered : ∀ object, Ordered (state.attributes object)
  counted : ∀ handle, state.refs handle = state.live handle + (state.held handle).toNat
  alive : ∀ handle keyval, state.keyvals handle = some keyval → 0 < keyval.refCount

/-- No list, keyval or handle has changed. -/
def Unchanged
    (state next : State Object) : Prop :=
  next.keyvals = state.keyvals ∧ next.held = state.held ∧ next.attributes = state.attributes

/-- The call of the delete function for a value, if the keyval has one. -/
def deleteCall
    (state : State Object)
    (object : Object)
    (attr : Attribute) : List (DeleteCall Object) :=
  match state.keyvals attr.keyval with
  | some keyval =>
    if keyval.delfn then [⟨object, attr.keyval, keyval.language.passed attr.value⟩] else []
  | none => []

/-- The delete function of the keyval fails. -/
def DeleteFails
    (state : State Object)
    (handle answer : Int) : Prop :=
  ∃ keyval, state.keyvals handle = some keyval ∧ keyval.delfn = true ∧ answer ≠ 0

/-- The copy of an attribute, if there is to be one. -/
def copyOf
    (state : State Object)
    (copies : Nat → CopyResult)
    (available : Nat → Bool)
    (index : Nat)
    (attr : Attribute) : Except Error (Option Attribute) :=
  match state.keyvals attr.keyval with
  | some keyval =>
    if keyval.copyfn then
      if (copies index).errno ≠ 0 then .error (.user (copies index).errno)
      else if (copies index).flag then
        if available index then .ok (some ⟨attr.keyval, (copies index).newValue⟩)
        else .error .nomem
      else .ok none
    else .ok none
  | none => .ok none

open Classical in
/-- The value of one keyval of an object is set, replaced or deleted. -/
def Puts
    (state next : State Object)
    (object : Object)
    (keyval : Int)
    (value : Option Int) : Prop :=
  ∀ other key, next.getAttr other key =
    if other = object ∧ key = keyval then value else state.getAttr other key

/-- All values are what they were. -/
def Keeps
    (state next : State Object) : Prop :=
  ∀ object keyval, next.getAttr object keyval = state.getAttr object keyval

/-- Replacing or deleting a value calls the delete function with it once. When this
fails, the operation returns the error and nothing has changed. -/
def Replaces
    (state next : State Object)
    (result : Result)
    (object : Object)
    (keyval old answer : Int)
    (value : Option Int) : Prop :=
  next.calls = state.calls ++ state.deleteCall object ⟨keyval, old⟩ ∧
    (state.DeleteFails keyval answer → result = .error (.user answer) ∧ state.Unchanged next) ∧
    (¬ state.DeleteFails keyval answer → result = .ok () ∧ state.Puts next object keyval value)

/-- `MPI_Comm_set_attr` on a map. -/
def SetsAttr
    (state next : State Object)
    (result : Result)
    (object : Object)
    (keyval value : Int)
    (available : Bool)
    (deletes : Int) : Prop :=
  match state.keyvals keyval, state.getAttr object keyval with
  | none, _ => result = .error .keyval ∧ next = state
  | some _, some old =>
    state.Replaces next result object keyval old deletes (some value)
  | some _, none =>
    next.calls = state.calls ∧
      if available then result = .ok () ∧ state.Puts next object keyval (some value)
      else result = .error .nomem ∧ state.Unchanged next

/-- `MPI_Comm_delete_attr` on a map. -/
def DeletesAttr
    (state next : State Object)
    (result : Result)
    (object : Object)
    (keyval deletes : Int) : Prop :=
  match state.keyvals keyval, state.getAttr object keyval with
  | none, _ => result = .error .keyval ∧ next = state
  | some _, some old => state.Replaces next result object keyval old deletes none
  | some _, none => result = .ok () ∧ next = state

/-- `MPIR_Attr_dup_list` on maps: the first error is returned and nothing has changed, or
the target has the copies that there are to be. -/
def Dups
    (state next : State Object)
    (result : Result)
    (source target : Object)
    (copyOf : Nat → Attribute → Except Error (Option Attribute)) : Prop :=
  next.calls = state.calls ∧ (∀ index attr error, (state.attributes source)[index]? = some attr →
      copyOf index attr = .error error →
      (∀ earlier < index, ∀ other, (state.attributes source)[earlier]? = some other →
        ∃ copy, copyOf earlier other = .ok copy) →
      result = .error error ∧ state.Unchanged next) ∧
    ((∀ index attr, (state.attributes source)[index]? = some attr →
      ∃ copy, copyOf index attr = .ok copy) → result = .ok () ∧ (∀ object ≠ target, ∀ keyval,
          next.getAttr object keyval = state.getAttr object keyval) ∧
        (∀ index attr copy, (state.attributes source)[index]? = some attr →
          copyOf index attr = .ok copy →
          next.getAttr target attr.keyval = copy.map Attribute.value) ∧
        ∀ keyval, state.getAttr source keyval = none → next.getAttr target keyval = none)

/-- `MPIR_Attr_delete_list` on a map: each delete function is called once, nothing is
left, and the result is an error if one of them has failed. -/
def DeletesList
    (state next : State Object)
    (result : Result)
    (object : Object)
    (deletes : Nat → Int) : Prop :=
  next.calls = state.calls ++ (state.attributes object).flatMap (state.deleteCall object) ∧
    (∀ other ≠ object, ∀ keyval, next.getAttr other keyval = state.getAttr other keyval) ∧
    (∀ keyval, next.getAttr object keyval = none) ∧
    (result = .ok () ↔ ∀ index attr, (state.attributes object)[index]? = some attr →
      ¬ state.DeleteFails attr.keyval (deletes index))

/-- What an operation should do. -/
def Correct
    (state : State Object)
    (action : Action Object)
    (next : State Object)
    (result : Result) : Prop :=
  match action with
  | .createKeyval .. | .freeKeyval _ =>
    result = .ok () ∧ next.calls = state.calls ∧ state.Keeps next
  | .setAttr object keyval value available deletes =>
    state.SetsAttr next result object keyval value available deletes
  | .deleteAttr object keyval deletes => state.DeletesAttr next result object keyval deletes
  | .dupList source target copies available =>
    state.Dups next result source target (state.copyOf copies available)
  | .deleteList object deletes => state.DeletesList next result object deletes

/-- A new keyval has the greatest handle of its list, no copy has been made when a copy
function or the allocator fails, and only an empty list is deleted as a whole. -/
def Meets
    (state : State Object) : Action Object → Prop
  | .setAttr object keyval _ available _ =>
    state.keyvals keyval ≠ none → available = true → state.getAttr object keyval = none →
        ∀ attr ∈ state.attributes object, attr.keyval < keyval
  | .dupList source _ copies available =>
    ∀ index attr error, (state.attributes source)[index]? = some attr →
      state.copyOf copies available index attr = .error error →
      (∃ earlier < index, ∃ other otherError, (state.attributes source)[earlier]? = some other ∧
        state.copyOf copies available earlier other = .error otherError) ∨
      ∀ earlier < index, ∀ other, (state.attributes source)[earlier]? = some other →
        state.copyOf copies available earlier other = .ok none
  | .deleteList object _ => state.attributes object = []
  | _ => True

/-- Something holds of every operation of a run whose actions are offered, and no
operation uses a keyval that has been freed. -/
def Every
    [DecidableEq Object]
    (holds : State Object → Action Object → State Object → Result → Prop) :
    State Object → List (Action Object) → Prop
  | _, [] => True
  | state, action :: rest =>
    state.Offered action → ∃ next result, state.step action = some (next, result) ∧
        holds state action next result ∧ Every holds next rest

end Mpich.Attr.State
