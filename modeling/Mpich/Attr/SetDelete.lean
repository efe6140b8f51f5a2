import Mpich.Attr.Spec
import Mpich.Foundation.FiniteSum

/-!
# The operations on good states

The reference counts follow the lists, except when a whole list is deleted: its
attributes go without their references. `MPI_Comm_set_attr` is right unless it puts a
new keyval behind a greater one, and `MPI_Comm_delete_attr` is right always.
-/

namespace Mpich.Attr.State

open Function Option

variable {Object : Type*}

variable {state : State Object}

theorem refs_addRef
    {handle : Int} {keyval : Keyval}
    (isKeyval : state.keyvals handle = some keyval)
    (other : Int) :
    (state.addRef handle).refs other = state.refs other + if other = handle then 1 else 0 := by
  unfold refs addRef
  dsimp only
  by_cases same : other = handle
  · rw [same, update_self, isKeyval, if_pos rfl]
    rfl
  · rw [update_of_ne same, if_neg same, add_zero]

theorem alive_addRef
    (alive : ∀ handle keyval, state.keyvals handle = some keyval → 0 < keyval.refCount)
    (handle : Int) :
    ∀ other keyval, (state.addRef handle).keyvals other = some keyval → 0 < keyval.refCount := by
  intro other keyval isKeyval
  unfold addRef at isKeyval
  dsimp only at isKeyval
  by_cases same : other = handle
  · rw [same, update_self] at isKeyval
    obtain ⟨old, _, rfl⟩ := map_eq_some_iff.mp isKeyval
    exact Nat.succ_pos _
  · rw [update_of_ne same] at isKeyval
    exact alive other keyval isKeyval

/-- A reference is given back. -/
theorem releaseRef_spec
    {handle : Int} {keyval : Keyval}
    (isKeyval : state.keyvals handle = some keyval)
    (alive : ∀ handle keyval, state.keyvals handle = some keyval → 0 < keyval.refCount) :
    ∃ next, state.releaseRef handle = some next ∧ next.attributes = state.attributes ∧
      next.held = state.held ∧ next.calls = state.calls ∧
      (∀ other, next.refs other + (if other = handle then 1 else 0) = state.refs other) ∧
      ∀ other keyval, next.keyvals other = some keyval → 0 < keyval.refCount := by
  have positive := alive handle keyval isKeyval
  unfold releaseRef
  rw [isKeyval, map_some]
  refine ⟨_, rfl, rfl, rfl, rfl, fun other => ?_, fun other left isLeft => ?_⟩
  · unfold refs
    dsimp only
    by_cases same : other = handle
    · rw [same, update_self, if_pos rfl, isKeyval]
      by_cases last : keyval.refCount - 1 = 0
      · rw [if_pos last, map_none, getD_none, map_some, getD_some]
        omega
      · rw [if_neg last, map_some, getD_some, map_some, getD_some]
        dsimp only
        omega
    · rw [update_of_ne same, if_neg same, add_zero]
  · dsimp only at isLeft
    by_cases same : other = handle
    · rw [same, update_self] at isLeft
      split at isLeft
      case isTrue => cases isLeft
      case isFalse inUse =>
        rw [← Option.some.inj isLeft]
        exact pos_of_ne_zero inUse
    · rw [update_of_ne same] at isLeft
      exact alive other left isLeft

/-- A delete function is called and nothing else changes. -/
theorem callAttrDelete_spec
    {object : Object} {attr : Attribute} {keyval : Keyval}
    (isKeyval : state.keyvals attr.keyval = some keyval)
    (answer : Int) :
    ∃ next result, state.callAttrDelete object attr answer = some (next, result) ∧
      state.Unchanged next ∧ next.calls = state.calls ++ state.deleteCall object attr ∧
      (state.DeleteFails attr.keyval answer → result = .error (.user answer)) ∧
      (¬ state.DeleteFails attr.keyval answer → result = .ok ()) := by
  have fails : state.DeleteFails attr.keyval answer ↔ keyval.delfn = true ∧ answer ≠ 0 := by
    unfold DeleteFails
    rw [isKeyval]
    simp only [Option.some.injEq, exists_eq_left']
  unfold callAttrDelete deleteCall
  rw [isKeyval, map_some, fails]
  dsimp only
  by_cases hasFunction : keyval.delfn = true
  · rw [if_pos hasFunction, if_pos hasFunction]
    refine ⟨_, _, rfl, ⟨rfl, rfl, rfl⟩, rfl, fun ⟨_, nonzero⟩ => if_neg nonzero,
      fun succeeds => if_pos ?_⟩
    by_contra nonzero
    exact succeeds ⟨hasFunction, nonzero⟩
  · rw [if_neg hasFunction, if_neg hasFunction]
    exact ⟨state, .ok (), rfl, ⟨rfl, rfl, rfl⟩, (List.append_nil _).symm,
      fun ⟨isThere, _⟩ => absurd isThere hasFunction, fun _ => rfl⟩

theorem getAttr_eq
    (state : State Object)
    (object : Object)
    (keyval : Int) :
    state.getAttr object keyval = (find (state.attributes object) keyval).map Attribute.value :=
  rfl

theorem finite_keys
    (finite : {object | state.attributes object ≠ []}.Finite)
    (handle : Int) :
    (support fun object => (keys (state.attributes object)).count handle).Finite := by
  apply finite.subset
  intro object some isEmpty
  apply some
  dsimp only
  rw [isEmpty]
  rfl

/-- The live attributes are those of the lists. -/
theorem live_congr
    {state next : State Object}
    (same : next.attributes = state.attributes)
    (handle : Int) :
    next.live handle = state.live handle := by
  unfold live
  rw [same]

/-- What is left of a good state when only the log of calls differs. -/
theorem Good.of_unchanged
    (good : state.Good)
    {next : State Object}
    (unchanged : state.Unchanged next) :
    next.Good := by
  obtain ⟨sameKeyvals, sameHeld, sameAttributes⟩ := unchanged
  constructor
  · rw [sameAttributes]
    exact good.finite
  · rw [sameAttributes]
    exact good.ordered
  · intro handle
    rw [live_congr sameAttributes, sameHeld, ← good.counted, refs, refs, sameKeyvals]
  · rw [sameKeyvals]
    exact good.alive

section

variable [DecidableEq Object]

section

variable
    {state : State Object}
    (finite : {object | state.attributes object ≠ []}.Finite)
    (object : Object)
    (list : List Attribute)

include finite object list

/-- A list that is replaced changes the number of live attributes by its own. -/
theorem live_putAttributes (handle : Int) :
    (state.putAttributes object list).live handle + (keys (state.attributes object)).count handle =
      state.live handle + (keys list).count handle := by
  have sums := @FiniteSum.finsum_add_point Object Nat _
    (fun object => (keys (state.attributes object)).count handle)
    (fun other => (keys ((state.putAttributes object list).attributes other)).count handle)
    object (finite_keys finite handle) fun other different => by
      unfold putAttributes
      dsimp only
      rw [update_of_ne different]
  have isList : (state.putAttributes object list).attributes object = list := update_self _ _ _
  rw [isList] at sums
  exact sums

theorem finite_putAttributes :
    {other | (state.putAttributes object list).attributes other ≠ []}.Finite := by
  apply (finite.insert object).subset
  intro other some
  by_cases same : other = object
  · exact .inl same
  · refine .inr fun isEmpty => some ?_
    unfold putAttributes
    dsimp only
    rw [update_of_ne same]
    exact isEmpty

end

namespace Good

variable {state : State Object}

/-- The keyval of an attribute has not been freed. -/
theorem exists_keyval
    (good : state.Good)
    {object : Object} {attr : Attribute}
    (member : attr ∈ state.attributes object) :
    ∃ keyval, state.keyvals attr.keyval = some keyval := by
  have less : 0 < (keys (state.attributes object)).count attr.keyval :=
    List.count_pos_iff.mpr (List.mem_map_of_mem member)
  have emptied := live_putAttributes good.finite object [] attr.keyval
  have isCount := good.counted attr.keyval
  have isZero : (keys []).count attr.keyval = 0 := rfl
  cases isKeyval : state.keyvals attr.keyval with
  | some keyval => exact ⟨keyval, rfl⟩
  | none =>
    rw [refs, isKeyval] at isCount
    change 0 = _ at isCount
    omega

/-- One list is replaced, and the references follow it. -/
theorem of_update
    (good : state.Good)
    {next : State Object} {object : Object} {list : List Attribute}
    (isList : next.attributes = update state.attributes object list)
    (ordered : Ordered list)
    (sameHeld : next.held = state.held)
    (moved : ∀ handle, next.refs handle + (keys (state.attributes object)).count handle =
        state.refs handle + (keys list).count handle)
    (alive : ∀ handle keyval, next.keyvals handle = some keyval → 0 < keyval.refCount) :
    next.Good := by
  have isPut : next.attributes = (state.putAttributes object list).attributes := isList
  refine ⟨?_, fun other => ?_, fun handle => ?_, alive⟩
  · rw [isPut]
    exact finite_putAttributes good.finite object list
  · rw [isList]
    by_cases same : other = object
    · rw [same, update_self]
      exact ordered
    · rw [update_of_ne same]
      exact good.ordered other
  · have sums := live_putAttributes good.finite object list handle
    have isCount := good.counted handle
    have isMoved := moved handle
    rw [live_congr isPut, sameHeld]
    omega

end Good

/-- A list whose search differs at one keyval. -/
theorem puts_of_find
    {state next : State Object} {object : Object} {list : List Attribute}
    {keyval : Int} {value : Option Int}
    (isList : next.attributes = update state.attributes object list)
    (finds : ∀ other, (find list other).map Attribute.value = if other = keyval then value
      else (find (state.attributes object) other).map Attribute.value) :
    state.Puts next object keyval value := by
  intro other key
  rw [getAttr_eq, getAttr_eq, isList]
  by_cases same : other = object
  · rw [same, update_self, finds]
    simp only [true_and]
  · rw [update_of_ne same, if_neg fun both => same both.1]

end

end Mpich.Attr.State

namespace Mpich.Attr.State

open List Function

variable {Object : Type*} [DecidableEq Object] {state : State Object}

/-- An operation does not use a keyval that has been freed, and it is right if and only
if a condition holds. -/
def RightIff
    (state : State Object)
    (action : Action Object)
    (condition : Prop) : Prop :=
  ∃ next result, state.step action = some (next, result) ∧
    (state.Correct action next result ∧ next.Good ↔ condition)

variable (good : state.Good)

include good

theorem createKeyval_right
    {handle : Int}
    (fresh : state.keyvals handle = none)
    (language : Language)
    (copyfn delfn : Bool) :
    state.RightIff (.createKeyval handle language copyfn delfn) True := by
  refine ⟨_, _, rfl, iff_true_intro ⟨⟨rfl, rfl, fun _ _ => rfl⟩,
    good.finite, good.ordered, fun other => ?_, fun other keyval isKeyval => ?_⟩⟩
  · have isCount := good.counted other
    change _ = state.live other + _
    by_cases same : other = handle
    · rw [same, refs, fresh] at isCount
      change 0 = _ at isCount
      rw [same, refs]
      dsimp only
      rw [update_self, update_self]
      change 1 = _ + 1
      omega
    · rw [refs] at isCount ⊢
      dsimp only
      rw [update_of_ne same, update_of_ne same]
      exact isCount
  · dsimp only at isKeyval
    by_cases same : other = handle
    · rw [same, update_self] at isKeyval
      rw [← Option.some.inj isKeyval]
      exact one_pos
    · rw [update_of_ne same] at isKeyval
      exact good.alive other keyval isKeyval

theorem freeKeyval_right
    {handle : Int}
    (held : state.held handle = true) :
    state.RightIff (.freeKeyval handle) True := by
  have isCount := good.counted handle
  rw [held] at isCount
  obtain ⟨keyval, isKeyval⟩ : ∃ keyval, state.keyvals handle = some keyval := by
    cases isKeyval : state.keyvals handle with
    | some keyval => exact ⟨keyval, rfl⟩
    | none =>
      rw [refs, isKeyval] at isCount
      change 0 = _ + 1 at isCount
      omega
  obtain ⟨next, released, sameAttributes, sameHeld, sameCalls, refsNext, alive⟩ :=
    @releaseRef_spec Object { state with held := update state.held handle false }
      handle keyval isKeyval good.alive
  refine ⟨next, .ok (), ?_, iff_true_intro ⟨⟨rfl, sameCalls, fun object key => ?_⟩, ?_, ?_,
    fun other => ?_, alive⟩⟩
  · exact congrArg (Option.map fun state => (state, (.ok () : Result))) released
  · rw [getAttr_eq, getAttr_eq, sameAttributes]
  · rw [sameAttributes]
    exact good.finite
  · rw [sameAttributes]
    exact good.ordered
  · have otherCount := good.counted other
    have isRefs : next.refs other + (if other = handle then 1 else 0) = state.refs other :=
      refsNext other
    rw [@live_congr Object state next sameAttributes, sameHeld]
    dsimp only
    by_cases same : other = handle
    · rw [if_pos same] at isRefs
      rw [same] at isRefs ⊢
      rw [update_self]
      change _ = _ + 0
      change _ = _ + 1 at isCount
      omega
    · rw [if_neg same] at isRefs
      rw [update_of_ne same]
      omega

/-- A value that is there is replaced or deleted when the delete function does not
fail. -/
theorem replaces_right
    {object : Object} {attr : Attribute} {keyval : Int}
    (found : find (state.attributes object) keyval = some attr)
    (answer : Int)
    (value : Option Int)
    {finish : State Object → Option (State Object)}
    (finishes : ∀ middle, state.Unchanged middle → ∃ next, finish middle = some next ∧
      next.calls = middle.calls ∧ state.Puts next object keyval value ∧ next.Good) :
    ∃ next result, (state.callAttrDelete object attr answer).bind (unlessFailed finish) =
        some (next, result) ∧
      state.Replaces next result object keyval attr.value answer value ∧ next.Good := by
  obtain ⟨isAttrKeyval, member⟩ := keyval_of_find found
  obtain ⟨owner, isOwner⟩ := good.exists_keyval member
  obtain ⟨middle, result, called, unchanged, isCall, fails, succeeds⟩ :=
    callAttrDelete_spec isOwner answer
  have isAttr : (⟨keyval, attr.value⟩ : Attribute) = attr := by rw [← isAttrKeyval]
  unfold Replaces
  rw [called, Option.bind_some, isAttr, ← isAttrKeyval]
  by_cases fail : state.DeleteFails attr.keyval answer
  · refine ⟨middle, .error (.user answer), by rw [fails fail, unlessFailed], ⟨isCall, fun _ =>
      ⟨rfl, unchanged⟩, fun succeed => absurd fail succeed⟩, good.of_unchanged unchanged⟩
  · obtain ⟨next, finished, sameCalls, puts, nextGood⟩ := finishes middle unchanged
    rw [← isAttrKeyval] at puts
    refine ⟨next, .ok (), ?_, ⟨sameCalls.trans isCall, fun failed => absurd failed fail,
      fun _ => ⟨rfl, puts⟩⟩, nextGood⟩
    rw [succeeds fail, unlessFailed, finished, Option.map_some]

/-- A new attribute with the greatest handle. -/
theorem appended
    {object : Object} {keyval value : Int} {owner : Keyval}
    (isKeyval : state.keyvals keyval = some owner)
    (absent : find (state.attributes object) keyval = none)
    (greatest : ∀ attr ∈ state.attributes object, attr.keyval < keyval) :
    let next := (state.putAttributes object
      (state.attributes object ++ [⟨keyval, value⟩])).addRef keyval
    (next.calls = state.calls ∧ Except.ok () = (Except.ok () : Result) ∧
      state.Puts next object keyval (some value)) ∧ next.Good := by
  intro next
  have isList : next.attributes = update state.attributes object
      (state.attributes object ++ [⟨keyval, value⟩]) := rfl
  refine ⟨⟨rfl, rfl, puts_of_find isList fun other => ?_⟩, good.of_update isList
    (ordered_append (good.ordered object) greatest) rfl (fun handle => ?_)
    (alive_addRef good.alive keyval)⟩
  · rw [find_append absent]
    split
    all_goals rfl
  · have isRefs := @refs_addRef Object (state.putAttributes object
      (state.attributes object ++ [⟨keyval, value⟩])) keyval owner isKeyval handle
    have isCount : (keys (state.attributes object ++ [⟨keyval, value⟩])).count handle =
        (keys (state.attributes object)).count handle + if handle = keyval then 1 else 0 := by
      unfold keys
      rw [map_append, count_append, map_singleton, count_singleton]
      apply congrArg
      apply if_congr _ rfl rfl
      rw [beq_iff_eq]
      exact eq_comm
    change next.refs handle = state.refs handle + _ at isRefs
    omega

theorem setAttr_right
    (object : Object)
    (keyval value : Int)
    (available : Bool)
    (deletes : Int) :
    state.RightIff (.setAttr object keyval value available deletes)
      (state.Meets (.setAttr object keyval value available deletes)) := by
  unfold RightIff
  dsimp only [step, Correct, Meets]
  unfold setAttr SetsAttr
  cases isKeyval : state.keyvals keyval with
  | none =>
    exact ⟨state, .error .keyval, rfl, iff_of_true ⟨⟨rfl, rfl⟩, good⟩ fun valid => absurd rfl valid⟩
  | some owner =>
    rw [getAttr_eq]
    cases found : find (state.attributes object) keyval with
    | some attr =>
      obtain ⟨isFound, sameKeys, finds⟩ :=
        @place_of_find keyval value _ attr (good.ordered object) found
      obtain ⟨next, result, stepped, replaces, nextGood⟩ := @replaces_right Object _ state
        good object attr keyval found deletes (some value)
        (fun middle => some (middle.putAttributes object
          (place keyval value (state.attributes object)).2))
        (fun middle same => by
          obtain ⟨sameKeyvals, sameHeld, sameAttributes⟩ := same
          have isList : (middle.putAttributes object
              (place keyval value (state.attributes object)).2).attributes =
              update state.attributes object (place keyval value (state.attributes object)).2 := by
            rw [← sameAttributes]
            rfl
          refine ⟨_, rfl, rfl, puts_of_find isList fun other => ?_,
            good.of_update isList ?_ sameHeld (fun handle => ?_) ?_⟩
          · rw [finds]
            split
            all_goals rfl
          · rw [Ordered, sameKeys]
            exact good.ordered object
          · rw [sameKeys, refs, refs]
            change (Option.map _ (middle.keyvals handle)).getD 0 + _ = _
            rw [sameKeyvals]
          · intro handle other isOther
            apply good.alive handle other
            rw [← sameKeyvals]
            exact isOther)
      refine ⟨next, result, ?_, iff_of_true ⟨replaces, nextGood⟩ ?_⟩
      · rw [show place keyval value (state.attributes object) =
          (some attr, (place keyval value (state.attributes object)).2) from
            Prod.ext isFound rfl]
        exact stepped
      · intro _ _ absent
        cases absent
    | none =>
      have notFound := @place_of_find_none keyval value _ found
      have isPlace : place keyval value (state.attributes object) =
          (none, (place keyval value (state.attributes object)).2) :=
        Prod.ext notFound rfl
      rw [isPlace]
      cases available with
      | false =>
        refine ⟨state, .error .nomem, rfl, iff_of_true ⟨⟨rfl, rfl, rfl, rfl, rfl⟩, good⟩ ?_⟩
        intro _ impossible
        cases impossible
      | true =>
        refine ⟨_, _, rfl, ?_⟩
        by_cases greatest : ∀ attr ∈ state.attributes object, attr.keyval < keyval
        · rw [place_of_greatest greatest]
          exact iff_of_true (appended good isKeyval found greatest) fun _ _ _ => greatest
        · refine iff_of_false (fun right => ?_)
            (fun meets => greatest (meets (Option.some_ne_none owner) rfl rfl))
          push Not at greatest
          obtain ⟨attr, member, greater⟩ := greatest
          have ordered := right.2.ordered object
          change Ordered (update state.attributes object _ object) at ordered
          rw [update_self] at ordered
          exact not_ordered_place found member greater ordered

/-- An attribute is taken out, and its reference is given back. -/
theorem erased
    {object : Object} {keyval : Int} {owner : Keyval} {attr : Attribute}
    (isKeyval : state.keyvals keyval = some owner)
    (found : find (state.attributes object) keyval = some attr)
    {middle : State Object}
    (unchanged : state.Unchanged middle) :
    ∃ next, (middle.putAttributes object
        ((middle.attributes object).eraseP (·.keyval = keyval))).releaseRef keyval = some next ∧
      next.calls = middle.calls ∧ state.Puts next object keyval none ∧ next.Good := by
  obtain ⟨sameKeyvals, sameHeld, sameAttributes⟩ := unchanged
  obtain ⟨ordered, sameKeys, finds⟩ := eraseP_of_find (good.ordered object) found
  obtain ⟨isAttrKeyval, member⟩ := keyval_of_find found
  have inKeys : keyval ∈ keys (state.attributes object) := by
    rw [← isAttrKeyval]
    exact mem_map_of_mem member
  obtain ⟨next, released, isList, isHeld, isCalls, isRefs, alive⟩ :=
    @releaseRef_spec Object (middle.putAttributes object
      ((middle.attributes object).eraseP (·.keyval = keyval))) keyval owner
      (by rw [← isKeyval, ← sameKeyvals]; rfl)
      (fun handle other isOther => by
        apply good.alive handle other
        rw [← sameKeyvals]
        exact isOther)
  have isUpdate : next.attributes = update state.attributes object
      ((state.attributes object).eraseP (·.keyval = keyval)) := by
    rw [isList, ← sameAttributes]
    rfl
  refine ⟨next, released, isCalls, puts_of_find isUpdate fun other => ?_,
    good.of_update isUpdate ordered (isHeld.trans sameHeld) (fun handle => ?_) alive⟩
  · rw [finds]
    split
    all_goals rfl
  · have isRef := isRefs handle
    have sameRefs : (middle.putAttributes object
        ((middle.attributes object).eraseP (·.keyval = keyval))).refs handle =
        state.refs handle := by
      rw [refs, refs, ← sameKeyvals]
      rfl
    rw [sameRefs] at isRef
    rw [sameKeys, count_erase]
    have positive := count_pos_iff.mpr inKeys
    by_cases same : handle = keyval
    · rw [if_pos same] at isRef
      rw [if_pos (beq_iff_eq.mpr same.symm), same]
      rw [same] at isRef
      omega
    · rw [if_neg same] at isRef
      rw [if_neg (by simpa using Ne.symm same)]
      omega

theorem deleteAttr_right
    (object : Object)
    (keyval deletes : Int) :
    state.RightIff (.deleteAttr object keyval deletes) True := by
  unfold RightIff
  dsimp only [step, Correct]
  unfold DeletesAttr
  rw [getAttr_eq]
  cases isKeyval : state.keyvals keyval with
  | none =>
    refine ⟨state, .error .keyval, ?_, iff_true_intro ⟨⟨rfl, rfl⟩, good⟩⟩
    rw [deleteAttr, isKeyval]
  | some owner =>
    cases found : find (state.attributes object) keyval with
    | none =>
      refine ⟨state, .ok (), ?_, iff_true_intro ⟨⟨rfl, rfl⟩, good⟩⟩
      unfold find at found
      rw [deleteAttr, isKeyval]
      rw [found]
    | some attr =>
      obtain ⟨next, result, stepped, right⟩ :=
        replaces_right good found deletes none fun middle unchanged =>
          erased good isKeyval found unchanged
      refine ⟨next, result, ?_, iff_true_intro right⟩
      unfold find at found
      rw [deleteAttr, isKeyval]
      rw [found]
      exact stepped

end Mpich.Attr.State
