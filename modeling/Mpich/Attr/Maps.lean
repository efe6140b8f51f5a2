import Mpich.Attr.SetDelete

/-!
# Duplicating and deleting a list

The copies of a list keep its order. When a copy function fails, the copies that have been
made by then stay in the new list. The loop that deletes a list returns what the last
delete function has returned, and gives no reference back.
-/

namespace Mpich.Attr

open List Function Option

/-- The copies up to the first error, and the error. -/
def copiesOf
    (answer : Nat → Attribute → Except Error (Option Attribute)) :
    List Attribute → List Attribute × Result
  | [] => ([], .ok ())
  | attr :: rest =>
    match answer 0 attr with
    | .error error => ([], .error error)
    | .ok copy =>
      (copy.toList ++ (copiesOf (fun index => answer (index + 1)) rest).1,
        (copiesOf (fun index => answer (index + 1)) rest).2)

variable {answer : Nat → Attribute → Except Error (Option Attribute)} {list : List Attribute}

/-- Every copy is for the keyval of its attribute. -/
def KeepsKeyval
    (answer : Nat → Attribute → Except Error (Option Attribute)) : Prop :=
  ∀ index attr copy, answer index attr = .ok (some copy) → copy.keyval = attr.keyval

theorem copiesOf_ok
    (succeeds : ∀ index attr, list[index]? = some attr → ∃ copy, answer index attr = .ok copy) :
    (copiesOf answer list).2 = .ok () := by
  induction list generalizing answer with
  | nil => rfl
  | cons attr rest ih =>
    obtain ⟨copy, isCopy⟩ := succeeds 0 attr rfl
    rw [copiesOf, isCopy]
    exact ih fun index other isOther => succeeds (index + 1) other isOther

/-- The first error is returned. Nothing has been copied then if and only if nothing was
to be copied in front of it. -/
theorem copiesOf_error
    {index : Nat} {attr : Attribute} {error : Error}
    (isAttr : list[index]? = some attr)
    (fails : answer index attr = .error error)
    (isFirst : ∀ earlier < index, ∀ other, list[earlier]? = some other →
      ∃ copy, answer earlier other = .ok copy) :
    (copiesOf answer list).2 = .error error ∧ ((copiesOf answer list).1 = [] ↔
        ∀ earlier < index, ∀ other, list[earlier]? = some other →
          answer earlier other = .ok none) := by
  induction list generalizing answer index with
  | nil => cases isAttr
  | cons first rest ih =>
    cases index with
    | zero =>
      rw [getElem?_cons_zero, Option.some.injEq] at isAttr
      rw [copiesOf, isAttr, fails]
      exact ⟨rfl, iff_of_true rfl nofun⟩
    | succ index =>
      obtain ⟨copy, isCopy⟩ := isFirst 0 (Nat.succ_pos index) first rfl
      obtain ⟨isError, isEmpty⟩ := @ih
        (fun index => answer (index + 1)) index isAttr fails
        fun earlier less other isOther =>
          isFirst (earlier + 1) (Nat.succ_lt_succ less) other isOther
      rw [copiesOf, isCopy]
      refine ⟨isError, ?_⟩
      rw [append_eq_nil_iff, isEmpty]
      constructor
      · rintro ⟨isNone, later⟩ earlier less other isOther
        cases earlier with
        | zero =>
          rw [getElem?_cons_zero, Option.some.injEq] at isOther
          rw [← isOther, isCopy, toList_eq_nil_iff.mp isNone]
        | succ earlier =>
          exact later earlier (Nat.lt_of_succ_lt_succ less) other isOther
      · intro none
        have isNone := none 0 (Nat.succ_pos index) first rfl
        rw [isCopy, Except.ok.injEq] at isNone
        rw [isNone]
        exact ⟨rfl, fun earlier less other isOther =>
          none (earlier + 1) (Nat.succ_lt_succ less) other isOther⟩

theorem keys_copiesOf (keeps : KeepsKeyval answer) :
    (keys (copiesOf answer list).1).Sublist (keys list) := by
  induction list generalizing answer with
  | nil => exact nil_sublist _
  | cons attr rest ih =>
    rw [copiesOf]
    cases isAnswer : answer 0 attr with
    | error error => exact nil_sublist _
    | ok copy =>
      have later := @ih (fun index => answer (index + 1))
        fun index other copy => keeps (index + 1) other copy
      cases copy with
      | none => exact later.cons attr.keyval
      | some copy =>
        have isKeyval := keeps 0 attr copy isAnswer
        unfold keys at later ⊢
        dsimp only
        rw [toList_some, singleton_append, map_cons, isKeyval]
        exact later.cons_cons attr.keyval

theorem find_copiesOf_eq_none
    (keeps : KeepsKeyval answer)
    {keyval : Int}
    (absent : find list keyval = none) :
    find (copiesOf answer list).1 keyval = none := by
  refine find_eq_none.mpr fun copy member same => ?_
  have inKeys := (@keys_copiesOf answer list keeps).subset (mem_map_of_mem member)
  obtain ⟨attr, isAttr, isKeyval⟩ := mem_map.mp inKeys
  exact find_eq_none.mp absent attr isAttr (isKeyval.trans same)

/-- The copy of an attribute is found under its keyval. -/
theorem find_copiesOf
    (keeps : KeepsKeyval answer)
    (ordered : Ordered list)
    (succeeds : ∀ index attr, list[index]? = some attr → ∃ copy, answer index attr = .ok copy)
    {index : Nat} {attr : Attribute} {copy : Option Attribute}
    (isAttr : list[index]? = some attr)
    (isAnswer : answer index attr = .ok copy) :
    find (copiesOf answer list).1 attr.keyval = copy := by
  induction list generalizing answer index with
  | nil => cases isAttr
  | cons first rest ih =>
    obtain ⟨less, restOrdered⟩ := ordered_cons.mp ordered
    have keepsRest : KeepsKeyval fun index => answer (index + 1) :=
      fun index other copy => keeps (index + 1) other copy
    obtain ⟨firstCopy, isFirstCopy⟩ := succeeds 0 first rfl
    rw [copiesOf, isFirstCopy]
    dsimp only
    cases index with
    | zero =>
      rw [getElem?_cons_zero, Option.some.injEq] at isAttr
      rw [isAttr] at isFirstCopy less
      rw [isAnswer, Except.ok.injEq] at isFirstCopy
      rw [← isFirstCopy]
      have absent : find (copiesOf (fun index => answer (index + 1)) rest).1 attr.keyval =
          none := by
        apply find_copiesOf_eq_none keepsRest
        refine find_eq_none.mpr fun other member same => ?_
        have isLess := less other member
        omega
      cases copy with
      | none => exact absent
      | some copy =>
        rw [toList_some, singleton_append, find_cons, if_pos (keeps 0 attr copy isAnswer)]
    | succ index =>
      have later := @ih (fun index => answer (index + 1)) keepsRest
        restOrdered (fun index other isOther => succeeds (index + 1) other isOther)
        index isAttr isAnswer
      cases firstCopy with
      | none => exact later
      | some firstCopy =>
        have isLess := less attr (mem_of_getElem? isAttr)
        have isFirst := keeps 0 first firstCopy isFirstCopy
        rw [toList_some, singleton_append, find_cons, if_neg (by omega)]
        exact later

namespace State

variable {Object : Type*} {state : State Object}

theorem keepsKeyval_copyOf
    (state : State Object)
    (copies : Nat → CopyResult)
    (available : Nat → Bool) :
    KeepsKeyval (state.copyOf copies available) := by
  intro index attr copy isCopy
  unfold copyOf at isCopy
  split at isCopy
  case h_2 => cases isCopy
  case h_1 keyval _ =>
    split_ifs at isCopy
    all_goals cases isCopy
    rfl

/-- A copy depends on the functions of the keyval only. -/
theorem copyOf_congr
    {next : State Object}
    (same : ∀ handle,
      (next.keyvals handle).map Keyval.copyfn = (state.keyvals handle).map Keyval.copyfn)
    (copies : Nat → CopyResult)
    (available : Nat → Bool) :
    next.copyOf copies available = state.copyOf copies available := by
  funext index attr
  have isSame := same attr.keyval
  unfold copyOf
  cases isNext : next.keyvals attr.keyval with
  | none =>
    cases isState : state.keyvals attr.keyval with
    | none => rfl
    | some keyval =>
      rw [isNext, isState] at isSame
      cases isSame
  | some keyval =>
    cases isState : state.keyvals attr.keyval with
    | none =>
      rw [isNext, isState] at isSame
      cases isSame
    | some other =>
      rw [isNext, isState, map_some, map_some, Option.some.injEq] at isSame
      dsimp only
      rw [isSame]

theorem copyfn_addRef
    (state : State Object)
    (handle other : Int) :
    ((state.addRef handle).keyvals other).map Keyval.copyfn =
      (state.keyvals other).map Keyval.copyfn := by
  unfold addRef
  dsimp only
  by_cases same : other = handle
  · rw [same, Function.update_self, Option.map_map]
    rfl
  · rw [update_of_ne same]

variable [DecidableEq Object]

/-- One round of the loop that copies. -/
theorem dupLoop_cons
    {keyval : Keyval} {attr : Attribute}
    (isKeyval : state.keyvals attr.keyval = some keyval)
    (target : Object)
    (copies : Nat → CopyResult)
    (available : Nat → Bool)
    (index : Nat)
    (rest : List Attribute) :
    dupLoop target copies available index (attr :: rest) state =
      match state.copyOf copies available index attr with
      | .error error => some (state, .error error)
      | .ok none => dupLoop target copies available (index + 1) rest state
      | .ok (some copy) => dupLoop target copies available (index + 1) rest
          ((state.putAttributes target (state.attributes target ++ [copy])).addRef
            attr.keyval) := by
  rw [dupLoop, copyOf, isKeyval, bind_some]
  dsimp only
  split_ifs
  all_goals rfl

/-- What the loop that copies has done: the copies are at the end of the new list, with a
reference each. -/
structure Copied
    (state next : State Object)
    (target : Object)
    (copies : List Attribute) : Prop where
  attributes : next.attributes = update state.attributes target (state.attributes target ++ copies)
  held : next.held = state.held
  calls : next.calls = state.calls
  keyvals : copies = [] → next.keyvals = state.keyvals
  refs : ∀ handle, next.refs handle = state.refs handle + (keys copies).count handle
  alive : (∀ handle keyval, state.keyvals handle = some keyval → 0 < keyval.refCount) →
    ∀ handle keyval, next.keyvals handle = some keyval → 0 < keyval.refCount

theorem copied_nil
    (state : State Object)
    (target : Object) :
    Copied state state target [] where
  attributes := by rw [append_nil, update_eq_self]
  held := rfl
  calls := rfl
  keyvals := fun _ => rfl
  refs := fun _ => rfl
  alive := fun alive => alive

/-- One more copy in front. -/
theorem Copied.cons
    {next : State Object} {target : Object} {keyval : Keyval} {copy : Attribute}
    {copies : List Attribute}
    (isKeyval : state.keyvals copy.keyval = some keyval)
    (copied : Copied ((state.putAttributes target
      (state.attributes target ++ [copy])).addRef copy.keyval) next target copies) :
    Copied state next target (copy :: copies) := by
  constructor
  · rw [copied.attributes]
    change update (update state.attributes target _) target
      (update state.attributes target _ target ++ copies) = _
    rw [Function.update_self, update_idem, append_assoc, singleton_append]
  · exact copied.held
  · exact copied.calls
  · intro isNil
    cases isNil
  · intro handle
    have isRefs := @refs_addRef Object (state.putAttributes target
      (state.attributes target ++ [copy])) copy.keyval keyval isKeyval handle
    have isCount : (keys (copy :: copies)).count handle =
        (keys copies).count handle + if handle = copy.keyval then 1 else 0 := by
      unfold keys
      rw [map_cons, count_cons]
      apply congrArg
      apply if_congr _ rfl rfl
      rw [beq_iff_eq]
      exact eq_comm
    have rest := copied.refs handle
    change _ = state.refs handle + _ at isRefs
    omega
  · intro alive
    exact copied.alive (alive_addRef alive copy.keyval)

/-- The loop that copies. -/
theorem dupLoop_spec
    {list : List Attribute}
    (target : Object)
    (copies : Nat → CopyResult)
    (available : Nat → Bool)
    (inUse : ∀ attr ∈ list, state.keyvals attr.keyval ≠ none)
    (index : Nat) :
    ∃ next, dupLoop target copies available index list state = some (next, (copiesOf (fun offset =>
          state.copyOf copies available (index + offset)) list).2) ∧
      Copied state next target (copiesOf (fun offset =>
        state.copyOf copies available (index + offset)) list).1 := by
  induction list generalizing index state with
  | nil => exact ⟨state, rfl, copied_nil state target⟩
  | cons attr rest ih =>
    obtain ⟨keyval, isKeyval⟩ := ne_none_iff_exists'.mp (inUse attr mem_cons_self)
    have shifted : (fun offset => state.copyOf copies available (index + (offset + 1))) =
        fun offset => state.copyOf copies available (index + 1 + offset) := by
      funext offset
      rw [add_assoc, add_comm 1 offset]
    rw [dupLoop_cons isKeyval, copiesOf, shifted, add_zero]
    cases isCopy : state.copyOf copies available index attr with
    | error error => exact ⟨state, rfl, copied_nil state target⟩
    | ok copy =>
      cases copy with
      | none =>
        exact ih (fun other member =>
          inUse other (mem_cons_of_mem attr member)) (index + 1)
      | some copy =>
        have isCopyKeyval := keepsKeyval_copyOf state copies available index attr copy isCopy
        have sameAnswers := @copyOf_congr Object state
          ((state.putAttributes target (state.attributes target ++ [copy])).addRef attr.keyval)
          (fun handle => copyfn_addRef _ attr.keyval handle) copies available
        obtain ⟨next, looped, copied⟩ := @ih
          ((state.putAttributes target (state.attributes target ++ [copy])).addRef attr.keyval)
          (fun other member isNone => by
            have same := copyfn_addRef (state.putAttributes target
              (state.attributes target ++ [copy])) attr.keyval other.keyval
            rw [isNone] at same
            exact inUse other (mem_cons_of_mem attr member)
              (map_eq_none_iff.mp same.symm)) (index + 1)
        rw [sameAnswers] at looped copied
        refine ⟨next, looped, ?_⟩
        rw [← isCopyKeyval] at isKeyval copied
        exact copied.cons isKeyval

omit [DecidableEq Object] in
/-- The delete function of each attribute is called. -/
theorem deleteLoop_spec
    {list : List Attribute}
    (object : Object)
    (deletes : Nat → Int)
    (inUse : ∀ attr ∈ list, state.keyvals attr.keyval ≠ none)
    (index : Nat)
    (errno : Result) :
    ∃ next result, deleteLoop object deletes index list errno state = some (next, result) ∧
      state.Unchanged next ∧
      next.calls = state.calls ++ list.flatMap (state.deleteCall object) := by
  induction list generalizing index errno state with
  | nil => exact ⟨state, errno, rfl, ⟨rfl, rfl, rfl⟩, (append_nil _).symm⟩
  | cons attr rest ih =>
    obtain ⟨keyval, isKeyval⟩ := ne_none_iff_exists'.mp (inUse attr mem_cons_self)
    obtain ⟨middle, answer, called, ⟨sameKeyvals, sameHeld, sameAttributes⟩, isCall, _⟩ :=
      @callAttrDelete_spec Object state object attr keyval isKeyval (deletes index)
    obtain ⟨next, result, looped, ⟨keyvals, held, attributes⟩, isCalls⟩ :=
      @ih middle (fun other member => by
        rw [sameKeyvals]
        exact inUse other (mem_cons_of_mem attr member)) (index + 1) answer
    refine ⟨next, result, ?_, ⟨keyvals.trans sameKeyvals, held.trans sameHeld,
      attributes.trans sameAttributes⟩, ?_⟩
    · rw [deleteLoop, called, bind_some]
      exact looped
    · have sameCall : middle.deleteCall object = state.deleteCall object := by
        funext other
        rw [deleteCall, deleteCall, sameKeyvals]
      rw [isCalls, isCall, sameCall, append_assoc, flatMap_cons]

end Mpich.Attr.State

/-!
## When attribute lists behave as maps

An operation on a good state does what it should and leaves a good state if and only if
it is one of those that the lists get right. So a run behaves as maps do exactly when all
of its operations are.
-/

namespace Mpich.Attr.State

open Function

variable {Object : Type*} [DecidableEq Object] {state : State Object}

theorem dupList_right
    (good : state.Good)
    (source : Object)
    {target : Object}
    (isEmpty : state.attributes target = [])
    (copies : Nat → CopyResult)
    (available : Nat → Bool) :
    state.RightIff (.dupList source target copies available)
      (state.Meets (.dupList source target copies available)) := by
  have keeps := keepsKeyval_copyOf state copies available
  have ordered := good.ordered source
  obtain ⟨next, looped, copied⟩ := @dupLoop_spec Object state _ (state.attributes source)
    target copies available (fun attr member isNone => by
      obtain ⟨keyval, isKeyval⟩ := good.exists_keyval member
      rw [isKeyval] at isNone
      cases isNone) 0
  simp only [zero_add] at looped copied
  have isUpdate := copied.attributes
  rw [isEmpty, List.nil_append] at isUpdate
  have nextGood : next.Good := by
    refine good.of_update isUpdate (ordered.sublist (keys_copiesOf keeps)) copied.held
      (fun handle => ?_) (copied.alive good.alive)
    have isRefs := copied.refs handle
    rw [isEmpty]
    change _ + 0 = _
    omega
  have isTarget : next.attributes target =
      (copiesOf (state.copyOf copies available) (state.attributes source)).1 := by
    rw [isUpdate, Function.update_self]
  have others : ∀ object ≠ target, next.attributes object = state.attributes object := by
    intro object isOther
    rw [isUpdate, update_of_ne isOther]
  refine ⟨next, _, looped, ?_⟩
  constructor
  · rintro ⟨⟨_, onError, _⟩, _⟩ index attr error isAttr fails
    by_cases isFirst : ∃ earlier < index, ∃ other failure,
        (state.attributes source)[earlier]? = some other ∧
        state.copyOf copies available earlier other = .error failure
    · exact .inl isFirst
    · right
      have succeeds : ∀ earlier < index, ∀ other, (state.attributes source)[earlier]? = some other →
          ∃ copy, state.copyOf copies available earlier other = .ok copy := by
        intro earlier less other isOther
        cases isCopy : state.copyOf copies available earlier other with
        | ok copy => exact ⟨copy, rfl⟩
        | error failure =>
          exact absurd ⟨earlier, less, other, failure, isOther, isCopy⟩ isFirst
      obtain ⟨_, _, _, sameAttributes⟩ := onError index attr error isAttr fails succeeds
      apply (copiesOf_error isAttr fails succeeds).2.mp
      rw [← isTarget, sameAttributes, isEmpty]
  · intro meets
    refine ⟨⟨copied.calls, fun index attr error isAttr fails isFirst => ?_,
      fun succeeds => ⟨copiesOf_ok succeeds, ?_, ?_, ?_⟩⟩, nextGood⟩
    · obtain ⟨isError, isNil⟩ := copiesOf_error isAttr fails isFirst
      have nothing := isNil.mpr (by
        rcases meets index attr error isAttr fails with
          ⟨earlier, less, other, failure, isOther, isFailure⟩ | none
        · obtain ⟨copy, isCopy⟩ := isFirst earlier less other isOther
          rw [isCopy] at isFailure
          cases isFailure
        · exact none)
      refine ⟨isError, copied.keyvals nothing, copied.held, ?_⟩
      rw [isUpdate, nothing, ← isEmpty, update_eq_self]
    · intro object isOther keyval
      rw [getAttr_eq, getAttr_eq, others object isOther]
    · intro index attr copy isAttr isCopy
      rw [getAttr_eq, isTarget, find_copiesOf keeps ordered succeeds isAttr isCopy]
    · intro keyval absent
      rw [getAttr_eq, Option.map_eq_none_iff] at absent ⊢
      rw [isTarget]
      exact find_copiesOf_eq_none keeps absent

/-- The attributes of a list that is deleted go without their references. -/
theorem deleteList_right
    (good : state.Good)
    (object : Object)
    (deletes : Nat → Int) :
    state.RightIff (.deleteList object deletes) (state.Meets (.deleteList object deletes)) := by
  obtain ⟨middle, result, looped, ⟨sameKeyvals, sameHeld, sameAttributes⟩, isCalls⟩ :=
    @deleteLoop_spec Object state (state.attributes object) object deletes
      (fun attr member isNone => by
        obtain ⟨keyval, isKeyval⟩ := good.exists_keyval member
        rw [isKeyval] at isNone
        cases isNone) 0 (.ok ())
  have isUpdate : (middle.putAttributes object []).attributes =
      update state.attributes object [] := by
    rw [← sameAttributes]
    rfl
  have sameRefs : ∀ handle, (middle.putAttributes object []).refs handle = state.refs handle := by
    intro handle
    rw [refs, refs, ← sameKeyvals]
    rfl
  refine ⟨middle.putAttributes object [], result, ?_, ?_⟩
  · change (deleteLoop object deletes 0 (state.attributes object) (.ok ()) state).map _ = _
    rw [looped, Option.map_some]
  constructor
  · rintro ⟨_, nextGood⟩
    change state.attributes object = []
    cases isList : state.attributes object with
    | nil => rfl
    | cons attr rest =>
      have isCount := good.counted attr.keyval
      have nextCount := nextGood.counted attr.keyval
      have sums := live_putAttributes good.finite object [] attr.keyval
      have positive : 0 < (keys (state.attributes object)).count attr.keyval := by
        rw [isList]
        exact List.count_pos_iff.mpr List.mem_cons_self
      have sameLive := @live_congr Object (state.putAttributes object []) _ isUpdate attr.keyval
      have isHeld : (middle.putAttributes object []).held = state.held := sameHeld
      have isZero : (keys []).count attr.keyval = 0 := rfl
      rw [sameRefs, sameLive, isHeld] at nextCount
      omega
  · intro isEmpty
    have isNil : state.attributes object = [] := isEmpty
    rw [isNil] at looped isCalls
    have isResult : (state, .ok ()) = (middle, result) := Option.some.inj looped
    rw [Prod.mk.injEq] at isResult
    obtain ⟨isState, isOk⟩ := isResult
    refine ⟨⟨?_, fun other different keyval => ?_, fun keyval => ?_, ?_⟩, ?_⟩
    · rw [isNil]
      exact isCalls
    · rw [getAttr_eq, getAttr_eq, isUpdate, update_of_ne different]
    · rw [getAttr_eq, isUpdate, Function.update_self]
      rfl
    · rw [isNil]
      exact iff_of_true isOk.symm fun _ _ isAt => absurd isAt.symm (Option.some_ne_none _)
    · refine good.of_update isUpdate .nil sameHeld (fun handle => ?_) ?_
      · rw [sameRefs, isNil]
      · intro handle keyval isKeyval
        apply good.alive handle keyval
        rw [← sameKeyvals]
        exact isKeyval

theorem step_right
    (good : state.Good)
    (action : Action Object)
    (offered : state.Offered action) :
    state.RightIff action (state.Meets action) := by
  cases action with
  | createKeyval handle language copyfn delfn =>
    exact createKeyval_right good offered language copyfn delfn
  | freeKeyval handle => exact freeKeyval_right good offered
  | setAttr object keyval value available deletes =>
    exact setAttr_right good object keyval value available deletes
  | deleteAttr object keyval deletes => exact deleteAttr_right good object keyval deletes
  | dupList source target copies available =>
    exact dupList_right good source offered.2 copies available
  | deleteList object deletes => exact deleteList_right good object deletes

omit [DecidableEq Object] in
theorem good_initial : (initial : State Object).Good where
  finite := by
    apply Set.finite_empty.subset
    intro object some
    exact absurd rfl some
  ordered := fun _ => .nil
  counted := fun handle => by
    have isZero : (initial : State Object).live handle = 0 := finsum_zero
    rw [isZero]
    rfl
  alive := fun _ _ impossible => by cases impossible

theorem every_iff
    (good : state.Good)
    (actions : List (Action Object)) :
    Every (fun state action next result => state.Correct action next result ∧ next.Good)
        state actions ↔
      Every (fun state action _ _ => state.Meets action) state actions := by
  induction actions generalizing state with
  | nil => exact Iff.rfl
  | cons action rest ih =>
    apply forall_congr'
    intro offered
    obtain ⟨next, result, stepped, right⟩ := step_right good action offered
    constructor
    · rintro ⟨other, answer, isOther, holds, later⟩
      rw [stepped, Option.some.injEq, Prod.mk.injEq] at isOther
      obtain ⟨rfl, rfl⟩ := isOther
      exact ⟨next, result, stepped, right.mp holds, (ih holds.2).mp later⟩
    · rintro ⟨other, answer, isOther, meets, later⟩
      rw [stepped, Option.some.injEq, Prod.mk.injEq] at isOther
      obtain ⟨rfl, rfl⟩ := isOther
      have holds := right.mpr meets
      exact ⟨next, result, stepped, holds, (ih holds.2).mpr later⟩

/-- In a run from the start every operation behaves as on maps, with the lists in order
and the references counted, if and only if every operation is one that the lists get
right. -/
theorem behaves_iff (actions : List (Action Object)) :
    Every (fun state action next result => state.Correct action next result ∧ next.Good)
        (initial : State Object) actions ↔
      Every (fun state action _ _ => state.Meets action) (initial : State Object) actions :=
  every_iff good_initial actions

/-- A keyval with a smaller handle goes behind the one that is there. -/
theorem not_behaves :
    ¬ ∀ actions : List (Action Unit),
      Every (fun state action next result => state.Correct action next result ∧ next.Good)
        initial actions := by
  intro all
  have run := all [.createKeyval 3 .c false false, .createKeyval 5 .c false false,
    .setAttr () 5 50 true 0, .setAttr () 3 30 true 0]
  obtain ⟨_, _, ⟨⟩, _, run⟩ := run rfl
  obtain ⟨_, _, ⟨⟩, _, run⟩ := run rfl
  obtain ⟨_, _, ⟨⟩, _, run⟩ := run trivial
  obtain ⟨_, _, ⟨⟩, ⟨_, good⟩, _⟩ := run trivial
  exact absurd (good.ordered ()) (by decide)

end Mpich.Attr.State
