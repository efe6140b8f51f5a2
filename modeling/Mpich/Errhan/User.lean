import Mpich.Errhan.Codes

/-!
# The codes of user functions

A code leads back through `lastcode` to the code that its chain began with. When that is a
`**user` code, `checkForUserErrcode` returns the user's value for the code. It finds the
value in the entry of the code, which has been copied along the chain. But an entry keeps
the value of an earlier message at its place in the ring when it has none of its own.
-/

namespace Mpich.Errhan

open List Function Option

/-- A code that has been created, with its place in the ring, and the user's value if its
chain began with a `**user` code. -/
structure Chained where
  code : Code
  ringIdx : Nat
  origin : Option Code

/-- The ring and the codes created so far, the last one first. -/
structure Chains where
  ring : Ring
  created : List Chained

namespace Ring

variable {ring : Ring}

/-- The user's code that is found for a code. -/
def userOf
    (ring : Ring)
    (errcode : Code) : Option Code :=
  if (indexes errcode).generic ≠ 0 then
    match ring.entryOf errcode with
    | some entry => if entry.useUserErrorCode then some entry.userErrorCode else none
    | none => none
  else none

theorem checkForUserErrcode_eq
    (ring : Ring)
    (errcode : Code) :
    ring.checkForUserErrcode errcode = (ring.userOf errcode).getD errcode := by
  unfold checkForUserErrcode userOf
  by_cases isZero : errcode = 0
  · rw [isZero, if_neg (not_not.mpr rfl), if_neg (by decide)]
    rfl
  · rw [if_pos isZero]
    by_cases hasGeneric : (indexes errcode).generic = 0
    · rw [if_neg (not_not.mpr hasGeneric)]
      cases ring.entryOf errcode with
      | none => rfl
      | some entry => exact if_neg fun both => both.1 hasGeneric
    · rw [if_pos hasGeneric]
      cases ring.entryOf errcode with
      | none => rfl
      | some entry =>
        dsimp only
        cases isUser : entry.useUserErrorCode with
        | true =>
          rw [if_pos ⟨hasGeneric, rfl⟩, if_pos rfl]
          rfl
        | false =>
          rw [if_neg fun both => Bool.false_ne_true both.2, if_neg Bool.false_ne_true]
          rfl

theorem newUserErrorCode_eq
    (ring : Ring)
    (request : Request) :
    ring.newUserErrorCode request = match request.user with
      | some value => some value
      | none =>
        if ring.checkedLastcode request ≠ 0 then
          ring.userOf (ring.checkedLastcode request)
        else none := by
  unfold newUserErrorCode userOf
  cases request.user with
  | some value => rfl
  | none =>
    by_cases isZero : ring.checkedLastcode request = 0
    · rw [if_neg (not_not.mpr isZero), if_neg fun both => both.1 isZero]
    · rw [if_pos isZero]
      apply if_congr _ rfl rfl
      exact and_iff_right isZero

end Ring

namespace Chains

def initial : Chains := ⟨.initial, []⟩

/-- The code whose message is in a place of the ring. -/
def latest
    (chains : Chains)
    (ringIdx : Nat) : Option Chained :=
  chains.created.find? (·.ringIdx = ringIdx)

/-- The code as it was created, while its place still holds its own entry. -/
def current
    (chains : Chains)
    (code : Code) : Option Chained :=
  (chains.latest (indexes code).ringIdx).filter (·.code = code)

/-- The user's value if the chain of a new code began with a `**user` code: every code of
the chain has been passed on while its place held its own entry. -/
def origin
    (chains : Chains)
    (request : Request) : Option Code :=
  if chains.ring.checkedLastcode request = 0 then request.user
  else (chains.current (chains.ring.checkedLastcode request)).bind Chained.origin

/-- One call of `MPIR_Err_create_code_valist`; a code for `MPI_ERR_IN_STATUS` has no
entry. -/
def step
    (chains : Chains)
    (request : Request) : Chains :=
  ⟨(chains.ring.createCode request).2,
    if chains.ring.chosenClass request = errInStatus then chains.created
    else ⟨(chains.ring.createCode request).1, chains.ring.errorRingLoc,
      chains.origin request⟩ :: chains.created⟩

/-- The codes that a program has: those that have been created, and the classes. -/
def Obtained
    (chains : Chains)
    (code : Code) : Prop :=
  (∃ created ∈ chains.created, created.code = code) ∨
    (0 ≤ code.toInt ∧ code.toInt ≤ maxErrorClassIndex)

/-- A code that leads back to a `**user` code is turned into the user's value, and every
other one is left alone. -/
def Returns
    (chains : Chains) : Prop :=
  ∀ code, chains.Obtained code → chains.ring.checkForUserErrcode code =
      ((chains.current code).bind Chained.origin).getD code

/-- A new entry that takes the place of one with a user's code has one itself or no
generic message; a `**user` code starts its chain; and a code whose chain began with one
has a generic message, a number that is not negative, and a name of its own. -/
structure Meets
    (chains : Chains)
    (request : Request) : Prop where
  fresh : chains.origin request = none → request.genericIdx ≠ none →
    (chains.ring.entries chains.ring.errorRingLoc).useUserErrorCode = false
  starts : request.user ≠ none → chains.ring.checkedLastcode request = 0
  generic : chains.origin request ≠ none → request.genericIdx ≠ none
  fits : chains.origin request ≠ none → SeqFits request.msg
  named : chains.origin request ≠ none → ∀ created ∈ chains.created,
    (indexes created.code).ringIdx = chains.ring.errorRingLoc → (indexes created.code).ringId =
        (indexes (chains.ring.createCode request).1).ringId →
        created.code = (chains.ring.createCode request).1

/-- What is known of a place of the ring. -/
structure PlaceHolds
    (chains : Chains)
    (ringIdx : Nat)
    (created : Chained) : Prop where
  isRingIdx : (indexes created.code).ringIdx = ringIdx
  none : created.origin = none → (chains.ring.entries ringIdx).useUserErrorCode = false ∨
      (chains.ring.entries ringIdx).id &&& errorGenericMask = 0
  some : ∀ value, created.origin = some value →
    (chains.ring.entries ringIdx).useUserErrorCode = true ∧
      (chains.ring.entries ringIdx).userErrorCode = value ∧
      (chains.ring.entries ringIdx).id = (indexes created.code).ringId ∧
      chains.ring.InRange ringIdx ∧ (indexes created.code).generic ≠ 0 ∧
      ∀ other ∈ chains.created, (indexes other.code).ringIdx = ringIdx →
        (indexes other.code).ringId = (indexes created.code).ringId → other.code = created.code

structure Invariant
    (chains : Chains) : Prop where
  locLess : chains.ring.errorRingLoc < maxErrorRing
  locLe : chains.ring.errorRingLoc ≤ chains.ring.maxErrorRingLoc
  unused : ∀ ringIdx, chains.latest ringIdx = none →
    (chains.ring.entries ringIdx).useUserErrorCode = false
  holds : ∀ ringIdx created, chains.latest ringIdx = some created →
    chains.PlaceHolds ringIdx created

variable {chains : Chains}

theorem bind_current
    {code : Code} {created : Chained}
    (isLatest : chains.latest (indexes code).ringIdx = some created) :
    (chains.current code).bind Chained.origin =
      if created.code = code then created.origin else none := by
  unfold current
  rw [isLatest, filter_some]
  by_cases same : created.code = code
  · rw [if_pos (decide_eq_true same), if_pos same]
    rfl
  · rw [if_neg (by simpa using same), if_neg same]
    rfl

/-- The user's value is found for a code if and only if its chain began with one. -/
theorem Invariant.userOf_eq
    (invariant : chains.Invariant)
    {code : Code}
    (obtained : chains.Obtained code) :
    chains.ring.userOf code = (chains.current code).bind Chained.origin := by
  unfold Ring.userOf Ring.entryOf
  cases isLatest : chains.latest (indexes code).ringIdx with
  | none =>
    have isUnused := invariant.unused _ isLatest
    have isNone : chains.current code = none := by rw [current, isLatest]; rfl
    rw [isNone]
    split_ifs
    · dsimp only
      rw [isUnused]
      rfl
    · rfl
    · rfl
  | some created =>
    obtain ⟨isRingIdx, onNone, onSome⟩ := invariant.holds _ created isLatest
    rw [bind_current isLatest]
    cases isOrigin : created.origin with
    | none =>
      rw [ite_self]
      split_ifs with hasGeneric found
      · dsimp only
        rcases onNone isOrigin with isUnset | noGeneric
        · rw [isUnset]
          rfl
        · rw [found.2] at noGeneric
          exact absurd (generic_eq_zero_of_ringId noGeneric) hasGeneric
      · rfl
      · rfl
    | some value =>
      obtain ⟨isSet, isValue, isId, inRange, hasGeneric, unique⟩ := onSome value isOrigin
      by_cases same : created.code = code
      · rw [if_pos same]
        rw [same] at isId hasGeneric
        rw [if_pos hasGeneric, if_pos ⟨inRange, isId⟩]
        dsimp only
        rw [isSet, if_pos rfl, isValue]
      · rw [if_neg same]
        split_ifs with codeGeneric found
        · exfalso
          rcases obtained with ⟨other, member, rfl⟩ | isClass
          · exact same (unique other member rfl (found.2.symm.trans isId)).symm
          · exact codeGeneric (generic_eq_zero_of_class isClass)
        · rfl
        · rfl

theorem Invariant.returns
    (invariant : chains.Invariant) :
    chains.Returns := by
  intro code obtained
  rw [Ring.checkForUserErrcode_eq, invariant.userOf_eq obtained]

section

variable
    {chains : Chains}
    (invariant : chains.Invariant)
    {request : Request}
    (meets : chains.Meets request)
    (obtained : chains.Obtained request.lastcode)

include invariant meets obtained

/-- The new entry gets the value of its chain. -/
theorem Invariant.newUserErrorCode_eq :
    chains.ring.newUserErrorCode request = chains.origin request := by
  rw [Ring.newUserErrorCode_eq]
  unfold origin
  cases isUser : request.user with
  | some value =>
    have isStart := meets.starts (by rw [isUser]; exact some_ne_none value)
    rw [if_pos isStart]
  | none =>
    by_cases isStart : chains.ring.checkedLastcode request = 0
    · rw [if_pos isStart, if_neg (not_not.mpr isStart)]
    · rw [if_neg isStart, if_pos isStart]
      apply invariant.userOf_eq
      have isLastcode : chains.ring.checkedLastcode request = request.lastcode := by
        unfold Ring.checkedLastcode at isStart ⊢
        split_ifs at isStart ⊢
        · exact absurd rfl isStart
        · rfl
      rw [isLastcode]
      exact obtained

/-- One more code. -/
theorem Invariant.step :
    (chains.step request).Invariant := by
  have locLess := invariant.locLess
  have locLe := invariant.locLe
  by_cases inRing : chains.ring.chosenClass request = errInStatus
  · have same : chains.step request = chains := by
      unfold Chains.step Ring.createCode
      rw [if_pos inRing, if_pos inRing]
    rw [same]
    exact invariant
  have isUser := invariant.newUserErrorCode_eq meets obtained
  obtain ⟨isRingIdx, isGeneric, noGeneric⟩ := Ring.createCode_indexes locLess inRing
  have isRing : (chains.step request).ring =
      chains.ring.put (chains.ring.newEntry request) := Ring.createCode_ring inRing
  have isCreated : (chains.step request).created =
      ⟨(chains.ring.createCode request).1, chains.ring.errorRingLoc,
        chains.origin request⟩ :: chains.created := if_neg inRing
  have isEntries : (chains.step request).ring.entries =
      update chains.ring.entries chains.ring.errorRingLoc (chains.ring.newEntry request) := by
    rw [isRing]
    rfl
  obtain ⟨newLess, newLe, oldLe, grown⟩ :=
    Ring.put_bounds (chains.ring.newEntry request) locLess locLe
  rw [← isRing] at newLess newLe oldLe grown
  -- The entries of the other places and the codes that name them are as before.
  have isLatest : ∀ place, (chains.step request).latest place =
      if chains.ring.errorRingLoc = place then
        some ⟨(chains.ring.createCode request).1, chains.ring.errorRingLoc, chains.origin request⟩
      else chains.latest place := by
    intro place
    unfold latest
    rw [isCreated, find?_cons]
    by_cases isPlace : chains.ring.errorRingLoc = place
    · rw [decide_eq_true isPlace, if_pos isPlace]
    · rw [decide_eq_false isPlace, if_neg isPlace]
  refine ⟨newLess, newLe, fun place isNone => ?_, fun place created isSome => ?_⟩
  · rw [isLatest] at isNone
    split at isNone
    case isTrue => cases isNone
    case isFalse other =>
      rw [isEntries, update_of_ne (Ne.symm other)]
      exact invariant.unused place isNone
  rw [isLatest] at isSome
  split at isSome
  case isFalse other =>
    obtain ⟨isPlace, onNone, onSome⟩ := invariant.holds place created isSome
    have sameEntry : (chains.step request).ring.entries place = chains.ring.entries place := by
      rw [isEntries, update_of_ne (Ne.symm other)]
    refine ⟨isPlace, ?_, fun value isValue => ?_⟩
    · rw [sameEntry]
      exact onNone
    · obtain ⟨isSet, isCode, isId, inRange, hasGeneric, unique⟩ := onSome value isValue
      rw [sameEntry]
      refine ⟨isSet, isCode, isId, ⟨inRange.1, inRange.2.trans grown⟩, hasGeneric, ?_⟩
      intro later member isLater
      rw [isCreated] at member
      rcases mem_cons.mp member with rfl | old
      · exact absurd (isRingIdx.symm.trans isLater) other
      · exact unique later old isLater
  case isTrue isPlace =>
    rw [← Option.some.inj isSome, ← isPlace]
    have isNew : (chains.step request).ring.entries chains.ring.errorRingLoc =
        chains.ring.newEntry request := by
      rw [isEntries, update_self]
    refine ⟨isRingIdx, fun isNone => ?_, fun value isValue => ?_⟩
    · dsimp only at isNone
      rw [isNew]
      by_cases hasGeneric : request.genericIdx = none
      · exact .inr (noGeneric hasGeneric)
      · left
        change ((chains.ring.entries chains.ring.errorRingLoc).useUserErrorCode ||
          (chains.ring.newUserErrorCode request).isSome) = false
        rw [isUser, isNone, meets.fresh isNone hasGeneric]
        rfl
    · dsimp only at isValue ⊢
      have notNone : chains.origin request ≠ none := by
        rw [isValue]
        exact some_ne_none value
      obtain ⟨errorClass, generic, ringIdx, seq, packs⟩ :=
        Ring.createCode_packs locLess inRing (meets.fits notNone)
      rw [isNew]
      refine ⟨?_, ?_, ?_, ⟨locLess, oldLe⟩, ?_, ?_⟩
      · change ((chains.ring.entries chains.ring.errorRingLoc).useUserErrorCode ||
          (chains.ring.newUserErrorCode request).isSome) = true
        rw [isUser, isValue]
        exact Bool.or_true _
      · change (chains.ring.newUserErrorCode request).getD _ = value
        rw [isUser, isValue]
        rfl
      · rw [packs.isId, packs.isCode]
        unfold indexes
        rw [pack_id]
      · rw [isGeneric]
        obtain ⟨index, isIndex⟩ := ne_none_iff_exists'.mp (meets.generic notNone)
        rw [isIndex]
        exact Nat.succ_ne_zero index
      · intro other member isOther sameName
        rw [isCreated] at member
        rcases mem_cons.mp member with rfl | old
        · rfl
        · exact meets.named notNone other old isOther sameName

end

/-- The states of a run whose requests get codes that have been obtained and meet the
condition. -/
inductive Reached : Chains → Prop
  | initial : Reached initial
  | step {chains : Chains} (request : Request) :
      Reached chains →
      chains.Obtained request.lastcode → chains.Meets request → Reached (chains.step request)

theorem invariant_initial : initial.Invariant where
  locLess := by decide
  locLe := le_rfl
  unused := fun _ _ => rfl
  holds := nofun

/-- A delete function has returned 7. -/
def deleteFailed : Request where
  lastcode := 0
  fatal := false
  errorClass := errOther
  genericIdx := some 2
  user := some 7
  msg := [0x37]
  errorClass_lt := by decide
  genericIdx_lt := by decide
  user_generic := fun _ => rfl
  msg_le := by decide

/-- Some other error. -/
def badArgument : Request where
  lastcode := 0
  fatal := false
  errorClass := 12
  genericIdx := some 3
  user := none
  msg := []
  errorClass_lt := errArg_lt
  genericIdx_lt := errArg_generic_lt
  user_generic := errArg_user
  msg_le := by decide

/-- The ring wraps, and the last error takes the place of the user's. -/
def wrapped : Chains :=
  (deleteFailed :: replicate 128 badArgument).foldl step initial

end Mpich.Errhan.Chains
