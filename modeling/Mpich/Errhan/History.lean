import Mpich.Errhan.Codes

/-!
# The codes of a run

In a run whose codes all have their fields, every code finds its entry as long as no later
message has used its place in the ring.
-/

namespace Mpich.Errhan

open Function

/-- A code that has been created, with its place in the ring and what it was made from. -/
structure Created where
  code : Code
  ringIdx : Nat
  errorClass : Code
  genericIdx : Option Nat
  seq : Code

/-- Two messages differ in class, generic index or number. -/
def Created.Differs
    (first second : Created) : Prop :=
  first.errorClass ≠ second.errorClass ∨ first.genericIdx ≠ second.genericIdx ∨
    first.seq ≠ second.seq

/-- The ring and the codes created so far, the last one first. -/
structure History where
  ring : Ring
  created : List Created

namespace History

def initial : History := ⟨.initial, []⟩

/-- What a request adds; a code for `MPI_ERR_IN_STATUS` has no entry. -/
def record
    (ring : Ring)
    (request : Request) : List Created :=
  if ring.chosenClass request = errInStatus then []
  else [⟨(ring.createCode request).1, ring.errorRingLoc, ring.chosenClass request,
    request.genericIdx, ringSeq request.msg⟩]

/-- One call of `MPIR_Err_create_code_valist`. -/
def step
    (history : History)
    (request : Request) : History :=
  ⟨(history.ring.createCode request).2, record history.ring request ++ history.created⟩

/-- Something holds of every request of a run. -/
def Every
    (holds : History → Request → Prop) : History → List Request → Prop
  | _, [] => True
  | history, request :: rest =>
    holds history request ∧ Every holds (history.step request) rest

/-- The code whose message is in a place of the ring. -/
def latest
    (history : History)
    (ringIdx : Nat) : Option Created :=
  history.created.find? (·.ringIdx = ringIdx)

/-- A code that has been created names its place. Its id is the one that is stored there
until the place is used again, and it is not the one that is stored there when a message
that differs has used the place. -/
structure Resolves
    (history : History) : Prop where
  names : ∀ created ∈ history.created, (indexes created.code).ringIdx = created.ringIdx ∧
      history.ring.InRange created.ringIdx
  stored : ∀ created ∈ history.created, history.latest created.ringIdx = some created →
      (history.ring.entries created.ringIdx).id = (indexes created.code).ringId
  replaced : ∀ created ∈ history.created, ∀ later,
    history.latest created.ringIdx = some later → later.Differs created →
      (history.ring.entries created.ringIdx).id ≠ (indexes created.code).ringId

/-- A code has the fields that it was made from. -/
structure Holds
    (created : Created)
    (errorClass : BitVec 7)
    (generic : BitVec 11)
    (seq : BitVec 4) : Prop where
  isClass : created.errorClass = errorClass.setWidth 32
  isGeneric : generic.toNat = (created.genericIdx.map (· + 1)).getD 0
  isSeq : created.seq = seq.setWidth 32
  isCode : ∃ fatal ringIdx, ringIdx.toNat = created.ringIdx ∧
    created.code = pack errorClass fatal generic ringIdx seq

/-- The ring is in order, and each place has the id of its latest code. -/
structure Invariant
    (history : History) : Prop where
  locLess : history.ring.errorRingLoc < maxErrorRing
  locLe : history.ring.errorRingLoc ≤ history.ring.maxErrorRingLoc
  holds : ∀ created ∈ history.created, ∃ errorClass generic seq,
    Holds created errorClass generic seq ∧ created.ringIdx ≤ history.ring.maxErrorRingLoc
  latest : ∀ ringIdx created, history.latest ringIdx = some created →
    ∀ errorClass generic seq, Holds created errorClass generic seq →
      (history.ring.entries ringIdx).id = packId errorClass generic seq

theorem generic_eq
    {first second : Option Nat}
    (same : (first.map (· + 1)).getD 0 = (second.map (· + 1)).getD 0) :
    first = second := by
  cases first with
  | none =>
    cases second with
    | none => rfl
    | some index =>
      change 0 = index + 1 at same
      omega
  | some index =>
    cases second with
    | none =>
      change index + 1 = 0 at same
      omega
    | some other => rw [Nat.succ.inj same]

theorem Holds.ringId
    {created : Created} {errorClass : BitVec 7} {generic : BitVec 11}
    {seq : BitVec 4}
    (holds : Holds created errorClass generic seq) :
    (indexes created.code).ringIdx = created.ringIdx ∧
      (indexes created.code).ringId = packId errorClass generic seq := by
  obtain ⟨fatal, ringIdx, isRingIdx, isCode⟩ := holds.isCode
  unfold indexes
  rw [isCode]
  rw [pack_ringIdx, pack_id, BitVec.toNat_setWidth, Nat.mod_eq_of_lt (by omega)]
  exact ⟨isRingIdx, rfl⟩

/-- The codes of a history in order find their entries. -/
theorem Invariant.resolves
    {history : History}
    (invariant : history.Invariant) :
    history.Resolves := by
  constructor
  · intro created member
    obtain ⟨errorClass, generic, seq, holds, isLe⟩ := invariant.holds created member
    obtain ⟨fatal, ringIdx, isRingIdx, _⟩ := holds.isCode
    exact ⟨holds.ringId.1, by rw [← isRingIdx]; exact ringIdx.isLt, isLe⟩
  · intro created member isLatest
    obtain ⟨errorClass, generic, seq, holds, _⟩ := invariant.holds created member
    rw [invariant.latest _ created isLatest errorClass generic seq holds, holds.ringId.2]
  · intro created member later isLatest differs
    obtain ⟨errorClass, generic, seq, holds, _⟩ := invariant.holds created member
    obtain ⟨laterClass, laterGeneric, laterSeq, laterHolds, _⟩ :=
      invariant.holds later (List.mem_of_find?_eq_some isLatest)
    rw [invariant.latest _ later isLatest laterClass laterGeneric laterSeq laterHolds,
      holds.ringId.2]
    intro same
    obtain ⟨sameClass, sameGeneric, sameSeq⟩ := packId_inj same
    rcases differs with notClass | notGeneric | notSeq
    · exact notClass (by rw [laterHolds.isClass, holds.isClass, sameClass])
    · apply notGeneric
      apply generic_eq
      rw [← laterHolds.isGeneric, ← holds.isGeneric, sameGeneric]
    · exact notSeq (by rw [laterHolds.isSeq, holds.isSeq, sameSeq])

/-- One more code that has its fields. -/
theorem Invariant.step
    {history : History}
    (invariant : history.Invariant)
    {request : Request}
    (meets : history.ring.Meets request) :
    (history.step request).Invariant := by
  have locLess := invariant.locLess
  have locLe := invariant.locLe
  by_cases inRing : history.ring.chosenClass request = errInStatus
  · have same : history.step request = history := by
      unfold History.step record Ring.createCode
      rw [if_pos inRing, if_pos inRing]
      rfl
    rw [same]
    exact invariant
  obtain ⟨errorClass, generic, ringIdx, seq, packs⟩ :=
    Ring.createCode_packs locLess inRing (meets inRing).1
  have isRecord : record history.ring request = [⟨(history.ring.createCode request).1,
      history.ring.errorRingLoc, history.ring.chosenClass request, request.genericIdx,
      ringSeq request.msg⟩] := if_neg inRing
  have isRing : (history.step request).ring =
      history.ring.put (history.ring.newEntry request) := Ring.createCode_ring inRing
  obtain ⟨newLess, newLe, oldLe, grown⟩ :=
    Ring.put_bounds (history.ring.newEntry request) locLess locLe
  rw [← isRing] at newLess newLe oldLe grown
  have isCreated : (history.step request).created =
      record history.ring request ++ history.created := rfl
  rw [isRecord] at isCreated
  refine ⟨newLess, newLe, ?_, ?_⟩
  · intro created member
    rw [isCreated] at member
    rcases List.mem_cons.mp member with rfl | old
    · exact ⟨errorClass, generic, seq, ⟨packs.isClass, packs.isGeneric, packs.isSeq,
        _, ringIdx, packs.isRingIdx, packs.isCode⟩, oldLe⟩
    · obtain ⟨oldClass, oldGeneric, oldSeq, holds, isLe⟩ := invariant.holds created old
      exact ⟨oldClass, oldGeneric, oldSeq, holds, isLe.trans grown⟩
  · intro place created isLatest otherClass otherGeneric otherSeq holds
    have isEntries : (history.step request).ring.entries =
        update history.ring.entries history.ring.errorRingLoc (history.ring.newEntry request) := by
      rw [isRing]
      rfl
    unfold History.latest at isLatest
    rw [isCreated, List.singleton_append, List.find?_cons] at isLatest
    rw [isEntries]
    by_cases isPlace : history.ring.errorRingLoc = place
    · rw [isPlace, update_self]
      rw [decide_eq_true isPlace] at isLatest
      cases isLatest
      have sameClass : errorClass = otherClass :=
        eq_of_setWidth_eq (by decide) (packs.isClass.symm.trans holds.isClass)
      have sameGeneric : generic = otherGeneric :=
        BitVec.eq_of_toNat_eq (packs.isGeneric.trans holds.isGeneric.symm)
      have sameSeq : seq = otherSeq :=
        eq_of_setWidth_eq (by decide) (packs.isSeq.symm.trans holds.isSeq)
      rw [packs.isId, sameClass, sameGeneric, sameSeq]
    · rw [update_of_ne (Ne.symm isPlace)]
      rw [decide_eq_false isPlace] at isLatest
      exact invariant.latest place created isLatest otherClass otherGeneric otherSeq holds

theorem invariant_initial : initial.Invariant where
  locLess := by decide
  locLe := le_rfl
  holds := nofun
  latest := nofun

/-- In a run every code has its fields and the codes find their entries if and only if
the number of every message is not negative and no code is zero. -/
theorem every_right_iff (requests : List Request) :
    Every (fun history request => history.ring.FieldsRight request ∧
        (history.step request).Resolves) initial requests ↔
      Every (fun history request => history.ring.Meets request) initial requests := by
  have general : ∀ history : History, history.Invariant →
      (Every (fun history request => history.ring.FieldsRight request ∧
          (history.step request).Resolves) history requests ↔
        Every (fun history request => history.ring.Meets request) history requests) := by
    induction requests with
    | nil => exact fun _ _ => Iff.rfl
    | cons request rest ih =>
      intro history invariant
      constructor
      · rintro ⟨⟨right, _⟩, later⟩
        have meets := Ring.meets_of_fieldsRight right
        exact ⟨meets, (ih _ (invariant.step meets)).mp later⟩
      · rintro ⟨meets, later⟩
        have stepped := invariant.step meets
        exact ⟨⟨Ring.fieldsRight_of_meets invariant.locLess meets, stepped.resolves⟩,
          (ih _ stepped).mpr later⟩
  exact general initial invariant_initial

/-- A message with one character above 127. -/
def accented : Request where
  lastcode := 0
  fatal := false
  errorClass := 12
  genericIdx := some 3
  user := none
  msg := [0xe9]
  errorClass_lt := errArg_lt
  genericIdx_lt := errArg_generic_lt
  user_generic := errArg_user
  msg_le := by decide

theorem accented_not_right :
    ¬ Every (fun history request => history.ring.FieldsRight request ∧
      (history.step request).Resolves) initial [accented] := by
  rintro ⟨⟨⟨positive, _⟩, _⟩, _⟩
  exact absurd positive (by decide)

end Mpich.Errhan.History
