import Mpich.Errhan.Defs

/-!
# Codes name their own messages

A code is positive and holds its fields if the number made from its message is not
negative. Then the entry is found again from the code until another message uses it, and
afterwards it is not found when that message differs in class, generic index or number.
-/

namespace Mpich.Errhan

theorem errArg_lt : (12 : Code).toNat < 128 := by decide

theorem errArg_generic_lt : ∀ index ∈ some 3, index < 2047 := by decide

theorem errArg_user : (none : Option Code).isSome → (some 3).isSome := nofun

theorem toNat_lt_of_class
    {code : Code}
    (isClass : 0 ≤ code.toInt ∧ code.toInt ≤ maxErrorClassIndex) :
    code.toNat < 2 ^ 7 := by
  unfold maxErrorClassIndex at isClass
  have isCond := BitVec.toInt_eq_toNat_cond code
  split at isCond <;> omega

/-- A class has no generic message. -/
theorem generic_eq_zero_of_class
    {code : Code}
    (isClass : 0 ≤ code.toInt ∧ code.toInt ≤ maxErrorClassIndex) :
    (indexes code).generic = 0 := by
  rw [← setWidth_setWidth_of_lt (toNat_lt_of_class isClass)]
  generalize code.setWidth 7 = errorClass
  unfold indexes errorGenericMask
  have isZero : (errorClass.setWidth 32 &&& (0x7ff00 : Code)) >>> 8 = 0 := by
    ext bit inside
    interval_cases bit <;> simp
  rw [isZero]
  rfl

theorem generic_eq_zero_of_ringId
    {code : Code}
    (noGeneric : (indexes code).ringId &&& errorGenericMask = 0) :
    (indexes code).generic = 0 := by
  have isMask : (errorClassMask ||| errorGenericMask ||| errorSpecificSeqMask) &&&
      errorGenericMask = errorGenericMask := by decide
  unfold indexes at noGeneric ⊢
  rw [BitVec.and_assoc, isMask] at noGeneric
  rw [noGeneric]
  rfl

namespace Ring

variable {ring : Ring} {request : Request}

theorem chosenClass_lt
    (ring : Ring)
    (request : Request) :
    (ring.chosenClass request).toNat < 2 ^ 7 := by
  have masked : ∀ code : Code, (errGetClass code).toNat < 2 ^ 7 := by
    intro code
    exact lt_of_le_of_lt Nat.and_le_right (by decide)
  unfold chosenClass
  split_ifs
  · exact masked _
  · decide
  · exact request.errorClass_lt

theorem or_last (first second third fourth last : Code) :
    first ||| second ||| third ||| fourth ||| last =
      first ||| last ||| second ||| third ||| fourth := by
  ac_rfl

theorem withGeneric_eq
    {errorClass : Code} {genericIdx : Option Nat} {generic : BitVec 11}
    (classLess : errorClass.toNat < 2 ^ 7)
    (isGeneric : genericNumber genericIdx = generic.setWidth 32) :
    withGeneric errorClass genericIdx = errorClass ||| generic.setWidth 32 <<< 8 := by
  cases genericIdx with
  | some index => rw [withGeneric, isGeneric]
  | none =>
    rw [withGeneric, ← isGeneric, ← setWidth_setWidth_of_lt classLess]
    generalize errorClass.setWidth 7 = errorClass
    unfold errorGenericMask genericNumber
    ext bit inside
    interval_cases bit <;> simp

/-- The fields of a code and of the id of its entry. -/
structure Packs
    (ring : Ring)
    (request : Request)
    (errorClass : BitVec 7)
    (generic : BitVec 11)
    (ringIdx : BitVec 7)
    (seq : BitVec 4) : Prop where
  isClass : ring.chosenClass request = errorClass.setWidth 32
  isGeneric : generic.toNat = (request.genericIdx.map (· + 1)).getD 0
  isRingIdx : ringIdx.toNat = ring.errorRingLoc
  isSeq : ringSeq request.msg = seq.setWidth 32
  isCode : (ring.createCode request).1 = pack errorClass (ring.isFatal request) generic ringIdx seq
  isId : (ring.newEntry request).id = packId errorClass generic seq

section

variable
    (locLess : ring.errorRingLoc < maxErrorRing)
    (inRing : ring.chosenClass request ≠ errInStatus)

include locLess inRing

/-- The code and the id, with the number of the message on top. -/
theorem createCode_eq :
    ∃ errorClass generic ringIdx, ring.chosenClass request = errorClass.setWidth 32 ∧
      generic.toNat = (request.genericIdx.map (· + 1)).getD 0 ∧
      ringIdx.toNat = ring.errorRingLoc ∧ (ring.createCode request).1 =
        pack errorClass (ring.isFatal request) generic ringIdx 0 ||| ringSeq request.msg <<< 26 ∧
      (ring.newEntry request).id = packId errorClass generic 0 ||| ringSeq request.msg <<< 26 := by
  obtain ⟨generic, isGeneric, isNumber⟩ := exists_generic request.genericIdx_lt
  have classLess := ring.chosenClass_lt request
  have isClass := setWidth_setWidth_of_lt classLess
  have locNat : (BitVec.ofNat 32 ring.errorRingLoc : Code).toNat = ring.errorRingLoc := by
    exact Nat.mod_eq_of_lt (lt_trans locLess (by decide))
  have isLoc := @setWidth_setWidth_of_lt 7 (BitVec.ofNat 32 ring.errorRingLoc)
    (by rw [locNat]; exact locLess)
  refine ⟨(ring.chosenClass request).setWidth 7, generic,
    (BitVec.ofNat 32 ring.errorRingLoc).setWidth 7, isClass.symm, isNumber, ?_, ?_, ?_⟩
  · rw [BitVec.toNat_setWidth, locNat]
    exact Nat.mod_eq_of_lt locLess
  · have isSub := withGeneric_eq classLess isGeneric
    have noSeq : (0 : BitVec 4).setWidth 32 <<< 26 = 0#32 := by decide
    unfold createCode
    rw [if_neg inRing]
    dsimp only
    rw [isSub]
    unfold pack
    rw [isClass, isLoc, noSeq, BitVec.or_zero]
    cases ring.isFatal request with
    | true => exact or_last _ _ _ _ errorFatalMask
    | false =>
      rw [if_neg Bool.false_ne_true, if_neg Bool.false_ne_true,
        show (0 : Code) = 0#32 from rfl, BitVec.or_zero]
  · change ringId (ring.chosenClass request) request.genericIdx request.msg = _
    unfold ringId
    rw [isGeneric, ← id_fields, isClass]

theorem createCode_packs (fits : SeqFits request.msg) :
    ∃ errorClass generic ringIdx seq, ring.Packs request errorClass generic ringIdx seq := by
  obtain ⟨seq, isSeq⟩ := exists_seq request.msg_le fits
  obtain ⟨errorClass, generic, ringIdx, isClass, isGeneric, isRingIdx, isCode, isId⟩ :=
    createCode_eq locLess inRing
  rw [isSeq, pack_or_seq] at isCode
  rw [isSeq] at isId
  refine ⟨errorClass, generic, ringIdx, seq, isClass, isGeneric, isRingIdx, isSeq, isCode,
    isId.trans ?_⟩
  exact pack_or_seq errorClass false generic 0 seq

/-- The fields of a code below the number of its message. -/
theorem createCode_indexes :
    (indexes (ring.createCode request).1).ringIdx = ring.errorRingLoc ∧
      (indexes (ring.createCode request).1).generic = (request.genericIdx.map (· + 1)).getD 0 ∧
      (request.genericIdx = none → (ring.newEntry request).id &&& errorGenericMask = 0) := by
  obtain ⟨errorClass, generic, ringIdx, _, isGeneric, isRingIdx, isCode, isId⟩ :=
    createCode_eq locLess inRing
  unfold indexes
  rw [isCode, isId]
  rw [pack_or_ringIdx, pack_or_generic, BitVec.toNat_setWidth, BitVec.toNat_setWidth,
    Nat.mod_eq_of_lt (by omega), Nat.mod_eq_of_lt (by omega)]
  refine ⟨isRingIdx, isGeneric, fun noGeneric => ?_⟩
  rw [noGeneric] at isGeneric
  have isZero : generic = 0 := BitVec.eq_of_toNat_eq isGeneric
  rw [isZero, packId_or_generic]

end

/-- The places of the ring that have been used. -/
theorem put_bounds
    (entry : Entry)
    (locLess : ring.errorRingLoc < maxErrorRing)
    (locLe : ring.errorRingLoc ≤ ring.maxErrorRingLoc) :
    (ring.put entry).errorRingLoc < maxErrorRing ∧
      (ring.put entry).errorRingLoc ≤ (ring.put entry).maxErrorRingLoc ∧
      ring.errorRingLoc ≤ (ring.put entry).maxErrorRingLoc ∧
      ring.maxErrorRingLoc ≤ (ring.put entry).maxErrorRingLoc := by
  unfold put maxErrorRing
  dsimp only
  split_ifs
  all_goals omega

theorem createCode_ring (inRing : ring.chosenClass request ≠ errInStatus) :
    (ring.createCode request).2 = ring.put (ring.newEntry request) := by
  unfold createCode
  rw [if_neg inRing]

/-- The code is positive, and its fields are the ones that it has been made from. -/
def FieldsRight
    (ring : Ring)
    (request : Request) : Prop :=
  0 < (ring.createCode request).1.toInt ∧
    errGetClass (ring.createCode request).1 = ring.chosenClass request ∧
    (ring.chosenClass request ≠ errInStatus →
      ((ring.createCode request).1 &&& errorFatalMask ≠ 0 ↔ ring.isFatal request = true) ∧
      (indexes (ring.createCode request).1).generic = (request.genericIdx.map (· + 1)).getD 0 ∧
      (indexes (ring.createCode request).1).ringIdx = ring.errorRingLoc ∧
      ((ring.createCode request).1 &&& errorSpecificSeqMask) >>> 26 = ringSeq request.msg ∧
      (ring.createCode request).1 &&& errorDynMask = 0)

/-- The number made from the message is not negative, and some field of the code is not
zero. -/
def Meets
    (ring : Ring)
    (request : Request) : Prop :=
  ring.chosenClass request ≠ errInStatus → SeqFits request.msg ∧
      ¬ (ring.chosenClass request = 0 ∧ request.genericIdx = none ∧
        ring.errorRingLoc = 0 ∧ ringSeq request.msg = 0 ∧ ring.isFatal request = false)

theorem meets_of_fieldsRight (right : ring.FieldsRight request) :
    ring.Meets request := by
  obtain ⟨positive, _⟩ := right
  intro inRing
  unfold createCode at positive
  rw [if_neg inRing] at positive
  dsimp only at positive
  constructor
  · by_contra negative
    have isNegative := msb_of_not_seqFits request.msg_le negative
    have codeNegative : ∀ front : Code, (front ||| ringSeq request.msg <<< 26).toInt < 0 ∧
          (front ||| ringSeq request.msg <<< 26 ||| errorFatalMask).toInt < 0 := by
      intro front
      constructor
      all_goals
        apply BitVec.toInt_neg_of_msb_true
        simp [BitVec.msb_or, isNegative]
    split at positive
    · exact absurd positive (not_lt.mpr (codeNegative _).2.le)
    · exact absurd positive (not_lt.mpr (codeNegative _).1.le)
  · rintro ⟨noClass, noGeneric, isFirst, noSeq, notFatal⟩
    rw [noClass, noGeneric, isFirst, noSeq, notFatal] at positive
    exact absurd positive (by decide)

theorem fieldsRight_of_meets
    (locLess : ring.errorRingLoc < maxErrorRing)
    (meets : ring.Meets request) :
    ring.FieldsRight request := by
  by_cases inRing : ring.chosenClass request = errInStatus
  · have isCode : (ring.createCode request).1 = errInStatus := by
      unfold createCode
      rw [if_pos inRing]
    unfold FieldsRight
    rw [isCode, inRing]
    exact ⟨by decide, by decide, fun isIn => absurd rfl isIn⟩
  · obtain ⟨fits, nonzero⟩ := meets inRing
    obtain ⟨errorClass, generic, ringIdx, seq, packs⟩ := createCode_packs locLess inRing fits
    obtain ⟨isClass, isGeneric, isRingIdx, isSeq, isCode, _⟩ := packs
    unfold FieldsRight indexes errGetClass
    rw [isCode]
    rw [pack_class, pack_fatal, pack_generic, pack_ringIdx, pack_seq, pack_dyn, isClass,
      isSeq, BitVec.toNat_setWidth, BitVec.toNat_setWidth, Nat.mod_eq_of_lt (by omega),
      Nat.mod_eq_of_lt (by omega)]
    refine ⟨?_, rfl, fun _ => ⟨?_, isGeneric, isRingIdx, rfl, rfl⟩⟩
    · have notNegative := pack_msb errorClass (ring.isFatal request) generic ringIdx seq
      have isNat := BitVec.toInt_eq_toNat_of_msb notNegative
      rw [isNat]
      refine Int.natCast_pos.mpr (pos_of_ne_zero fun isZero => nonzero ?_)
      have codeZero := BitVec.eq_of_toNat_eq (y := 0#32) isZero
      have classes := pack_class errorClass (ring.isFatal request) generic ringIdx seq
      have fatals := pack_fatal errorClass (ring.isFatal request) generic ringIdx seq
      have generics := pack_generic errorClass (ring.isFatal request) generic ringIdx seq
      have ringIdxs := pack_ringIdx errorClass (ring.isFatal request) generic ringIdx seq
      have seqs := pack_seq errorClass (ring.isFatal request) generic ringIdx seq
      rw [codeZero, BitVec.zero_and] at classes fatals generics ringIdxs seqs
      have noGeneric : generic = 0 := eq_of_setWidth_eq (by decide) generics.symm
      have noRingIdx : ringIdx = 0 := eq_of_setWidth_eq (by decide) ringIdxs.symm
      rw [noGeneric] at isGeneric
      rw [noRingIdx] at isRingIdx
      refine ⟨isClass.trans classes.symm, ?_, isRingIdx.symm, isSeq.trans seqs.symm, ?_⟩
      · cases isIndex : request.genericIdx with
        | none => rfl
        | some index =>
          rw [isIndex] at isGeneric
          cases isGeneric
      · cases isFatal : ring.isFatal request with
        | false => rfl
        | true =>
          rw [isFatal] at fatals
          exact absurd fatals (by decide)
    · cases ring.isFatal request with
      | true => exact iff_of_true (by decide) rfl
      | false => exact iff_of_false (by decide) (by decide)

end Mpich.Errhan.Ring
