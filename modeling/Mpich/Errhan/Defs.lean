import Mathlib.Data.BitVec
import Mathlib.Tactic.IntervalCases

/-!
# The ring of error messages

`MPIR_Err_create_code_valist` packs the class of an error, whether it is fatal, the index
of its generic message, the index of its message in the ring and a number made from the
message into an `int`. The entry of the ring keeps an `id` made from some of these, the
code that the error comes from, and the code that a user function has returned.
-/

namespace Mpich.Errhan

/-- An `int`. -/
abbrev Code := BitVec 32

/-- A `char`, which has a sign. -/
abbrev Char8 := BitVec 8

def errorClassMask : Code := 0x7f
def errorFatalMask : Code := 0x80
def errorGenericMask : Code := 0x7ff00
def errorSpecificIndexMask : Code := 0x3f80000
def errorSpecificSeqMask : Code := 0x3c000000
def errorDynMask : Code := 0x40000000

/-- `MAX_ERROR_RING` -/
def maxErrorRing : Nat := 128

/-- `MPIR_MAX_ERROR_CLASS_INDEX` -/
def maxErrorClassIndex : Int := 54

/-- `MPI_ERR_OTHER` -/
def errOther : Code := 15

/-- `MPI_ERR_IN_STATUS` -/
def errInStatus : Code := 17

/-- `MPICH_ERR_LAST_CLASS` -/
def errLastClass : Int := 53

/-- `MPIR_ERR_GET_CLASS` -/
def errGetClass
    (code : Code) : Code :=
  code &&& errorClassMask

/-- `MPIR_Err_msg_t`; the message is what stands in front of its NUL. -/
structure Entry where
  id : Code
  prevError : Code
  useUserErrorCode : Bool
  userErrorCode : Code
  msg : List Char8

/-- `ErrorRing` with `error_ring_loc` and `max_error_ring_loc` -/
structure Ring where
  entries : Nat → Entry
  errorRingLoc : Nat
  maxErrorRingLoc : Nat

/-- The static data at the start. -/
def Ring.initial : Ring where
  entries := fun _ => ⟨0, 0, false, 0, []⟩
  errorRingLoc := 0
  maxErrorRingLoc := 0

/-- A call of `MPIR_Err_create_code_valist`: the index of the generic message if it is
found, the value of the user when that message is `**user`, and the message as it is
formatted. -/
structure Request where
  lastcode : Code
  fatal : Bool
  errorClass : Code
  genericIdx : Option Nat
  user : Option Code
  msg : List Char8
  errorClass_lt : errorClass.toNat < 128
  genericIdx_lt : ∀ index ∈ genericIdx, index < 2047
  user_generic : user.isSome → genericIdx.isSome
  msg_le : msg.length ≤ 256

/-- `generic_idx + 1`, where a message that is not found has the index -1. -/
def genericNumber : Option Nat → Code
  | none => 0
  | some index => BitVec.ofNat 32 (index + 1)

/-- `err_code` with the class and the generic message. -/
def withGeneric
    (errorClass : Code) : Option Nat → Code
  | some index => errorClass ||| genericNumber (some index) <<< 8
  | none => errorClass &&& ~~~ errorGenericMask

/-- `ring_seq` of `ErrcodeCreateID` -/
def ringSeq
    (msg : List Char8) : Code :=
  (msg.foldl (fun (sum : Code) (char : Char8) => sum + char.signExtend 32) 0).srem 16

/-- The `id` of `ErrcodeCreateID` -/
def ringId
    (errorClass : Code)
    (genericIdx : Option Nat)
    (msg : List Char8) : Code :=
  errorClass &&& errorClassMask ||| genericNumber genericIdx <<< 8 ||| ringSeq msg <<< 26

/-- What `convertErrcodeToIndexes` finds in a code; `generic_idx` is `generic` less
one. -/
structure Indexes where
  ringIdx : Nat
  ringId : Code
  generic : Nat

/-- `convertErrcodeToIndexes` -/
def indexes
    (errcode : Code) : Indexes where
  ringIdx := ((errcode &&& errorSpecificIndexMask) >>> 19).toNat
  ringId := errcode &&& (errorClassMask ||| errorGenericMask ||| errorSpecificSeqMask)
  generic := ((errcode &&& errorGenericMask) >>> 8).toNat

namespace Ring

/-- `convertErrcodeToIndexes` returns zero. -/
def InRange
    (ring : Ring)
    (ringIdx : Nat) : Prop :=
  ringIdx < maxErrorRing ∧ ringIdx ≤ ring.maxErrorRingLoc

instance (ring : Ring) (ringIdx : Nat) : Decidable (ring.InRange ringIdx) :=
  inferInstanceAs (Decidable (_ ∧ _))

/-- The entry that a code names, if its id is the one of the code. -/
def entryOf
    (ring : Ring)
    (errcode : Code) : Option Entry :=
  if ring.InRange (indexes errcode).ringIdx ∧
      (ring.entries (indexes errcode).ringIdx).id = (indexes errcode).ringId then
    some (ring.entries (indexes errcode).ringIdx)
  else none

/-- `checkErrcodeIsValid` returns zero. The generic message of a code in the ring is one
of the list. -/
def IsValid
    (ring : Ring)
    (errcode : Code) : Prop :=
  (0 ≤ errcode.toInt ∧ errcode.toInt ≤ maxErrorClassIndex) ∨ (ring.entryOf errcode).isSome = true

instance (ring : Ring) (errcode : Code) : Decidable (ring.IsValid errcode) :=
  inferInstanceAs (Decidable (_ ∨ _))

/-- `checkForUserErrcode` -/
def checkForUserErrcode
    (ring : Ring)
    (errcode : Code) : Code :=
  if errcode ≠ 0 then
    match ring.entryOf errcode with
    | some entry =>
      if (indexes errcode).generic ≠ 0 ∧ entry.useUserErrorCode then entry.userErrorCode
      else errcode
    | none => errcode
  else errcode

/-- `lastcode` after it has been checked. -/
def checkedLastcode
    (ring : Ring)
    (request : Request) : Code :=
  if request.lastcode ≠ 0 ∧ ¬ ring.IsValid request.lastcode then 0 else request.lastcode

/-- `error_class` after the class of `lastcode` has been passed through. -/
def chosenClass
    (ring : Ring)
    (request : Request) : Code :=
  if request.errorClass = errOther then
    if 0 < (errGetClass (ring.checkedLastcode request)).toInt ∧
        (errGetClass (ring.checkedLastcode request)).toInt ≤ errLastClass then
      errGetClass (ring.checkedLastcode request)
    else errOther
  else request.errorClass

/-- The user's code for the new entry, where the entry does not keep what it has: that of
`**user`, or that of the entry of `lastcode`. -/
def newUserErrorCode
    (ring : Ring)
    (request : Request) : Option Code :=
  match request.user with
  | some value => some value
  | none =>
    if ring.checkedLastcode request ≠ 0 ∧ (indexes (ring.checkedLastcode request)).generic ≠ 0 then
      match ring.entryOf (ring.checkedLastcode request) with
      | some last => if last.useUserErrorCode then some last.userErrorCode else none
      | none => none
    else none

/-- The entry of the ring that is used next, filled. -/
def newEntry
    (ring : Ring)
    (request : Request) : Entry :=
  let old := ring.entries ring.errorRingLoc
  { id := ringId (ring.chosenClass request) request.genericIdx request.msg
    prevError := ring.checkedLastcode request
    useUserErrorCode := old.useUserErrorCode || (ring.newUserErrorCode request).isSome
    userErrorCode := (ring.newUserErrorCode request).getD old.userErrorCode
    msg := request.msg }

/-- `error_ring_loc` and `max_error_ring_loc` move on. -/
def put
    (ring : Ring)
    (entry : Entry) : Ring :=
  let loc := if ring.errorRingLoc + 1 ≥ maxErrorRing then
      (ring.errorRingLoc + 1) % maxErrorRing
    else ring.errorRingLoc + 1
  { entries := Function.update ring.entries ring.errorRingLoc entry
    errorRingLoc := loc
    maxErrorRingLoc := if loc > ring.maxErrorRingLoc then loc else ring.maxErrorRingLoc }

/-- The code is fatal. -/
def isFatal
    (ring : Ring)
    (request : Request) : Bool :=
  request.fatal || (ring.checkedLastcode request &&& errorFatalMask != 0)

/-- The code of a request, and the ring after it. -/
def createCode
    (ring : Ring)
    (request : Request) : Code × Ring :=
  if ring.chosenClass request = errInStatus then (errInStatus, ring)
  else
    let errCode := withGeneric (ring.chosenClass request) request.genericIdx
    let errCode := errCode ||| BitVec.ofNat 32 ring.errorRingLoc <<< 19 |||
      ringSeq request.msg <<< 26
    let errCode := if ring.isFatal request then errCode ||| errorFatalMask else errCode
    (errCode, ring.put (ring.newEntry request))

end Mpich.Errhan.Ring

/-!
## The fields of a code

A code whose pieces fit their fields is packed without loss: the masks and shifts read the
pieces back, and the id that is made from the code is the id of its entry. A number of
the message that is negative makes the code negative.
-/

namespace Mpich.Errhan

open List

/-- The fields of a code, each as wide as it is. -/
def pack
    (errorClass : BitVec 7)
    (fatal : Bool)
    (generic : BitVec 11)
    (ringIdx : BitVec 7)
    (seq : BitVec 4) : Code :=
  errorClass.setWidth 32 ||| (if fatal then errorFatalMask else 0) |||
    generic.setWidth 32 <<< 8 ||| ringIdx.setWidth 32 <<< 19 ||| seq.setWidth 32 <<< 26

/-- The id made from the fields. -/
def packId
    (errorClass : BitVec 7)
    (generic : BitVec 11)
    (seq : BitVec 4) : Code :=
  pack errorClass false generic 0 seq

section

variable (errorClass : BitVec 7) (fatal : Bool) (generic : BitVec 11) (ringIdx : BitVec 7)
  (seq : BitVec 4)

-- Each of these compares the two sides bit by bit.

theorem pack_class :
    pack errorClass fatal generic ringIdx seq &&& errorClassMask = errorClass.setWidth 32 := by
  unfold pack errorClassMask errorFatalMask
  cases fatal <;>
  · ext bit inside
    interval_cases bit <;> simp

theorem pack_fatal :
    pack errorClass fatal generic ringIdx seq &&& errorFatalMask =
      if fatal then errorFatalMask else 0 := by
  unfold pack errorFatalMask
  cases fatal <;>
  · ext bit inside
    interval_cases bit <;> simp

theorem pack_generic :
    (pack errorClass fatal generic ringIdx seq &&& errorGenericMask) >>> 8 =
      generic.setWidth 32 := by
  unfold pack errorGenericMask errorFatalMask
  cases fatal <;>
  · ext bit inside
    interval_cases bit <;> simp

theorem pack_ringIdx :
    (pack errorClass fatal generic ringIdx seq &&& errorSpecificIndexMask) >>> 19 =
      ringIdx.setWidth 32 := by
  unfold pack errorSpecificIndexMask errorFatalMask
  cases fatal <;>
  · ext bit inside
    interval_cases bit <;> simp

theorem pack_seq :
    (pack errorClass fatal generic ringIdx seq &&& errorSpecificSeqMask) >>> 26 =
      seq.setWidth 32 := by
  unfold pack errorSpecificSeqMask errorFatalMask
  cases fatal <;>
  · ext bit inside
    interval_cases bit <;> simp

theorem pack_dyn :
    pack errorClass fatal generic ringIdx seq &&& errorDynMask = 0 := by
  unfold pack errorDynMask errorFatalMask
  cases fatal <;>
  · ext bit inside
    interval_cases bit <;> simp

theorem pack_id :
    pack errorClass fatal generic ringIdx seq &&&
        (errorClassMask ||| errorGenericMask ||| errorSpecificSeqMask) =
      packId errorClass generic seq := by
  unfold packId pack errorClassMask errorGenericMask errorSpecificSeqMask errorFatalMask
  cases fatal <;>
  · ext bit inside
    interval_cases bit <;> simp

theorem pack_msb : (pack errorClass fatal generic ringIdx seq).msb = false := by
  unfold pack errorFatalMask
  cases fatal <;> simp [BitVec.msb_eq_getLsbD_last]

/-- The id of an entry is made from the fields of its code. -/
theorem id_fields :
    errorClass.setWidth 32 &&& errorClassMask ||| generic.setWidth 32 <<< 8 =
      packId errorClass generic 0 := by
  unfold packId pack errorClassMask
  ext bit inside
  interval_cases bit <;> simp

theorem pack_or_seq :
    pack errorClass fatal generic ringIdx 0 ||| seq.setWidth 32 <<< 26 =
      pack errorClass fatal generic ringIdx seq := by
  unfold pack
  cases fatal <;>
  · ext bit inside
    interval_cases bit <;> simp

variable (number : Code)

theorem pack_or_ringIdx :
    ((pack errorClass fatal generic ringIdx 0 ||| number <<< 26) &&&
        errorSpecificIndexMask) >>> 19 =
      ringIdx.setWidth 32 := by
  unfold pack errorSpecificIndexMask errorFatalMask
  cases fatal <;>
  · ext bit inside
    interval_cases bit <;> simp

theorem pack_or_generic :
    ((pack errorClass fatal generic ringIdx 0 ||| number <<< 26) &&&
        errorGenericMask) >>> 8 =
      generic.setWidth 32 := by
  unfold pack errorGenericMask errorFatalMask
  cases fatal <;>
  · ext bit inside
    interval_cases bit <;> simp

theorem packId_or_generic :
    (packId errorClass 0 0 ||| number <<< 26) &&& errorGenericMask = 0 := by
  unfold packId pack errorGenericMask
  ext bit inside
  interval_cases bit <;> simp

end

theorem eq_of_setWidth_eq
    {width : Nat} {first second : BitVec width}
    (fits : width ≤ 32)
    (same : (first.setWidth 32 : Code) = second.setWidth 32) :
    first = second := by
  have narrowed := congrArg (BitVec.setWidth width) same
  rwa [BitVec.setWidth_setWidth_of_le first fits, BitVec.setWidth_setWidth_of_le second fits,
    BitVec.setWidth_eq, BitVec.setWidth_eq] at narrowed

/-- A number that fits is widened back. -/
theorem setWidth_setWidth_of_lt
    {width : Nat} {code : Code}
    (fits : code.toNat < 2 ^ width) :
    (code.setWidth width).setWidth 32 = code := by
  apply BitVec.eq_of_toNat_eq
  rw [BitVec.toNat_setWidth, BitVec.toNat_setWidth, Nat.mod_eq_of_lt fits,
    Nat.mod_eq_of_lt code.isLt]

/-- Ids of different fields are different. -/
theorem packId_inj
    {errorClass errorClass' : BitVec 7} {generic generic' : BitVec 11}
    {seq seq' : BitVec 4}
    (same : packId errorClass generic seq = packId errorClass' generic' seq') :
    errorClass = errorClass' ∧ generic = generic' ∧ seq = seq' := by
  unfold packId at same
  have classes := congrArg (· &&& errorClassMask) same
  have generics := congrArg (fun code => (code &&& errorGenericMask) >>> 8) same
  have seqs := congrArg (fun code => (code &&& errorSpecificSeqMask) >>> 26) same
  simp only [pack_class, pack_generic, pack_seq] at classes generics seqs
  exact ⟨eq_of_setWidth_eq (by decide) classes, eq_of_setWidth_eq (by decide) generics,
    eq_of_setWidth_eq (by decide) seqs⟩

/-- The sum of the characters. -/
def signedSum
    (msg : List Char8) : Int :=
  (msg.map BitVec.toInt).sum

/-- The number made from the message is not negative. -/
def SeqFits
    (msg : List Char8) : Prop :=
  0 ≤ (signedSum msg).tmod 16

instance (msg : List Char8) : Decidable (SeqFits msg) :=
  inferInstanceAs (Decidable (_ ≤ _))

theorem signedSum_bounds (msg : List Char8) :
    -(128 * msg.length : Int) ≤ signedSum msg ∧ signedSum msg ≤ 128 * msg.length := by
  induction msg with
  | nil => exact ⟨le_rfl, le_rfl⟩
  | cons char rest ih =>
    have lower := BitVec.le_toInt char
    have upper := @BitVec.toInt_lt 8 char
    unfold signedSum at ih ⊢
    rw [map_cons, sum_cons, length_cons]
    omega

theorem foldl_signExtend
    (msg : List Char8)
    (sum : Code) :
    msg.foldl (fun (sum : Code) (char : Char8) => sum + char.signExtend 32) sum =
      sum + BitVec.ofInt 32 (signedSum msg) := by
  induction msg generalizing sum with
  | nil => exact (BitVec.add_zero sum).symm
  | cons char rest ih =>
    have isSum : signedSum (char :: rest) = char.toInt + signedSum rest := sum_cons
    rw [foldl_cons, ih, isSum, BitVec.ofInt_add, ← BitVec.add_assoc]
    rfl

variable {msg : List Char8}

/-- The sum does not overflow, and the remainder has its sign. -/
theorem ringSeq_toInt
    (short : msg.length ≤ 256) :
    (ringSeq msg).toInt = (signedSum msg).tmod 16 := by
  obtain ⟨lower, upper⟩ := signedSum_bounds msg
  unfold ringSeq
  rw [foldl_signExtend, zero_add, BitVec.toInt_srem,
    BitVec.toInt_ofInt_eq_self (by decide) (by omega) (by omega)]
  rfl

theorem exists_seq
    (short : msg.length ≤ 256)
    (fits : SeqFits msg) :
    ∃ seq : BitVec 4, ringSeq msg = seq.setWidth 32 := by
  have isRemainder := ringSeq_toInt short
  have less := Int.tmod_lt_of_pos (signedSum msg) (show (0 : Int) < 16 by decide)
  refine ⟨(ringSeq msg).setWidth 4, (setWidth_setWidth_of_lt ?_).symm⟩
  have isNonneg : 0 ≤ (signedSum msg).tmod 16 := fits
  rw [BitVec.toInt_eq_toNat_cond] at isRemainder
  split at isRemainder <;> omega

/-- A negative number reaches into the sign of the code. -/
theorem msb_of_not_seqFits
    (short : msg.length ≤ 256)
    (negative : ¬ SeqFits msg) :
    (ringSeq msg <<< 26).msb = true := by
  have isRemainder := ringSeq_toInt short
  have greater := Int.lt_tmod_of_pos (signedSum msg) (show (0 : Int) < 16 by decide)
  have less : (signedSum msg).tmod 16 < 0 := not_le.mp negative
  rw [← BitVec.ofInt_toInt (x := ringSeq msg), isRemainder]
  generalize (signedSum msg).tmod 16 = value at greater less
  interval_cases value <;> decide

theorem exists_generic
    {genericIdx : Option Nat}
    (fits : ∀ index ∈ genericIdx, index < 2047) :
    ∃ generic : BitVec 11, genericNumber genericIdx = generic.setWidth 32 ∧
      generic.toNat = (genericIdx.map (· + 1)).getD 0 := by
  cases genericIdx with
  | none => exact ⟨0, rfl, rfl⟩
  | some index =>
    have less := fits index rfl
    have isNat : (genericNumber (some index)).toNat = index + 1 := by
      unfold genericNumber
      rw [BitVec.toNat_ofNat]
      omega
    refine ⟨(genericNumber (some index)).setWidth 11,
      (setWidth_setWidth_of_lt (by rw [isNat]; omega)).symm, ?_⟩
    rw [BitVec.toNat_setWidth, isNat]
    exact Nat.mod_eq_of_lt (by omega)

end Mpich.Errhan
