import Mpich.Errhan.Codes
import Mpich.Foundation.Links
import Mpich.Foundation.While

/-!
# Combining codes

`MPIR_Err_combine_codes` puts the second code at the end of the messages of the first one,
and gives the class of the second code to the codes on the way whose class is
`MPI_ERR_OTHER`. `MPIR_Err_print_stack` follows the messages of a code.
-/

namespace Mpich.Errhan

open Function

namespace Ring

/-- The place of the message of a code, if the code has a generic message and the id of
the place is the one of the code. -/
def find
    (ring : Ring)
    (errcode : Code) : Option Nat :=
  if ring.InRange (indexes errcode).ringIdx ∧ (indexes errcode).generic ≠ 0 ∧
      (ring.entries (indexes errcode).ringIdx).id = (indexes errcode).ringId then
    some (indexes errcode).ringIdx
  else none

/-- The messages of a ring and the code that each of them comes from. -/
def links
    (ring : Ring) : Pointers Code Nat where
  find := ring.find
  stored := fun place => (ring.entries place).prevError

/-- `ErrorRing[ring_idx].prev_error` is set. -/
def setPrevError
    (ring : Ring)
    (place : Nat)
    (code : Code) : Ring :=
  { ring with
    entries := update ring.entries place
      { ring.entries place with prevError := code } }

/-- A code with another class. -/
def withClass
    (code errorClass : Code) : Code :=
  code &&& ~~~ errorClassMask ||| errorClass

/-- `error2_class` -/
def error2Class
    (error2 : Code) : Code :=
  if (errGetClass (errGetClass error2)).toInt < 0 ∨
      errLastClass < (errGetClass (errGetClass error2)).toInt then errOther
  else errGetClass error2

/-- The loop of `MPIR_Err_combine_codes` -/
def combineLoop
    (error2 : Code) : Nat → Code → Ring → Option Ring
  | 0, _, _ => none
  | fuel + 1, errorCode, ring =>
    match ring.find errorCode with
    | none => some ring
    | some place =>
      let next := (ring.entries place).prevError
      if next = 0 then some (ring.setPrevError place error2)
      else if errGetClass next = errOther then
        combineLoop error2 fuel next (ring.setPrevError place (withClass next (error2Class error2)))
      else combineLoop error2 fuel next ring

/-- `error1_code` as it is returned. -/
def combinedCode
    (error1 error2 : Code) : Code :=
  if errGetClass error1 = errOther then withClass error1 (error2Class error2) else error1

/-- `MPIR_Err_combine_codes` -/
def combineCodes
    (fuel : Nat)
    (ring : Ring)
    (error1 error2 : Code) : Option (Code × Ring) :=
  if error2 = 0 then some (error1, ring)
  else if error2 &&& errorDynMask ≠ 0 then some (error2, ring)
  else if error1 = 0 then some (error2, ring)
  else (combineLoop error2 fuel error1 ring).map (combinedCode error1 error2, ·)

/-- What `MPIR_Err_print_stack` writes for one code. -/
inductive Line
  | message (msg : List Char8)
  | invalid (errcode : Code) (ringIdx : Nat)
  deriving DecidableEq

/-- The loop of `MPIR_Err_print_stack`, with the code at which it ends. -/
def printStack
    (ring : Ring) : Nat → Code → Option (List Line × Code)
  | 0, _ => none
  | fuel + 1, errcode =>
    if errcode = 0 then some ([], errcode)
    else if ¬ ring.InRange (indexes errcode).ringIdx then
      some ([.invalid errcode (indexes errcode).ringIdx], errcode)
    else if (indexes errcode).generic = 0 then some ([], errcode)
    else if (ring.entries (indexes errcode).ringIdx).id = (indexes errcode).ringId then
      (ring.printStack fuel (ring.entries (indexes errcode).ringIdx).prevError).map
        fun (lines, last) =>
          (.message (ring.entries (indexes errcode).ringIdx).msg :: lines, last)
    else some ([], errcode)

variable {ring : Ring} {errcode error1 error2 last : Code} {place : Nat} {places : List Nat}

theorem find_zero (ring : Ring) :
    ring.find 0 = none := by
  unfold find
  rw [if_neg]
  rintro ⟨_, generic, _⟩
  exact generic rfl

theorem find_eq_some :
    ring.find errcode = some place ↔ ring.InRange place ∧ (indexes errcode).generic ≠ 0 ∧
        (ring.entries place).id = (indexes errcode).ringId ∧ (indexes errcode).ringIdx = place := by
  unfold find
  split_ifs with found
  · constructor
    · intro same
      cases same
      exact ⟨found.1, found.2.1, found.2.2, rfl⟩
    · rintro ⟨_, _, _, rfl⟩
      rfl
  · constructor
    · nofun
    · rintro ⟨inRange, generic, same, rfl⟩
      exact absurd ⟨inRange, generic, same⟩ found

theorem setPrevError_id
    (ring : Ring)
    (place other : Nat)
    (code : Code) :
    ((ring.setPrevError place code).entries other).id = (ring.entries other).id := by
  change (update ring.entries place _ other).id = _
  obtain rfl | notPlace := eq_or_ne other place
  · rw [update_self]
  · rw [update_of_ne notPlace]

theorem setPrevError_stored
    (ring : Ring)
    (place other : Nat)
    (code : Code) :
    ((ring.setPrevError place code).entries other).prevError =
      if other = place then code else (ring.entries other).prevError := by
  change (update ring.entries place _ other).prevError = _
  split_ifs with isPlace
  · rw [isPlace, update_self]
  · rw [update_of_ne isPlace]

/-- Codes find the same places. -/
theorem find_setPrevError
    (ring : Ring)
    (place : Nat)
    (code : Code) :
    (ring.setPrevError place code).find = ring.find := by
  funext errcode
  apply Option.ext
  intro other
  rw [find_eq_some, find_eq_some, setPrevError_id]
  exact Iff.rfl

theorem path_setPrevError
    {code : Code}
    (path : ring.links.Path errcode places last)
    (unvisited : place ∉ places) :
    (ring.setPrevError place code).links.Path errcode places last := by
  apply path.frame (find_setPrevError ring place code)
  intro other member
  refine (setPrevError_stored ring place other code).trans (if_neg ?_)
  rintro rfl
  exact unvisited member

/-- The loop that appends a code ends if the messages of the first code do. -/
theorem combineLoop_yields
    (error2 : Code)
    (path : ring.links.Path errcode places last) :
    ∃ later, Yields (combineLoop error2 · errcode ring) later := by
  induction places generalizing errcode ring with
  | nil =>
    cases path with
    | stop missed =>
      refine ⟨ring, .of_done fun fuel => ?_⟩
      rw [combineLoop, show ring.find _ = none from missed]
  | cons place places ih =>
    have unvisited := (List.nodup_cons.mp path.nodup).1
    cases path with
    | visit found rest =>
      have isFound : ring.find errcode = some place := found
      by_cases isLast : (ring.entries place).prevError = 0
      · refine ⟨ring.setPrevError place error2, .of_done fun fuel => ?_⟩
        rw [combineLoop, isFound]
        exact if_pos isLast
      by_cases isOther : errGetClass (ring.entries place).prevError = errOther
      · obtain ⟨later, yields⟩ := ih (path_setPrevError rest unvisited)
        refine ⟨later, yields.of_succ fun fuel => ?_⟩
        rw [combineLoop, isFound]
        exact (if_neg isLast).trans (if_pos isOther)
      · obtain ⟨later, yields⟩ := ih rest
        refine ⟨later, yields.of_succ fun fuel => ?_⟩
        rw [combineLoop, isFound]
        exact (if_neg isLast).trans (if_neg isOther)

theorem combineCodes_yields
    (ends : ring.links.Ends)
    (error1 error2 : Code) :
    ∃ combined, Yields (ring.combineCodes · error1 error2) combined := by
  unfold combineCodes
  split_ifs
  · exact ⟨_, .of_eq fun _ => rfl⟩
  · exact ⟨_, .of_eq fun _ => rfl⟩
  · exact ⟨_, .of_eq fun _ => rfl⟩
  · obtain ⟨places, last, path⟩ := ends error1
    obtain ⟨later, yields⟩ := combineLoop_yields error2 path
    exact ⟨_, yields.map _⟩

/-- Printing ends, and the messages are those of the visited places. -/
theorem printStack_yields (path : ring.links.Path errcode places last) :
    ∃ tail, (∀ line ∈ tail, ∃ code ringIdx, line = .invalid code ringIdx) ∧
      Yields (ring.printStack · errcode)
        (places.map (fun place => .message (ring.entries place).msg) ++ tail, last) := by
  induction path with
  | @stop errcode missed =>
    have isMissed : ring.find errcode = none := missed
    by_cases isZero : errcode = 0
    · refine ⟨[], nofun, .of_done fun fuel => ?_⟩
      rw [printStack, if_pos isZero]
      rfl
    by_cases inRange : ring.InRange (indexes errcode).ringIdx
    · refine ⟨[], nofun, .of_done fun fuel => ?_⟩
      rw [printStack, if_neg isZero, if_neg (not_not.mpr inRange)]
      by_cases generic : (indexes errcode).generic = 0
      · exact if_pos generic
      · rw [if_neg generic]
        refine if_neg fun same => ?_
        rw [find_eq_some.mpr ⟨inRange, generic, same, rfl⟩] at isMissed
        cases isMissed
    · refine ⟨[.invalid errcode (indexes errcode).ringIdx], ?_, .of_done fun fuel => ?_⟩
      · intro line member
        exact ⟨_, _, List.mem_singleton.mp member⟩
      · rw [printStack, if_neg isZero, if_pos inRange]
        rfl
  | @visit errcode _ places last found _ ih =>
    obtain ⟨inRange, generic, same, rfl⟩ := find_eq_some.mp found
    obtain ⟨tail, invalid, yields⟩ := ih
    have nonzero : errcode ≠ 0 := by
      rintro rfl
      exact generic rfl
    have mapped := yields.map fun (lines, last) =>
      (Line.message (ring.entries (indexes errcode).ringIdx).msg :: lines, last)
    refine ⟨tail, invalid, mapped.of_succ fun fuel => ?_⟩
    rw [printStack, if_neg nonzero, if_neg (not_not.mpr inRange), if_neg generic, if_pos same]
    rfl

/-- A message is reached from a code. -/
def Reaches
    (ring : Ring)
    (errcode : Code)
    (place : Nat) : Prop :=
  ∃ places last, ring.links.Path errcode places last ∧ place ∈ places

/-- `errcode <= MPIR_MAX_ERROR_CLASS_INDEX && errcode >= 0` -/
def IsClass
    (errcode : Code) : Prop :=
  0 ≤ errcode.toInt ∧ errcode.toInt ≤ maxErrorClassIndex

/-- What is promised of a code that has been combined from two valid ones: it is valid,
and the messages of both are reached from it. -/
def Keeps
    (ring : Ring)
    (error1 error2 : Code)
    (combined : Code × Ring) : Prop :=
  ring.IsValid error1 → ring.IsValid error2 → combined.2.IsValid combined.1 ∧
      ∀ place, ring.Reaches error1 place ∨ ring.Reaches error2 place →
        combined.2.Reaches combined.1 place ∧
          (combined.2.entries place).msg = (ring.entries place).msg

/-- No class is replaced on the way through the messages of the first code, and the
messages of the second code can be put after them. -/
structure CombineMeets
    (ring : Ring)
    (error1 error2 : Code) : Prop where
  dynamic : error1 ≠ 0 → error2 &&& errorDynMask ≠ 0 → ring.IsValid error1 → ring.IsValid error2 →
      ∀ place, ring.Reaches error1 place → ring.Reaches error2 place
  classes : error1 ≠ 0 → error2 ≠ 0 → error2 &&& errorDynMask = 0 →
    IsClass error1 ∨ error2Class error2 = errOther ∨ (errGetClass error1 ≠ errOther ∧
        ∀ place, ring.Reaches error1 place → errGetClass (ring.entries place).prevError ≠ errOther)
  disjoint : error1 ≠ 0 → error2 ≠ 0 → error2 &&& errorDynMask = 0 →
    ∀ places, ring.links.Path error1 places 0 → ∀ place ∈ places, ¬ ring.Reaches error2 place
  included : error1 ≠ 0 → error2 ≠ 0 → error2 &&& errorDynMask = 0 →
    ring.IsValid error1 → ring.IsValid error2 →
      ∀ places last, last ≠ 0 → ring.links.Path error1 places last →
        ∀ place, ring.Reaches error2 place → place ∈ places

/-- The code that the new entry comes from does not lead to an older code that names the
same place with the id of the new entry. -/
def CreateMeets
    (ring : Ring)
    (request : Request) : Prop :=
  ring.chosenClass request ≠ errInStatus → ring.IsValid request.lastcode →
    ∀ code, ring.links.LeadsTo ring.errorRingLoc request.lastcode code →
      ¬ ((indexes code).generic ≠ 0 ∧ (indexes code).ringIdx = ring.errorRingLoc ∧
        (indexes code).ringId = ringId (ring.chosenClass request) request.genericIdx request.msg)

end Mpich.Errhan.Ring
