import Mpich.Errhan.Combine

/-!
# Chains of messages

In a run in which no message leads back to its own place, no class on the way is replaced
and codes are put only after messages that they do not lead to, the messages of every code
come to an end, and a combined code leads to the messages of both.
-/

namespace Mpich.Errhan

open List Function

namespace Ring

variable {ring later : Ring} {errcode error1 error2 last : Code} {place : Nat}
  {places front : List Nat}

theorem reaches_iff (path : ring.links.Path errcode places last) :
    ring.Reaches errcode place ↔ place ∈ places := by
  constructor
  · rintro ⟨otherPlaces, otherLast, otherPath, member⟩
    rw [(path.unique otherPath).1]
    exact member
  · exact fun member => ⟨places, last, path, member⟩

variable {code : Code}

/-- The class of a code is replaced by itself. -/
theorem withClass_self
    {errorClass : Code}
    (isClass : errGetClass code = errorClass) :
    withClass code errorClass = code := by
  unfold withClass
  rw [← isClass]
  unfold errGetClass
  rw [BitVec.or_comm, ← BitVec.and_or_distrib_left, BitVec.or_not_self, BitVec.and_allOnes]

theorem setPrevError_self
    (ring : Ring)
    (place : Nat) :
    ring.setPrevError place (ring.entries place).prevError = ring := by
  unfold setPrevError
  rw [update_eq_self]

/-- The loop goes on at the next message, and the ring is as before. -/
theorem combineLoop_next
    (found : ring.find errcode = some place)
    (nonzero : (ring.entries place).prevError ≠ 0)
    (classes : error2Class error2 = errOther ∨
      errGetClass (ring.entries place).prevError ≠ errOther)
    (yields : Yields (combineLoop error2 · (ring.entries place).prevError ring) later) :
    Yields (combineLoop error2 · errcode ring) later := by
  refine yields.of_succ fun fuel => ?_
  rw [combineLoop, found]
  refine (if_neg nonzero).trans ?_
  split_ifs with isOther
  · have same := classes.resolve_right (not_not.mpr isOther)
    rw [same, withClass_self isOther, setPrevError_self]
  · rfl

/-- Messages that come to an end get the second code there. -/
theorem combineLoop_clean
    (path : ring.links.Path errcode (front ++ [place]) 0)
    (classes : error2Class error2 = errOther ∨
      ∀ other ∈ front, errGetClass (ring.entries other).prevError ≠ errOther) :
    Yields (combineLoop error2 · errcode ring) (ring.setPrevError place error2) := by
  induction front generalizing errcode with
  | nil =>
    cases path with
    | visit found rest =>
      refine .of_done fun fuel => ?_
      rw [combineLoop, show ring.find errcode = some place from found]
      refine if_pos ?_
      change ring.links.Path (ring.entries place).prevError [] 0 at rest
      generalize (ring.entries place).prevError = next at rest ⊢
      cases rest with
      | stop _ => rfl
  | cons first front ih =>
    cases path with
    | visit found rest =>
      have nonzero : (ring.entries first).prevError ≠ 0 := by
        intro isZero
        change ring.links.Path (ring.entries first).prevError _ _ at rest
        rw [isZero] at rest
        have stopped := (rest.unique (.stop (find_zero ring))).1
        exact absurd stopped (by simp)
      refine combineLoop_next found nonzero
        (classes.imp_right fun all => all first mem_cons_self) ?_
      exact ih rest (classes.imp_right fun all other member => all other (mem_cons_of_mem _ member))

/-- Messages that come to no end are left as they are. -/
theorem combineLoop_unclean
    (path : ring.links.Path errcode places last)
    (unclean : last ≠ 0)
    (classes : error2Class error2 = errOther ∨
      ∀ other ∈ places, errGetClass (ring.entries other).prevError ≠ errOther) :
    Yields (combineLoop error2 · errcode ring) ring := by
  induction path with
  | @stop errcode missed =>
    refine .of_done fun fuel => ?_
    rw [combineLoop, show ring.find errcode = none from missed]
  | @visit _ place places last found rest ih =>
    have nonzero : (ring.entries place).prevError ≠ 0 := by
      intro isZero
      change ring.links.Path (ring.entries place).prevError _ _ at rest
      rw [isZero] at rest
      exact unclean (rest.unique (.stop (find_zero ring))).2
    refine combineLoop_next found nonzero (classes.imp_right fun all => all place mem_cons_self) ?_
    exact ih unclean
      (classes.imp_right fun all other member => all other (mem_cons_of_mem _ member))

theorem entryOf_isSome :
    (ring.entryOf errcode).isSome = true ↔ ring.InRange (indexes errcode).ringIdx ∧
        (ring.entries (indexes errcode).ringIdx).id = (indexes errcode).ringId := by
  unfold entryOf
  split_ifs with found
  · exact iff_of_true rfl found
  · exact iff_of_false nofun found

theorem isValid_setPrevError :
    (ring.setPrevError place code).IsValid errcode ↔ ring.IsValid errcode := by
  unfold IsValid
  rw [entryOf_isSome, entryOf_isSome, setPrevError_id]
  exact Iff.rfl

theorem msg_setPrevError
    {other : Nat} :
    ((ring.setPrevError place code).entries other).msg = (ring.entries other).msg := by
  change (update ring.entries place _ other).msg = _
  obtain rfl | notPlace := eq_or_ne other place
  · rw [update_self]
  · rw [update_of_ne notPlace]

/-- A class has no messages. -/
theorem not_reaches_of_isClass (isClass : IsClass errcode) :
    ¬ ring.Reaches errcode place := by
  have missed : ring.find errcode = none := by
    unfold find
    rw [if_neg]
    rintro ⟨_, generic, _⟩
    exact generic (generic_eq_zero_of_class isClass)
  rw [reaches_iff (.stop missed)]
  exact not_mem_nil

/-- The class of a code that is one stays one. -/
theorem isClass_combinedCode
    (isClass : IsClass error1)
    (error2 : Code) :
    IsClass (combinedCode error1 error2) := by
  unfold combinedCode
  split_ifs with isOther
  · have isSelf : errGetClass error1 = error1 := by
      apply BitVec.eq_of_toNat_eq
      exact (Nat.and_two_pow_sub_one_eq_mod _ 7).trans
        (Nat.mod_eq_of_lt (toNat_lt_of_class isClass))
    have noOther : errOther &&& ~~~ errorClassMask = 0 := by decide
    unfold withClass
    rw [← isSelf, isOther, noOther, show (0 : Code) = 0#32 from rfl, BitVec.zero_or]
    unfold error2Class
    split_ifs with outside
    · exact ⟨by decide, by decide⟩
    · obtain ⟨notNegative, notLarge⟩ := not_or.mp outside
      have masked : errGetClass (errGetClass error2) = errGetClass error2 := by
        unfold errGetClass
        rw [BitVec.and_assoc, BitVec.and_self]
      rw [masked] at notNegative notLarge
      unfold errLastClass at notLarge
      unfold IsClass maxErrorClassIndex
      omega
  · exact isClass

/-- The combined code is the first one, or both are classes. -/
theorem combinedCode_eq
    (meets : IsClass error1 ∨ error2Class error2 = errOther ∨ errGetClass error1 ≠ errOther) :
    combinedCode error1 error2 = error1 ∨
      (IsClass error1 ∧ IsClass (combinedCode error1 error2)) := by
  rcases meets with isClass | isOther | notOther
  · exact .inr ⟨isClass, isClass_combinedCode isClass error2⟩
  · left
    unfold combinedCode
    split_ifs with same
    · rw [isOther, withClass_self same]
    · rfl
  · exact .inl (if_neg notOther)

/-- The messages of the second code are put after those of the first one. -/
theorem keeps_setPrevError
    (ends : ring.links.Ends)
    (path : ring.links.Path error1 (front ++ [place]) 0)
    (disjoint : ∀ other ∈ front ++ [place], ¬ ring.Reaches error2 other)
    (isCode : code = error1) :
    (ring.setPrevError place error2).links.Ends ∧
      ring.Keeps error1 error2 (code, ring.setPrevError place error2) := by
  subst isCode
  obtain ⟨back, last, backPath⟩ := ends error2
  have unvisited : place ∉ back := fun member =>
    disjoint place (mem_append_right _ mem_cons_self) ⟨back, last, backPath, member⟩
  have isStored : (ring.setPrevError place error2).links.stored place = error2 :=
    (setPrevError_stored ring place place error2).trans (if_pos rfl)
  have isKept : ∀ other, other ≠ place →
      (ring.setPrevError place error2).links.stored other = ring.links.stored other :=
    fun other notPlace => (setPrevError_stored ring place other error2).trans (if_neg notPlace)
  have finds : (ring.setPrevError place error2).links.find = ring.links.find :=
    find_setPrevError ring place error2
  constructor
  · refine @Pointers.Ends.redirect _ _ ring.links _ place
      (fun reference => .inl (congrFun finds reference)) isKept ends fun other leads found => ?_
    rw [isStored] at leads
    rw [finds] at found
    exact unvisited (backPath.mem_of_leadsTo leads found)
  · have notFront : ∀ other ∈ front, other ≠ place := by
      rintro other member rfl
      have nodup := nodup_append.mp path.nodup
      exact nodup.2.2 other member other mem_cons_self rfl
    have fromPlace : (ring.setPrevError place error2).links.Path
        ((ring.setPrevError place error2).links.stored place) back last := by
      rw [isStored]
      exact path_setPrevError backPath unvisited
    have joined := path.append finds
      (fun other member => isKept other (notFront other member)) fromPlace
    intro valid1 _
    refine ⟨isValid_setPrevError.mpr valid1, fun other reached => ⟨?_, msg_setPrevError⟩⟩
    rw [reaches_iff joined]
    rcases reached with first | second
    · rw [reaches_iff path] at first
      rcases mem_append.mp first with member | member
      · exact mem_append_left _ member
      · rw [mem_singleton.mp member]
        exact mem_append_right _ mem_cons_self
    · rw [reaches_iff backPath] at second
      exact mem_append_right _ (mem_cons_of_mem _ second)

/-- The loop is reached. -/
theorem combineCodes_loop
    (nonzero1 : error1 ≠ 0)
    (nonzero2 : error2 ≠ 0)
    (static : error2 &&& errorDynMask = 0)
    (yields : Yields (combineLoop error2 · error1 ring) later) :
    Yields (ring.combineCodes · error1 error2) (combinedCode error1 error2, later) := by
  refine (yields.map (combinedCode error1 error2, ·)).congr fun fuel => ?_
  exact (if_neg nonzero2).trans ((if_neg (not_not.mpr static)).trans (if_neg nonzero1))

/-- Two codes are combined. -/
theorem combineCodes_keeps
    (ends : ring.links.Ends)
    (meets : ring.CombineMeets error1 error2) :
    ∃ combined, Yields (ring.combineCodes · error1 error2) combined ∧
      combined.2.links.Ends ∧ ring.Keeps error1 error2 combined := by
  have notZero : ∀ other, ¬ ring.Reaches 0 other := by
    intro other
    rw [@reaches_iff ring 0 0 other [] (.stop (find_zero ring))]
    exact not_mem_nil
  obtain rfl | nonzero2 := eq_or_ne error2 0
  · refine ⟨(error1, ring), .of_eq fun _ => if_pos rfl, ends, fun valid _ => ⟨valid, ?_⟩⟩
    intro place reached
    exact ⟨reached.resolve_right (notZero place), rfl⟩
  obtain static | dynamic := eq_or_ne (error2 &&& errorDynMask) 0
  swap
  · refine ⟨(error2, ring), .of_eq fun _ => ?_, ends, fun valid1 valid2 => ⟨valid2, ?_⟩⟩
    · exact (if_neg nonzero2).trans (if_pos dynamic)
    · intro place reached
      refine ⟨?_, rfl⟩
      rcases reached with first | second
      · obtain rfl | nonzero1 := eq_or_ne error1 0
        · exact absurd first (notZero place)
        · exact meets.dynamic nonzero1 dynamic valid1 valid2 place first
      · exact second
  obtain rfl | nonzero1 := eq_or_ne error1 0
  · refine ⟨(error2, ring), .of_eq fun _ => ?_, ends, fun _ valid2 => ⟨valid2, ?_⟩⟩
    · exact (if_neg nonzero2).trans ((if_neg (not_not.mpr static)).trans (if_pos rfl))
    · intro place reached
      exact ⟨reached.resolve_left (notZero place), rfl⟩
  have classes := meets.classes nonzero1 nonzero2 static
  have isCode := combinedCode_eq (classes.imp_right fun side => side.imp_right And.left)
  obtain ⟨places, last, path⟩ := ends error1
  have onWay : error2Class error2 = errOther ∨
      ∀ other ∈ places, errGetClass (ring.entries other).prevError ≠ errOther := by
    rcases classes with isClass | isOther | ⟨_, others⟩
    · exact .inr fun other member =>
        absurd ((reaches_iff path).mpr member) (not_reaches_of_isClass isClass)
    · exact .inl isOther
    · exact .inr fun other member => others other ((reaches_iff path).mpr member)
  obtain rfl | unclean := eq_or_ne last 0
  · rcases eq_nil_or_concat places with rfl | ⟨front, place, rfl⟩
    · cases path with
      | stop _ => exact absurd rfl nonzero1
    rw [concat_eq_append] at path onWay
    have disjoint := meets.disjoint nonzero1 nonzero2 static _ path
    have notClass : ¬ IsClass error1 := fun isClass =>
      not_reaches_of_isClass isClass ((reaches_iff path).mpr (mem_append_right _ mem_cons_self))
    obtain ⟨endsLater, keeps⟩ := keeps_setPrevError ends path disjoint
      (isCode.resolve_right fun both => notClass both.1)
    have onFront := onWay.imp_right fun all other (member : other ∈ front) =>
      all other (mem_append_left _ member)
    exact ⟨_, combineCodes_loop nonzero1 nonzero2 static (combineLoop_clean path onFront),
      endsLater, keeps⟩
  · refine ⟨_, combineCodes_loop nonzero1 nonzero2 static
      (combineLoop_unclean path unclean onWay), ends, fun valid1 valid2 => ?_⟩
    have included := meets.included nonzero1 nonzero2 static valid1 valid2 _ _ unclean path
    rcases isCode with same | ⟨isClass, stillClass⟩
    · rw [same]
      refine ⟨valid1, fun place reached => ⟨?_, rfl⟩⟩
      rcases reached with first | second
      · exact first
      · exact (reaches_iff path).mpr (included place second)
    · refine ⟨.inl stillClass, fun place reached => ?_⟩
      rcases reached with first | second
      · exact absurd first (not_reaches_of_isClass isClass)
      · exact absurd ((reaches_iff path).mpr (included place second))
          (not_reaches_of_isClass isClass)

theorem ringId_find (found : ring.find errcode = some place) :
    (ring.entries place).id ≠ 0 := by
  obtain ⟨_, generic, isId, _⟩ := find_eq_some.mp found
  intro isZero
  apply generic
  apply generic_eq_zero_of_ringId
  rw [← isId, isZero]
  rfl

/-- The places that have not been used have no id. -/
def Fresh
    (ring : Ring) : Prop :=
  ∀ place, ring.maxErrorRingLoc < place → (ring.entries place).id = 0

/-- Combining changes neither the places that are in use nor their ids. -/
theorem fresh_combineLoop
    {fuel : Nat}
    (returned : combineLoop error2 fuel errcode ring = some later) :
    later.errorRingLoc = ring.errorRingLoc ∧ later.maxErrorRingLoc = ring.maxErrorRingLoc ∧
      ∀ place, (later.entries place).id = (ring.entries place).id := by
  induction fuel generalizing errcode ring with
  | zero => cases returned
  | succ fuel ih =>
    unfold combineLoop at returned
    split at returned
    · cases returned
      exact ⟨rfl, rfl, fun _ => rfl⟩
    dsimp only at returned
    split_ifs at returned
    · cases returned
      exact ⟨rfl, rfl, fun other => setPrevError_id ring _ other error2⟩
    · obtain ⟨sameLoc, sameMax, sameIds⟩ := ih returned
      exact ⟨sameLoc, sameMax, fun other =>
        (sameIds other).trans (setPrevError_id ring _ other _)⟩
    · exact ih returned

theorem fresh_combineCodes
    {fuel : Nat} {combined : Code × Ring}
    (returned : ring.combineCodes fuel error1 error2 = some combined) :
    combined.2.errorRingLoc = ring.errorRingLoc ∧
      combined.2.maxErrorRingLoc = ring.maxErrorRingLoc ∧
      ∀ place, (combined.2.entries place).id = (ring.entries place).id := by
  unfold combineCodes at returned
  split_ifs at returned
  · cases returned
    exact ⟨rfl, rfl, fun _ => rfl⟩
  · cases returned
    exact ⟨rfl, rfl, fun _ => rfl⟩
  · cases returned
    exact ⟨rfl, rfl, fun _ => rfl⟩
  · obtain ⟨later, isLater, rfl⟩ := Option.map_eq_some_iff.mp returned
    exact fresh_combineLoop isLater

/-- Only codes that name the place that is used find something else. -/
theorem find_put
    (locLess : ring.errorRingLoc < maxErrorRing)
    (locLe : ring.errorRingLoc ≤ ring.maxErrorRingLoc)
    (fresh : ring.Fresh)
    (entry : Entry)
    (errcode : Code) :
    (ring.put entry).find errcode = ring.find errcode ∨ (ring.put entry).find errcode = none ∨
      (ring.put entry).find errcode = some ring.errorRingLoc := by
  cases isFound : (ring.put entry).find errcode with
  | none => exact .inr (.inl rfl)
  | some place =>
    obtain rfl | notPlace := eq_or_ne place ring.errorRingLoc
    · exact .inr (.inr rfl)
    left
    have isSame : (ring.put entry).entries place = ring.entries place := update_of_ne notPlace _ _
    have nonzero := ringId_find isFound
    rw [isSame] at nonzero
    obtain ⟨inRange, generic, isId, isIdx⟩ := find_eq_some.mp isFound
    rw [isSame] at isId
    have isLe : place ≤ ring.maxErrorRingLoc := by
      by_contra outside
      exact nonzero (fresh place (not_le.mp outside))
    exact (find_eq_some.mpr ⟨⟨inRange.1, isLe⟩, generic, isId, isIdx⟩).symm

section

variable
    {request : Request}
    (locLess : ring.errorRingLoc < maxErrorRing)
    (locLe : ring.errorRingLoc ≤ ring.maxErrorRingLoc)
    (fresh : ring.Fresh)

include locLess locLe fresh

/-- A new message that does not lead back to its place. -/
theorem ends_createCode
    (ends : ring.links.Ends)
    (meets : ring.CreateMeets request) :
    (ring.createCode request).2.links.Ends := by
  by_cases inRing : ring.chosenClass request = errInStatus
  · unfold createCode
    rw [if_pos inRing]
    exact ends
  rw [createCode_ring inRing]
  have isNew : (ring.put (ring.newEntry request)).entries ring.errorRingLoc =
      ring.newEntry request := update_self _ _ _
  refine @Pointers.Ends.redirect _ _ ring.links _ ring.errorRingLoc
    (find_put locLess locLe fresh (ring.newEntry request)) ?_ ends ?_
  · intro other notPlace
    exact congrArg Entry.prevError (update_of_ne notPlace _ _)
  · intro other leads found
    have isStored : (ring.put (ring.newEntry request)).links.stored ring.errorRingLoc =
        ring.checkedLastcode request := congrArg Entry.prevError isNew
    rw [isStored] at leads
    obtain ⟨_, generic, isId, isIdx⟩ := find_eq_some.mp found
    rw [isNew] at isId
    unfold checkedLastcode at leads
    split_ifs at leads with invalid
    · have isZero : other = 0 := by
        rcases Relation.ReflTransGen.cases_head leads with same | ⟨_, ⟨_, isFound, _⟩, _⟩
        · exact same.symm
        · rw [show ring.links.find 0 = none from find_zero ring] at isFound
          cases isFound
      rw [isZero] at generic
      exact generic rfl
    · have isValid : ring.IsValid request.lastcode := by
        by_contra notValid
        have isZero := not_not.mp fun nonzero => invalid ⟨nonzero, notValid⟩
        exact notValid (.inl (by rw [isZero]; decide))
      exact meets inRing isValid other leads ⟨generic, isIdx, isId.symm⟩

theorem fresh_createCode :
    (ring.createCode request).2.errorRingLoc < maxErrorRing ∧
      (ring.createCode request).2.errorRingLoc ≤ (ring.createCode request).2.maxErrorRingLoc ∧
      (ring.createCode request).2.Fresh := by
  by_cases inRing : ring.chosenClass request = errInStatus
  · unfold createCode
    rw [if_pos inRing]
    exact ⟨locLess, locLe, fresh⟩
  rw [createCode_ring inRing]
  obtain ⟨newLess, newLe, _, grown⟩ := put_bounds (ring.newEntry request) locLess locLe
  refine ⟨newLess, newLe, fun place outside => ?_⟩
  have isSame : (ring.put (ring.newEntry request)).entries place = ring.entries place :=
    update_of_ne (by omega) _ _
  rw [isSame]
  exact fresh place (lt_of_le_of_lt grown outside)

end

end Mpich.Errhan.Ring

namespace Mpich.Errhan

/-- A call of `MPIR_Err_create_code_valist` or of `MPIR_Err_combine_codes`. -/
inductive Call
  | create (request : Request)
  | combine (error1 error2 : Code)

namespace Ring

def call
    (ring : Ring)
    (fuel : Nat) : Call → Option (Code × Ring)
  | .create request => some (ring.createCode request)
  | .combine error1 error2 => ring.combineCodes fuel error1 error2

/-- The condition under which a call leaves chains that end. -/
def CallMeets
    (ring : Ring) : Call → Prop
  | .create request => ring.CreateMeets request
  | .combine error1 error2 => ring.CombineMeets error1 error2

/-- The messages of every code come to an end, so that printing them and putting a code
after them come to an end. -/
def LoopsEnd
    (ring : Ring) : Prop :=
  ring.links.Ends ∧ (∀ errcode, ∃ printed, Yields (ring.printStack · errcode) printed) ∧
    ∀ error1 error2, ∃ combined, Yields (ring.combineCodes · error1 error2) combined

theorem loopsEnd_of_ends
    {ring : Ring}
    (ends : ring.links.Ends) :
    ring.LoopsEnd := by
  refine ⟨ends, fun errcode => ?_, combineCodes_yields ends⟩
  obtain ⟨places, last, path⟩ := ends errcode
  obtain ⟨tail, _, yields⟩ := printStack_yields path
  exact ⟨_, yields⟩

end Ring

/-- The ring and the codes that have been returned. -/
structure Session where
  ring : Ring
  codes : List Code

namespace Session

/-- A class, or a code that a call has returned. -/
def Obtained
    (session : Session)
    (code : Code) : Prop :=
  Ring.IsClass code ∨ code ∈ session.codes

def OnObtained
    (session : Session) : Call → Prop
  | .create request => session.Obtained request.lastcode
  | .combine error1 error2 => session.Obtained error1 ∧ session.Obtained error2

/-- The sessions that calls lead to that meet a condition. -/
inductive Runs (meets : Ring → Call → Prop) : Session → Prop
  | initial : Runs meets ⟨.initial, []⟩
  | step
      {session : Session}
      {call : Call}
      {returned : Code × Ring}
      (runs : Runs meets session)
      (obtained : session.OnObtained call)
      (condition : meets session.ring call)
      (yields : Yields (session.ring.call · call) returned) :
      Runs meets ⟨returned.2, returned.1 :: session.codes⟩

/-- All chains end, and codes that are combined keep their messages. -/
def Sound
    (meets : Ring → Call → Prop)
    (session : Session) : Prop :=
  session.ring.LoopsEnd ∧ ∀ error1 error2, session.OnObtained (.combine error1 error2) →
      meets session.ring (.combine error1 error2) →
        ∃ combined, Yields (session.ring.combineCodes · error1 error2) combined ∧
          session.ring.Keeps error1 error2 combined

structure Invariant
    (ring : Ring) : Prop where
  locLess : ring.errorRingLoc < maxErrorRing
  locLe : ring.errorRingLoc ≤ ring.maxErrorRingLoc
  fresh : ring.Fresh
  ends : ring.links.Ends

theorem invariant_initial : Invariant .initial where
  locLess := by decide
  locLe := le_rfl
  fresh := fun _ _ => rfl
  ends := by
    intro errcode
    refine ⟨[], errcode, .stop ?_⟩
    cases isFound : Ring.initial.find errcode with
    | none => exact isFound
    | some place => exact absurd rfl (Ring.ringId_find isFound)

theorem Invariant.call
    {ring : Ring}
    (invariant : Invariant ring)
    {call : Call} {returned : Code × Ring}
    (condition : ring.CallMeets call)
    (yields : Yields (ring.call · call) returned) :
    Invariant returned.2 := by
  obtain ⟨locLess, locLe, fresh, ends⟩ := invariant
  cases call with
  | create request =>
    obtain ⟨bound, isReturned⟩ := yields
    obtain rfl := Option.some.inj (isReturned bound le_rfl)
    obtain ⟨newLess, newLe, newFresh⟩ := @Ring.fresh_createCode _ request locLess locLe fresh
    exact ⟨newLess, newLe, newFresh, Ring.ends_createCode locLess locLe fresh ends condition⟩
  | combine error1 error2 =>
    obtain ⟨combined, combines, newEnds, _⟩ := Ring.combineCodes_keeps ends condition
    obtain rfl : returned = combined := yields.unique combines
    obtain ⟨bound, isReturned⟩ := combines
    obtain ⟨sameLoc, sameMax, sameIds⟩ := Ring.fresh_combineCodes (isReturned bound le_rfl)
    refine ⟨by omega, by omega, fun place outside => ?_, newEnds⟩
    rw [sameIds]
    exact fresh place (sameMax ▸ outside)

/-- In every run whose calls meet the condition the chains end, and a combined code is
valid and leads to the messages of both codes. -/
theorem sound_of_runs
    {session : Session}
    (runs : Runs Ring.CallMeets session) :
    session.Sound Ring.CallMeets := by
  have invariant : Invariant session.ring := by
    induction runs with
    | initial => exact invariant_initial
    | step _ _ condition yields ih => exact ih.call condition yields
  refine ⟨Ring.loopsEnd_of_ends invariant.ends, fun error1 error2 _ meets => ?_⟩
  obtain ⟨combined, yields, _, keeps⟩ := Ring.combineCodes_keeps invariant.ends meets
  exact ⟨combined, yields, keeps⟩

/-- Some error. -/
def badArgument : Request where
  lastcode := 0
  fatal := false
  errorClass := 12
  genericIdx := some 3
  user := none
  msg := []
  errorClass_lt := errArg_lt
  genericIdx_lt := errArg_generic_lt
  user_generic := errArg_user
  msg_le := Nat.zero_le 256

/-- Another error. -/
def badCount : Request where
  lastcode := 0
  fatal := false
  errorClass := 2
  genericIdx := some 5
  user := none
  msg := [0x35]
  errorClass_lt := by decide
  genericIdx_lt := by decide
  user_generic := nofun
  msg_le := by decide

/-- Both errors. -/
def bothErrors : Ring :=
  ((Ring.initial.createCode badArgument).2.createCode badCount).2

theorem path_badArgument :
    bothErrors.links.Path (Ring.initial.createCode badArgument).1 [0] 0 :=
  @Pointers.Path.visit _ _ _ _ 0 _ _ (by decide) (.stop (Ring.find_zero bothErrors))

theorem path_badCount :
    bothErrors.links.Path ((Ring.initial.createCode badArgument).2.createCode badCount).1 [1] 0 :=
  @Pointers.Path.visit _ _ _ _ 1 _ _ (by decide) (.stop (Ring.find_zero bothErrors))

theorem createMeets_of_lastcode
    {ring : Ring} {request : Request}
    (isFirst : request.lastcode = 0) :
    ring.CreateMeets request := by
  rintro _ _ code leads ⟨generic, _⟩
  rw [isFirst] at leads
  rcases Relation.ReflTransGen.cases_head leads with rfl | ⟨_, ⟨_, isFound, _⟩, _⟩
  · exact generic rfl
  · rw [show ring.links.find 0 = none from Ring.find_zero ring] at isFound
    cases isFound

theorem combineMeets_bothErrors :
    bothErrors.CombineMeets (Ring.initial.createCode badArgument).1
      ((Ring.initial.createCode badArgument).2.createCode badCount).1 where
  dynamic := fun _ dynamic => absurd (by decide) dynamic
  classes := by
    refine fun _ _ _ => .inr (.inr ⟨by decide, fun place reached => ?_⟩)
    rw [Ring.reaches_iff path_badArgument] at reached
    rw [List.mem_singleton.mp reached]
    decide
  disjoint := by
    intro _ _ _ places path place member
    rw [(path.unique path_badArgument).1] at member
    rw [List.mem_singleton.mp member, Ring.reaches_iff path_badCount]
    decide
  included := fun _ _ _ _ _ places last unclean path =>
    absurd (path.unique path_badArgument).2 unclean

/-- Two errors are created and combined. -/
theorem sound_bothErrors :
    Sound Ring.CallMeets ⟨(bothErrors.setPrevError 0
      ((Ring.initial.createCode badArgument).2.createCode badCount).1),
      [(Ring.initial.createCode badArgument).1,
        ((Ring.initial.createCode badArgument).2.createCode badCount).1,
        (Ring.initial.createCode badArgument).1]⟩ := by
  have isFirst := @Runs.step _ _ (.create badArgument) _ (@Runs.initial Ring.CallMeets)
    (.inl ⟨by decide, by decide⟩) (createMeets_of_lastcode rfl) (.of_eq fun _ => rfl)
  have isSecond := @Runs.step _ _ (.create badCount) _ isFirst
    (.inl ⟨by decide, by decide⟩) (createMeets_of_lastcode rfl) (.of_eq fun _ => rfl)
  exact sound_of_runs (@Runs.step _ _ (.combine _ _) (_, _) isSecond
    ⟨.inr (.tail _ (.head _)), .inr (.head _)⟩ combineMeets_bothErrors
    (Ring.combineCodes_loop (by decide) (by decide) (by decide)
      (@Ring.combineLoop_clean _ _ _ 0 [] path_badArgument (.inr nofun))))

/-- An error is combined with itself. -/
def itself : Ring :=
  (Ring.initial.createCode badArgument).2.setPrevError 0 (Ring.initial.createCode badArgument).1

/-- The message of the error comes from the error itself. -/
theorem itself_not_sound :
    ¬ ∀ session, Runs (fun _ _ => True) session → session.Sound fun _ _ => True := by
  intro all
  have isFirst := @Runs.step _ _ (.create badArgument) _ (@Runs.initial fun _ _ => True)
    (.inl ⟨by decide, by decide⟩) trivial (.of_eq fun _ => rfl)
  have path : (Ring.initial.createCode badArgument).2.links.Path
      (Ring.initial.createCode badArgument).1 [0] 0 :=
    @Pointers.Path.visit _ _ _ _ 0 _ _ (by decide)
      (.stop (Ring.find_zero (Ring.initial.createCode badArgument).2))
  have isSecond := @Runs.step _ _ (.combine _ _) (_, _) isFirst
    ⟨.inr (.head _), .inr (.head _)⟩ trivial
    (Ring.combineCodes_loop (by decide) (by decide) (by decide)
      (@Ring.combineLoop_clean _ _ _ 0 [] path (.inr nofun)))
  obtain ⟨⟨ends, _⟩, _⟩ := all _ isSecond
  obtain ⟨places, last, again⟩ := ends (Ring.initial.createCode badArgument).1
  have found : itself.links.find (Ring.initial.createCode badArgument).1 = some 0 := by decide
  have isSelf : itself.links.stored 0 = (Ring.initial.createCode badArgument).1 := by decide
  exact Pointers.Path.not_of_self found isSelf again

end Mpich.Errhan.Session
