import Mpich.Foundation.Cyclic
import Mpich.Foundation.MessagePassing.Rounds

/-!
# Programs that follow a schedule

Rounds that are named by labels, in the order of a list of labels. Programs
complete when their communications agree in each of these rounds.
-/

namespace Mpich.MessagePassing

open List

variable {Rank Msg Out Label : Type}

/-- The communications of a round in the order in which a program makes them. -/
def Round.ops (round : Round Rank Msg) : List (Op Rank Msg) :=
  round.sends.map (fun entry => .send entry.1 entry.2) ++
    round.recvs.map fun entry => .recv entry.1 entry.2

theorem Round.map_events (round : Round Rank Msg) (number : Nat) :
    (round.events number).map Prod.snd = round.ops := by
  rw [Round.events, Round.ops, map_append, map_map, map_map]
  rfl

@[simp] theorem Round.ops_idle :
    (Round.idle : Round Rank Msg).ops = [] :=
  rfl

/-- The communications of the rounds with these labels. -/
def opsOf
    (rounds : Label → Round Rank Msg)
    (schedule : List Label) : List (Op Rank Msg) :=
  schedule.flatMap fun label => (rounds label).ops

section

variable (rounds : Label → Round Rank Msg)

include rounds

@[simp] theorem opsOf_nil :
    opsOf rounds [] = [] :=
  rfl

@[simp] theorem opsOf_cons
    (label : Label)
    (schedule : List Label) :
    opsOf rounds (label :: schedule) = (rounds label).ops ++ opsOf rounds schedule := by
  rfl

@[simp] theorem opsOf_append
    (front back : List Label) :
    opsOf rounds (front ++ back) = opsOf rounds front ++ opsOf rounds back := by
  rw [opsOf, flatMap_append]
  rfl

omit rounds in
theorem opsOf_of_idle
    {rounds : Label → Round Rank Msg} {schedule : List Label}
    (idle : ∀ label ∈ schedule, (rounds label).ops = []) :
    opsOf rounds schedule = [] := by
  induction schedule with
  | nil => rfl
  | cons label schedule ih =>
    rw [opsOf_cons, idle label mem_cons_self, ih fun later member =>
        idle later (mem_cons_of_mem _ member)]
    rfl

/-- The round with a number in the order of a schedule. -/
def roundAt
    (rounds : Label → Round Rank Msg)
    (schedule : List Label)
    (number : Nat) : Round Rank Msg :=
  match schedule[number]? with
  | none => .idle
  | some label => rounds label

theorem map_traceFrom_roundAt
    (front back : List Label) :
    (traceFrom (roundAt rounds (front ++ back)) front.length back.length).map
        Prod.snd =
      opsOf rounds back := by
  induction back generalizing front with
  | nil => rfl
  | cons label back ih =>
    have here : roundAt rounds (front ++ label :: back) front.length = rounds label := by
      rw [roundAt, getElem?_append_right le_rfl, Nat.sub_self]
      rfl
    have later := ih (front ++ [label])
    rw [append_assoc, singleton_append, length_append, length_singleton] at later
    rw [length_cons, traceFrom, map_append, Round.map_events, here, later, opsOf_cons]

end

variable [DecidableEq Rank]

/-- A message to or from a rank, if there is one. -/
def messageIf
    (condition : Prop)
    [Decidable condition]
    (rank : Rank)
    (msg : Msg) : List (Rank × Msg) :=
  if condition then [(rank, msg)] else []

omit [DecidableEq Rank] in
theorem messageIf_of
    {condition : Prop} [Decidable condition]
    (holds : condition)
    (rank : Rank)
    (msg : Msg) :
    messageIf condition rank msg = [(rank, msg)] :=
  if_pos holds

omit [DecidableEq Rank] in
theorem messageIf_of_not
    {condition : Prop} [Decidable condition]
    (fails : ¬ condition)
    (rank : Rank)
    (msg : Msg) :
    messageIf condition rank msg = [] :=
  if_neg fails

theorem withRank_messageIf
    (rank other : Rank)
    (condition : Prop)
    [Decidable condition]
    (msg : Msg) :
    Round.withRank rank (messageIf condition other msg) =
      if condition ∧ other = rank then [msg] else [] := by
  unfold messageIf
  by_cases holds : condition
  · rw [if_pos holds, Round.withRank_singleton]
    simp only [holds, true_and]
  · rw [if_neg holds, Round.withRank_nil, if_neg fun both => holds both.1]

/-- What a rank may send to another and what the other may receive agree if
there is a message for both or for none, and it is the same. -/
theorem withRank_messageIf_eq
    {sends receives : Prop} [Decidable sends] [Decidable receives]
    {src dst target source : Rank} {sent received : Msg}
    (agree : (sends ∧ target = dst) ↔ (receives ∧ source = src))
    (same : sends → target = dst → sent = received) :
    Round.withRank dst (messageIf sends target sent) =
      Round.withRank src (messageIf receives source received) := by
  rw [withRank_messageIf, withRank_messageIf]
  by_cases both : sends ∧ target = dst
  · rw [if_pos both, if_pos (agree.mp both), same both.1 both.2]
  · rw [if_neg both, if_neg fun other => both (agree.mpr other)]

/-- In each round of a schedule, what one rank sends to another is what the
other receives from it. -/
def ScheduleAgrees
    (rounds : Rank → Label → Round Rank Msg)
    (schedule : List Label) : Prop :=
  ∀ label ∈ schedule, ∀ src dst, Round.withRank dst (rounds src label).sends =
      Round.withRank src (rounds dst label).recvs

/-- The rounds of one phase and those of another. -/
def phases
    {Later : Type}
    (first : Rank → Label → Round Rank Msg)
    (second : Rank → Later → Round Rank Msg)
    (rank : Rank) : Label ⊕ Later → Round Rank Msg :=
  Sum.elim (first rank) (second rank)

/-- The labels of one phase, and then those of another. -/
def phaseLabels
    {Later : Type}
    (front : List Label)
    (back : List Later) : List (Label ⊕ Later) :=
  front.map Sum.inl ++ back.map Sum.inr

variable {Later : Type}

omit [DecidableEq Rank] in
theorem opsOf_phases
    (first : Rank → Label → Round Rank Msg)
    (second : Rank → Later → Round Rank Msg)
    (rank : Rank)
    (front : List Label)
    (back : List Later) :
    opsOf (phases first second rank) (phaseLabels front back) =
      opsOf (first rank) front ++ opsOf (second rank) back := by
  rw [phaseLabels, opsOf_append, opsOf, opsOf, flatMap_map, flatMap_map]
  rfl

theorem ScheduleAgrees.phases
    {first : Rank → Label → Round Rank Msg}
    {second : Rank → Later → Round Rank Msg} {front : List Label}
    {back : List Later}
    (firstAgrees : ScheduleAgrees first front)
    (secondAgrees : ScheduleAgrees second back) :
    ScheduleAgrees (MessagePassing.phases first second) (phaseLabels front back) := by
  intro label member src dst
  rcases mem_append.mp member with inFront | inBack
  · obtain ⟨early, earlyMember, rfl⟩ := mem_map.mp inFront
    exact firstAgrees early earlyMember src dst
  · obtain ⟨late, lateMember, rfl⟩ := mem_map.mp inBack
    exact secondAgrees late lateMember src dst

omit [DecidableEq Rank] in
theorem phases_idle
    {first : Rank → Label → Round Rank Msg}
    {second : Rank → Later → Round Rank Msg} {rank : Rank}
    (firstIdle : ∀ label, first rank label = .idle)
    (secondIdle : ∀ label, second rank label = .idle)
    (label : Label ⊕ Later) :
    phases first second rank label = .idle := by
  cases label with
  | inl early => exact firstIdle early
  | inr late => exact secondIdle late

/-- Programs that follow an agreeing schedule complete. -/
theorem completes_of_schedule
    {programs : Rank → Prog Rank Msg Out} {out : Rank → Out}
    (rounds : Rank → Label → Round Rank Msg)
    (schedule : List Label)
    (agree : ScheduleAgrees rounds schedule)
    (ends : ∀ rank, (programs rank).Ends (opsOf (rounds rank) schedule) (out rank))
    (members : Finset Rank)
    (finite : ∀ rank ∉ members, ∀ label, rounds rank label = .idle) :
    Completes programs out := by
  apply completes_of_rounds (fun rank => roundAt (rounds rank) schedule)
    schedule.length _ _ members
  · intro rank outside number
    unfold roundAt
    cases schedule[number]? with
    | none => rfl
    | some label => exact finite rank outside label
  · intro number within src dst
    simp only [roundAt, getElem?_eq_getElem within]
    exact agree _ (getElem_mem within) src dst
  · intro rank
    have trace := map_traceFrom_roundAt (rounds rank) [] schedule
    rw [nil_append, length_nil] at trace
    rw [trace]
    exact ends rank

end Mpich.MessagePassing

/-!
## What programs yield

A program with given communications ends with a result that satisfies a
condition. The rules follow the structure of programs.
-/

namespace Mpich.MessagePassing.Prog

variable {Rank Msg Out Final : Type}

/-- A program with these communications ends with a result of this kind. -/
def Yields
    (program : Prog Rank Msg Out)
    (ops : List (Op Rank Msg))
    (result : Out → Prop) : Prop :=
  ∃ out, program.Ends ops out ∧ result out

variable {ops : List (Op Rank Msg)} {result : Out → Prop} {out : Out}

theorem Ends.yields
    {program : Prog Rank Msg Out}
    (ends : program.Ends ops out)
    (holds : result out) :
    program.Yields ops result :=
  ⟨out, ends, holds⟩

theorem yields_pure
    (holds : result out) :
    (pure out : Prog Rank Msg Out).Yields [] result :=
  ⟨out, ends_done out, holds⟩

theorem yields_ofOption
    {value : Option Out}
    (isSome : value = some out)
    (holds : result out) :
    (ofOption value : Prog Rank Msg Out).Yields [] result := by
  rw [isSome]
  exact yields_pure holds

section

variable
    {program : Prog Rank Msg Out}

/-- Programs that run one after the other. -/
theorem Yields.bind
    {after : Out → Prog Rank Msg Final} {front back : List (Op Rank Msg)}
    {middle : Out → Prop} {result : Final → Prop}
    (first : program.Yields front middle)
    (second : ∀ out, middle out → (after out).Yields back result) :
    (program >>= after).Yields (front ++ back) result := by
  obtain ⟨out, ends, holds⟩ := first
  obtain ⟨final, endsThen, holdsThen⟩ := second out holds
  exact ⟨final, ends.bind endsThen, holdsThen⟩

/-- A program that runs after one whose result is known. -/
theorem Ends.bind_yields
    {after : Out → Prog Rank Msg Final} {front back : List (Op Rank Msg)}
    {result : Final → Prop}
    (first : program.Ends front out)
    (second : (after out).Yields back result) :
    (program >>= after).Yields (front ++ back) result := by
  obtain ⟨final, ends, holds⟩ := second
  exact ⟨final, first.bind ends, holds⟩

theorem Yields.mono
    {weaker : Out → Prop}
    (yields : program.Yields ops result)
    (weakens : ∀ out, result out → weaker out) :
    program.Yields ops weaker := by
  obtain ⟨out, ends, holds⟩ := yields
  exact ⟨out, ends, weakens out holds⟩

/-- What a program yields, with its communications. -/
theorem Yields.with_ends
    (yields : program.Yields ops result) :
    program.Yields ops fun out => result out ∧ program.Ends ops out := by
  obtain ⟨out, ends, holds⟩ := yields
  exact ⟨out, ends, holds, ends⟩

/-- A program that yields one value ends with it. -/
theorem Yields.ends
    (yields : program.Yields ops (· = out)) :
    program.Ends ops out := by
  obtain ⟨_, ends, rfl⟩ := yields
  exact ends

end

end Prog

variable
    {Msg Out Label : Type} {size : Nat} {programs : Nat → Prog Nat Msg Out}
    (rounds : Nat → Label → Round Nat Msg)
    (schedule : List Label)
    (agree : ScheduleAgrees rounds schedule)
    (idle : ∀ rank, ¬ rank < size → ∀ label, rounds rank label = .idle)

include agree idle

/-- Members of a network that yield their results in the rounds of an agreeing
schedule complete, and so does the network if nothing else runs. -/
theorem completes_of_members
    {out : Nat → Out}
    (outside : ∀ rank, ¬ rank < size → programs rank = .done (out rank))
    (ends : ∀ rank < size, (programs rank).Ends (opsOf (rounds rank) schedule) (out rank)) :
    Completes programs out := by
  apply completes_of_schedule rounds schedule agree _ (Finset.range size)
  · intro rank notMember
    exact idle rank fun within => notMember (Finset.mem_range.mpr within)
  · intro rank
    by_cases inside : rank < size
    · exact ends rank inside
    · rw [outside rank inside, opsOf_of_idle fun label _ => by
        rw [idle rank inside label, Round.ops_idle]]
      exact Prog.ends_done _

/-- The same for members whose results are known by a property only. -/
theorem exists_completes_of_members
    {idleOut : Out} {result : Nat → Out → Prop}
    (outside : ∀ rank, ¬ rank < size → programs rank = .done idleOut)
    (yields : ∀ rank, rank < size →
      (programs rank).Yields (opsOf (rounds rank) schedule) (result rank)) :
    ∃ out, Completes programs out ∧ ∀ rank, rank < size → result rank (out rank) := by
  choose out ends holds using yields
  refine ⟨fun rank => if inside : rank < size then out rank inside else idleOut, ?_, ?_⟩
  · apply completes_of_members rounds schedule agree idle
    · intro rank beyond
      rw [outside rank beyond, dif_neg beyond]
    · intro rank inside
      rw [dif_pos inside]
      exact ends rank inside
  · intro rank inside
    simp only [dif_pos inside]
    exact holds rank inside

end Mpich.MessagePassing

namespace Mpich.MessagePassing

variable {Rank Msg : Type} [DecidableEq Rank]

/-- A round in which, under a condition, a source sends a message to a target. -/
def handRound
    (condition : Prop)
    [Decidable condition]
    (source target : Rank)
    (msg : Msg)
    (rank : Rank) : Round Rank Msg where
  sends := messageIf (condition ∧ rank = source) target msg
  recvs := messageIf (condition ∧ rank = target) source msg

variable {condition : Prop} [Decidable condition] {source target rank : Rank}
variable {msg : Msg}

theorem handRound_agrees (src dst : Rank) :
    Round.withRank dst (handRound condition source target msg src).sends =
      Round.withRank src (handRound condition source target msg dst).recvs := by
  apply withRank_messageIf_eq
  · constructor
    · rintro ⟨⟨holds, rfl⟩, rfl⟩
      exact ⟨⟨holds, rfl⟩, rfl⟩
    · rintro ⟨⟨holds, rfl⟩, rfl⟩
      exact ⟨⟨holds, rfl⟩, rfl⟩
  · intro _ _
    rfl

theorem handRound_of_other
    (notSource : condition → rank ≠ source)
    (notTarget : condition → rank ≠ target) :
    handRound condition source target msg rank = .idle :=
  congrArg₂ Round.mk
    (messageIf_of_not (fun both => notSource both.1 both.2) _ _)
    (messageIf_of_not (fun both => notTarget both.1 both.2) _ _)

theorem ops_handRound_source
    (holds : condition)
    (differ : source ≠ target) :
    (handRound condition source target msg source).ops = [.send target msg] := by
  unfold handRound
  rw [messageIf_of ⟨holds, rfl⟩, messageIf_of_not fun both => differ both.2]
  rfl

theorem ops_handRound_target
    (holds : condition)
    (differ : source ≠ target) :
    (handRound condition source target msg target).ops = [.recv source msg] := by
  unfold handRound
  rw [messageIf_of_not fun both => differ both.2.symm, messageIf_of ⟨holds, rfl⟩]
  rfl

end Mpich.MessagePassing

namespace Mpich.MessagePassing

open List

variable {Rank Msg Out : Type}

/-- A round in which each member sends a message to its target, and receives
the message of its source. -/
def exchangeRound
    (member : Rank → Prop)
    [DecidablePred member]
    (target source : Rank → Rank)
    (msg : Rank → Msg)
    (rank : Rank) : Round Rank Msg :=
  if member rank then
    { sends := [(target rank, msg rank)]
      recvs := [(source rank, msg (source rank))] }
  else .idle

section

variable {member : Rank → Prop} [DecidablePred member]
variable {target source : Rank → Rank} {msg : Rank → Msg}

variable {rank : Rank}

theorem exchangeRound_of_not
    (outside : ¬ member rank) :
    exchangeRound member target source msg rank = .idle :=
  if_neg outside

theorem ops_exchangeRound
    (inside : member rank) :
    (exchangeRound member target source msg rank).ops =
      [.send (target rank) (msg rank), .recv (source rank) (msg (source rank))] := by
  rw [exchangeRound, if_pos inside]
  rfl

/-- The sends and the receives of such a round agree. -/
theorem exchangeRound_agrees
    [DecidableEq Rank]
    (targetMember : ∀ rank, member rank → member (target rank))
    (sourceMember : ∀ rank, member rank → member (source rank))
    (paired : ∀ src dst, member src → member dst → (target src = dst ↔ source dst = src))
    (src dst : Rank) :
    Round.withRank dst (exchangeRound member target source msg src).sends =
      Round.withRank src (exchangeRound member target source msg dst).recvs := by
  unfold exchangeRound
  by_cases srcIn : member src
  · rw [if_pos srcIn]
    by_cases dstIn : member dst
    · rw [if_pos dstIn, Round.withRank_singleton, Round.withRank_singleton]
      by_cases sends : target src = dst
      · have receives := (paired src dst srcIn dstIn).mp sends
        rw [if_pos sends, if_pos receives, receives]
      · rw [if_neg sends, if_neg]
        exact fun receives => sends ((paired src dst srcIn dstIn).mpr receives)
    · rw [if_neg dstIn, Round.withRank_singleton, if_neg]
      · rfl
      · exact fun sends => dstIn (sends ▸ targetMember src srcIn)
  · rw [if_neg srcIn]
    by_cases dstIn : member dst
    · rw [if_pos dstIn, Round.withRank_singleton, if_neg]
      · rfl
      · exact fun receives => srcIn (receives ▸ sourceMember dst dstIn)
    · rw [if_neg dstIn]
      rfl

end

/-- Messages around a ring fit together. -/
theorem ring_agrees
    {size steps : Nat}
    (within : steps ≤ size)
    (msg : Nat → Msg)
    (src dst : Nat) :
    Round.withRank dst (exchangeRound (· < size)
        (Cyclic.ahead size · steps) (Cyclic.behind size · steps) msg src).sends =
      Round.withRank src (exchangeRound (· < size)
        (Cyclic.ahead size · steps) (Cyclic.behind size · steps) msg dst).recvs := by
  apply exchangeRound_agrees
  · intro rank inside
    exact Cyclic.ahead_lt inside
  · intro rank inside
    exact Cyclic.behind_lt inside
  · intro src dst srcIn dstIn
    exact Cyclic.ahead_eq_iff srcIn dstIn within

/-- Messages that go round a ring the other way fit together. -/
theorem reverseRing_agrees
    {size steps : Nat}
    (within : steps ≤ size)
    (msg : Nat → Msg)
    (src dst : Nat) :
    Round.withRank dst (exchangeRound (· < size)
        (Cyclic.behind size · steps) (Cyclic.ahead size · steps) msg src).sends =
      Round.withRank src (exchangeRound (· < size)
        (Cyclic.behind size · steps) (Cyclic.ahead size · steps) msg dst).recvs := by
  apply exchangeRound_agrees
  · intro rank inside
    exact Cyclic.behind_lt inside
  · intro rank inside
    exact Cyclic.ahead_lt inside
  · intro src dst srcIn dstIn
    exact (Cyclic.ahead_eq_iff dstIn srcIn within).symm

section

variable
    [DecidableEq Rank] {Label : Type} {labels : List Label}
    {rankOf : Label → Rank}

/-- A list of messages with one entry for a rank. -/
theorem withRank_map_of_unique
    {label : Label}
    (nodup : labels.Nodup)
    (member : label ∈ labels)
    (unique : ∀ other ∈ labels, rankOf other = rankOf label → other = label)
    (msgOf : Label → Msg) :
    Round.withRank (rankOf label) (labels.map fun other => (rankOf other, msgOf other)) =
      [msgOf label] := by
  unfold Round.withRank
  rw [filterMap_map]
  induction labels with
  | nil => cases member
  | cons first rest ih =>
    obtain ⟨notInRest, restNodup⟩ := nodup_cons.mp nodup
    rw [filterMap_cons]
    by_cases here : first = label
    · have noMore : rest.filterMap ((fun entry : Rank × Msg =>
          if entry.1 = rankOf label then some entry.2 else none) ∘
            fun other => (rankOf other, msgOf other)) = [] := by
        rw [filterMap_eq_nil_iff]
        intro other inRest
        refine if_neg fun same => notInRest ?_
        rw [here, ← unique other (mem_cons_of_mem _ inRest) same]
        exact inRest
      simp only [here, Function.comp_apply, if_true] at noMore ⊢
      exact congrArg _ noMore
    · have inRest := (mem_cons.mp member).resolve_left (Ne.symm here)
      have different : rankOf first ≠ rankOf label := fun same =>
        here (unique first mem_cons_self same)
      simp only [Function.comp_apply, if_neg different]
      exact ih restNodup inRest fun other later =>
        unique other (mem_cons_of_mem _ later)

variable {rank : Rank}

/-- A list of messages without an entry for a rank. -/
theorem withRank_map_of_not_mem
    (none : ∀ label ∈ labels, rankOf label ≠ rank)
    (msgOf : Label → Msg) :
    Round.withRank rank (labels.map fun label => (rankOf label, msgOf label)) = [] := by
  unfold Round.withRank
  rw [filterMap_map, filterMap_eq_nil_iff]
  intro label member
  exact if_neg (none label member)

end

end Mpich.MessagePassing
