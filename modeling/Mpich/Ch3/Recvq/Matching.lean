import Mpich.Ch3.Recvq.Defs

/-!
# Message matching is in order and loses nothing

The history of a process determines which receives and which messages are
waiting, in the order they came. In every run the two queues hold exactly
those, no waiting receive matches a waiting message, and every event of the
history is justified by what was waiting before it: a match is always with the
earliest candidate.
-/

namespace Mpich.Ch3.Recvq

open LinkedQueue

/-- A 16-bit field holds a value that fits exactly when it holds its
conversion. -/
theorem Fits16.toInt32_eq_iff
    {value : Int32}
    (fits : Fits16 value)
    (field : Int16) :
    field.toInt32 = value ↔ value.toInt16 = field := by
  constructor
  · rintro rfl
    exact Int16.toInt16_toInt32 field
  · rintro rfl
    exact fits

variable {contextId : Int32}

/-- Without wildcards the test of the loop is the matching rule. -/
theorem exactTest_iff
    {source tag : Int32}
    (noTag : tag ≠ anyTag)
    (noSource : source ≠ anySource)
    (sourceFits : Fits16 source)
    (contextFits : Fits16 contextId)
    (info : MessageMatch) :
    exactTest source tag contextId info = true ↔
      (wantedMatch source tag contextId).Accepts info := by
  have stored : source.toInt16.toInt32 ≠ anySource := by
    rw [sourceFits]
    exact noSource
  simp only [exactTest, MessageMatch.Accepts, wantedMatch, stored, noTag,
    or_false, Bool.and_eq_true, beq_iff_eq]
  rw [contextFits.toInt32_eq_iff, sourceFits.toInt32_eq_iff, and_assoc, eq_comm (a := tag)]

/-- With wildcards the masks make the test of the loop the matching rule. -/
theorem maskedTest_iff
    {source tag : Int32}
    (sourceFits : Fits16 source)
    (info : MessageMatch) :
    maskedTest (wildcardMatch source tag contextId) (wildcardMask source tag) info = true ↔
      (wantedMatch source tag contextId).Accepts info := by
  simp only [maskedTest, MessageMatch.Accepts, wantedMatch, wildcardMatch,
    wildcardMask, Bool.and_eq_true, beq_iff_eq, and_assoc]
  refine and_congr eq_comm (and_congr ?_ ?_)
  · by_cases wildcard : source = anySource
    · subst wildcard
      rw [sourceFits]
      simp
    · have stored : source.toInt16.toInt32 ≠ anySource := by
        rw [sourceFits]
        exact wildcard
      simp [wildcard, stored, eq_comm]
  · by_cases wildcard : tag = anyTag
    · simp [wildcard]
    · simp [wildcard, eq_comm]

/-- The test of the loop over the posted queue is the matching rule. -/
theorem postedTest_iff (arrived info : MessageMatch) :
    postedTest arrived info = true ↔ info.Accepts arrived := by
  simp [postedTest, MessageMatch.Accepts, and_assoc]

section

variable {Req : Type*}

/-- The pointers of a queue hold exactly the requests of a waiting list, and
each request stores its envelope. -/
structure Holds
    (request : Req → Request)
    (next : Req → Option Req)
    (ends : Ends Req)
    (waiting : Waiting Req) : Prop where
  represents : Represents next ends waiting.requests
  envelope : ∀ entry ∈ waiting, (request entry.1).matchInfo = entry.2

variable {waiting : Waiting Req}

theorem Waiting.mem_requests
    {entry : Req × MessageMatch}
    (member : entry ∈ waiting) :
    entry.1 ∈ waiting.requests :=
  List.mem_map_of_mem member

theorem Waiting.requests_append
    (waiting : Waiting Req)
    (entry : Req × MessageMatch) :
    Waiting.requests (waiting ++ [entry]) = waiting.requests ++ [entry.1] := by
  simp [Waiting.requests]

variable {rreq : Req}

/-- The waiting list around one of its requests. -/
theorem Waiting.split_of_requests
    {before after : List Req}
    (split : waiting.requests = before ++ rreq :: after) :
    ∃ (front : Waiting Req) (info : MessageMatch) (rest : Waiting Req),
      waiting = front ++ (rreq, info) :: rest ∧ front.requests = before := by
  obtain ⟨front, back, splitWaiting, frontEq, backEq⟩ := List.map_eq_append_iff.mp split
  obtain ⟨⟨first, info⟩, rest, rfl, rfl, -⟩ := List.map_eq_cons_iff.mp backEq
  exact ⟨front, info, rest, splitWaiting, frontEq⟩

variable {ends : Ends Req}

/-- Searching a queue is searching its waiting list, when the test made on a
request is a rule about its envelope. -/
theorem Holds.findFirst
    {request : Req → Request} {next : Req → Option Req}
    (holds : Holds request next ends waiting)
    {accepts : Req → Bool}
    (rule : MessageMatch → Prop)
    [DecidablePred rule]
    (agree : ∀ rreq, accepts rreq = true ↔ rule (request rreq).matchInfo)
    (bound : Nat)
    (long : waiting.length ≤ bound) :
    (findFirst next accepts bound none ends.head = some none ∧
      waiting.find? (fun entry => rule entry.2) = none) ∨
    ∃ prev rreq info before after,
      findFirst next accepts bound none ends.head = some (some (prev, rreq)) ∧
      FoundAt waiting.requests before after none (prev, rreq) ∧
      waiting.find? (fun entry => rule entry.2) = some (rreq, info) := by
  have accepts_iff :
      ∀ entry ∈ waiting, accepts entry.1 = true ↔ rule entry.2 := by
    intro entry member
    rw [agree, holds.envelope entry member]
  have long : waiting.requests.length ≤ bound := by
    simpa [Waiting.requests] using long
  rcases findFirst_of_chain holds.represents.chain accepts bound long none with
    ⟨searched, unmatched⟩ | ⟨⟨prev, rreq⟩, before, after, searched, foundAt, accepted, first⟩
  · refine Or.inl ⟨searched, ?_⟩
    rw [List.find?_eq_none]
    intro entry member
    have rejected := unmatched entry.1 (Waiting.mem_requests member)
    rw [decide_eq_true_iff, ← accepts_iff entry member, rejected]
    exact Bool.false_ne_true
  · obtain ⟨front, info, rest, split, frontEq⟩ := Waiting.split_of_requests foundAt.split
    have inWaiting : ∀ earlier ∈ front, earlier ∈ waiting := by
      intro earlier member
      rw [split]
      exact List.mem_append_left _ member
    refine Or.inr ⟨prev, rreq, info, before, after, searched, foundAt, ?_⟩
    rw [List.find?_eq_some_iff_append]
    constructor
    · rw [decide_eq_true_iff, ← accepts_iff (rreq, info) (by simp [split])]
      exact accepted
    · refine ⟨front, rest, split, ?_⟩
      intro earlier member
      have rejected := first earlier.1 (by rw [← frontEq]; exact Waiting.mem_requests member)
      rw [Bool.not_eq_true', decide_eq_false_iff_not,
        ← accepts_iff earlier (inWaiting earlier member), rejected]
      exact Bool.false_ne_true

variable [DecidableEq Req]

/-- Taking one request out of a list without duplicates leaves the others in
order. -/
theorem Waiting.without_requests
    {before after : List Req}
    (split : waiting.requests = before ++ rreq :: after)
    (nodup : waiting.requests.Nodup) :
    (waiting.without rreq).requests = before ++ after := by
  have keep : ∀ other ∈ before ++ after, other ≠ rreq := by
    rintro other member rfl
    rw [split] at nodup
    have apart := (List.nodup_cons.mp (List.nodup_middle.mp nodup)).1
    exact apart member
  have filtered :
      (waiting.without rreq).requests = waiting.requests.filter fun other => other ≠ rreq := by
    unfold Waiting.without Waiting.requests
    rw [List.filter_map]
    rfl
  rw [filtered, split, List.filter_append, List.filter_cons_of_neg (by simp), ← List.filter_append]
  rw [List.filter_eq_self]
  simpa using keep

theorem Waiting.mem_of_mem_without
    {entry : Req × MessageMatch}
    (member : entry ∈ waiting.without rreq) :
    entry ∈ waiting :=
  List.mem_of_mem_filter member

section

variable
    {request : Req → Request} {next : Req → Option Req}

variable {waiting : Waiting Req}

variable {prev : Option Req}

variable (holds : Holds request next ends waiting)

include holds in
/-- Taking the request found out of a queue takes it out of the waiting
list. -/
theorem Holds.unlink
    {before after : List Req}
    (foundAt : FoundAt waiting.requests before after none (prev, rreq)) :
    Holds request (unlink next ends prev rreq).1 (unlink next ends prev rreq).2
      (waiting.without rreq) where
  represents := by
    rw [Waiting.without_requests foundAt.split holds.represents.nodup]
    exact holds.represents.unlink foundAt
  envelope := fun entry member =>
    holds.envelope entry (Waiting.mem_of_mem_without member)

include holds in
/-- Putting a new request at the end of a queue puts it at the end of the
waiting list. -/
theorem Holds.append
    (fresh : rreq ∉ waiting.requests)
    (created : Request) :
    Holds (Function.update request rreq created)
      (append next ends rreq).1 (append next ends rreq).2
      (waiting ++ [(rreq, created.matchInfo)]) where
  represents := by
    rw [Waiting.requests_append]
    exact holds.represents.append fresh
  envelope := by
    intro entry member
    rcases List.mem_append.mp member with old | new
    · have different : entry.1 ≠ rreq := by
        rintro rfl
        exact fresh (Waiting.mem_requests old)
      rw [Function.update_of_ne different]
      exact holds.envelope entry old
    · rw [List.mem_singleton.mp new, Function.update_self]

/-- Taking a request out of one queue leaves the other alone. -/
theorem Holds.unlink_other
    {others : Ends Req}
    (holds : Holds request next others waiting)
    (ends : Ends Req)
    {nodes before after : List Req}
    (foundAt : FoundAt nodes before after none (prev, rreq))
    (disjoint : nodes.Disjoint waiting.requests) :
    Holds request (LinkedQueue.unlink next ends prev rreq).1 others waiting where
  represents := holds.represents.unlink_other foundAt disjoint
  envelope := holds.envelope

/-- Putting a new request into one queue leaves the other alone. -/
theorem Holds.append_other
    {others : Ends Req}
    (holds : Holds request next others waiting)
    {nodes : List Req}
    (appended : Represents next ends nodes)
    (disjoint : nodes.Disjoint waiting.requests)
    (fresh : rreq ∉ waiting.requests)
    (created : Request) :
    Holds (Function.update request rreq created)
      (LinkedQueue.append next ends rreq).1 others waiting where
  represents := holds.represents.append_other appended disjoint fresh
  envelope := by
    intro entry member
    have different : entry.1 ≠ rreq := by
      rintro rfl
      exact fresh (Waiting.mem_requests member)
    rw [Function.update_of_ne different]
    exact holds.envelope entry member

include holds in
/-- A write to a request that keeps its envelope and its `next` pointer when it
is waiting leaves a queue alone. -/
theorem Holds.write
    {written : Request} {link : Option Req}
    (harmless : rreq ∈ waiting.requests →
      written.matchInfo = (request rreq).matchInfo ∧ link = next rreq) :
    Holds (Function.update request rreq written) (Function.update next rreq link) ends waiting where
  represents := by
    refine ⟨holds.represents.chain.congr ?_, holds.represents.tail_eq, holds.represents.nodup⟩
    intro other member
    by_cases same : other = rreq
    · subst same
      rw [Function.update_self, (harmless member).2]
    · rw [Function.update_of_ne same]
  envelope := by
    intro entry member
    rw [← holds.envelope entry member]
    by_cases same : entry.1 = rreq
    · subst same
      rw [Function.update_self, (harmless (Waiting.mem_requests member)).1]
    · rw [Function.update_of_ne same]

end

end

section

variable {Req : Type*} [DecidableEq Req]

/-- What holds of a process in every run. -/
structure Matched (process : Process Req) : Prop where
  posted : Holds process.queues.request process.queues.next
    process.queues.posted (waitingPosted process.history)
  unexpected : Holds process.queues.request process.queues.next
    process.queues.unexpected (waitingUnexpected process.history)
  disjoint : (waitingPosted process.history).requests.Disjoint
    (waitingUnexpected process.history).requests
  inUse : ∀ rreq ∈ (waitingPosted process.history).requests ++
    (waitingUnexpected process.history).requests, rreq ∈ process.inUse
  unmatched : ∀ receive ∈ waitingPosted process.history,
    ∀ message ∈ waitingUnexpected process.history, ¬ receive.2.Accepts message.2
  inOrder : InOrder process.history

theorem Waiting.length_without_le
    (waiting : Waiting Req)
    (rreq : Req) :
    (waiting.without rreq).length ≤ waiting.length :=
  List.length_filter_le _ _

/-- No more receives wait than there have been events. -/
theorem length_waitingPosted_le (history : List (Event Req)) :
    (waitingPosted history).length ≤ history.length := by
  induction history with
  | nil => simp [waitingPosted]
  | cons event earlier ih =>
    have removed := fun rreq =>
      Waiting.length_without_le (waitingPosted earlier) rreq
    cases event <;> simp only [waitingPosted, List.length_cons,
      List.length_append, List.length_nil] <;> grind

/-- No more messages wait than there have been events. -/
theorem length_waitingUnexpected_le (history : List (Event Req)) :
    (waitingUnexpected history).length ≤ history.length := by
  induction history with
  | nil => simp [waitingUnexpected]
  | cons event earlier ih =>
    have removed := fun rreq =>
      Waiting.length_without_le (waitingUnexpected earlier) rreq
    cases event <;> simp only [waitingUnexpected, List.length_cons,
      List.length_append, List.length_nil] <;> grind

namespace Matched

variable {process : Process Req}

variable {event : Event Req}

/-- An event that changes neither what waits nor the queues. -/
theorem note
    (matched : Matched process)
    (posted_eq : waitingPosted (event :: process.history) = waitingPosted process.history)
    (unexpected_eq : waitingUnexpected (event :: process.history) =
      waitingUnexpected process.history)
    (justified : event.Justified process.history) :
    Matched { process with history := event :: process.history } where
  posted := by rw [posted_eq]; exact matched.posted
  unexpected := by rw [unexpected_eq]; exact matched.unexpected
  disjoint := by rw [posted_eq, unexpected_eq]; exact matched.disjoint
  inUse := by rw [posted_eq, unexpected_eq]; exact matched.inUse
  unmatched := by rw [posted_eq, unexpected_eq]; exact matched.unmatched
  inOrder := ⟨justified, matched.inOrder⟩

variable {rreq : Req}

theorem mem_requests_of_mem_without
    {waiting : Waiting Req} {other : Req}
    (member : other ∈ (waiting.without rreq).requests) :
    other ∈ waiting.requests :=
  List.map_subset Prod.fst (List.filter_subset_self _) member

section

variable
    (matched : Matched process)

include matched

variable {rreq : Req} {prev : Option Req}

/-- A message leaves the unexpected queue. -/
theorem unlinkUnexpected
    {before after : List Req}
    (foundAt : FoundAt (waitingUnexpected process.history).requests
      before after none (prev, rreq))
    (posted_eq : waitingPosted (event :: process.history) = waitingPosted process.history)
    (unexpected_eq : waitingUnexpected (event :: process.history) =
      (waitingUnexpected process.history).without rreq)
    (justified : event.Justified process.history) :
    Matched { process with
      queues := process.queues.unlinkUnexpected prev rreq
      history := event :: process.history } where
  posted := by
    rw [posted_eq]
    exact matched.posted.unlink_other process.queues.unexpected foundAt matched.disjoint.symm
  unexpected := by
    rw [unexpected_eq]
    exact matched.unexpected.unlink foundAt
  disjoint := by
    rw [posted_eq, unexpected_eq]
    intro other inPosted inUnexpected
    exact matched.disjoint inPosted (mem_requests_of_mem_without inUnexpected)
  inUse := by
    rw [posted_eq, unexpected_eq]
    intro other member
    apply matched.inUse
    rw [List.mem_append] at member ⊢
    exact member.imp_right mem_requests_of_mem_without
  unmatched := by
    rw [posted_eq, unexpected_eq]
    intro receive inPosted message inUnexpected
    exact matched.unmatched receive inPosted message (Waiting.mem_of_mem_without inUnexpected)
  inOrder := ⟨justified, matched.inOrder⟩

/-- A receive leaves the posted queue. -/
theorem unlinkPosted
    {before after : List Req}
    (foundAt : FoundAt (waitingPosted process.history).requests
      before after none (prev, rreq))
    (posted_eq : waitingPosted (event :: process.history) =
      (waitingPosted process.history).without rreq)
    (unexpected_eq : waitingUnexpected (event :: process.history) =
      waitingUnexpected process.history)
    (justified : event.Justified process.history) :
    Matched { process with
      queues := process.queues.unlinkPosted prev rreq
      history := event :: process.history } where
  posted := by
    rw [posted_eq]
    exact matched.posted.unlink foundAt
  unexpected := by
    rw [unexpected_eq]
    exact matched.unexpected.unlink_other process.queues.posted foundAt matched.disjoint
  disjoint := by
    rw [posted_eq, unexpected_eq]
    intro other inPosted inUnexpected
    exact matched.disjoint (mem_requests_of_mem_without inPosted) inUnexpected
  inUse := by
    rw [posted_eq, unexpected_eq]
    intro other member
    apply matched.inUse
    rw [List.mem_append] at member ⊢
    exact member.imp_left mem_requests_of_mem_without
  unmatched := by
    rw [posted_eq, unexpected_eq]
    intro receive inPosted message inUnexpected
    exact matched.unmatched receive (Waiting.mem_of_mem_without inPosted) message inUnexpected
  inOrder := ⟨justified, matched.inOrder⟩

/-- A request that is not in use waits nowhere. -/
theorem fresh (free : rreq ∉ process.inUse) :
    rreq ∉ (waitingPosted process.history).requests ∧
      rreq ∉ (waitingUnexpected process.history).requests := by
  constructor
  · intro member
    exact free (matched.inUse rreq (List.mem_append_left _ member))
  · intro member
    exact free (matched.inUse rreq (List.mem_append_right _ member))

/-- A receive for which no message waits joins the posted queue. -/
theorem enqueuePosted
    (free : rreq ∉ process.inUse)
    {wanted : MessageMatch}
    (unmatched : (waitingUnexpected process.history).firstFor wanted = none) :
    Matched {
      queues := process.queues.enqueuePosted rreq wanted
      inUse := insert rreq process.inUse
      history := .postedReceive rreq wanted :: process.history } where
  posted := matched.posted.append (matched.fresh free).1 _
  unexpected := matched.unexpected.append_other matched.posted.represents
    matched.disjoint (matched.fresh free).2 _
  disjoint := by
    intro other inPosted inUnexpected
    rw [waitingPosted, Waiting.requests_append, List.mem_append, List.mem_singleton] at inPosted
    rcases inPosted with old | rfl
    · exact matched.disjoint old inUnexpected
    · exact (matched.fresh free).2 inUnexpected
  inUse := by
    intro other member
    rw [waitingPosted, Waiting.requests_append, List.append_assoc,
      List.mem_append, List.mem_append, List.mem_singleton] at member
    rw [Finset.mem_insert]
    rcases member with old | new | old
    · exact Or.inr (matched.inUse other (List.mem_append_left _ old))
    · exact Or.inl new
    · exact Or.inr (matched.inUse other (List.mem_append_right _ old))
  unmatched := by
    intro receive inPosted message inUnexpected
    rcases List.mem_append.mp inPosted with old | new
    · exact matched.unmatched receive old message inUnexpected
    · rw [List.mem_singleton.mp new]
      have rejected := List.find?_eq_none.mp unmatched message inUnexpected
      simpa using rejected
  inOrder := ⟨⟨unmatched, matched.fresh free⟩, matched.inOrder⟩

/-- A message for which no receive waits joins the unexpected queue. -/
theorem enqueueUnexpected
    (free : rreq ∉ process.inUse)
    {arrived : MessageMatch}
    (unmatched : (waitingPosted process.history).firstFrom arrived = none) :
    Matched {
      queues := process.queues.enqueueUnexpected rreq arrived
      inUse := insert rreq process.inUse
      history := .unexpectedArrival rreq arrived :: process.history } where
  posted := matched.posted.append_other matched.unexpected.represents
    matched.disjoint.symm (matched.fresh free).1 _
  unexpected := matched.unexpected.append (matched.fresh free).2 _
  disjoint := by
    intro other inPosted inUnexpected
    rw [waitingUnexpected, Waiting.requests_append, List.mem_append,
      List.mem_singleton] at inUnexpected
    rcases inUnexpected with old | rfl
    · exact matched.disjoint inPosted old
    · exact (matched.fresh free).1 inPosted
  inUse := by
    intro other member
    rw [waitingUnexpected, Waiting.requests_append, ← List.append_assoc,
      List.mem_append, List.mem_singleton] at member
    rw [Finset.mem_insert]
    rcases member with old | new
    · exact Or.inr (matched.inUse other old)
    · exact Or.inl new
  unmatched := by
    intro receive inPosted message inUnexpected
    rcases List.mem_append.mp inUnexpected with old | new
    · exact matched.unmatched receive inPosted message old
    · rw [List.mem_singleton.mp new]
      have rejected := List.find?_eq_none.mp unmatched receive inPosted
      simpa using rejected
  inOrder := ⟨⟨unmatched, matched.fresh free⟩, matched.inOrder⟩

/-- A search of the unexpected queue finds the earliest message that
matches. -/
theorem searchUnexpected
    {source : Int32}
    (tag : Int32)
    (sourceFits : Fits16 source)
    (contextFits : Fits16 contextId) :
    (process.queues.searchUnexpected process.history.length
        source tag contextId = some none ∧
      (waitingUnexpected process.history).firstFor (wantedMatch source tag contextId) = none) ∨
    ∃ prev rreq info before after, process.queues.searchUnexpected process.history.length
        source tag contextId = some (some (prev, rreq)) ∧
      FoundAt (waitingUnexpected process.history).requests before after none (prev, rreq) ∧
      (waitingUnexpected process.history).firstFor
        (wantedMatch source tag contextId) = some (rreq, info) := by
  have long := length_waitingUnexpected_le process.history
  unfold Queues.searchUnexpected
  by_cases exact : tag ≠ anyTag ∧ source ≠ anySource
  · rw [if_pos exact]
    exact matched.unexpected.findFirst
      (wantedMatch source tag contextId).Accepts
      (fun rreq => exactTest_iff exact.1 exact.2 sourceFits contextFits
        (process.queues.request rreq).matchInfo) _ long
  · rw [if_neg exact]
    exact matched.unexpected.findFirst
      (wantedMatch source tag contextId).Accepts
      (fun rreq => maskedTest_iff sourceFits (process.queues.request rreq).matchInfo) _ long

theorem step_receive
    {source tag : Int32} {allocated : Option Req}
    (enabled : Enabled process (.receive source tag contextId allocated)) :
    ∃ next, step process (.receive source tag contextId allocated) = some next ∧ Matched next := by
  obtain ⟨sourceFits, contextFits, free⟩ := enabled
  rcases matched.searchUnexpected tag sourceFits contextFits with
    ⟨searched, unmatched⟩ | ⟨prev, rreq, info, before, after, searched, foundAt, first⟩
  · cases allocated with
    | none =>
      refine ⟨_, by simp only [step, Queues.recvqFDUorAEP, searched]; rfl, ?_⟩
      exact matched.note rfl rfl unmatched
    | some rreq =>
      refine ⟨_, by simp only [step, Queues.recvqFDUorAEP, searched]; rfl, ?_⟩
      exact matched.enqueuePosted (free rreq rfl) unmatched
  · refine ⟨_, by simp only [step, Queues.recvqFDUorAEP, searched]; rfl, ?_⟩
    exact matched.unlinkUnexpected foundAt rfl rfl ⟨info, first⟩

theorem step_arrive
    {arrived : MessageMatch} {allocated : Option Req}
    (enabled : Enabled process (.arrive arrived allocated)) :
    ∃ next, step process (.arrive arrived allocated) = some next ∧ Matched next := by
  rcases matched.posted.findFirst (fun info => info.Accepts arrived)
      (fun rreq => postedTest_iff arrived (process.queues.request rreq).matchInfo) _
      (length_waitingPosted_le process.history) with
    ⟨searched, unmatched⟩ | ⟨prev, rreq, info, before, after, searched, foundAt, first⟩
  · cases allocated with
    | none =>
      refine ⟨_, by simp only [step, Queues.recvqFDPorAEU, searched]; rfl, ?_⟩
      exact matched.note rfl rfl unmatched
    | some rreq =>
      refine ⟨_, by simp only [step, Queues.recvqFDPorAEU, searched]; rfl, ?_⟩
      exact matched.enqueueUnexpected (enabled rreq rfl) unmatched
  · refine ⟨_, by simp only [step, Queues.recvqFDPorAEU, searched]; rfl, ?_⟩
    exact matched.unlinkPosted foundAt rfl rfl ⟨info, first⟩

theorem step_probe
    {source tag : Int32}
    (enabled : Enabled process (.probe source tag contextId)) :
    ∃ next, step process (.probe source tag contextId) = some next ∧ Matched next := by
  rcases matched.searchUnexpected tag enabled.1 enabled.2 with
    ⟨searched, unmatched⟩ | ⟨prev, rreq, info, before, after, searched, foundAt, first⟩
  · refine ⟨_, by simp only [step, Queues.recvqFU, searched]; rfl, ?_⟩
    apply matched.note rfl rfl
    rw [Event.Justified, unmatched, Option.isSome_none]
  · refine ⟨_, by simp only [step, Queues.recvqFU, searched]; rfl, ?_⟩
    apply matched.note rfl rfl
    rw [Event.Justified, first, Option.isSome_some]

/-- Cancelling a receive walks to the request itself. -/
theorem step_cancelReceive (rreq : Req) :
    ∃ next, step process (.cancelReceive rreq) = some next ∧ Matched next := by
  have long : (waitingPosted process.history).requests.length ≤ process.history.length := by
    rw [Waiting.requests, List.length_map]
    exact length_waitingPosted_le process.history
  rcases findFirst_of_chain matched.posted.represents.chain
      (fun cur => cur == rreq) _ long none with
    ⟨searched, unmatched⟩ | ⟨⟨prev, cur⟩, before, after, searched, foundAt, same, -⟩
  · refine ⟨_, by simp only [step, Queues.recvqDP, searched]; rfl, ?_⟩
    apply matched.note rfl rfl
    intro member
    simpa using unmatched rreq member
  · have same : cur = rreq := by simpa using same
    subst same
    refine ⟨_, by simp only [step, Queues.recvqDP, searched]; rfl, ?_⟩
    apply matched.unlinkPosted foundAt rfl rfl
    change cur ∈ (waitingPosted process.history).requests
    rw [foundAt.split]
    simp

/-- Cancelling a send walks to the last message with that sender's request and
that envelope. -/
theorem step_cancelSend
    (sreqId : Int32)
    (sent : MessageMatch) :
    ∃ next, step process (.cancelSend sreqId sent) = some next ∧ Matched next := by
  have long : (waitingUnexpected process.history).requests.length ≤ process.history.length := by
    rw [Waiting.requests, List.length_map]
    exact length_waitingUnexpected_le process.history
  rcases findLast_of_chain matched.unexpected.represents.chain
      (fun rreq => (process.queues.request rreq).senderReqId == sreqId &&
        (process.queues.request rreq).matchInfo == sent)
      _ long none none with
    ⟨searched, -⟩ | ⟨⟨prev, rreq⟩, before, after, searched, foundAt, accepted, -⟩
  · refine ⟨_, by simp only [step, Queues.recvqFDU, searched]; rfl, ?_⟩
    exact matched.note rfl rfl trivial
  · refine ⟨_, by simp only [step, Queues.recvqFDU, searched]; rfl, ?_⟩
    apply matched.unlinkUnexpected foundAt rfl rfl
    obtain ⟨front, info, rest, split, -⟩ := Waiting.split_of_requests foundAt.split
    have member : (rreq, info) ∈ waitingUnexpected process.history := by
      simp [split]
    have envelope : info = sent := by
      calc
        info = (process.queues.request rreq).matchInfo :=
          (matched.unexpected.envelope (rreq, info) member).symm
        _ = sent := by simpa using (Bool.and_eq_true_iff.mp accepted).2
    rwa [envelope] at member

/-- Another part of the device writes to a request. -/
theorem step_write
    {request : Request} {link : Option Req}
    (enabled : Enabled process (.write rreq request link)) :
    ∃ next, step process (.write rreq request link) = some next ∧ Matched next := by
  refine ⟨_, rfl, ?_⟩
  exact { matched with
    posted := matched.posted.write fun member =>
      enabled (List.mem_append_left _ member)
    unexpected := matched.unexpected.write fun member =>
      enabled (List.mem_append_right _ member) }

/-- The last reference to a request that waits nowhere is dropped. -/
theorem step_release (enabled : Enabled process (.release rreq)) :
    ∃ next, step process (.release rreq) = some next ∧ Matched next := by
  refine ⟨_, rfl, ?_⟩
  exact { matched with
    inUse := by
      intro other member
      have different : other ≠ rreq := by
        rintro rfl
        exact enabled member
      exact Finset.mem_erase.mpr ⟨different, matched.inUse other member⟩ }

/-- Every enabled operation succeeds and keeps the invariant. -/
theorem step
    {action : Action Req}
    (enabled : Enabled process action) :
    ∃ next, Recvq.step process action = some next ∧ Matched next := by
  cases action with
  | receive => exact matched.step_receive enabled
  | arrive => exact matched.step_arrive enabled
  | probe => exact matched.step_probe enabled
  | cancelReceive rreq => exact matched.step_cancelReceive rreq
  | cancelSend sreqId sent => exact matched.step_cancelSend sreqId sent
  | write => exact matched.step_write enabled
  | release => exact matched.step_release enabled

end

end Matched

theorem matched_inductive :
    recvqSystem.Inductive (Matched : Process Req → Prop) where
  initial := by
    rintro process ⟨postedEmpty, unexpectedEmpty, historyEmpty⟩
    refine ⟨⟨⟨?_, ?_, ?_⟩, ?_⟩, ⟨⟨?_, ?_, ?_⟩, ?_⟩, ?_, ?_, ?_, ?_⟩ <;>
      simp [postedEmpty, unexpectedEmpty, historyEmpty, waitingPosted,
        waitingUnexpected, Waiting.requests, Chain, InOrder]
  step := by
    intro process action next matched enabled stepped
    obtain ⟨successor, succeeded, kept⟩ := matched.step enabled
    have same : next = successor := Option.some.inj (stepped.symm.trans succeeded)
    rwa [same]

end

/-- A process whose queues are empty and whose request objects are all free. -/
def idleProcess : Process Nat where
  queues := {
    request := fun _ => {
      matchInfo := ⟨0, 0, 0⟩
      senderReqId := 0
      status := ⟨0, 0, 0, false, 0⟩
      refCount := 0
      cc := 0
      state := 0
      cancelPending := false }
    next := fun _ => none
    posted := ⟨none, none⟩
    unexpected := ⟨none, none⟩ }
  inUse := ∅
  history := []

end Mpich.Ch3.Recvq
