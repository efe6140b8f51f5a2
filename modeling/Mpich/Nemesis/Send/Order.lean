import Mpich.Nemesis.Send.Calls

/-!
# Turns of the progress engine

A turn goes on with the active request, or begins the message of the first request
in the queue. It keeps the invariant of the send queue and fails no assertion.
-/

namespace Mpich.Nemesis.Send

open List Option

variable {Vc Byte : Type*}

namespace Request

variable {sizes : Sizes}

variable {sreq : Request Vc Byte}

variable (inside : sreq.iovOffset + sreq.iovCount ≤ sreq.iov.length)

include inside in
theorem length_entries :
    sreq.entries.length = sreq.iovCount := by
  unfold entries
  rw [length_take, length_drop]
  omega

variable {remaining : List (Iov Byte)}

include inside in
/-- What is left of the IOV is what has been put back. -/
theorem leave_entries
    (short : remaining.length ≤ sreq.iovCount) :
    (sreq.leave remaining).entries = remaining := by
  have front : (sreq.iov.take
      (sreq.iovOffset + (sreq.iovCount - remaining.length))).length =
      sreq.iovOffset + (sreq.iovCount - remaining.length) := by
    rw [length_take]
    omega
  unfold entries leave
  dsimp only
  rw [append_assoc, drop_left' front, take_left]

include inside in
theorem leave_inside
    (short : remaining.length ≤ sreq.iovCount) :
    (sreq.leave remaining).iovOffset + (sreq.leave remaining).iovCount ≤
      (sreq.leave remaining).iov.length := by
  unfold leave
  simp only [length_append, length_take, length_drop]
  omega

theorem leave_rest
    (contig : sreq.noncontig = false)
    (inside : sreq.iovOffset + sreq.iovCount ≤ sreq.iov.length)
    (short : remaining.length ≤ sreq.iovCount)
    (begun : Bool) :
    (sreq.leave remaining).rest sizes begun =
      bytes ⟨sreq.pendingPkt, sreq.pendingPkt⟩ remaining ++ sreq.onDataAvail.bytes := by
  unfold rest
  rw [leave_entries inside short]
  exact if_neg (by rw [show (sreq.leave remaining).noncontig = false from contig]; nofun)

/-- The assertion of the progress engine. -/
theorem Valid.ready
    {begun : Bool}
    (valid : sreq.Valid sizes begun)
    (contig : sreq.noncontig = false) :
    sreq.ready = true := by
  obtain ⟨first, rest, isEntries, positive⟩ := valid.left contig
  have count := length_entries (valid.inside contig)
  have head : sreq.entries.head? = some first := by rw [isEntries]; rfl
  rw [isEntries, length_cons] at count
  unfold entries at head
  rw [head?_take, if_neg (by omega), head?_drop] at head
  unfold Request.ready
  rw [head, ← count]
  simp [positive]

end Request

variable [DecidableEq Vc]

/-- How many times a request is loaded again. -/
def OnDataAvail.loads : OnDataAvail Byte → Nat
  | null => 0
  | final => 0
  | reload _ next => next.loads + 1

/-- Free cells that take all that a request has loaded. -/
structure Request.Fits
    (sreq : Request Vc Byte)
    (free : Free) : Prop where
  fbox : free.fbox = false
  advances : ∀ packed ∈ free.cells, 0 < packed
  enough : sreq.segmentSize + size sreq.entries < free.cells.length

namespace State

/-- What a turn of the progress engine comes to: the first request in the queue is
taken off, or it stays. When it stays although the send need not be tried again, it
has been loaded again. -/
structure Outcome
    (sizes : Sizes)
    (state : State Vc Byte)
    (head loads : Nat)
    (again : Bool)
    (next : State Vc Byte) : Prop where
  calls : next.calls = state.calls
  holds : next.Invariant sizes (head + 1) ∨ next.Invariant sizes head ∧ (again = false →
      ∃ later, next.requests head = some later ∧ later.onDataAvail.loads < loads)

namespace Invariant

variable {sizes : Sizes} {state : State Vc Byte} {head : Nat}

section

variable
    (invariant : state.Invariant sizes head)
    (inside : head < state.calls.length)
    {sreq : Request Vc Byte}
    (isRequest : state.requests head = some sreq)

include invariant inside isRequest

/-- The IOV or the segment of the first request in the queue is sent. -/
theorem finish
    {packets : List (List (Option Byte))}
    (next : Request Vc Byte)
    (sameVc : next.vc = sreq.vc)
    (null : next.noncontig = true → next.onDataAvail = .null)
    (offset : next.noncontig = false → next.iovOffset = 0)
    (bytes : packets.flatten ++ next.onDataAvail.bytes =
      sreq.rest sizes (state.activeSend == some head)) :
    state.Outcome sizes head next.onDataAvail.loads false
      (({ state with activeSend := some head }.emit sreq.vc packets).finish head next) := by
  unfold State.finish
  rcases next.dataAvail_cases with ⟨completes, nothing⟩ | ⟨load, after, isAfter, reloads⟩
  · simp only [completes]
    rw [nothing, append_nil] at bytes
    exact ⟨rfl, .inl (invariant.finished inside isRequest bytes next)⟩
  · simp only [reloads]
    have contig : next.noncontig = false := by
      cases isContig : next.noncontig with
      | false => rfl
      | true =>
        have isNull := null isContig
        rw [isAfter] at isNull
        cases isNull
    refine ⟨rfl, .inr ⟨invariant.proceeded inside isRequest { next with
        iov := load.pieces.map Piece.iov
        iovCount := load.pieces.length
        onDataAvail := after } sameVc ?_ ?_, fun _ => ?_⟩⟩
    · exact Request.loaded_valid contig (offset contig) (length_map _).symm
        (kept_pieces load.pieces) (Request.ready_load load)
    · rw [← bytes, isAfter, Request.loaded_rest, bytes_pieces]
      · rfl
      · exact contig
      · exact offset contig
      · exact (length_map _).symm
    · refine ⟨_, Function.update_self _ _ _, ?_⟩
      rw [isAfter]
      exact Nat.lt_succ_self _

variable (valid : sreq.Valid sizes (state.activeSend == some head))

include valid in
/-- Going on along the IOV of the first request in the queue. -/
theorem progressIov
    (contig : sreq.noncontig = false)
    {stack : Nat → Byte} {sent : Sent Byte}
    (along : sent.Along ⟨stack, sreq.pendingPkt⟩ sreq.entries) :
    state.Outcome sizes head sreq.onDataAvail.loads sent.again
      ({ state with activeSend := some head }.progressIov head sreq sent) := by
  have kept := valid.kept contig
  have total := along.bytes
  rw [bytes_of_kept _ _ kept, bytes_of_kept _ _ (along.inside (· ≠ .caller) kept)] at total
  have isRest : sreq.rest sizes (state.activeSend == some head) =
      bytes ⟨sreq.pendingPkt, sreq.pendingPkt⟩ sreq.entries ++ sreq.onDataAvail.bytes := by
    exact if_neg (by rw [contig]; nofun)
  have short : sent.iov.length ≤ sreq.iovCount := by
    rw [← Request.length_entries (valid.inside contig)]
    exact along.length_le
  unfold State.progressIov
  rcases along.stopped with ⟨again, left⟩ | ⟨done, nothing⟩
  · rw [if_pos again]
    refine ⟨rfl, .inr ⟨invariant.proceeded inside isRequest (sreq.leave sent.iov)
      rfl ?_ ?_, fun isDone => absurd (again.symm.trans isDone) nofun⟩⟩
    · have isEntries := Request.leave_entries (valid.inside contig) short
      refine ⟨fun _ => Request.leave_inside (valid.inside contig) short, fun _ => ?_,
        fun _ => ?_, nofun, fun noncontig => absurd (contig.symm.trans noncontig) nofun,
        nofun, fun noncontig => absurd (contig.symm.trans noncontig) nofun⟩
      · rw [isEntries]
        exact along.inside (· ≠ .caller) kept
      · rwa [isEntries]
    · rw [Request.leave_rest contig (valid.inside contig) short, isRest, ← append_assoc, total]
  · rw [done, if_neg nofun]
    refine invariant.finish inside isRequest { sreq with iovOffset := 0 } rfl
      (fun noncontig => absurd (contig.symm.trans noncontig) nofun) (fun _ => rfl) ?_
    rw [nothing] at total
    rw [isRest, ← total]
    simp [bytes]

include valid in
/-- Going on along the segment of the first request in the queue. -/
theorem progressSegment
    (noncontig : sreq.noncontig = true)
    {sent : SentSegment Byte}
    (stopped : sent.again = true ∧ sent.first < sreq.segmentSize ∨
      sent.again = false ∧ sent.first = sreq.segmentSize)
    (bytes : sent.packets.flatten ++ read sreq.segment sent.first (sreq.segmentSize - sent.first) =
      sreq.rest sizes (state.activeSend == some head)) :
    state.Outcome sizes head sreq.onDataAvail.loads sent.again
      ({ state with activeSend := some head }.progressSegment head sreq sent) := by
  have isNull := valid.null noncontig
  unfold State.progressSegment
  rcases stopped with ⟨again, left⟩ | ⟨done, whole⟩
  · simp only [if_pos again]
    refine ⟨rfl, .inr ⟨invariant.proceeded inside isRequest
      { sreq with segmentFirst := sent.first } rfl ?_ ?_,
      fun isDone => absurd (again.symm.trans isDone) nofun⟩⟩
    · have notContig : ¬ sreq.noncontig = false := by
        rw [noncontig]
        nofun
      exact ⟨fun contig => absurd contig notContig, fun contig => absurd contig notContig,
        fun contig => absurd contig notContig, nofun, fun _ => isNull, nofun, fun _ _ => left⟩
    · rw [← bytes]
      refine congrArg (_ ++ ·) ?_
      unfold Request.rest
      simp [noncontig]
  · rw [done, if_neg nofun]
    refine invariant.finish inside isRequest
      { sreq with segmentFirst := sent.first } rfl (fun _ => isNull)
      (fun contig => absurd (noncontig.symm.trans contig) nofun) ?_
    rw [← bytes, whole, Nat.sub_self]
    exact congrArg (_ ++ ·) (by rw [isNull]; rfl)

end

section

variable
    (invariant : state.Invariant sizes head)

include invariant

variable {sreq : Request Vc Byte}

/-- The active request is gone on with. -/
theorem continueActive
    (free : Free)
    (stack : Nat → Byte)
    (active : state.activeSend = some head)
    (inside : head < state.calls.length)
    (isRequest : state.requests head = some sreq)
    (valid : sreq.Valid sizes (state.activeSend == some head)) :
    ∃ next again, state.continueActive sizes free stack head sreq = some next ∧
      state.Outcome sizes head sreq.onDataAvail.loads again next ∧
      (sreq.Fits free → again = false) := by
  have same : { state with activeSend := some head } = state := by
    rw [← active]
  have begun : (state.activeSend == some head) = true := by
    rw [active, beq_self_eq_true]
  unfold State.continueActive
  cases noncontig : sreq.noncontig with
  | true =>
    have left := valid.segmentLeft noncontig begun
    have along := sizes.sendSeg_along sreq.segment sreq.segmentSize free.cells _ left
    have bounded : (sizes.sendSeg sreq.segment sreq.segmentSize free.cells
        sreq.segmentFirst).first ≤ sreq.segmentSize := by
      rcases along.stopped with ⟨_, inside⟩ | ⟨_, whole⟩
      · exact le_of_lt inside
      · exact le_of_eq whole
    refine ⟨_, _, rfl, ?_, fun fits => sizes.sendSeg_all sreq.segment _ _ _ left
      fits.advances (by have enough := fits.enough; omega)⟩
    have moved := invariant.progressSegment inside isRequest valid noncontig along.stopped
      (by
        rw [along.bytes, read_append_of_le sreq.segment along.onward bounded, begun]
        simp [Request.rest, noncontig])
    rwa [same] at moved
  | false =>
    have left := valid.left noncontig
    rw [if_neg Bool.false_ne_true, if_pos (valid.ready noncontig)]
    refine ⟨_, _, rfl, ?_, fun fits => sizes.sendv_all
      ⟨stack, sreq.pendingPkt⟩ free.cells _ left
      (by have enough := fits.enough; omega)⟩
    have moved := invariant.progressIov inside isRequest valid noncontig
      (sizes.sendv_along ⟨stack, sreq.pendingPkt⟩ free.cells _ left)
    rwa [same] at moved

/-- The message of the first request in the queue is begun. -/
theorem startHead
    (free : Free)
    (stack : Nat → Byte)
    (none : state.activeSend = none)
    (inside : head < state.calls.length)
    (isRequest : state.requests head = some sreq)
    (valid : sreq.Valid sizes (state.activeSend == some head)) :
    ∃ next again, state.startHead sizes free stack head sreq = some next ∧
      state.Outcome sizes head sreq.onDataAvail.loads again next ∧
      (sreq.Fits free → again = false) := by
  have begun : (state.activeSend == some head) = false := by
    rw [none]
    rfl
  have whole := valid
  rw [begun] at whole
  unfold State.startHead
  cases noncontig : sreq.noncontig with
  | true =>
    obtain ⟨short, first⟩ := valid.segmentHeader noncontig begun
    rw [if_pos rfl, if_pos ⟨short, first⟩, first]
    refine ⟨_, (sizes.sendSegMessage free sreq.pendingPkt sreq.headerSz
      sreq.segment 0 sreq.segmentSize).again, rfl, ?_, fun fits =>
        sizes.sendSegMessage_all fits.fbox _ _ _ _ fits.advances
          (by have enough := fits.enough; omega)⟩
    rcases sizes.sendSegMessage_along free sreq.pendingPkt sreq.headerSz
        sreq.segment sreq.segmentSize with
      ⟨isNone, again⟩ | ⟨later, along, again, packets, left, more, _⟩
    · rw [isNone, again, if_pos rfl]
      refine ⟨rfl, .inr ⟨invariant.kept none isRequest inside
        { sreq with segmentFirst := 0 } rfl ?_ ?_, fun done => Bool.noConfusion done⟩⟩
      · rw [← first]
        exact whole
      · rw [← first]
    · rw [again, if_neg Bool.false_ne_true]
      have bounded : later.first ≤ sreq.segmentSize := by
        rcases along.stopped with ⟨_, inside⟩ | ⟨_, whole⟩
        · exact le_of_lt inside
        · exact le_of_eq whole
      apply invariant.progressSegment inside isRequest valid noncontig
      · rw [left, more]
        exact along.stopped
      · rw [packets, left, along.bytes, append_assoc,
          read_append_of_le sreq.segment along.onward bounded, begun]
        simp [Request.rest, noncontig, first]
  | false =>
    obtain ⟨data, isEntries⟩ := valid.header noncontig begun
    have checked : (sreq.ready && (sreq.entries.head?).any (·.len == sizes.pkt)) = true := by
      rw [valid.ready noncontig, isEntries]
      simp
    rw [if_neg Bool.false_ne_true, if_pos checked]
    have all : sreq.Fits free → (sizes.sendvMessage ⟨stack, sreq.pendingPkt⟩ free
        (⟨.pendingPkt, 0, sizes.pkt⟩ :: data)).again = false := by
      intro fits
      have enough := fits.enough
      rw [isEntries] at enough
      refine sizes.sendvMessage_all _ fits.fbox _ data ?_
      unfold size at enough ⊢
      rw [map_cons, sum_cons] at enough
      omega
    refine ⟨_, _, rfl, ?_, all⟩
    rw [isEntries]
    rcases sizes.sendvMessage_along ⟨stack, sreq.pendingPkt⟩ free
        ⟨.pendingPkt, 0, sizes.pkt⟩ data with
      ⟨isNone, again⟩ | ⟨later, along, again, packets, left, more⟩
    · rw [isNone, again, if_pos rfl]
      have short : sreq.entries.length ≤ sreq.iovCount :=
        le_of_eq (Request.length_entries (valid.inside noncontig))
      have isLeft := Request.leave_entries (valid.inside noncontig) short
      rw [isEntries] at short isLeft
      refine ⟨rfl, .inr ⟨invariant.kept none isRequest inside (sreq.leave _) rfl ?_ ?_,
        fun done => Bool.noConfusion done⟩⟩
      · have notSegment : ¬ sreq.noncontig = true := by
          rw [noncontig]
          exact Bool.false_ne_true
        refine ⟨fun _ => Request.leave_inside (valid.inside noncontig) short, fun _ => ?_,
          fun _ => ?_, fun _ _ => ⟨data, isLeft⟩, fun segment => absurd segment notSegment,
          fun segment => absurd segment notSegment,
          fun _ started => absurd started Bool.false_ne_true⟩
        · rw [isLeft, ← isEntries]
          exact valid.kept noncontig
        · rw [isLeft, ← isEntries]
          exact valid.left noncontig
      · rw [Request.leave_rest noncontig (valid.inside noncontig) short]
        simp [Request.rest, noncontig, isEntries]
    · rw [again, if_neg Bool.false_ne_true]
      refine @progressIov _ _ _ sizes state head invariant inside sreq isRequest valid
        noncontig stack _ ?_
      rw [isEntries]
      refine ⟨?_, ?_, ?_, ?_⟩
      · rw [packets, left, append_assoc, along.bytes]
        rfl
      · rw [left, more]
        exact along.stopped
      · rw [left]
        exact Nat.le_succ_of_le along.length_le
      · intro allowed areAllowed
        rw [left]
        exact along.inside allowed (forall_mem_cons.mp areAllowed).2

/-- A turn of the progress engine that finds a request. -/
theorem turn (inside : head < state.calls.length) :
    ∃ sreq, state.requests head = some sreq ∧ ∀ free stack,
      ∃ next again, state.progress sizes free stack = some next ∧
        state.Outcome sizes head sreq.onDataAvail.loads again next ∧
        (sreq.Fits free → again = false) := by
  obtain ⟨sreq, isRequest, valid, _⟩ := invariant.stream_head inside
  refine ⟨sreq, isRequest, ?_⟩
  intro free stack
  unfold State.progress
  cases isActive : state.activeSend with
  | some number =>
    rcases invariant.active with none | ⟨active, _⟩
    · rw [isActive] at none
      cases none
    · rw [isActive] at active
      cases active
      simp only [isRequest, bind_eq_bind, bind_some]
      exact invariant.continueActive free stack isActive inside isRequest valid
  | none =>
    have queue := invariant.queue
    obtain ⟨count, isCount⟩ : ∃ count, state.calls.length - head = count + 1 :=
      ⟨state.calls.length - head - 1, by omega⟩
    rw [isCount, range'_succ] at queue
    simp only [queue, isRequest, bind_eq_bind, bind_some]
    exact invariant.startHead free stack isActive inside isRequest valid

/-- A turn of the progress engine. -/
theorem progress
    (free : Free)
    (stack : Nat → Byte) :
    ∃ next, state.progress sizes free stack = some next ∧ ∃ later, next.Invariant sizes later := by
  cases isQueue : state.sendQ with
  | nil =>
    refine ⟨state, ?_, head, invariant⟩
    unfold State.progress
    rw [invariant.inactive isQueue]
    simp only [isQueue]
  | cons number later =>
    obtain ⟨_, inside⟩ := invariant.head_lt isQueue
    obtain ⟨sreq, _, turns⟩ := invariant.turn inside
    obtain ⟨next, _, stepped, outcome, _⟩ := turns free stack
    refine ⟨next, stepped, ?_⟩
    rcases outcome.holds with holds | ⟨holds, _⟩
    · exact ⟨_, holds⟩
    · exact ⟨_, holds⟩

end

end Mpich.Nemesis.Send.State.Invariant

/-!
## The order of the bytes

In a run whose steps are careful, what has been sent to each destination is always
a beginning of the messages of the calls, in the order of the calls, and turns of the
progress engine send the rest. A step is not careful when the header of an `iSend`
goes at once and `OnDataAvail` then loads the request again: the request is not
enqueued, and what it has loaded is not sent.
-/

namespace Mpich.Nemesis.Send

open List

variable {Vc Byte : Type*} [DecidableEq Vc]

/-- An `iSend` whose header goes at once has a request that `OnDataAvail` does not
load again, and a segment whose header goes into a cell at once is begun. -/
def Careful
    (sizes : Sizes)
    (state : State Vc Byte) : Action Vc Byte → Prop
  | .call (.iSend _ sreq hdr) free =>
    state.sendQ = [] → (sizes.sendHeader free hdr).isSome → sreq.dataAvail = none
  | .call (.sendNoncontig _ sreq _ _) free =>
    state.sendQ = [] → sizes.Packs free sreq.segmentSize
  | _ => True

namespace State

/-- A turn of the progress engine, whatever there is to send into. -/
def Turn
    (sizes : Sizes)
    (state next : State Vc Byte) : Prop :=
  ∃ free stack, state.progress sizes free stack = some next

/-- What the send path promises in a state. -/
structure Sound
    (sizes : Sizes)
    (state : State Vc Byte) : Prop where
  /-- What is sent to a destination is a beginning of the messages to it. -/
  inOrder : ∀ vc, state.stream vc <+: messagesTo sizes vc state.calls
  /-- All of them are sent when no request is in the queue. -/
  whole : state.sendQ = [] → ∀ vc, state.stream vc = messagesTo sizes vc state.calls
  active : state.activeSend = none ∨ state.activeSend = state.sendQ.head?
  once : ∀ number, state.completed.count number ≤ 1
  /-- A request is completed after the last byte of its message. -/
  afterLast : ∀ number ∈ state.completed, ∃ call, state.calls[number]? = some call ∧
    messagesTo sizes call.vc (state.calls.take (number + 1)) <+: state.stream call.vc
  /-- A request that is not completed is in the queue. -/
  queued : ∀ number, (state.requests number).isSome →
    number ∈ state.completed ∨ number ∈ state.sendQ
  /-- The progress engine can empty the queue. -/
  drains : ∃ next, Relation.ReflTransGen (Turn sizes) state next ∧
    next.calls = state.calls ∧ next.sendQ = []

namespace Invariant

variable {sizes : Sizes} {state : State Vc Byte} {head : Nat}

variable (invariant : state.Invariant sizes head)

include invariant in
/-- Turns of the progress engine finish the first request in the queue. -/
theorem takes_head
    (inside : head < state.calls.length) :
    ∃ next, Relation.ReflTransGen (Turn sizes) state next ∧
      next.calls = state.calls ∧ next.Invariant sizes (head + 1) := by
  obtain ⟨sreq, isRequest, -⟩ := invariant.turn inside
  obtain ⟨loads, isLoads⟩ : ∃ loads, sreq.onDataAvail.loads = loads := ⟨_, rfl⟩
  -- each time that the request stays, it can be loaded again less often
  induction loads using Nat.strong_induction_on generalizing state sreq with
  | _ loads ih =>
    obtain ⟨same, isSame, turns⟩ := invariant.turn inside
    rw [isRequest] at isSame
    cases isSame
    obtain ⟨next, again, stepped, outcome, done⟩ := turns
      ⟨false, replicate (sreq.segmentSize + size sreq.entries + 1) 1⟩ sreq.pendingPkt
    have fits := done ⟨rfl, fun _ member => by
        rw [eq_of_mem_replicate member]
        exact Nat.one_pos,
      by rw [length_replicate]; exact Nat.lt_succ_self _⟩
    have turned : Turn sizes state next := ⟨_, _, stepped⟩
    rcases outcome.holds with holds | ⟨holds, reloads⟩
    · exact ⟨next, .single turned, outcome.calls, holds⟩
    · obtain ⟨later, isLater, fewer⟩ := reloads fits
      rw [isLoads] at fewer
      obtain ⟨last, run, calls, finished⟩ := ih _ fewer holds
        (by rwa [outcome.calls]) later isLater rfl
      exact ⟨last, .head turned run, calls.trans outcome.calls, finished⟩

include invariant in
/-- Turns of the progress engine empty the queue. -/
theorem drains :
    ∃ next, Relation.ReflTransGen (Turn sizes) state next ∧
      next.calls = state.calls ∧ next.sendQ = [] := by
  obtain ⟨left, isLeft⟩ : ∃ left, state.calls.length - head = left := ⟨_, rfl⟩
  induction left generalizing state head with
  | zero =>
    refine ⟨state, .refl, rfl, ?_⟩
    rw [invariant.queue, isLeft, range'_zero]
  | succ left ih =>
    obtain ⟨next, run, calls, holds⟩ := invariant.takes_head (by omega)
    obtain ⟨last, more, lastCalls, empty⟩ := ih holds (by rw [calls]; omega)
    exact ⟨last, run.trans more, lastCalls.trans calls, empty⟩

theorem isPrefix_messagesTo
    (sizes : Sizes)
    (vc : Vc)
    {front back : List (Call Vc Byte)}
    (isPrefix : front <+: back) :
    messagesTo sizes vc front <+: messagesTo sizes vc back := by
  obtain ⟨rest, rfl⟩ := isPrefix
  rw [messagesTo_append]
  exact prefix_append _ _

include invariant in
/-- A request that is completed is before the first in the queue. -/
theorem of_completed
    {number : Nat}
    (member : number ∈ state.completed) :
    number < head := by
  have counted := count_pos_iff.mpr member
  rw [invariant.completed] at counted
  split at counted
  · assumption
  · omega

include invariant in
theorem sound :
    state.Sound sizes where
  inOrder := by
    intro vc
    rcases invariant.active with none | ⟨active, inside⟩
    · rw [invariant.sent none]
      exact isPrefix_messagesTo sizes vc ( take_prefix _ _)
    · obtain ⟨sreq, isRequest, _, _⟩ := invariant.stream_head inside
      have part := isPrefix_messagesTo sizes vc ( take_prefix (head + 1) state.calls)
      rw [← invariant.sending sreq active isRequest vc] at part
      exact (prefix_append _ _).trans part
  whole := by
    intro empty vc
    rw [invariant.sent (invariant.inactive empty), invariant.head_eq empty, take_length]
  active := by
    apply invariant.active.imp_right
    rintro ⟨active, inside⟩
    obtain ⟨count, isCount⟩ : ∃ count, state.calls.length - head = count + 1 :=
      ⟨state.calls.length - head - 1, by omega⟩
    rw [active, invariant.queue, isCount, range'_succ, head?_cons]
  once := by
    intro number
    rw [invariant.completed]
    split
    · cases state.requests number with
      | none => exact Nat.zero_le _
      | some sreq => exact le_refl _
    · exact Nat.zero_le _
  afterLast := by
    intro number member
    have earlier := invariant.of_completed member
    have bounded := invariant.head_le
    refine ⟨_, getElem?_eq_getElem (by omega), ?_⟩
    exact (isPrefix_messagesTo sizes _ (take_prefix_take_left (by omega))).trans
      (invariant.earlier _)
  queued := by
    intro number made
    by_cases earlier : number < head
    · apply Or.inl
      apply count_pos_iff.mp
      rw [invariant.completed, if_pos earlier]
      obtain ⟨sreq, isRequest⟩ := Option.isSome_iff_exists.mp made
      rw [isRequest]
      exact Nat.one_pos
    · apply Or.inr
      have known : number < state.calls.length := by
        by_contra outside
        rw [invariant.unused number (by omega)] at made
        cases made
      rw [invariant.queue, mem_range'_1]
      omega
  drains := invariant.drains

end State.Invariant

/-- A careful step fails no assertion, and keeps the invariant. -/
theorem step_invariant
    {sizes : Sizes} {state : State Vc Byte} {head : Nat}
    (invariant : state.Invariant sizes head)
    (action : Action Vc Byte)
    (enabled : (sending sizes).enabled state action)
    (careful : Careful sizes state action) :
    ∃ next, (sending sizes).step state action = some next ∧
      ∃ later, next.Invariant sizes later := by
  cases action with
  | progress free stack => exact invariant.progress free stack
  | call call free =>
    cases call with
    | iStartMsg vc hdr created => exact invariant.call_iStartMsg free vc hdr created
    | iStartMsgv vc hdr data created =>
      exact invariant.call_iStartMsgv free vc hdr data created
    | iSend vc sreq hdr => exact invariant.call_iSend free vc sreq hdr careful
    | iSendv vc sreq hdr data => exact invariant.call_iSendv free vc sreq hdr data
    | sendNoncontig vc sreq header hdrSz =>
      exact invariant.call_sendNoncontig free vc sreq header hdrSz enabled.1 enabled.2 careful

/-- **The send path.** In every run whose steps are careful, the bytes sent to each
destination are the messages of the calls in order, and no assertion fails. -/
theorem sends_in_order
    (sizes : Sizes)
    (state : State Vc Byte)
    (reachable : ((sending sizes).restrict (Careful sizes)).Reachable state) :
    state.Sound sizes ∧ ((sending sizes).restrict (Careful sizes)).Responsive state := by
  have kept : ((sending sizes).restrict (Careful sizes)).Inductive
      fun state : State Vc Byte => ∃ head, state.Invariant sizes head := by
    refine ⟨?_, ?_⟩
    · rintro state rfl
      exact ⟨0, State.start_invariant sizes⟩
    · rintro state action next ⟨head, invariant⟩ ⟨enabled, careful⟩ stepped
      obtain ⟨after, isAfter, holds⟩ := step_invariant invariant action enabled careful
      cases Option.some.inj (isAfter.symm.trans stepped)
      exact holds
  obtain ⟨head, invariant⟩ := kept.reachable reachable
  refine ⟨invariant.sound, ?_⟩
  rintro action ⟨enabled, careful⟩
  obtain ⟨next, stepped, _⟩ := step_invariant invariant action enabled careful
  exact Option.isSome_iff_exists.mpr ⟨next, stepped⟩

/-- The sizes with eight-byte pointers and 64K cells. -/
def lp64 : Sizes where
  pkt := 40
  generic := 40
  data := 65512
  pkt_pos := Nat.succ_pos 39
  pkt_le_generic := le_refl _
  pkt_lt_data := by decide

/-- A request that `OnDataAvail` loads once, with a single byte. -/
def sampleRequest : Request Unit Nat where
  vc := ()
  noncontig := false
  pendingPkt := fun _ => 0
  headerSz := 0
  iov := []
  iovOffset := 0
  iovCount := 0
  onDataAvail := .reload ⟨⟨fun _ => 7, 1⟩, [], Nat.one_pos⟩ .null
  segment := fun _ => 0
  segmentFirst := 0
  segmentSize := 0

/-- No cell is free at the call, so the request is enqueued. -/
theorem sends_in_order_sample :
    ∃ state : State Unit Nat,
      state.calls = [.iSend () sampleRequest fun index => index] ∧ state.Sound lp64 ∧
        ((sending lp64).restrict (Careful lp64)).Responsive state := by
  have start : ((sending lp64).restrict (Careful lp64)).Reachable
      (State.start : State Unit Nat) := .initial rfl
  have called := start.step
    (Action.call (.iSend () sampleRequest fun index => index) ⟨false, []⟩)
    ⟨trivial, fun _ => nofun⟩ rfl
  exact ⟨_, rfl, sends_in_order lp64 _ called⟩

/-- The header goes into the fastbox. Then the request is loaded again, and dropped. -/
theorem not_sound_iSend :
    ∃ state : State Unit Nat, (sending lp64).Reachable state ∧
        state.calls = [.iSend () sampleRequest fun index => index] ∧
        state.sendQ = [] ∧ state.completed = [] ∧ ¬ state.Sound lp64 := by
  have start : (sending lp64).Reachable (State.start : State Unit Nat) := .initial rfl
  have called := start.step
    (Action.call (.iSend () sampleRequest fun index => index) ⟨true, []⟩) trivial rfl
  refine ⟨_, called, rfl, rfl, rfl, ?_⟩
  intro sound
  have short := congrArg length (sound.whole rfl ())
  exact absurd short (by decide)

end Mpich.Nemesis.Send
