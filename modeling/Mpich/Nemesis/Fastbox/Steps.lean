import Mpich.Nemesis.Fastbox.Refinement

/-!
# The steps of the node

Every step that a process can make succeeds: no queue is dequeued that is empty. And
every step keeps the cells in their places and each link in its invariant.
-/

namespace Mpich.Nemesis.Fastbox

open List Function

variable {Proc Cell Content : Type*} [DecidableEq Proc]

/-- The places from which the queue of free cells is dequeued. -/
def Sending.needsFree : Sending Proc Cell Content → Bool
  | dequeueCell _ _ _ => true
  | prefetch => true
  | _ => false

namespace State

/-- A queue of free cells that is about to be dequeued is not empty. -/
def SendReady
    (state : State Proc Cell Content)
    (process : Proc) : Prop :=
  (state.sending process).needsFree = true → state.freeQ process ≠ []

/-- A receive queue whose head is about to be read or dequeued is not empty, and the
head that is about to be dequeued is next. -/
structure RecvReady
    (state : State Proc Cell Content)
    (process : Proc) : Prop where
  nonempty : ∀ blocking, state.receiving process = .testSeqno blocking → state.recvQ process ≠ []
  isNext : state.receiving process = .dequeue → ∃ cell rest, state.recvQ process = cell :: rest ∧
      (state.memory cell).seqno = state.recvSeqno process (state.memory cell).source

/-- The invariant of the node. -/
structure Valid
    (setup : Cells Proc Cell)
    (state : State Proc Cell Content) : Prop where
  owned : state.Owned setup
  links : ∀ source dest, (state.link source dest).Invariant source
  sendReady : ∀ process, state.SendReady process
  recvReady : ∀ process, state.RecvReady process

variable {setup : Cells Proc Cell} {state next : State Proc Cell Content}

/-- The packets from one source in a receive queue are in different cells of it. -/
theorem Owned.length_queue_le
    (owned : state.Owned setup)
    (source dest : Proc) :
    (state.link source dest).queue.length ≤ numCells := by
  have isMap : (state.link source dest).queue =
      ((state.recvQ dest).filter fun cell => (state.memory cell).source = source).map
        state.memory :=
    filter_map ..
  rw [isMap, length_map]
  have distinct := (owned.recvNodup dest).filter
    fun cell => decide ((state.memory cell).source = source)
  have inside : ((state.recvQ dest).filter
      fun cell => decide ((state.memory cell).source = source)) ⊆ setup.cells source := by
    intro cell member
    obtain ⟨inQueue, isSource⟩ := mem_filter.mp member
    have isMine := owned.mine cell (.queued dest) inQueue
    rwa [Place.owner, of_decide_eq_true isSource] at isMine
  exact Nat.le_trans (distinct.subperm inside).length_le (setup.few source)

variable {process : Proc} {place : Sending Proc Cell Content} {cell : Cell}
variable {payload : Content} {first : Bool} {el : Cell} {blocking : Bool}

omit [DecidableEq Proc] in
theorem SendReady.of_same
    (ready : state.SendReady process)
    (sending : next.sending process = state.sending process)
    (freeQ : state.freeQ process ≠ [] → next.freeQ process ≠ []) :
    next.SendReady process := by
  intro needs
  rw [sending] at needs
  exact freeQ (ready needs)

omit [DecidableEq Proc] in
theorem RecvReady.of_same
    (ready : state.RecvReady process)
    (receiving : next.receiving process = state.receiving process)
    (recvQ : state.recvQ process <+: next.recvQ process)
    (memory : ∀ cell ∈ state.recvQ process, next.memory cell = state.memory cell)
    (seqno : next.recvSeqno process = state.recvSeqno process) :
    next.RecvReady process where
  nonempty := by
    intro blocking isPlace
    rw [receiving] at isPlace
    exact List.IsPrefix.ne_nil recvQ (ready.nonempty blocking isPlace)
  isNext := by
    intro isPlace
    rw [receiving] at isPlace
    obtain ⟨cell, rest, isQueue, isNext⟩ := ready.isNext isPlace
    obtain ⟨more, isMore⟩ := recvQ
    refine ⟨cell, rest ++ more, ?_, ?_⟩
    · rw [← isMore, isQueue, cons_append]
    · rw [memory cell (by rw [isQueue]; exact mem_cons_self), seqno]
      exact isNext

/-- The hands of the senders, after one of them goes on. -/
theorem At.sender_cases
    (sending : next.sending = Function.update state.sending process place)
    {other : Proc}
    (isThere : next.At cell (.sender other)) :
    other = process ∧ place.cell = some cell ∨ state.At cell (.sender other) := by
  have inHand : (next.sending other).cell = some cell := isThere
  rw [sending] at inHand
  by_cases same : other = process
  · subst same
    rw [update_self] at inHand
    exact .inl ⟨rfl, inHand⟩
  · rw [update_of_ne same] at inHand
    exact .inr inHand

/-- The hands of the receivers, after one of them goes on. -/
theorem At.receiver_cases
    {place : Receiving Proc Cell}
    (receiving : next.receiving = Function.update state.receiving process place)
    {other : Proc}
    (isThere : next.At cell (.receiver other)) :
    other = process ∧ place = .hasCell cell ∨ state.At cell (.receiver other) := by
  have inHand : next.receiving other = .hasCell cell := isThere
  rw [receiving] at inHand
  by_cases same : other = process
  · subst same
    rw [update_self] at inHand
    exact .inl ⟨rfl, inHand⟩
  · rw [update_of_ne same] at inHand
    exact .inr inHand

/-- Where the cells are after a step of a send that leaves the receive queues. -/
theorem At.of_send
    {spot : Place Proc}
    (isThere : next.At cell spot)
    (sending : next.sending = Function.update state.sending process place)
    (freeQ : ∀ other cell, cell ∈ next.freeQ other → cell ∈ state.freeQ other)
    (prefetched : ∀ other cell, next.prefetched other = some cell →
      state.prefetched other = some cell)
    (recvQ : next.recvQ = state.recvQ)
    (receiving : next.receiving = state.receiving) :
    spot = .sender process ∧ place.cell = some cell ∨ state.At cell spot := by
  cases spot with
  | sender other =>
    rcases At.sender_cases sending isThere with ⟨rfl, inHand⟩ | wasThere
    · exact .inl ⟨rfl, inHand⟩
    · exact .inr wasThere
  | free other => exact .inr (freeQ other cell isThere)
  | fetched other => exact .inr (prefetched other cell isThere)
  | queued other =>
    have inQueue : cell ∈ next.recvQ other := isThere
    rw [recvQ] at inQueue
    exact .inr inQueue
  | receiver other =>
    have inHand : next.receiving other = .hasCell cell := isThere
    rw [receiving] at inHand
    exact .inr inHand

/-- A place of a send that is none of its link. -/
theorem link_idle
    (isPlace : state.sending process = place)
    (isIdle : ∀ dest, place.link state.memory dest = .idle) :
    ∀ dest, (state.sending process).link state.memory dest = .idle := by
  rw [isPlace]
  exact isIdle

section Queues

variable {queues : Proc → List Cell} (nodup : ∀ other, (queues other).Nodup)

include nodup

/-- The first cell of a queue is dequeued. -/
theorem dequeued
    {rest : List Cell}
    (isQueue : queues process = el :: rest) :
    el ∉ Function.update queues process rest process ∧
      (∀ other, (Function.update queues process rest other).Nodup) ∧
        ∀ other cell, cell ∈ Function.update queues process rest other → cell ∈ queues other := by
  have distinct := nodup process
  rw [isQueue, nodup_cons] at distinct
  refine ⟨?_, ?_, ?_⟩
  · rw [update_self]
    exact distinct.1
  · rw [forall_update_iff queues fun _ => Nodup]
    exact ⟨distinct.2, fun other _ => nodup other⟩
  · rw [forall_update_iff queues fun other cells => ∀ cell ∈ cells, cell ∈ queues other, isQueue]
    exact ⟨fun _ => mem_cons_of_mem el, fun _ _ _ => id⟩

/-- A cell is put behind a queue. -/
theorem enqueued
    (fresh : el ∉ queues process) :
    (∀ other, (Function.update queues process (queues process ++ [el]) other).Nodup) ∧
      ∀ other cell, cell ∈ Function.update queues process (queues process ++ [el]) other →
        cell = el ∧ other = process ∨ cell ∈ queues other := by
  refine ⟨?_, ?_⟩
  · rw [forall_update_iff queues fun _ => Nodup, ← concat_eq_append]
    exact ⟨(nodup process).concat fresh, fun other _ => nodup other⟩
  · rw [forall_update_iff queues fun other cells =>
      ∀ cell ∈ cells, cell = el ∧ other = process ∨ cell ∈ queues other]
    refine ⟨fun cell member => ?_, fun _ _ _ => .inr⟩
    rw [mem_append, mem_singleton] at member
    exact member.symm.imp_left fun isNew => ⟨isNew, rfl⟩

end Queues

/-- No other cell is prefetched when one has been taken. -/
theorem prefetched_of_taken
    (other : Proc)
    (cell : Cell)
    (isThere : Function.update state.prefetched process none other = some cell) :
    state.prefetched other = some cell := by
  by_cases same : other = process
  · rw [same, update_self] at isThere
    cases isThere
  · rwa [update_of_ne same] at isThere

/-- A place of a receive that holds nothing. -/
theorem link_nothing
    {place : Receiving Proc Cell}
    (isPlace : state.receiving process = place)
    (isNothing : ∀ source, place.link state.memory source = .nothing) :
    ∀ source, (state.receiving process).link state.memory source = .nothing := by
  rw [isPlace]
  exact isNothing

theorem Valid.initial (start : state.Initial setup) :
    state.Valid setup where
  owned := .initial start
  links := by
    intro source dest
    have isLink : state.link source dest = ⟨false, state.fbox source dest, [], 0, 0, [], [],
        .idle, .nothing⟩ := by
      unfold link
      rw [start.flag, start.recvQ, start.sendSeqno, start.recvSeqno, start.sent,
        start.received, start.sending, start.receiving]
      rfl
    rw [isLink]
    exact .initial ..
  sendReady := by
    intro process needs
    rw [start.sending] at needs
    cases needs
  recvReady := by
    intro process
    refine ⟨?_, ?_⟩ <;> rw [start.receiving] <;> nofun

variable (valid : state.Valid setup)

include valid

theorem Valid.preserve
    (owned : next.Owned setup)
    (stepped : state.LinksStep next)
    (sendReady : ∀ process, next.SendReady process)
    (recvReady : ∀ process, next.RecvReady process) :
    next.Valid setup where
  owned := owned
  links := by
    intro source dest
    have short := valid.owned.length_queue_le source dest
    refine (valid.links source dest).step (stepped source dest) ?_
    exact Nat.lt_of_le_of_lt short (by decide)
  sendReady := sendReady
  recvReady := recvReady

/-- After a step of a send, every send is ready when the one that goes on is. -/
theorem Valid.sendReady_update
    (sending : next.sending = Function.update state.sending process place)
    (freeSame : ∀ other, other ≠ process → next.freeQ other = state.freeQ other)
    (ready : place.needsFree = true → next.freeQ process ≠ [])
    (other : Proc) :
    next.SendReady other := by
  by_cases same : other = process
  · subst same
    intro needs
    rw [sending, update_self] at needs
    exact ready needs
  · refine (valid.sendReady other).of_same ?_ ?_
    · rw [sending, update_of_ne same]
    · rw [freeSame other same]
      exact id

/-- After a step of a receive, every receive is ready when the one that goes on is. -/
theorem Valid.recvReady_update
    {place : Receiving Proc Cell}
    (receiving : next.receiving = Function.update state.receiving process place)
    (recvSame : ∀ other, other ≠ process → next.recvQ other = state.recvQ other)
    (memory : next.memory = state.memory)
    (seqnoSame : ∀ other, other ≠ process → next.recvSeqno other = state.recvSeqno other)
    (nonempty : ∀ blocking, place = .testSeqno blocking → next.recvQ process ≠ [])
    (isNext : place = .dequeue → ∃ cell rest, next.recvQ process = cell :: rest ∧
      (state.memory cell).seqno = next.recvSeqno process (state.memory cell).source)
    (other : Proc) :
    next.RecvReady other := by
  by_cases same : other = process
  · subst same
    refine ⟨?_, ?_⟩ <;> rw [receiving, update_self]
    · exact nonempty
    · rw [memory]
      exact isNext
  · refine (valid.recvReady other).of_same ?_ ?_ (fun _ _ => by rw [memory])
      (seqnoSame other same)
    · rw [receiving, update_of_ne same]
    · rw [recvSame other same]

/-! ## The steps of a send -/

/-- A send goes on, and no queue and no cell changes. -/
theorem Valid.sends
    (stepped : state.LinksStep next)
    (sending : next.sending = Function.update state.sending process place)
    (freeQ : next.freeQ = state.freeQ)
    (prefetched : ∀ other cell, next.prefetched other = some cell →
      state.prefetched other = some cell)
    (recvQ : next.recvQ = state.recvQ)
    (memory : next.memory = state.memory)
    (receiving : next.receiving = state.receiving)
    (recvSeqno : next.recvSeqno = state.recvSeqno)
    (hand : place.cell = none)
    (ready : place.needsFree = true → state.freeQ process ≠ []) :
    next.Valid setup := by
  refine valid.preserve ?_ stepped ?_ ?_
  · refine valid.owned.of_stay (by rw [freeQ]; exact valid.owned.freeNodup)
      (by rw [recvQ]; exact valid.owned.recvNodup) ?_ fun _ _ _ => by rw [memory]
    intro cell spot isThere
    have free : ∀ other cell, cell ∈ next.freeQ other → cell ∈ state.freeQ other := by
      rw [freeQ]
      exact fun _ _ => id
    rcases At.of_send isThere sending free prefetched recvQ receiving with
      ⟨_, inHand⟩ | wasThere
    · rw [hand] at inHand
      cases inHand
    · exact wasThere
  · apply valid.sendReady_update sending
    · exact fun other _ => by rw [freeQ]
    · rw [freeQ]
      exact ready
  · intro other
    refine (valid.recvReady other).of_same (by rw [receiving]) ?_
      (fun _ _ => by rw [memory]) (by rw [recvSeqno])
    rw [recvQ]

theorem Valid.goSending
    (hand : place.cell = none)
    (stepped : state.LinksStep (state.goSending process place))
    (ready : place.needsFree = true → state.freeQ process ≠ []) :
    (state.goSending process place).Valid setup :=
  valid.sends stepped rfl rfl (fun _ _ => id) rfl rfl rfl rfl hand ready

/-- The prefetched cell, or the first free cell, is taken. -/
theorem Valid.takesCell
    {dest : Proc}
    {old : Place Proc}
    (was : state.At el old)
    (gone : ¬ next.At el old)
    (mine : old.owner (state.memory el) = process)
    (sending : next.sending =
      Function.update state.sending process (.writeCell dest payload first el))
    (freeQ : ∀ other cell, cell ∈ next.freeQ other → cell ∈ state.freeQ other)
    (freeNodup : ∀ other, (next.freeQ other).Nodup)
    (freeSame : ∀ other, other ≠ process → next.freeQ other = state.freeQ other)
    (prefetched : ∀ other cell, next.prefetched other = some cell →
      state.prefetched other = some cell)
    (recvQ : next.recvQ = state.recvQ)
    (memory : next.memory = state.memory)
    (receiving : next.receiving = state.receiving)
    (recvSeqno : next.recvSeqno = state.recvSeqno)
    (stepped : state.LinksStep next) :
    next.Valid setup := by
  refine valid.preserve ?_ stepped ?_ ?_
  · refine @Owned.of_move _ _ _ _ state next valid.owned freeNodup
      (by rw [recvQ]; exact valid.owned.recvNodup) el old (.sender process) was gone
      ?_ memory mine.symm
    intro cell spot isThere
    rcases At.of_send isThere sending freeQ prefetched recvQ receiving with
      ⟨isHand, inHand⟩ | wasThere
    · exact .inl ⟨(Option.some.inj inHand).symm, isHand⟩
    · exact .inr wasThere
  · exact valid.sendReady_update sending freeSame nofun
  · intro other
    refine (valid.recvReady other).of_same (by rw [receiving]) ?_
      (fun _ _ => by rw [memory]) (by rw [recvSeqno])
    rw [recvQ]

theorem Valid.testFbox
    {dest : Proc}
    (isPlace : state.sending process = .testFbox dest payload) :
    (state.goSending process
      (if state.flag process dest then .findCell dest payload true
      else .writeFbox dest payload)).Valid setup := by
  cases locked : state.flag process dest with
  | true =>
    refine valid.goSending rfl ?_ nofun
    exact .of_eq (link_goSending (link_idle isPlace fun _ => rfl) fun _ => rfl)
  | false => exact valid.goSending rfl (testFbox_links isPlace locked) nofun

/-- The cell goes from the hands of the sender to the receive queue. -/
theorem Valid.enqueueCell
    {dest : Proc} {packet : Packet Proc Content}
    (isPlace : state.sending process = .enqueueCell dest packet el) :
    ({ state with
      recvQ := Function.update state.recvQ dest (state.recvQ dest ++ [el])
      sent := update state.sent process dest
        (state.sent process dest ++ [packet]) }.goSending
      process .testPrefetch).Valid setup := by
  have isSource : (state.memory el).source = process := by
    obtain ⟨isWritten, isSource, _⟩ := (valid.links process dest).posting packet
      (state.memory el) (by simp [link, isPlace, Sending.link])
    rw [isWritten]
    exact isSource
  have inHand : state.At el (.sender process) := by
    change (state.sending process).cell = some el
    rw [isPlace]
    rfl
  obtain ⟨distinct, inside⟩ := @enqueued _ _ _ dest el _ valid.owned.recvNodup fun member =>
    nomatch valid.owned.unique el (.queued dest) _ member inHand
  have longer : ∀ other, state.recvQ other <+:
      Function.update state.recvQ dest (state.recvQ dest ++ [el]) other := by
    intro other
    by_cases same : other = dest
    · rw [same, update_self]
      exact prefix_append _ _
    · rw [update_of_ne same]
  refine valid.preserve ?_ (enqueueCell_links isPlace isSource) ?_ ?_
  · refine @Owned.of_move _ _ _ _ state _ valid.owned valid.owned.freeNodup distinct el
      (.sender process) (.queued dest) inHand ?_ ?_ rfl isSource
    · intro isThere
      have still : (Function.update state.sending process
        (.testPrefetch : Sending Proc Cell Content) process).cell = some el := isThere
      rw [update_self] at still
      cases still
    · intro cell spot isThere
      cases spot with
      | queued other =>
        exact (inside other cell isThere).imp_left fun isNew => ⟨isNew.1, congrArg _ isNew.2⟩
      | sender other =>
        rcases @At.sender_cases _ _ _ _ state _ process .testPrefetch cell rfl other
          isThere with ⟨_, isHand⟩ | wasThere
        · cases isHand
        · exact .inr wasThere
      | free other => exact .inr isThere
      | fetched other => exact .inr isThere
      | receiver other => exact .inr isThere
  · exact valid.sendReady_update rfl (fun _ _ => rfl)
      fun impossible => Bool.noConfusion impossible
  · exact fun other =>
      (valid.recvReady other).of_same rfl (longer other) (fun _ _ => rfl) rfl

theorem Valid.testPrefetch
    (isPlace : state.sending process = .testPrefetch) :
    (if state.freeQ process = [] then
      { state with
        prefetched := Function.update state.prefetched process none }.goSending
        process .idle
    else state.goSending process .prefetch).Valid setup := by
  have idle := link_idle isPlace fun _ => rfl
  by_cases empty : state.freeQ process = []
  · rw [if_pos empty]
    refine valid.sends (.of_eq fun source last => ?_) rfl rfl
      prefetched_of_taken rfl rfl rfl rfl rfl nofun
    exact @link_goSending _ _ _ _ { state with
      prefetched := Function.update state.prefetched process none } process
      .idle idle (fun _ => rfl) source last
  · rw [if_neg empty]
    apply valid.goSending rfl _ fun _ => empty
    exact .of_eq (link_goSending idle fun _ => rfl)

section

variable [DecidableEq Cell]

/-- The cell that a send finds, if it finds one. -/
theorem Valid.findCell
    {dest : Proc}
    (isPlace : state.sending process = .findCell dest payload first) :
    ∃ next, state.send process = some next ∧ next.Valid setup := by
  have idle := link_idle isPlace fun _ => rfl
  unfold send
  rw [isPlace]
  cases isFetched : state.prefetched process with
  | some el =>
    refine ⟨_, rfl, ?_⟩
    refine @Valid.takesCell _ _ _ _ setup state _ process payload first el valid dest
      (.fetched process) isFetched ?_ rfl rfl (fun _ _ => id) valid.owned.freeNodup
      (fun _ _ => rfl) prefetched_of_taken rfl rfl rfl rfl ?_
    · intro isThere
      have still : Function.update state.prefetched process none process = some el := isThere
      rw [update_self] at still
      cases still
    · exact .of_eq fun source last =>
        @link_goSending _ _ _ _ { state with
          prefetched := Function.update state.prefetched process none } process
          (.writeCell dest payload first el) idle (fun _ => rfl) source last
  | none =>
    refine ⟨_, rfl, ?_⟩
    by_cases empty : state.freeQ process = []
    · rw [if_pos empty]
      refine valid.goSending rfl ?_ nofun
      exact .of_eq (link_goSending idle fun _ => rfl)
    · rw [if_neg empty]
      apply valid.goSending rfl _ fun _ => empty
      exact .of_eq (link_goSending idle fun _ => rfl)

theorem Valid.dequeueCell
    {dest : Proc}
    (isPlace : state.sending process = .dequeueCell dest payload first) :
    ∃ next, state.send process = some next ∧ next.Valid setup := by
  have idle := link_idle isPlace fun _ => rfl
  have nonempty := valid.sendReady process (by rw [isPlace]; rfl)
  unfold send
  rw [isPlace]
  cases isQueue : state.freeQ process with
  | nil => exact absurd isQueue nonempty
  | cons el rest =>
    refine ⟨_, rfl, ?_⟩
    obtain ⟨notRest, distinct, inside⟩ := dequeued valid.owned.freeNodup isQueue
    have wasFree : el ∈ state.freeQ process := by
      rw [isQueue]
      exact mem_cons_self
    refine @Valid.takesCell _ _ _ _ setup state _ process payload first el valid dest
      (.free process) wasFree notRest rfl rfl inside distinct ?_ (fun _ _ => id)
      rfl rfl rfl rfl ?_
    · exact fun other differs => update_of_ne differs _ _
    · exact .of_eq fun source last =>
        @link_goSending _ _ _ _ { state with
          freeQ := Function.update state.freeQ process rest } process
          (.writeCell dest payload first el) idle (fun _ => rfl) source last

/-- The cell in the hands of the sender is written. -/
theorem Valid.writeCell
    {dest : Proc}
    (isPlace : state.sending process = .writeCell dest payload first el) :
    ({ state with
      memory := Function.update state.memory el
        ⟨process, state.sendSeqno process dest, payload, first⟩
      sendSeqno := update state.sendSeqno process dest
        (state.sendSeqno process dest + 1) }.goSending
      process (.enqueueCell dest ⟨process, state.sendSeqno process dest, payload, first⟩
        el)).Valid setup := by
  have inHand : state.At el (.sender process) := by
    change (state.sending process).cell = some el
    rw [isPlace]
    rfl
  have others : ∀ (cell : Cell) (spot : Place Proc),
      State.At ({ state with
        memory := Function.update state.memory el
          ⟨process, state.sendSeqno process dest, payload, first⟩
        sendSeqno := update state.sendSeqno process dest
          (state.sendSeqno process dest + 1) }.goSending
        process (.enqueueCell dest
          ⟨process, state.sendSeqno process dest, payload, first⟩ el)) cell spot →
        state.At cell spot := by
    intro cell spot isThere
    rcases At.of_send isThere rfl (fun _ _ => id) (fun _ _ => id) rfl rfl with
      ⟨rfl, isHand⟩ | wasThere
    · cases Option.some.inj isHand
      exact inHand
    · exact wasThere
  refine valid.preserve ?_ (writeCell_links valid.owned isPlace) ?_ ?_
  · refine valid.owned.of_stay valid.owned.freeNodup valid.owned.recvNodup others ?_
    intro cell spot isThere
    by_cases same : cell = el
    · subst same
      rw [valid.owned.unique cell spot _ (others cell spot isThere) inHand]
      rfl
    · have kept := update_of_ne same
        (⟨process, state.sendSeqno process dest, payload, first⟩ :
          Packet Proc Content) state.memory
      exact congrArg (Place.owner · spot) kept
  · exact valid.sendReady_update rfl (fun _ _ => rfl) nofun
  · intro other
    refine (valid.recvReady other).of_same rfl prefix_rfl ?_ rfl
    intro cell member
    apply update_of_ne
    rintro rfl
    exact nomatch valid.owned.unique cell (.queued other) _ member inHand

/-- The next cell is prefetched. -/
theorem Valid.prefetch
    (isPlace : state.sending process = .prefetch) :
    ∃ next, state.send process = some next ∧ next.Valid setup := by
  have idle := link_idle isPlace fun _ => rfl
  have nonempty := valid.sendReady process (by rw [isPlace]; rfl)
  unfold send
  rw [isPlace]
  cases isQueue : state.freeQ process with
  | nil => exact absurd isQueue nonempty
  | cons el rest =>
    refine ⟨_, rfl, ?_⟩
    obtain ⟨notRest, distinct, inside⟩ := dequeued valid.owned.freeNodup isQueue
    have wasFree : state.At el (.free process) := by
      change el ∈ state.freeQ process
      rw [isQueue]
      exact mem_cons_self
    refine valid.preserve ?_ ?_ ?_ ?_
    · refine @Owned.of_move _ _ _ _ state _ valid.owned distinct valid.owned.recvNodup el
        (.free process) (.fetched process) wasFree notRest ?_ rfl rfl
      intro cell spot isThere
      cases spot with
      | fetched other =>
        have isFetched : Function.update state.prefetched process (some el) other =
          some cell := isThere
        by_cases same : other = process
        · rw [same, update_self] at isFetched
          exact .inl ⟨(Option.some.inj isFetched).symm, by rw [same]⟩
        · rw [update_of_ne same] at isFetched
          exact .inr isFetched
      | sender other =>
        rcases @At.sender_cases _ _ _ _ state _ process .idle cell rfl other
          isThere with ⟨_, isHand⟩ | wasThere
        · cases isHand
        · exact .inr wasThere
      | free other => exact .inr (inside other cell isThere)
      | queued other => exact .inr isThere
      | receiver other => exact .inr isThere
    · exact .of_eq fun source last =>
        @link_goSending _ _ _ _ { state with
          freeQ := Function.update state.freeQ process rest
          prefetched := Function.update state.prefetched process (some el) } process
          .idle idle (fun _ => rfl) source last
    · refine @Valid.sendReady_update _ _ _ _ setup state _ process .idle valid rfl ?_ nofun
      exact fun other differs => update_of_ne differs _ _
    · exact fun other =>
        (valid.recvReady other).of_same rfl prefix_rfl (fun _ _ => rfl) rfl

/-- Every step of a send. -/
theorem Valid.send
    (busy : state.sending process ≠ .idle) :
    ∃ next, state.send process = some next ∧ next.Valid setup := by
  cases isPlace : state.sending process with
  | idle => exact absurd isPlace busy
  | testFbox dest payload =>
    refine ⟨_, ?_, valid.testFbox isPlace⟩
    rw [State.send, isPlace]
  | writeFbox dest payload =>
    refine ⟨_, ?_, valid.sends (writeFbox_links isPlace) rfl rfl (fun _ _ => id)
      rfl rfl rfl rfl rfl nofun⟩
    rw [State.send, isPlace]
  | setFlag dest packet =>
    refine ⟨_, ?_, valid.sends (setFlag_links isPlace) rfl rfl (fun _ _ => id)
      rfl rfl rfl rfl rfl nofun⟩
    rw [State.send, isPlace]
  | findCell dest payload first => exact valid.findCell isPlace
  | dequeueCell dest payload first => exact valid.dequeueCell isPlace
  | writeCell dest payload first el =>
    refine ⟨_, ?_, valid.writeCell isPlace⟩
    rw [State.send, isPlace]
  | enqueueCell dest packet el =>
    refine ⟨_, ?_, valid.enqueueCell isPlace⟩
    rw [State.send, isPlace]
  | testPrefetch =>
    refine ⟨_, ?_, valid.testPrefetch isPlace⟩
    rw [State.send, isPlace]
  | prefetch => exact valid.prefetch isPlace

end

/-! ## The steps of a receive -/

/-- A receive goes on, and no queue and no cell changes. -/
theorem Valid.receives
    (stepped : state.LinksStep next)
    {place : Receiving Proc Cell}
    (receiving : next.receiving = Function.update state.receiving process place)
    (freeQ : next.freeQ = state.freeQ)
    (prefetched : next.prefetched = state.prefetched)
    (recvQ : next.recvQ = state.recvQ)
    (memory : next.memory = state.memory)
    (sending : next.sending = state.sending)
    (recvSeqno : ∀ other, other ≠ process → next.recvSeqno other = state.recvSeqno other)
    (hand : ∀ cell, place ≠ .hasCell cell)
    (nonempty : ∀ blocking, place = .testSeqno blocking → state.recvQ process ≠ [])
    (isNext : place = .dequeue → ∃ cell rest, state.recvQ process = cell :: rest ∧
      (state.memory cell).seqno = next.recvSeqno process (state.memory cell).source) :
    next.Valid setup := by
  refine valid.preserve ?_ stepped ?_ ?_
  · refine valid.owned.of_stay (by rw [freeQ]; exact valid.owned.freeNodup)
      (by rw [recvQ]; exact valid.owned.recvNodup) ?_ fun _ _ _ => by rw [memory]
    intro cell spot isThere
    cases spot with
    | receiver other =>
      rcases At.receiver_cases receiving isThere with ⟨_, inHand⟩ | wasThere
      · exact absurd inHand (hand cell)
      · exact wasThere
    | free other =>
      have inQueue : cell ∈ next.freeQ other := isThere
      rwa [freeQ] at inQueue
    | fetched other =>
      have isFetched : next.prefetched other = some cell := isThere
      rwa [prefetched] at isFetched
    | queued other =>
      have inQueue : cell ∈ next.recvQ other := isThere
      rwa [recvQ] at inQueue
    | sender other =>
      have inHand : (next.sending other).cell = some cell := isThere
      rwa [sending] at inHand
  · intro other
    exact (valid.sendReady other).of_same (by rw [sending]) (by rw [freeQ]; exact id)
  · apply valid.recvReady_update receiving _ memory recvSeqno
    · rw [recvQ]
      exact nonempty
    · rw [recvQ]
      exact isNext
    · exact fun other _ => by rw [recvQ]

/-- A receive goes on and takes nothing. -/
theorem Valid.goReceiving
    {place : Receiving Proc Cell}
    (was : ∀ source, (state.receiving process).link state.memory source = .nothing)
    (isNothing : ∀ source, place.link state.memory source = .nothing)
    (nonempty : ∀ blocking, place = .testSeqno blocking → state.recvQ process ≠ [])
    (isNext : place = .dequeue → ∃ cell rest, state.recvQ process = cell :: rest ∧
      (state.memory cell).seqno = state.recvSeqno process (state.memory cell).source) :
    (state.goReceiving process place).Valid setup := by
  refine valid.receives (.of_eq (link_goReceiving was isNothing)) rfl rfl rfl rfl rfl rfl
    (fun _ _ => rfl) ?_ nonempty isNext
  rintro cell rfl
  have isHeld := isNothing (state.memory cell).source
  rw [Receiving.link_hasCell, if_pos rfl] at isHeld
  cases isHeld

/-- A fastbox is polled. -/
theorem Valid.polls
    {source : Proc} {place : Receiving Proc Cell}
    (was : ∀ other, (state.receiving process).link state.memory other = .nothing)
    (isNothing : ∀ other, place.link state.memory other = .nothing)
    (notTest : ∀ blocking, place ≠ .testSeqno blocking)
    (notDequeue : place ≠ .dequeue) :
    (if state.matchesFbox process source then state.takeFbox process source
      else state.goReceiving process place).Valid setup := by
  cases isNext : state.matchesFbox process source with
  | true =>
    refine valid.receives (takeFbox_links was isNext) rfl rfl rfl rfl rfl rfl ?_ nofun nofun nofun
    intro other differs
    funext last
    exact (update_apply ..).trans (if_neg fun same => differs same.1)
  | false =>
    exact valid.goReceiving was isNothing
      (fun blocking isTest => absurd isTest (notTest blocking))
      fun isDequeue => absurd isDequeue notDequeue

theorem Valid.testQueue
    (isPlace : state.receiving process = .testQueue blocking) :
    (state.goReceiving process
      (if state.recvQ process = [] then .pollAllFboxes blocking
      else .testSeqno blocking)).Valid setup := by
  have free := link_nothing isPlace fun _ => rfl
  by_cases empty : state.recvQ process = []
  · rw [if_pos empty]
    exact valid.goReceiving free (fun _ => rfl) nofun nofun
  · rw [if_neg empty]
    exact valid.goReceiving free (fun _ => rfl) (fun _ _ => empty) nofun

/-- The head of the receive queue is looked at. -/
theorem Valid.testSeqno
    {current : Proc} {order : List Proc}
    (isPlace : state.receiving process = .testSeqno blocking) :
    ∃ next, state.advance process current order = some next ∧ next.Valid setup := by
  have free := link_nothing isPlace fun _ => rfl
  have nonempty := (valid.recvReady process).nonempty blocking isPlace
  unfold advance
  rw [isPlace]
  cases isQueue : state.recvQ process with
  | nil => exact absurd isQueue nonempty
  | cons cell rest =>
    refine ⟨_, rfl, ?_⟩
    dsimp only
    by_cases isNext : (state.memory cell).seqno = state.recvSeqno process (state.memory cell).source
    · rw [if_pos isNext]
      exact valid.goReceiving free (fun _ => rfl) nofun
        fun _ => ⟨cell, rest, isQueue, isNext⟩
    · rw [if_neg isNext]
      exact valid.goReceiving free (fun _ => rfl) nofun nofun

theorem Valid.pollAllFboxes
    (current : Proc)
    (order : List Proc)
    (isPlace : state.receiving process = .pollAllFboxes blocking) :
    (if state.matchesFbox process current then state.takeFbox process current
      else state.goReceiving process
        (if blocking then .pollFboxes true order else .idle)).Valid setup := by
  have free := link_nothing isPlace fun _ => rfl
  cases blocking with
  | true => exact valid.polls free (fun _ => rfl) nofun nofun
  | false => exact valid.polls free (fun _ => rfl) nofun nofun

/-- The head of the receive queue goes to the hands of the receiver. -/
theorem Valid.dequeue
    {rest : List Cell}
    (free : ∀ source, (state.receiving process).link state.memory source = .nothing)
    (isQueue : state.recvQ process = cell :: rest)
    (isNext : (state.memory cell).seqno = state.recvSeqno process (state.memory cell).source) :
    ({ state with
      recvQ := Function.update state.recvQ process rest
      recvSeqno := update state.recvSeqno process (state.memory cell).source
        (state.recvSeqno process (state.memory cell).source + 1)
      received := update state.received (state.memory cell).source process
        (state.received (state.memory cell).source process ++
          [state.memory cell]) }.goReceiving process (.hasCell cell)).Valid setup := by
  obtain ⟨notRest, distinct, inside⟩ := dequeued valid.owned.recvNodup isQueue
  have wasQueued : state.At cell (.queued process) := by
    change cell ∈ state.recvQ process
    rw [isQueue]
    exact mem_cons_self
  refine valid.preserve ?_ (dequeue_links free isQueue isNext) ?_ ?_
  · refine @Owned.of_move _ _ _ _ state _ valid.owned valid.owned.freeNodup distinct cell
      (.queued process) (.receiver process) wasQueued notRest ?_ rfl rfl
    intro held spot isThere
    cases spot with
    | queued other => exact .inr (inside other held isThere)
    | receiver other =>
      rcases @At.receiver_cases _ _ _ _ state _ process held (.hasCell cell) rfl other
        isThere with ⟨rfl, isHeld⟩ | wasThere
      · exact .inl ⟨(Receiving.hasCell.inj isHeld).symm, rfl⟩
      · exact .inr wasThere
    | free other => exact .inr isThere
    | fetched other => exact .inr isThere
    | sender other => exact .inr isThere
  · exact fun other => (valid.sendReady other).of_same rfl id
  · refine @Valid.recvReady_update _ _ _ _ setup state _ process valid (.hasCell cell) rfl
      ?_ rfl ?_ nofun nofun
    · exact fun other differs => update_of_ne differs _ _
    · intro other differs
      funext last
      exact (update_apply ..).trans (if_neg fun same => differs same.1)

/-- The cell goes back to the queue of free cells of its source. -/
theorem Valid.hasCell
    (isPlace : state.receiving process = .hasCell cell) :
    ({ state with
      freeQ := Function.update state.freeQ (state.memory cell).source
        (state.freeQ (state.memory cell).source ++ [cell]) }.goReceiving
      process .idle).Valid setup := by
  have wasHeld : state.At cell (.receiver process) := isPlace
  obtain ⟨distinct, inside⟩ := @enqueued _ _ _ (state.memory cell).source cell _
    valid.owned.freeNodup fun member => nomatch valid.owned.unique cell (.free _) _ member wasHeld
  refine valid.preserve ?_ (hasCell_links isPlace _) ?_ ?_
  · refine @Owned.of_move _ _ _ _ state _ valid.owned distinct valid.owned.recvNodup cell
      (.receiver process) (.free (state.memory cell).source) wasHeld ?_ ?_ rfl rfl
    · intro isThere
      have still : Function.update state.receiving process
        (.idle : Receiving Proc Cell) process = .hasCell cell := isThere
      rw [update_self] at still
      cases still
    · intro held spot isThere
      cases spot with
      | free other =>
        exact (inside other held isThere).imp_left fun isNew => ⟨isNew.1, congrArg _ isNew.2⟩
      | receiver other =>
        rcases @At.receiver_cases _ _ _ _ state _ process held .idle rfl other
          isThere with ⟨_, isHeld⟩ | wasThere
        · cases isHeld
        · exact .inr wasThere
      | fetched other => exact .inr isThere
      | queued other => exact .inr isThere
      | sender other => exact .inr isThere
  · intro other
    refine (valid.sendReady other).of_same rfl fun nonempty => ?_
    change Function.update state.freeQ (state.memory cell).source
      (state.freeQ (state.memory cell).source ++ [cell]) other ≠ []
    by_cases same : other = (state.memory cell).source
    · rw [same, update_self]
      exact append_ne_nil_of_right_ne_nil _ (cons_ne_nil cell [])
    · rw [update_of_ne same]
      exact nonempty
  · exact valid.recvReady_update rfl (fun _ _ => rfl) rfl (fun _ _ => rfl) nofun nofun

/-- Every step of a receive. -/
theorem Valid.advance
    {current : Proc} {order : List Proc}
    (busy : state.receiving process ≠ .idle) :
    ∃ next, state.advance process current order = some next ∧ next.Valid setup := by
  cases isPlace : state.receiving process with
  | idle => exact absurd isPlace busy
  | pollFboxes blocking left =>
    have free := link_nothing isPlace fun _ => rfl
    cases left with
    | nil =>
      have kept : (state.goReceiving process (.testQueue blocking)).Valid setup :=
        valid.goReceiving free (fun _ => rfl) nofun nofun
      refine ⟨_, ?_, kept⟩
      rw [State.advance, isPlace]
    | cons source left =>
      have kept : (if state.matchesFbox process source then
          state.takeFbox process source
          else state.goReceiving process (.pollFboxes blocking left)).Valid setup :=
        valid.polls free (fun _ => rfl) nofun nofun
      refine ⟨_, ?_, kept⟩
      rw [State.advance, isPlace]
  | testQueue blocking =>
    refine ⟨_, ?_, valid.testQueue isPlace⟩
    rw [State.advance, isPlace]
  | testSeqno blocking => exact valid.testSeqno isPlace
  | pollAllFboxes blocking =>
    refine ⟨_, ?_, valid.pollAllFboxes current order isPlace⟩
    rw [State.advance, isPlace]
  | dequeue =>
    obtain ⟨cell, rest, isQueue, isNext⟩ := (valid.recvReady process).isNext isPlace
    have free := link_nothing isPlace fun _ => rfl
    refine ⟨_, ?_, valid.dequeue free isQueue isNext⟩
    rw [State.advance, isPlace, isQueue]
  | hasFbox source =>
    refine ⟨_, ?_, valid.receives (hasFbox_links isPlace) rfl rfl rfl rfl rfl rfl
      (fun _ _ => rfl) nofun nofun nofun⟩
    rw [State.advance, isPlace]
  | hasCell cell =>
    refine ⟨_, ?_, valid.hasCell isPlace⟩
    rw [State.advance, isPlace]

variable [DecidableEq Cell]

/-- A step that a process can make succeeds and keeps the invariant. -/
theorem Valid.step
    (action : Action Proc Content)
    (enabled : (node setup).enabled state action) :
    ∃ next, (node setup).step state action = some next ∧ next.Valid setup := by
  cases action with
  | sendHeader process dest payload fits =>
    refine ⟨_, rfl, ?_⟩
    have idle := link_idle enabled fun _ => rfl
    cases fits with
    | true => exact valid.goSending rfl (.of_eq (link_goSending idle fun _ => rfl)) nofun
    | false => exact valid.goSending rfl (.of_eq (link_goSending idle fun _ => rfl)) nofun
  | sendMore process dest payload =>
    have idle := link_idle enabled fun _ => rfl
    exact ⟨_, rfl, valid.goSending rfl (.of_eq (link_goSending idle fun _ => rfl)) nofun⟩
  | send process => exact valid.send enabled
  | recv process blocking order =>
    have free := link_nothing enabled fun _ => rfl
    exact ⟨_, rfl, valid.goReceiving free (fun _ => rfl) nofun nofun⟩
  | advance process current order => exact valid.advance enabled

omit valid in
/-- The invariant holds in every run. -/
theorem Valid.reachable (reachable : (node setup).Reachable state) :
    state.Valid setup := by
  refine TransitionSystem.Inductive.reachable ⟨fun _ => .initial, ?_⟩ reachable
  intro earlier action later valid enabled stepped
  obtain ⟨result, isResult, kept⟩ := valid.step action enabled
  rw [isResult] at stepped
  cases stepped
  exact kept

end Mpich.Nemesis.Fastbox.State
