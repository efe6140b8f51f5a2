import Mpich.Nemesis.Fastbox.Defs

/-!
# Who has a cell

Every cell is in one place: a queue of free cells, a prefetched cell, the hands of a
sender, a receive queue or the hands of a receiver. So a cell is written only while
its sender has it, and what is in a receive queue comes from the cells of its source.
-/

namespace Mpich.Nemesis.Fastbox

variable {Proc Cell Content : Type*}

/-- The cell that a sender has in its hands. -/
def Sending.cell : Sending Proc Cell Content → Option Cell
  | writeCell _ _ _ el => some el
  | enqueueCell _ _ el => some el
  | _ => none

/-- Where a cell can be. -/
inductive Place (Proc : Type*)
  | free (process : Proc)
  | fetched (process : Proc)
  | sender (process : Proc)
  | queued (process : Proc)
  | receiver (process : Proc)

/-- Whose cell it is, by the place where it is and the packet that it holds. -/
def Place.owner
    (packet : Packet Proc Content) : Place Proc → Proc
  | free process => process
  | fetched process => process
  | sender process => process
  | queued _ => packet.source
  | receiver _ => packet.source

namespace State

def At
    (state : State Proc Cell Content)
    (cell : Cell) : Place Proc → Prop
  | .free process => cell ∈ state.freeQ process
  | .fetched process => state.prefetched process = some cell
  | .sender process => (state.sending process).cell = some cell
  | .queued process => cell ∈ state.recvQ process
  | .receiver process => state.receiving process = .hasCell cell

/-- The invariant of the cells. -/
structure Owned
    (setup : Cells Proc Cell)
    (state : State Proc Cell Content) : Prop where
  unique : ∀ cell place other, state.At cell place → state.At cell other → place = other
  freeNodup : ∀ process, (state.freeQ process).Nodup
  recvNodup : ∀ process, (state.recvQ process).Nodup
  mine : ∀ cell place, state.At cell place → cell ∈ setup.cells (place.owner (state.memory cell))

namespace Owned

variable {setup : Cells Proc Cell} {state next : State Proc Cell Content}

theorem initial (start : state.Initial setup) :
    state.Owned setup := by
  have isFree : ∀ cell place, state.At cell place →
      ∃ process, place = .free process ∧ cell ∈ setup.cells process := by
    intro cell place isThere
    cases place with
    | free process => exact ⟨process, rfl, (start.freeQ process).2 cell isThere⟩
    | fetched process =>
      exact absurd ((start.prefetched process).symm.trans isThere) nofun
    | sender process =>
      have inHand : (state.sending process).cell = some cell := isThere
      rw [start.sending] at inHand
      cases inHand
    | queued process =>
      have inQueue : cell ∈ state.recvQ process := isThere
      rw [start.recvQ] at inQueue
      cases inQueue
    | receiver process =>
      exact absurd ((start.receiving process).symm.trans isThere) nofun
  refine ⟨?_, fun process => (start.freeQ process).1, fun process => ?_, ?_⟩
  · intro cell place other first second
    obtain ⟨process, rfl, inFirst⟩ := isFree cell place first
    obtain ⟨otherProcess, rfl, inSecond⟩ := isFree cell other second
    rw [setup.disjoint process otherProcess cell inFirst inSecond]
  · rw [start.recvQ]
    exact List.nodup_nil
  · intro cell place isThere
    obtain ⟨process, rfl, inside⟩ := isFree cell place isThere
    exact inside

section

variable
    (owned : state.Owned setup)
    (freeNodup : ∀ process, (next.freeQ process).Nodup)
    (recvNodup : ∀ process, (next.recvQ process).Nodup)

include owned freeNodup recvNodup

/-- No cell goes to a new place. -/
theorem of_stay
    (others : ∀ cell place, next.At cell place → state.At cell place)
    (owners : ∀ cell place, next.At cell place →
      place.owner (next.memory cell) = place.owner (state.memory cell)) :
    next.Owned setup where
  unique := fun cell place other first second =>
    owned.unique cell place other (others cell place first) (others cell other second)
  freeNodup := freeNodup
  recvNodup := recvNodup
  mine := by
    intro cell place isThere
    rw [owners cell place isThere]
    exact owned.mine cell place (others cell place isThere)

/-- One cell goes to a new place. -/
theorem of_move
    {moved : Cell} {old new : Place Proc}
    (was : state.At moved old)
    (gone : ¬ next.At moved old)
    (others : ∀ cell place, next.At cell place → cell = moved ∧ place = new ∨ state.At cell place)
    (memory : next.memory = state.memory)
    (owner : new.owner (state.memory moved) = old.owner (state.memory moved)) :
    next.Owned setup := by
  have isNew : ∀ place, next.At moved place → place = new := by
    intro place isThere
    rcases others moved place isThere with ⟨_, isNew⟩ | wasThere
    · exact isNew
    · rw [owned.unique moved place old wasThere was] at isThere
      exact absurd isThere gone
  refine ⟨?_, freeNodup, recvNodup, ?_⟩
  · intro cell place other first second
    rcases others cell place first with ⟨rfl, rfl⟩ | wasFirst
    · exact (isNew other second).symm
    · rcases others cell other second with ⟨rfl, rfl⟩ | wasSecond
      · exact isNew place first
      · exact owned.unique cell place other wasFirst wasSecond
  · intro cell place isThere
    rw [memory]
    rcases others cell place isThere with ⟨rfl, rfl⟩ | wasThere
    · rw [owner]
      exact owned.mine _ old was
    · exact owned.mine cell place wasThere

end

end Mpich.Nemesis.Fastbox.State.Owned

/-!
## The links of a node

The node seen from one sender and one receiver is a link. Every step of the node is a
step of each link, which stays as it is for most of them.
-/

namespace Mpich.Nemesis.Fastbox

variable {Proc Cell Content : Type*} [DecidableEq Proc]

/-- What a sender does on its link to a destination. -/
def Sending.link
    (memory : Cell → Packet Proc Content)
    (dest : Proc) : Sending Proc Cell Content → LinkSender Proc Content
  | writeFbox other payload => if other = dest then .boxing payload else .idle
  | setFlag other packet => if other = dest then .raising packet else .idle
  | enqueueCell other packet el =>
    if other = dest then .posting packet (memory el) else .idle
  | _ => .idle

/-- What a receiver holds of its link from a source. -/
def Receiving.link
    (memory : Cell → Packet Proc Content)
    (source : Proc) : Receiving Proc Cell → LinkHolder Proc Content
  | hasFbox other => if other = source then .box else .nothing
  | hasCell cell => if (memory cell).source = source then .cell (memory cell) else .nothing
  | _ => .nothing

theorem Receiving.link_hasFbox
    (memory : Cell → Packet Proc Content)
    (source other : Proc) :
    (Receiving.hasFbox other).link memory source = if other = source then .box else .nothing :=
  rfl

theorem Receiving.link_hasCell
    (memory : Cell → Packet Proc Content)
    (source : Proc)
    (cell : Cell) :
    (Receiving.hasCell cell).link memory source =
      if (memory cell).source = source then .cell (memory cell) else .nothing :=
  rfl

namespace State

/-- The packets from one source among cells. -/
def packetsFrom
    (memory : Cell → Packet Proc Content)
    (source : Proc)
    (cells : List Cell) : List (Packet Proc Content) :=
  (cells.map memory).filter (·.source = source)

/-- The link from one process to another. -/
def link
    (state : State Proc Cell Content)
    (source dest : Proc) : Link Proc Content where
  flag := state.flag source dest
  box := state.fbox source dest
  queue := packetsFrom state.memory source (state.recvQ dest)
  sendSeqno := state.sendSeqno source dest
  recvSeqno := state.recvSeqno dest source
  sent := state.sent source dest
  received := state.received source dest
  sender := (state.sending source).link state.memory dest
  holder := (state.receiving dest).link state.memory source

variable {state : State Proc Cell Content}

theorem update_apply
    {Value : Type*}
    (table : Proc → Proc → Value)
    (first second : Proc)
    (value : Value)
    (process other : Proc) :
    update table first second value process other =
      if process = first ∧ other = second then value else table process other := by
  unfold update
  by_cases isFirst : process = first
  · subst isFirst
    by_cases isSecond : other = second
    · subst isSecond
      simp
    · simp [isSecond]
  · simp [isFirst]

variable {process : Proc}

/-- A sender that does nothing on its links goes on to do nothing. -/
theorem link_goSending
    {place : Sending Proc Cell Content}
    (was : ∀ dest, (state.sending process).link state.memory dest = .idle)
    (isIdle : ∀ dest, place.link state.memory dest = .idle)
    (source dest : Proc) :
    (state.goSending process place).link source dest = state.link source dest := by
  unfold link goSending
  by_cases same : source = process
  · subst same
    simp [was, isIdle]
  · simp [same]

/-- A receiver that holds nothing goes on to hold nothing. -/
theorem link_goReceiving
    {place : Receiving Proc Cell}
    (was : ∀ source, (state.receiving process).link state.memory source = .nothing)
    (isNothing : ∀ source, place.link state.memory source = .nothing)
    (source dest : Proc) :
    (state.goReceiving process place).link source dest = state.link source dest := by
  unfold link goReceiving
  by_cases same : dest = process
  · subst same
    simp [was, isNothing]
  · simp [same]

/-- Every link makes a step. -/
def LinksStep
    (state next : State Proc Cell Content) : Prop :=
  ∀ source dest, Link.Step source (state.link source dest) (next.link source dest)

theorem LinksStep.of_eq
    {next : State Proc Cell Content}
    (same : ∀ source dest, next.link source dest = state.link source dest) :
    state.LinksStep next := by
  intro source dest
  rw [same source dest]
  exact .stay _

/-- One link of a sender makes a step and the others stay. -/
theorem LinksStep.of_sender
    {next : State Proc Cell Content}
    (process dest : Proc)
    (one : Link.Step process (state.link process dest) (next.link process dest))
    (own : ∀ last, dest ≠ last → last ≠ dest → next.link process last = state.link process last)
    (others : ∀ other, other ≠ process → ∀ last, next.link other last = state.link other last) :
    state.LinksStep next := by
  intro other last
  by_cases isProcess : other = process
  · subst isProcess
    by_cases isDest : dest = last
    · exact isDest ▸ one
    · rw [own last isDest (Ne.symm isDest)]
      exact .stay _
  · rw [others other isProcess]
    exact .stay _

/-- One link of a receiver makes a step and the others stay. -/
theorem LinksStep.of_receiver
    {next : State Proc Cell Content}
    (process source : Proc)
    (one : Link.Step source (state.link source process) (next.link source process))
    (own : ∀ other, source ≠ other → other ≠ source →
      next.link other process = state.link other process)
    (others : ∀ last, last ≠ process → ∀ other, next.link other last = state.link other last) :
    state.LinksStep next := by
  intro other last
  by_cases isProcess : last = process
  · subst isProcess
    by_cases isSource : source = other
    · exact isSource ▸ one
    · rw [own other isSource (Ne.symm isSource)]
      exact .stay _
  · rw [others last isProcess]
    exact .stay _

omit [DecidableEq Proc] in
theorem packetsFrom_congr
    [DecidableEq Proc] {memory later : Cell → Packet Proc Content}
    (source : Proc)
    {cells : List Cell}
    (same : ∀ cell ∈ cells, later cell = memory cell) :
    packetsFrom later source cells = packetsFrom memory source cells := by
  unfold packetsFrom
  rw [List.map_congr_left same]

variable {payload : Content}

attribute [local simp] link goSending goReceiving update_apply

section

attribute [local simp] Sending.link

/-- The fastbox is seen unlocked. -/
theorem testFbox_links
    {dest : Proc}
    (isPlace : state.sending process = .testFbox dest payload)
    (empty : state.flag process dest = false) :
    state.LinksStep (state.goSending process (.writeFbox dest payload)) := by
  refine .of_sender process dest ?_ ?_ ?_
  · have isNext : (state.goSending process (.writeFbox dest payload)).link process dest =
        { state.link process dest with sender := .boxing payload } := by
      simp
    rw [isNext]
    refine .seeEmpty _ payload ?_ empty
    simp [isPlace]
  · simp +contextual [isPlace]
  · simp +contextual

theorem writeFbox_links
    {dest : Proc}
    (isPlace : state.sending process = .writeFbox dest payload) :
    state.LinksStep ({ state with
      fbox := update state.fbox process dest
        ⟨process, state.sendSeqno process dest, payload, true⟩
      sendSeqno := update state.sendSeqno process dest
        (state.sendSeqno process dest + 1) }.goSending process
      (.setFlag dest ⟨process, state.sendSeqno process dest, payload, true⟩)) := by
  refine .of_sender process dest ?_ ?_ ?_
  · have stepped := @Link.Step.fillBox _ _ process (state.link process dest) payload
      (by simp [isPlace])
    convert stepped using 1
    simp
  · simp +contextual [isPlace]
  · simp +contextual

theorem setFlag_links
    {dest : Proc} {packet : Packet Proc Content}
    (isPlace : state.sending process = .setFlag dest packet) :
    state.LinksStep ({ state with
      flag := update state.flag process dest true
      sent := update state.sent process dest
        (state.sent process dest ++ [packet]) }.goSending
      process .idle) := by
  refine .of_sender process dest ?_ ?_ ?_
  · have stepped := @Link.Step.raise _ _ process (state.link process dest) packet
      (by simp [isPlace])
    convert stepped using 1
    simp
  · simp +contextual [isPlace]
  · simp +contextual

/-- The cell that is written is in the hands of its sender, so no link has it. -/
theorem writeCell_links [DecidableEq Cell]
    {setup : Cells Proc Cell}
    (owned : state.Owned setup)
    {dest : Proc} {first : Bool} {el : Cell}
    (isPlace : state.sending process = .writeCell dest payload first el) :
    state.LinksStep ({ state with
      memory := Function.update state.memory el
        ⟨process, state.sendSeqno process dest, payload, first⟩
      sendSeqno := update state.sendSeqno process dest
        (state.sendSeqno process dest + 1) }.goSending
      process (.enqueueCell dest ⟨process, state.sendSeqno process dest, payload, first⟩ el)) := by
  have inHand : state.At el (.sender process) := by
    change (state.sending process).cell = some el
    rw [isPlace]
    rfl
  have same : ∀ (packet : Packet Proc Content) (cell : Cell) (place : Place Proc),
      state.At cell place → place ≠ .sender process →
        Function.update state.memory el packet cell = state.memory cell := by
    intro packet cell place isThere notHand
    apply Function.update_of_ne
    rintro rfl
    exact notHand (owned.unique _ _ _ isThere inHand)
  have queue : ∀ (packet : Packet Proc Content) (source last : Proc),
      packetsFrom (Function.update state.memory el packet) source (state.recvQ last) =
        packetsFrom state.memory source (state.recvQ last) := fun packet source last =>
    packetsFrom_congr source fun cell member =>
      same packet cell (.queued last) member nofun
  have holder : ∀ (packet : Packet Proc Content) (source last : Proc),
      (state.receiving last).link (Function.update state.memory el packet) source =
        (state.receiving last).link state.memory source := by
    intro packet source last
    cases isHeld : state.receiving last with
    | hasCell cell =>
      have kept := same packet cell (.receiver last) isHeld nofun
      simp only [Receiving.link, kept]
    | _ => rfl
  have sender : ∀ (packet : Packet Proc Content) (other last : Proc), other ≠ process →
      (state.sending other).link (Function.update state.memory el packet) last =
        (state.sending other).link state.memory last := by
    intro packet other last differs
    cases isSending : state.sending other with
    | enqueueCell destination written cell =>
      have isThere : state.At cell (.sender other) := by
        change (state.sending other).cell = some cell
        rw [isSending]
        rfl
      have kept := same packet cell (.sender other) isThere fun isSame =>
        differs (Place.sender.inj isSame)
      simp only [Sending.link, kept]
    | _ => rfl
  refine .of_sender process dest ?_ ?_ ?_
  · have stepped := @Link.Step.fillCell _ _ process (state.link process dest)
      payload first (by simp [isPlace])
    convert stepped using 1
    simp [queue, holder]
  · simp +contextual [isPlace, queue, holder]
  · simp +contextual [-Sending.link, queue, holder, sender]

theorem enqueueCell_links
    {dest : Proc} {packet : Packet Proc Content} {el : Cell}
    (isPlace : state.sending process = .enqueueCell dest packet el)
    (isSource : (state.memory el).source = process) :
    state.LinksStep ({ state with
      recvQ := Function.update state.recvQ dest (state.recvQ dest ++ [el])
      sent := update state.sent process dest
        (state.sent process dest ++ [packet]) }.goSending
      process .testPrefetch) := by
  refine .of_sender process dest ?_ ?_ ?_
  · have stepped := @Link.Step.post _ _ process (state.link process dest)
      packet (state.memory el) (by simp [isPlace])
    convert stepped using 1
    simp [packetsFrom, isSource]
  · simp +contextual [isPlace]
  · intro other isProcess last
    have notSource : ¬ (state.memory el).source = other := fun isOther =>
      isProcess (isOther.symm.trans isSource)
    by_cases isDest : last = dest
    · subst isDest
      simp [isProcess, packetsFrom, notSource]
    · simp [isProcess, isDest]

end

variable (free : ∀ other, (state.receiving process).link state.memory other = .nothing)

include free in
theorem takeFbox_links
    {source : Proc}
    (isNext : state.matchesFbox process source = true) :
    state.LinksStep (state.takeFbox process source) := by
  unfold matchesFbox at isNext
  rw [Bool.and_eq_true, beq_iff_eq] at isNext
  refine .of_receiver process source ?_ ?_ ?_
  · have stepped := @Link.Step.takeBox _ _ source (state.link source process)
      (free source) isNext.1 isNext.2
    convert stepped using 1
    simp [takeFbox, Receiving.link]
  · simp +contextual [takeFbox, Receiving.link_hasFbox, free]
  · simp +contextual [takeFbox]

include free in
theorem dequeue_links
    {cell : Cell} {rest : List Cell}
    (isQueue : state.recvQ process = cell :: rest)
    (isNext : (state.memory cell).seqno = state.recvSeqno process (state.memory cell).source) :
    state.LinksStep ({ state with
      recvQ := Function.update state.recvQ process rest
      recvSeqno := update state.recvSeqno process (state.memory cell).source
        (state.recvSeqno process (state.memory cell).source + 1)
      received := update state.received (state.memory cell).source process
        (state.received (state.memory cell).source process ++
          [state.memory cell]) }.goReceiving process (.hasCell cell)) := by
  refine .of_receiver process (state.memory cell).source ?_ ?_ ?_
  · have stepped := @Link.Step.takeCell _ _ (state.memory cell).source
      (state.link (state.memory cell).source process) (state.memory cell)
      (packetsFrom state.memory (state.memory cell).source rest) (free _)
      (by simp [isQueue, packetsFrom]) isNext
    convert stepped using 1
    simp [Receiving.link]
  · simp +contextual [Receiving.link_hasCell, free, isQueue, packetsFrom]
  · simp +contextual

theorem hasFbox_links
    {source : Proc}
    (isPlace : state.receiving process = .hasFbox source) :
    state.LinksStep ({ state with
      flag := update state.flag source process false }.goReceiving process .idle) := by
  refine .of_receiver process source ?_ ?_ ?_
  · have stepped := @Link.Step.releaseBox _ _ source (state.link source process)
      (by simp [isPlace, Receiving.link])
    convert stepped using 1
    simp [Receiving.link]
  · simp +contextual [isPlace, Receiving.link]
  · simp +contextual

theorem hasCell_links
    {cell : Cell}
    (isPlace : state.receiving process = .hasCell cell)
    (freeQ : Proc → List Cell) :
    state.LinksStep ({ state with freeQ := freeQ }.goReceiving process .idle) := by
  refine .of_receiver process (state.memory cell).source ?_ ?_ ?_
  · have stepped := @Link.Step.releaseCell _ _ (state.memory cell).source
      (state.link (state.memory cell).source process) (state.memory cell)
      (by simp [isPlace, Receiving.link])
    convert stepped using 1
    simp [Receiving.link]
  · simp +contextual [isPlace, Receiving.link]
  · simp +contextual

end Mpich.Nemesis.Fastbox.State
