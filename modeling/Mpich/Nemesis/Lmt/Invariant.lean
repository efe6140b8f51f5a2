import Mpich.Nemesis.Lmt.Defs

/-!
# The invariant of the copy buffer

The buffer is free, or being taken, or moving the transfer that `remote_req_id`
names, or being released by the receiver of that transfer. While it moves a
transfer, the receiver has copied at most as many chunks as the sender, and is at
most the number of buffers behind.
-/

namespace Mpich.Nemesis.Lmt

open Function

variable {Handle : Type*}

namespace Place

/-- Outside of the steps that change the owner. -/
def Quiet : Place Handle → Prop
  | resetFlags | writeReqId | releasing => False
  | _ => True

theorem Taking.not_following
    {place : Place Handle}
    (taking : place.Taking) :
    ¬ place.Following := by
  cases place with
  | waitReqId | search => exact taking.elim
  | _ => exact id

theorem Taking.not_quiet
    {place : Place Handle}
    (taking : place.Taking) :
    ¬ place.Quiet := by
  cases place with
  | resetFlags | writeReqId => exact id
  | _ => exact taking.elim

end Place

/-- The sender has copied so many chunks of the transfer. -/
inductive Sent
    (mine : Process Handle)
    (transfer : Transfer Handle) : Nat → Prop
  | before : mine.lmtActive = none → Sent mine transfer 0
  | during : mine.lmtActive = some transfer → mine.chunk < transfer.sendChunks →
      Sent mine transfer mine.chunk
  | after : mine.lmtActive = none → transfer ∈ mine.finished →
      Sent mine transfer transfer.sendChunks

/-- The receiver has copied so many chunks of the transfer. -/
inductive Received
    (mine : Process Handle)
    (transfer : Transfer Handle) : Nat → Prop
  | before : mine.lmtActive = none → Received mine transfer 0
  | during : mine.lmtActive = some transfer → mine.chunk ≤ transfer.recvChunks →
      Received mine transfer mine.chunk

/-- The buffers that are full hold the chunks between the two counts. -/
structure Buffered
    (flag : Nat → Bool)
    (filled drained : Nat) : Prop where
  drained_le : drained ≤ filled
  filled_le : filled ≤ drained + numBufs
  full : ∀ buffer, flag buffer = true ↔
    ∃ chunk, drained ≤ chunk ∧ chunk < filled ∧ chunk % numBufs = buffer

theorem Buffered.empty :
    Buffered (fun _ => false) 0 0 where
  drained_le := le_rfl
  filled_le := Nat.zero_le _
  full := by
    intro buffer
    constructor
    · exact nofun
    · rintro ⟨chunk, -, impossible, -⟩
      exact absurd impossible (Nat.not_lt_zero chunk)

variable {drained : Nat}

theorem Buffered.fill
    {flag : Nat → Bool} {filled : Nat}
    (buffered : Buffered flag filled drained)
    (empty : flag (filled % numBufs) = false) :
    Buffered (update flag (filled % numBufs) true) (filled + 1) drained := by
  have room : filled < drained + numBufs := by
    apply buffered.filled_le.lt_of_ne
    intro isFull
    have oldest : flag (filled % numBufs) = true := by
      rw [buffered.full]
      refine ⟨drained, le_rfl, ?_, ?_⟩
      · rw [isFull]
        exact Nat.lt_add_of_pos_right (by decide)
      · rw [isFull, Nat.add_mod_right]
    rw [empty] at oldest
    nomatch oldest
  constructor
  case drained_le => exact buffered.drained_le.trans (Nat.le_succ filled)
  case filled_le => exact room
  case full =>
    intro buffer
    rw [update_apply]
    split
    case isTrue same =>
      exact iff_of_true rfl ⟨filled, buffered.drained_le, Nat.lt_succ_self filled, same.symm⟩
    case isFalse other =>
      rw [buffered.full]
      constructor
      · rintro ⟨chunk, lower, upper, isBuffer⟩
        exact ⟨chunk, lower, Nat.lt_succ_of_lt upper, isBuffer⟩
      · rintro ⟨chunk, lower, upper, isBuffer⟩
        refine ⟨chunk, lower, (Nat.le_of_lt_succ upper).lt_of_ne ?_, isBuffer⟩
        rintro rfl
        exact other isBuffer.symm

theorem Buffered.drain
    {flag : Nat → Bool} {filled : Nat}
    (buffered : Buffered flag filled drained)
    (full : flag (drained % numBufs) = true) :
    Buffered (update flag (drained % numBufs) false) filled (drained + 1) := by
  have some : drained < filled := by
    obtain ⟨chunk, lower, upper, -⟩ := (buffered.full _).mp full
    exact lower.trans_lt upper
  have near := buffered.filled_le
  constructor
  case drained_le => exact some
  case filled_le => omega
  case full =>
    intro buffer
    rw [update_apply]
    split
    case isTrue same =>
      refine iff_of_false nofun ?_
      rintro ⟨chunk, lower, upper, isBuffer⟩
      rw [same] at isBuffer
      unfold numBufs at isBuffer near
      omega
    case isFalse other =>
      rw [buffered.full]
      constructor
      · rintro ⟨chunk, lower, upper, isBuffer⟩
        refine ⟨chunk, Nat.succ_le_of_lt (lower.lt_of_ne ?_), upper, isBuffer⟩
        rintro rfl
        exact other isBuffer.symm
      · rintro ⟨chunk, lower, upper, isBuffer⟩
        exact ⟨chunk, Nat.le_of_succ_le lower, upper, isBuffer⟩

/-- The buffer moves a transfer, which both sides know. -/
structure Moving
    (state : State Handle)
    (owner : Bool)
    (transfer : Transfer Handle)
    (filled drained : Nat) : Prop where
  rank : state.rank = some owner
  remoteReqId : state.remoteReqId = some (transfer.handle !owner)
  named : state.named = some transfer
  enough : transfer.sendChunks ≤ transfer.recvChunks
  quiet : ∀ process, (state.process process).place.Quiet
  notFollowing : ¬ (state.process owner).place.Following
  sent : Sent (state.process transfer.sender) transfer filled
  received : Received (state.process transfer.receiver) transfer drained
  buffered : Buffered state.flag filled drained

/-- What the owner and `remote_req_id` say about the two processes. -/
inductive Phase
    (state : State Handle) : Prop
  | free :
      state.rank = none → state.remoteReqId = none →
        (∀ process, (state.process process).lmtActive = none) →
        (∀ process, (state.process process).place.Quiet) →
        (∀ process, (state.process process).place ≠ .waitReqId) → Phase state
  | taking (owner : Bool) :
      state.rank = some owner → state.remoteReqId = none → (state.process owner).place.Taking →
        ((state.process owner).place = .writeReqId → state.flag = fun _ => false) →
        (∀ process, (state.process process).lmtActive = none) →
        (state.process !owner).place.Quiet → Phase state
  | moving (owner : Bool) (transfer : Transfer Handle) (filled drained : Nat) :
      Moving state owner transfer filled drained → Phase state
  | releasing (owner : Bool) (transfer : Transfer Handle) :
      state.rank = some owner → state.remoteReqId = none →
        (state.process transfer.receiver).place = .releasing →
        (state.process transfer.receiver).lmtActive = some transfer →
        (state.process transfer.sender).lmtActive = none →
        (state.process transfer.sender).place.Quiet →
        (state.process transfer.sender).place ≠ .waitReqId →
        ¬ (state.process owner).place.Following → Phase state

/-- The transfers of a process, at each place that they may be. -/
def Process.transfers
    (mine : Process Handle) : List (Transfer Handle) :=
  mine.cts ++ (mine.lmtQueue ++ (mine.lmtActive.toList ++ mine.finished))

/-- What holds of a process by itself. -/
structure Tidy
    (started : List (Transfer Handle))
    (mine : Process Handle) : Prop where
  nodup : mine.transfers.Nodup
  known : ∀ transfer ∈ mine.transfers, transfer ∈ started
  /-- A process that looks for a transfer has none. -/
  busy : mine.lmtActive ≠ none → mine.place = .idle ∨ mine.place = .releasing
  waiting : mine.place = .cas ∨ mine.place.Taking → mine.lmtQueue ≠ []
  search : ∀ passed rest, mine.place = .search passed rest → mine.lmtQueue = passed ++ rest

/-- A process that looks for a transfer has none. -/
theorem Tidy.inactive
    {started : List (Transfer Handle)} {mine : Process Handle}
    (tidy : Tidy started mine)
    (notIdle : mine.place ≠ .idle)
    (notReleasing : mine.place ≠ .releasing) :
    mine.lmtActive = none := by
  by_contra active
  rcases tidy.busy active with isIdle | isReleasing
  · exact notIdle isIdle
  · exact notReleasing isReleasing

/-- The invariant. -/
structure Invariant
    (state : State Handle) : Prop where
  phase : Phase state
  tidy : ∀ process, Tidy state.started (state.process process)
  chunks : ∀ transfer ∈ state.started, transfer.sendChunks ≤ transfer.recvChunks

section

variable
    (state : State Handle)
    (process : Bool)
    (after : Process Handle)

include state process after

@[simp] theorem State.put_process :
    (state.put process after).process process = after :=
  update_self ..

@[simp] theorem State.put_other :
    (state.put process after).process (!process) = state.process !process :=
  update_of_ne (Bool.not_ne_self process) ..

@[simp] theorem State.put_not :
    (state.put (!process) after).process process = state.process process :=
  update_of_ne (Bool.self_ne_not process) ..

end

/-- A statement about both processes. -/
theorem forall_process
    (process : Bool)
    {holds : Bool → Prop}
    (mine : holds process)
    (other : holds !process) :
    ∀ each, holds each := by
  intro each
  rcases eq_or_ne each process with rfl | different
  · exact mine
  · rw [Bool.eq_not.mpr different]
    exact other

variable {state : State Handle}

/-- What the change of a process keeps is kept for both. -/
theorem State.put_congr
    {Value : Type*}
    (field : Process Handle → Value)
    {process : Bool} {after : Process Handle}
    (same : field after = field (state.process process))
    (each : Bool) :
    field ((state.put process after).process each) = field (state.process each) := by
  refine @forall_process process
    (fun each => field ((state.put process after).process each) =
      field (state.process each)) ?_ ?_ each
  · rw [State.put_process]
    exact same
  · rw [State.put_other]

variable {transfer : Transfer Handle}

theorem Sent.congr
    {mine after : Process Handle} {filled : Nat}
    (sent : Sent mine transfer filled)
    (active : after.lmtActive = mine.lmtActive)
    (chunk : after.chunk = mine.chunk)
    (finished : after.finished = mine.finished) :
    Sent after transfer filled := by
  cases sent with
  | before inactive => exact .before (active.trans inactive)
  | during isActive less =>
    rw [← chunk]
    exact .during (active.trans isActive) (chunk ▸ less)
  | after inactive isFinished =>
    exact .after (active.trans inactive) (finished ▸ isFinished)

theorem Received.congr
    {mine after : Process Handle}
    (received : Received mine transfer drained)
    (active : after.lmtActive = mine.lmtActive)
    (chunk : after.chunk = mine.chunk) :
    Received after transfer drained := by
  cases received with
  | before inactive => exact .before (active.trans inactive)
  | during isActive le =>
    rw [← chunk]
    exact .during (active.trans isActive) (chunk ▸ le)

/-- A process that goes from one quiet place to another, or starts a transfer. -/
theorem Phase.move
    {next : State Handle} {process : Bool}
    (phase : Phase state)
    (rank : next.rank = state.rank)
    (reqId : next.remoteReqId = state.remoteReqId)
    (flag : next.flag = state.flag)
    (named : next.named = state.named)
    (active : ∀ each, (next.process each).lmtActive = (state.process each).lmtActive)
    (chunk : ∀ each, (next.process each).chunk = (state.process each).chunk)
    (finished : ∀ each, (next.process each).finished = (state.process each).finished)
    (other : (next.process !process).place = (state.process !process).place)
    (before : (state.process process).place.Quiet)
    (after : (next.process process).place.Quiet)
    (waits : (next.process process).place = .waitReqId →
      state.rank = some !process ∧ (state.process !process).place ≠ .releasing)
    (follows : (next.process process).place.Following → state.rank ≠ some process) :
    Phase next := by
  have quiet (known : ∀ each, (state.process each).place.Quiet) :
      ∀ each, (next.process each).place.Quiet := by
    refine @forall_process process (fun each => (next.process each).place.Quiet) after ?_
    rw [other]
    exact known _
  have following {owner : Bool}
      (isOwner : state.rank = some owner)
      (known : ¬ (state.process owner).place.Following) :
      ¬ (next.process owner).place.Following := by
    rcases eq_or_ne owner process with rfl | different
    · exact fun isFollowing => follows isFollowing isOwner
    · rw [Bool.eq_not.mpr different, other, ← Bool.eq_not.mpr different]
      exact known
  cases phase with
  | free isFree isNone inactive allQuiet noWait =>
    refine .free (rank.trans isFree) (reqId.trans isNone)
      (fun each => (active each).trans (inactive each)) (quiet allQuiet) ?_
    refine @forall_process process
      (fun each => (next.process each).place ≠ .waitReqId) ?_ ?_
    · intro isWait
      nomatch isFree.symm.trans (waits isWait).1
    · rw [other]
      exact noWait _
  | taking owner isOwner isNone taking cleared inactive otherQuiet =>
    have different : owner ≠ process := by
      rintro rfl
      exact taking.not_quiet before
    obtain rfl := Bool.eq_not.mpr different
    refine .taking (!process) (rank.trans isOwner) (reqId.trans isNone) ?_ ?_
      (fun each => (active each).trans (inactive each)) ?_
    · rw [other]
      exact taking
    · rw [other, flag]
      exact cleared
    · rw [Bool.not_not]
      exact after
  | moving owner transfer filled drained moving =>
    refine .moving owner transfer filled drained ?_
    constructor
    case rank => exact rank.trans moving.rank
    case remoteReqId => exact reqId.trans moving.remoteReqId
    case named => exact named.trans moving.named
    case enough => exact moving.enough
    case quiet => exact quiet moving.quiet
    case notFollowing => exact following moving.rank moving.notFollowing
    case sent => exact moving.sent.congr (active _) (chunk _) (finished _)
    case received => exact moving.received.congr (active _) (chunk _)
    case buffered => exact flag ▸ moving.buffered
  | releasing owner transfer isOwner isNone releasing isActive inactive senderQuiet
      noWait notFollowing =>
      have different : transfer.receiver ≠ process := by
        rintro rfl
        rw [releasing] at before
        exact before
      have isSender : transfer.sender = process := by
        have isOther := Bool.eq_not.mpr different
        exact Bool.not_inj isOther
      have isReceiver : transfer.receiver = !process := Bool.eq_not.mpr different
      refine .releasing owner transfer (rank.trans isOwner) (reqId.trans isNone) ?_
        ((active _).trans isActive) ((active _).trans inactive) ?_ ?_
        (following isOwner notFollowing)
      · rw [isReceiver] at releasing ⊢
        exact other.trans releasing
      · rw [isSender]
        exact after
      · rw [isSender]
        intro isWait
        apply (waits isWait).2
        rw [← isReceiver]
        exact releasing

/-- A process that follows another one is not the owner. -/
theorem Phase.rank_ne
    {process : Bool}
    (phase : Phase state)
    (follows : (state.process process).place.Following) :
    state.rank ≠ some process := by
  intro isOwner
  cases phase with
  | free isFree => nomatch isFree.symm.trans isOwner
  | taking owner isTaken _ taking =>
    obtain rfl := Option.some.inj (isTaken.symm.trans isOwner)
    exact taking.not_following follows
  | moving owner transfer filled drained moving =>
    obtain rfl := Option.some.inj (moving.rank.symm.trans isOwner)
    exact moving.notFollowing follows
  | releasing owner transfer isTaken _ _ _ _ _ _ notFollowing =>
    obtain rfl := Option.some.inj (isTaken.symm.trans isOwner)
    exact notFollowing follows

/-- Nobody has another transfer than the one that the buffer moves. -/
theorem Moving.active_eq
    {owner process : Bool}
    {active : Transfer Handle} {filled : Nat}
    (moving : Moving state owner transfer filled drained)
    (isActive : (state.process process).lmtActive = some active) :
    transfer = active := by
  rcases eq_or_ne process transfer.sender with rfl | different
  · cases moving.sent with
    | before inactive => nomatch inactive.symm.trans isActive
    | during known => exact Option.some.inj (known.symm.trans isActive)
    | after inactive => nomatch inactive.symm.trans isActive
  · obtain rfl := Bool.eq_not.mpr different
    cases moving.received with
    | before inactive => nomatch inactive.symm.trans isActive
    | during known => exact Option.some.inj (known.symm.trans isActive)

/-- A process outside of the release has an active transfer only while the buffer
moves it. -/
theorem Phase.moving_of_active
    {process : Bool}
    (phase : Phase state)
    (isActive : (state.process process).lmtActive = some transfer)
    (isIdle : (state.process process).place = .idle) :
    ∃ owner filled drained, Moving state owner transfer filled drained := by
  cases phase with
  | free _ _ inactive => nomatch (inactive process).symm.trans isActive
  | taking _ _ _ _ _ inactive => nomatch (inactive process).symm.trans isActive
  | moving owner other filled drained moving =>
    obtain rfl := moving.active_eq isActive
    exact ⟨owner, filled, drained, moving⟩
  | releasing owner other _ _ releasing active inactive =>
    rcases eq_or_ne process other.sender with rfl | different
    · nomatch inactive.symm.trans isActive
    · obtain rfl := Bool.eq_not.mpr different
      nomatch isIdle.symm.trans releasing

/-- A process that takes the buffer is its owner, and nobody has a transfer. -/
theorem Phase.owner_of_taking
    {process : Bool}
    (phase : Phase state)
    (taking : (state.process process).place.Taking) :
    state.rank = some process ∧ state.remoteReqId = none ∧
      ((state.process process).place = .writeReqId → state.flag = fun _ => false) ∧
      (∀ each, (state.process each).lmtActive = none) ∧ (state.process !process).place.Quiet := by
  cases phase with
  | free _ _ _ quiet => exact absurd (quiet process) taking.not_quiet
  | taking owner isOwner isNone _ cleared inactive quiet =>
    have same : process = owner := by
      by_contra different
      rw [Bool.eq_not.mpr different] at taking
      exact taking.not_quiet quiet
    subst same
    exact ⟨isOwner, isNone, cleared, inactive, quiet⟩
  | moving _ _ _ _ moving => exact absurd (moving.quiet process) taking.not_quiet
  | releasing owner transfer _ _ releasing _ _ quiet =>
    rcases eq_or_ne process transfer.sender with rfl | different
    · exact absurd quiet taking.not_quiet
    · obtain rfl := Bool.eq_not.mpr different
      have isReleasing : (state.process !transfer.sender).place = .releasing := releasing
      rw [isReleasing] at taking
      exact taking.elim

end Mpich.Nemesis.Lmt

namespace Mpich.Nemesis.Lmt

open List

variable {Handle : Type*} {state : State Handle} {process : Bool}

theorem Tidy.of_perm
    {started : List (Transfer Handle)} {mine after : Process Handle}
    (tidy : Tidy started mine)
    (perm : after.transfers.Perm mine.transfers)
    (busy : after.lmtActive ≠ none → after.place = .idle ∨ after.place = .releasing)
    (waiting : after.place = .cas ∨ after.place.Taking → after.lmtQueue ≠ [])
    (search : ∀ passed rest, after.place = .search passed rest → after.lmtQueue = passed ++ rest) :
    Tidy started after where
  nodup := perm.nodup_iff.mpr tidy.nodup
  known := fun transfer member => tidy.known transfer (perm.subset member)
  busy := busy
  waiting := waiting
  search := search

variable {transfer : Transfer Handle}

/-- A new transfer is put behind the others. -/
theorem Tidy.start
    {started : List (Transfer Handle)}
    {mine after : Process Handle}
    (tidy : Tidy started mine)
    (fresh : transfer ∉ started)
    (perm : after.transfers.Perm (transfer :: mine.transfers))
    (active : after.lmtActive = mine.lmtActive)
    (place : after.place = mine.place)
    (queue : after.lmtQueue = mine.lmtQueue ∨ mine.place = .idle ∧ after.lmtQueue ≠ []) :
    Tidy (started ++ [transfer]) after where
  nodup := by
    rw [perm.nodup_iff, nodup_cons]
    exact ⟨fun member => fresh (tidy.known transfer member), tidy.nodup⟩
  known := by
    intro other member
    rcases mem_cons.mp (perm.subset member) with rfl | before
    · exact mem_append_right _ (mem_singleton_self other)
    · exact mem_append_left _ (tidy.known other before)
  busy := by
    rw [active, place]
    exact tidy.busy
  waiting := by
    rcases queue with same | ⟨-, nonempty⟩
    · rw [same, place]
      exact tidy.waiting
    · exact fun _ => nonempty
  search := by
    rcases queue with same | ⟨isIdle, -⟩
    · rw [same, place]
      exact tidy.search
    · intro passed rest isSearch
      rw [place, isIdle] at isSearch
      nomatch isSearch

variable (invariant : Invariant state)

include invariant

/-- A step that changes one process. -/
theorem Invariant.put
    {next : State Handle}
    (started : next.started = state.started)
    (phase : Phase next)
    (mine : Tidy state.started (next.process process))
    (other : next.process (!process) = state.process !process) :
    Invariant next where
  phase := phase
  tidy := by
    rw [started]
    refine @forall_process process (fun each => Tidy state.started (next.process each)) mine ?_
    rw [other]
    exact invariant.tidy _
  chunks := by
    rw [started]
    exact invariant.chunks

/-- A process goes from one quiet place to another. -/
theorem Invariant.moveTo
    (place : Place Handle)
    (before : (state.process process).place.Quiet)
    (after : place.Quiet)
    (inactive : (state.process process).lmtActive = none)
    (nonempty : place = .cas → (state.process process).lmtQueue ≠ [])
    (search : ∀ passed rest, place = .search passed rest →
      (state.process process).lmtQueue = passed ++ rest)
    (waits : place = .waitReqId →
      state.rank = some !process ∧ (state.process !process).place ≠ .releasing)
    (follows : place.Following → state.rank ≠ some process) :
    Invariant (state.put process { state.process process with place := place }) := by
  refine @Invariant.put _ state process invariant _ rfl ?_ ?_ (State.put_other ..)
  · refine @Phase.move _ state _ process invariant.phase rfl rfl rfl rfl
      (State.put_congr Process.lmtActive rfl) (State.put_congr Process.chunk rfl)
      (State.put_congr Process.finished rfl) ?_ before ?_ ?_ ?_
    · rw [State.put_other]
    · rw [State.put_process]
      exact after
    · rw [State.put_process]
      exact waits
    · rw [State.put_process]
      exact follows
  · rw [State.put_process]
    refine (invariant.tidy process).of_perm (List.Perm.refl _) ?_ ?_ search
    · exact fun active => absurd inactive active
    · rintro (isCas | taking)
      · exact nonempty isCas
      · exact absurd after taking.not_quiet

/-- A process comes back from `get_next_req` without a transfer. -/
theorem Invariant.toIdle
    (before : (state.process process).place.Quiet)
    (inactive : (state.process process).lmtActive = none) :
    Invariant (state.put process { state.process process with place := .idle }) :=
  invariant.moveTo .idle before trivial inactive nofun nofun nofun
    fun follows => follows.elim

/-- The receiver starts a transfer, and tells the sender. -/
theorem Invariant.startRecv
    (idle : (state.process transfer.receiver).place = .idle)
    (fresh : transfer ∉ state.started)
    (enough : transfer.sendChunks ≤ transfer.recvChunks)
    {next : State Handle}
    (stepped : next =
      { (state.put transfer.receiver { state.process transfer.receiver with
            lmtQueue := (state.process transfer.receiver).lmtQueue ++ [transfer] }).put
          transfer.sender { state.process transfer.sender with
            cts := (state.process transfer.sender).cts ++ [transfer] } with
        started := state.started ++ [transfer] }) :
    Invariant next := by
  have isSender : next.process transfer.sender = { state.process transfer.sender with
      cts := (state.process transfer.sender).cts ++ [transfer] } := by
    rw [stepped]
    exact State.put_process ..
  have isReceiver : next.process (!transfer.sender) =
      { state.process transfer.receiver with
        lmtQueue := (state.process transfer.receiver).lmtQueue ++ [transfer] } := by
    rw [stepped]
    exact (State.put_other ..).trans (State.put_process ..)
  have isStarted : next.started = state.started ++ [transfer] := by
    rw [stepped]
  constructor
  case phase =>
    have rank : next.rank = state.rank := by
      rw [stepped]
      rfl
    have reqId : next.remoteReqId = state.remoteReqId := by
      rw [stepped]
      rfl
    have flag : next.flag = state.flag := by
      rw [stepped]
      rfl
    have named : next.named = state.named := by
      rw [stepped]
      rfl
    refine @Phase.move _ state next transfer.receiver invariant.phase rank reqId flag
      named ?_ ?_ ?_ ?_ ?_ ?_ ?_ ?_
    · exact @forall_process transfer.sender (fun _ => _ = _) (by rw [isSender])
        (by rw [isReceiver]; rfl)
    · exact @forall_process transfer.sender (fun _ => _ = _) (by rw [isSender])
        (by rw [isReceiver]; rfl)
    · exact @forall_process transfer.sender (fun _ => _ = _) (by rw [isSender])
        (by rw [isReceiver]; rfl)
    · unfold Transfer.receiver
      rw [Bool.not_not, isSender]
    · rw [idle]
      trivial
    · unfold Transfer.receiver at idle ⊢
      rw [isReceiver]
      simp only [Transfer.receiver, idle]
      trivial
    · intro isWait
      unfold Transfer.receiver at isWait idle
      rw [isReceiver] at isWait
      nomatch idle.symm.trans isWait
    · intro follows
      unfold Transfer.receiver at follows idle
      rw [isReceiver] at follows
      simp only [Transfer.receiver, idle] at follows
      exact follows.elim
  case tidy =>
    rw [isStarted]
    refine @forall_process transfer.sender
      (fun each => Tidy (state.started ++ [transfer]) (next.process each)) ?_ ?_
    · rw [isSender]
      refine (invariant.tidy transfer.sender).start fresh ?_ rfl rfl (.inl rfl)
      unfold Process.transfers
      rw [append_assoc, singleton_append]
      exact perm_middle
    · rw [isReceiver]
      refine (invariant.tidy transfer.receiver).start fresh ?_ rfl rfl
        (.inr ⟨idle, append_ne_nil_of_right_ne_nil _ (cons_ne_nil _ _)⟩)
      unfold Process.transfers
      rw [append_assoc (Process.lmtQueue _), singleton_append, ← append_assoc, ← append_assoc]
      exact perm_middle
  case chunks =>
    rw [isStarted]
    intro other member
    rcases mem_append.mp member with before | isLast
    · exact invariant.chunks other before
    · rw [mem_singleton.mp isLast]
      exact enough

/-- The sender handles a CTS packet. -/
theorem Invariant.startSend
    {rest : List (Transfer Handle)}
    (idle : (state.process process).place = .idle)
    (isCts : (state.process process).cts = transfer :: rest) :
    Invariant (state.put process { state.process process with
      cts := rest
      lmtQueue := (state.process process).lmtQueue ++ [transfer] }) := by
  refine @Invariant.put _ state process invariant _ rfl ?_ ?_ (State.put_other ..)
  · refine @Phase.move _ state _ process invariant.phase rfl rfl rfl rfl
      (State.put_congr Process.lmtActive rfl) (State.put_congr Process.chunk rfl)
      (State.put_congr Process.finished rfl) ?_ ?_ ?_ ?_ ?_
    · rw [State.put_other]
    · rw [idle]
      trivial
    · rw [State.put_process]
      simp only [idle]
      trivial
    · rw [State.put_process]
      intro isWait
      nomatch idle.symm.trans isWait
    · rw [State.put_process]
      simp only [idle]
      exact fun follows => follows.elim
  · rw [State.put_process]
    refine (invariant.tidy process).of_perm ?_ ?_ ?_ ?_
    · unfold Process.transfers
      rw [isCts, append_assoc (Process.lmtQueue _), singleton_append,
        ← append_assoc, cons_append, ← append_assoc]
      exact perm_middle
    · exact fun _ => .inl idle
    · exact fun _ => append_ne_nil_of_right_ne_nil _ (cons_ne_nil _ _)
    · intro passed later isSearch
      nomatch idle.symm.trans isSearch

end Mpich.Nemesis.Lmt
