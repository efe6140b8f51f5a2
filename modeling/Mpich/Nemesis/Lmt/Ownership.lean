import Mpich.Nemesis.Lmt.Invariant

/-!
# The owner of the copy buffer strands nobody

In a run of careful steps the copy buffer has at most one owner, both sides move
the transfer that `remote_req_id` names, and a process waits for a valid
`remote_req_id` only while the owner is about to write it.
-/

namespace Mpich.Nemesis.Lmt

open List

variable {Handle : Type*} {state : State Handle} {process : Bool}

/-- A statement about both processes, after a step of one of them. -/
theorem State.forall_put
    (holds : Process Handle → Prop)
    {after : Process Handle}
    (mine : holds after)
    (other : holds (state.process !process)) :
    ∀ each, holds ((state.put process after).process each) := by
  refine forall_process process ?_ ?_
  · rw [State.put_process]
    exact mine
  · rw [State.put_other]
    exact other

section

variable (invariant : Invariant state)

include invariant

theorem Invariant.take
    (isCas : (state.process process).place = .cas)
    (free : state.rank = none) :
    Invariant { state.put process
        { state.process process with place := .resetFlags } with
      rank := some process } := by
  refine @Invariant.put _ state process invariant _ rfl ?_ ?_ (State.put_other ..)
  · cases invariant.phase with
    | free _ isNone inactive quiet =>
      refine .taking process rfl isNone ?_ ?_ ?_ ?_
      · simp only [State.put_process]
        trivial
      · simp only [State.put_process]
        exact nofun
      · exact State.forall_put (·.lmtActive = none) (inactive process) (inactive _)
      · simp only [State.put_other]
        exact quiet _
    | taking _ isOwner => nomatch free.symm.trans isOwner
    | moving _ _ _ _ moving => nomatch free.symm.trans moving.rank
    | releasing _ _ isOwner => nomatch free.symm.trans isOwner
  · simp only [State.put_process]
    have tidy := invariant.tidy process
    refine tidy.of_perm (List.Perm.refl _) ?_ ?_ nofun
    · intro active
      rcases tidy.busy active with isPlace | isPlace <;> nomatch isCas.symm.trans isPlace
    · exact fun _ => tidy.waiting (.inl isCas)

theorem Invariant.resetFlags
    (isReset : (state.process process).place = .resetFlags) :
    Invariant (state.clearFlags.put process
      { state.process process with place := .writeReqId }) := by
  have taking : (state.process process).place.Taking := by
    rw [isReset]
    trivial
  obtain ⟨isOwner, isNone, -, inactive, quiet⟩ := invariant.phase.owner_of_taking taking
  refine @Invariant.put _ state process invariant _ rfl ?_ ?_ (State.put_other ..)
  · refine .taking process isOwner isNone ?_ (fun _ => rfl) ?_ ?_
    · simp only [State.put_process]
      trivial
    · exact State.forall_put (·.lmtActive = none) (inactive process) (inactive _)
    · simp only [State.put_other]
      exact quiet
  · simp only [State.put_process]
    have tidy := invariant.tidy process
    refine tidy.of_perm (List.Perm.refl _) ?_ ?_ nofun
    · exact fun active => absurd (inactive process) active
    · exact fun _ => tidy.waiting (.inr taking)

variable {transfer : Transfer Handle}

/-- The owner chooses the transfer at the head of its queue. -/
theorem Invariant.writeReqId
    {rest : List (Transfer Handle)}
    (isWrite : (state.process process).place = .writeReqId)
    (isQueue : (state.process process).lmtQueue = transfer :: rest) :
    Invariant { state.put process { state.process process with
        lmtQueue := rest
        lmtActive := some transfer
        chunk := 0
        place := .idle } with
      remoteReqId := some (transfer.handle !process)
      named := some transfer } := by
  have taking : (state.process process).place.Taking := by
    rw [isWrite]
    trivial
  obtain ⟨isOwner, isNone, cleared, inactive, quiet⟩ := invariant.phase.owner_of_taking taking
  have tidy := invariant.tidy process
  have started : transfer ∈ state.started := by
    apply tidy.known
    unfold Process.transfers
    rw [isQueue]
    exact mem_append_right _ (mem_append_left _ mem_cons_self)
  refine @Invariant.put _ state process invariant _ rfl ?_ ?_ (State.put_other ..)
  · refine .moving process transfer 0 0 ?_
    constructor
    case rank => exact isOwner
    case remoteReqId => rfl
    case named => rfl
    case enough => exact invariant.chunks transfer started
    case quiet => exact State.forall_put (·.place.Quiet) trivial quiet
    case notFollowing =>
      simp only [State.put_process]
      exact id
    case sent =>
      rcases eq_or_ne transfer.sender process with isSender | different
      · simp only [isSender, State.put_process]
        exact .during rfl transfer.sends
      · rw [Bool.eq_not.mpr different]
        simp only [State.put_other]
        exact .before (inactive _)
    case received =>
      rcases eq_or_ne transfer.receiver process with isReceiver | different
      · simp only [isReceiver, State.put_process]
        exact .during rfl (Nat.zero_le _)
      · rw [Bool.eq_not.mpr different]
        simp only [State.put_other]
        exact .before (inactive _)
    case buffered =>
      have isClear : state.flag = fun _ => false := cleared isWrite
      exact isClear ▸ Buffered.empty
  · simp only [State.put_process]
    refine tidy.of_perm ?_ (fun _ => .inl rfl) ?_ nofun
    · unfold Process.transfers
      rw [isQueue, inactive process]
      exact List.Perm.append_left _ perm_middle
    · exact Or.rec nofun False.elim

/-- A search that finds the handle of the named transfer. -/
theorem Invariant.found
    {passed rest : List (Transfer Handle)}
    (isSearch : (state.process process).place = .search passed (transfer :: rest))
    (isReq : state.remoteReqId = some (transfer.handle process))
    (isNamed : state.named = some transfer) :
    Invariant (state.put process { state.process process with
      lmtQueue := passed ++ rest
      lmtActive := some transfer
      chunk := 0
      place := .idle }) := by
  have tidy := invariant.tidy process
  have isQueue := tidy.search passed (transfer :: rest) isSearch
  have inactive : (state.process process).lmtActive = none := by
    apply tidy.inactive <;> rw [isSearch] <;> exact nofun
  refine @Invariant.put _ state process invariant _ rfl ?_ ?_ (State.put_other ..)
  · cases invariant.phase with
    | free _ isNone => nomatch isNone.symm.trans isReq
    | taking _ _ isNone => nomatch isNone.symm.trans isReq
    | releasing _ _ _ isNone => nomatch isNone.symm.trans isReq
    | moving owner other filled drained moving =>
      obtain rfl := Option.some.inj (moving.named.symm.trans isNamed)
      have fresh : other ∉ (state.process process).finished := by
        have nodup := tidy.nodup
        unfold Process.transfers at nodup
        rw [isQueue, inactive] at nodup
        intro member
        apply disjoint_of_nodup_append (nodup_append.mp nodup).2.1 _ member
        exact mem_append_right _ mem_cons_self
      refine .moving owner other filled drained ?_
      constructor
      case rank => exact moving.rank
      case remoteReqId => exact moving.remoteReqId
      case named => exact moving.named
      case enough => exact moving.enough
      case quiet => exact State.forall_put (·.place.Quiet) trivial (moving.quiet _)
      case notFollowing =>
        have different : owner ≠ process := by
          rintro rfl
          apply moving.notFollowing
          rw [isSearch]
          trivial
        rw [Bool.eq_not.mpr different, State.put_other, ← Bool.eq_not.mpr different]
        exact moving.notFollowing
      case sent =>
        rcases eq_or_ne process other.sender with rfl | different
        · rw [State.put_process]
          cases moving.sent with
          | before => exact .during rfl other.sends
          | during active => nomatch inactive.symm.trans active
          | after _ finished => exact absurd finished fresh
        · obtain rfl := Bool.eq_not.mpr different
          rw [State.put_not]
          exact moving.sent
      case received =>
        rcases eq_or_ne process other.receiver with rfl | different
        · rw [State.put_process]
          cases moving.received with
          | before => exact .during rfl (Nat.zero_le _)
          | during active => nomatch inactive.symm.trans active
        · obtain rfl := Bool.eq_not.mpr different
          rw [State.put_not]
          exact moving.received
      case buffered => exact moving.buffered
  · rw [State.put_process]
    refine tidy.of_perm ?_ (fun _ => .inl rfl) ?_ nofun
    · unfold Process.transfers
      rw [isQueue, inactive, append_assoc, append_assoc]
      exact List.Perm.append_left _ (List.Perm.append_left _ perm_middle)
    · exact Or.rec nofun False.elim

end

section

variable
    {owner : Bool} {transfer : Transfer Handle} {filled drained later : Nat}
    {flag : Nat → Bool} {after : Process Handle}
    (moving : Moving state owner transfer filled drained)

include moving

/-- A step of the sender that changes no place. -/
theorem Moving.sender_step
    (place : after.place = (state.process transfer.sender).place)
    (sent : Sent after transfer later)
    (buffered : Buffered flag later drained) :
    Moving ({ state with flag := flag }.put transfer.sender after) owner transfer later
      drained where
  rank := moving.rank
  remoteReqId := moving.remoteReqId
  named := moving.named
  enough := moving.enough
  quiet := fun each => @State.put_congr _ { state with flag := flag } _ Process.place
    transfer.sender after place each ▸ moving.quiet each
  notFollowing := @State.put_congr _ { state with flag := flag } _ Process.place
    transfer.sender after place owner ▸ moving.notFollowing
  sent := by
    rw [State.put_process]
    exact sent
  received := by
    unfold Transfer.receiver
    rw [State.put_other]
    exact moving.received
  buffered := buffered

/-- A step of the receiver that changes no place. -/
theorem Moving.receiver_step
    (place : after.place = (state.process transfer.receiver).place)
    (received : Received after transfer later)
    (buffered : Buffered flag filled later) :
    Moving ({ state with flag := flag }.put transfer.receiver after) owner transfer
      filled later where
  rank := moving.rank
  remoteReqId := moving.remoteReqId
  named := moving.named
  enough := moving.enough
  quiet := fun each => @State.put_congr _ { state with flag := flag } _ Process.place
    transfer.receiver after place each ▸ moving.quiet each
  notFollowing := @State.put_congr _ { state with flag := flag } _ Process.place
    transfer.receiver after place owner ▸ moving.notFollowing
  sent := by
    unfold Transfer.receiver
    rw [State.put_not]
    exact moving.sent
  received := by
    rw [State.put_process]
    exact received
  buffered := buffered

end

/-- A process that copies is outside of `get_next_req`. -/
theorem Tidy.copy
    {started : List (Transfer Handle)} {mine after : Process Handle}
    (tidy : Tidy started mine)
    (isIdle : after.place = .idle)
    (perm : after.transfers.Perm mine.transfers) :
    Tidy started after := by
  refine tidy.of_perm perm (fun _ => .inl isIdle) ?_ ?_
  · rw [isIdle]
    exact Or.rec nofun False.elim
  · rw [isIdle]
    exact nofun

/-- A process that completes its active transfer. -/
theorem Process.perm_finish
    {mine after : Process Handle}
    (isActive : mine.lmtActive = some transfer)
    (cts : after.cts = mine.cts)
    (queue : after.lmtQueue = mine.lmtQueue)
    (inactive : after.lmtActive = none)
    (finished : after.finished = mine.finished ++ [transfer]) :
    after.transfers.Perm mine.transfers := by
  unfold Process.transfers
  rw [isActive, cts, queue, inactive, finished]
  have moved : (mine.finished ++ [transfer]).Perm ([transfer] ++ mine.finished) := perm_append_comm
  exact List.Perm.append_left _ (List.Perm.append_left _ moved)

section

variable (invariant : Invariant state)

include invariant

section

variable
    {transfer : Transfer Handle}
    (isIdle : (state.process process).place = .idle)
    (isActive : (state.process process).lmtActive = some transfer)

include isIdle isActive

/-- A chunk of the sender. -/
theorem Invariant.sendChunk (isSender : process = transfer.sender) :
    Invariant (state.sendChunk process transfer) := by
  obtain ⟨owner, filled, drained, moving⟩ := invariant.phase.moving_of_active isActive isIdle
  subst isSender
  have tidy := invariant.tidy transfer.sender
  dsimp only [State.sendChunk, State.setFlag]
  cases moving.sent with
  | before inactive => nomatch inactive.symm.trans isActive
  | after inactive => nomatch inactive.symm.trans isActive
  | during _ less =>
    split
    case isTrue => exact invariant
    case isFalse isEmpty =>
      have filledNext := moving.buffered.fill (Bool.eq_false_of_not_eq_true isEmpty)
      split
      case isTrue more =>
        refine @Invariant.put _ state transfer.sender invariant _ rfl ?_ ?_
          (State.put_other ..)
        · exact .moving owner transfer _ drained
            (moving.sender_step rfl (.during isActive more) filledNext)
        · rw [State.put_process]
          exact tidy.copy isIdle (List.Perm.refl _)
      case isFalse isLast =>
        have isAll : (state.process transfer.sender).chunk + 1 = transfer.sendChunks :=
          le_antisymm less (not_lt.mp isLast)
        rw [isAll] at filledNext
        refine @Invariant.put _ state transfer.sender invariant _ rfl ?_ ?_
          (State.put_other ..)
        · refine .moving owner transfer _ drained
            (moving.sender_step rfl (.after rfl ?_) filledNext)
          exact mem_append_right _ (mem_singleton_self transfer)
        · rw [State.put_process]
          exact tidy.copy isIdle (Process.perm_finish isActive rfl rfl rfl rfl)

/-- A chunk of the receiver, or the first write of the release. By then the sender
has copied all of its chunks. -/
theorem Invariant.recvChunk
    (isReceiver : process = transfer.receiver)
    (noWait : (state.process process).chunk = transfer.recvChunks →
      (state.process !process).place ≠ .waitReqId) :
    Invariant (state.recvChunk process transfer) := by
  obtain ⟨owner, filled, drained, moving⟩ := invariant.phase.moving_of_active isActive isIdle
  subst isReceiver
  have tidy := invariant.tidy transfer.receiver
  dsimp only [State.recvChunk, State.setFlag, State.clearFlags]
  cases moving.received with
  | before inactive => nomatch inactive.symm.trans isActive
  | during _ le =>
    split
    case isTrue isAll =>
      have isSender : (!transfer.receiver) = transfer.sender := Bool.not_not _
      have inactive : (state.process transfer.sender).lmtActive = none := by
        have near := moving.buffered.drained_le
        have enough := moving.enough
        cases moving.sent with
        | before inactive => exact inactive
        | during _ less => omega
        | after inactive => exact inactive
      refine @Invariant.put _ state transfer.receiver invariant _ rfl ?_ ?_
        (State.put_other ..)
      · refine .releasing owner transfer moving.rank rfl ?_ ?_ ?_ ?_ ?_ ?_
        · simp only [State.put_process]
        · simp only [State.put_process]
          exact isActive
        · unfold Transfer.receiver
          simp only [State.put_not]
          exact inactive
        · unfold Transfer.receiver
          simp only [State.put_not]
          exact moving.quiet _
        · rw [← isSender]
          simp only [State.put_other]
          exact noWait isAll
        · rcases eq_or_ne owner transfer.receiver with rfl | different
          · simp only [State.put_process]
            exact id
          · rw [Bool.eq_not.mpr different]
            simp only [State.put_other]
            rw [← Bool.eq_not.mpr different]
            exact moving.notFollowing
      · simp only [State.put_process]
        refine tidy.of_perm (List.Perm.refl _) (fun _ => .inr rfl) ?_ nofun
        exact Or.rec nofun False.elim
    case isFalse more =>
      split
      case isTrue isFull =>
        refine @Invariant.put _ state transfer.receiver invariant _ rfl ?_ ?_
          (State.put_other ..)
        · exact .moving owner transfer filled _
            (moving.receiver_step rfl (.during isActive (le.lt_of_ne more))
              (moving.buffered.drain isFull))
        · rw [State.put_process]
          exact tidy.copy isIdle (List.Perm.refl _)
      case isFalse => exact invariant

end

/-- The receiver gives the buffer up. -/
theorem Invariant.release
    (isReleasing : (state.process process).place = .releasing) :
    ∃ next, some next = (state.process process).lmtActive.map (fun transfer =>
        { state.put process { state.process process with
            lmtActive := none
            place := .idle
            finished := (state.process process).finished ++ [transfer] } with
          rank := none
          named := none }) ∧ Invariant next := by
  have notQuiet : ¬ (state.process process).place.Quiet := by
    rw [isReleasing]
    exact id
  cases invariant.phase with
  | free _ _ _ quiet => exact absurd (quiet process) notQuiet
  | taking owner _ _ taking _ _ quiet =>
    rcases eq_or_ne process owner with rfl | different
    · rw [isReleasing] at taking
      exact taking.elim
    · obtain rfl := Bool.eq_not.mpr different
      exact absurd quiet notQuiet
  | moving _ _ _ _ moving => exact absurd (moving.quiet process) notQuiet
  | releasing owner transfer _ isNone _ isActive inactive quiet noWait =>
    have isReceiver : process = transfer.receiver := by
      apply Bool.eq_not.mpr
      rintro rfl
      exact notQuiet quiet
    subst isReceiver
    rw [isActive]
    refine ⟨_, rfl, ?_⟩
    have isSender : (!transfer.receiver) = transfer.sender := Bool.not_not _
    refine @Invariant.put _ state transfer.receiver invariant _ rfl ?_ ?_
      (State.put_other ..)
    · refine .free rfl isNone ?_ ?_ ?_
      · exact State.forall_put (·.lmtActive = none) rfl (isSender ▸ inactive)
      · exact State.forall_put (·.place.Quiet) trivial (isSender ▸ quiet)
      · exact State.forall_put (·.place ≠ .waitReqId) nofun (isSender ▸ noWait)
    · simp only [State.put_process]
      exact (invariant.tidy transfer.receiver).copy rfl
        (Process.perm_finish isActive rfl rfl rfl rfl)

variable [DecidableEq Handle]

/-- A step in `lmt_shm_progress_vc` can be made, and keeps the invariant. -/
theorem Invariant.advance
    (isEnabled : enabled state (.advance process))
    (careful : Careful state (.advance process)) :
    ∃ next, state.advance process = some next ∧ Invariant next := by
  obtain ⟨casCareful, releaseCareful, searchCareful⟩ := careful
  have tidy := invariant.tidy process
  unfold State.advance
  dsimp only
  cases isPlace : (state.process process).place with
  | idle =>
    cases isActive : (state.process process).lmtActive with
    | none =>
      refine ⟨_, rfl, ?_⟩
      rw [← isActive]
      exact invariant.moveTo .cas (isPlace ▸ trivial) trivial isActive
        (fun _ => isEnabled isPlace isActive) nofun nofun fun follows => follows.elim
    | some transfer =>
      dsimp only
      split
      case isTrue isSender =>
        exact ⟨_, rfl, invariant.sendChunk isPlace isActive isSender⟩
      case isFalse other =>
        have isReceiver : process = transfer.receiver := Bool.eq_not.mpr other
        exact ⟨_, rfl, invariant.recvChunk isPlace isActive isReceiver
          (releaseCareful transfer isPlace isActive isReceiver.symm)⟩
  | cas =>
    have inactive : (state.process process).lmtActive = none := by
      apply tidy.inactive <;> rw [isPlace] <;> exact nofun
    cases isOwner : state.rank with
    | none => exact ⟨_, rfl, invariant.take isPlace isOwner⟩
    | some owner =>
      dsimp only
      split
      case isTrue =>
        exact ⟨_, rfl, invariant.toIdle (isPlace ▸ trivial) inactive⟩
      case isFalse different =>
        rw [Bool.eq_not.mpr different] at isOwner
        refine ⟨_, rfl, ?_⟩
        refine invariant.moveTo .waitReqId (isPlace ▸ trivial) trivial inactive nofun nofun
          (fun _ => ⟨isOwner, casCareful isPlace⟩) fun _ mine => ?_
        exact Bool.not_ne_self process (Option.some.inj (isOwner.symm.trans mine))
  | resetFlags => exact ⟨_, rfl, invariant.resetFlags isPlace⟩
  | writeReqId =>
    obtain ⟨transfer, rest, isQueue⟩ :=
      exists_cons_of_ne_nil (tidy.waiting (.inr (isPlace ▸ trivial)))
    rw [isQueue]
    exact ⟨_, rfl, invariant.writeReqId isPlace isQueue⟩
  | waitReqId =>
    have follows : (state.process process).place.Following := by
      rw [isPlace]
      trivial
    have inactive : (state.process process).lmtActive = none := by
      apply tidy.inactive <;> rw [isPlace] <;> exact nofun
    dsimp only
    split
    case isTrue => exact ⟨_, rfl, invariant⟩
    case isFalse =>
      refine ⟨_, rfl, ?_⟩
      refine invariant.moveTo (.search [] (state.process process).lmtQueue) (isPlace ▸ trivial)
        trivial inactive nofun ?_ nofun fun _ => invariant.phase.rank_ne follows
      rintro _ _ ⟨⟩
      rfl
  | search passed rest =>
    have follows : (state.process process).place.Following := by
      rw [isPlace]
      trivial
    have inactive : (state.process process).lmtActive = none := by
      apply tidy.inactive <;> rw [isPlace] <;> exact nofun
    cases rest with
    | nil => exact ⟨_, rfl, invariant.toIdle (isPlace ▸ trivial) inactive⟩
    | cons transfer later =>
      dsimp only
      split
      case isTrue isReq =>
        exact ⟨_, rfl, invariant.found isPlace isReq
          (searchCareful passed transfer later isPlace isReq)⟩
      case isFalse =>
        refine ⟨_, rfl, ?_⟩
        refine invariant.moveTo (.search (passed ++ [transfer]) later) (isPlace ▸ trivial)
          trivial inactive nofun ?_ nofun fun _ => invariant.phase.rank_ne follows
        rintro _ _ ⟨⟩
        rw [append_assoc]
        exact tidy.search passed (transfer :: later) isPlace
  | releasing =>
    obtain ⟨next, isNext, after⟩ := invariant.release isPlace
    refine ⟨next, ?_, after⟩
    rw [isNext]
    cases (state.process process).lmtActive <;> rfl

theorem Invariant.step
    {action : Action Handle}
    (isEnabled : enabled state action)
    (careful : Careful state action) :
    ∃ next, step state action = some next ∧ Invariant next := by
  cases action with
  | startRecv transfer =>
    exact ⟨_, rfl, invariant.startRecv isEnabled.1 isEnabled.2 careful rfl⟩
  | startSend process =>
    obtain ⟨transfer, rest, isCts⟩ := exists_cons_of_ne_nil isEnabled.2
    unfold Lmt.step
    dsimp only
    rw [isCts]
    exact ⟨_, rfl, invariant.startSend isEnabled.1 isCts⟩
  | advance process => exact invariant.advance isEnabled careful

end

theorem Initial.invariant (initial : Initial state) :
    Invariant state := by
  obtain ⟨isFree, isNone, noneStarted, processes⟩ := initial
  constructor
  case phase =>
    refine .free isFree isNone ?_ ?_ ?_
    · exact fun each => (processes each).2.2.1
    · intro each
      rw [(processes each).2.2.2.1]
      trivial
    · intro each
      rw [(processes each).2.2.2.1]
      exact nofun
  case tidy =>
    intro each
    obtain ⟨noCts, noQueue, inactive, isIdle, noneFinished⟩ := processes each
    have noTransfers : (state.process each).transfers = [] := by
      unfold Process.transfers
      rw [noCts, noQueue, inactive, noneFinished]
      rfl
    constructor
    case nodup => exact noTransfers ▸ nodup_nil
    case known => exact noTransfers ▸ nofun
    case busy => exact fun active => absurd inactive active
    case waiting =>
      rw [isIdle]
      exact Or.rec nofun False.elim
    case search =>
      rw [isIdle]
      exact nofun
  case chunks =>
    rw [noneStarted]
    exact fun _ impossible => absurd impossible not_mem_nil

theorem Invariant.sound (invariant : Invariant state) :
    Sound state := by
  constructor
  case owner =>
    exact fun process taking => (invariant.phase.owner_of_taking taking).1
  case together =>
    intro process mine other isMine isOther
    cases invariant.phase with
    | free _ _ inactive => nomatch (inactive process).symm.trans isMine
    | taking _ _ _ _ _ inactive => nomatch (inactive process).symm.trans isMine
    | moving _ transfer _ _ moving =>
      exact (moving.active_eq isMine).symm.trans (moving.active_eq isOther)
    | releasing _ transfer _ _ _ _ inactive =>
      rcases eq_or_ne transfer.sender process with rfl | different
      · nomatch inactive.symm.trans isMine
      · rw [Bool.eq_not.mpr different] at inactive
        nomatch inactive.symm.trans isOther
  case named =>
    intro process transfer isActive isIdle
    obtain ⟨owner, filled, drained, moving⟩ := invariant.phase.moving_of_active isActive isIdle
    rcases eq_or_ne owner process with rfl | different
    · exact .inl ⟨moving.rank, moving.remoteReqId⟩
    · obtain rfl := Bool.eq_not.mpr different
      refine .inr ⟨moving.rank, ?_⟩
      rw [moving.remoteReqId, Bool.not_not]
  case waits =>
    intro process isWait isNone
    cases invariant.phase with
    | free _ _ _ _ noWait => exact absurd isWait (noWait process)
    | taking owner isOwner _ taking =>
      have different : owner ≠ process := by
        rintro rfl
        rw [isWait] at taking
        exact taking.elim
      obtain rfl := Bool.eq_not.mpr different
      exact ⟨isOwner, taking⟩
    | moving _ _ _ _ moving => nomatch isNone.symm.trans moving.remoteReqId
    | releasing _ transfer _ _ releasing _ _ _ noWait =>
      rcases eq_or_ne process transfer.sender with rfl | different
      · exact absurd isWait noWait
      · obtain rfl := Bool.eq_not.mpr different
        nomatch isWait.symm.trans releasing

variable [DecidableEq Handle]

theorem inductive_invariant :
    (system.restrict Careful).Inductive (@Invariant Handle) where
  initial := fun _ initial => Initial.invariant initial
  step := by
    rintro state action next invariant ⟨isEnabled, careful⟩ stepped
    obtain ⟨other, isOther, after⟩ := invariant.step isEnabled careful
    obtain rfl := Option.some.inj (isOther.symm.trans stepped)
    exact after

/-- In every run of careful steps of two processes, with any transfers in either
direction, the copy buffer has at most one owner, both sides know its transfer, and
nobody waits without an owner that is about to write `remote_req_id`. No careful
step follows a null pointer. -/
theorem sound_of_careful
    {Handle : Type*} [DecidableEq Handle] {state : State Handle}
    (reachable : (system.restrict Careful).Reachable state) :
    Sound state ∧ (system.restrict Careful).Responsive state := by
  have invariant := inductive_invariant.reachable reachable
  refine ⟨invariant.sound, ?_⟩
  rintro action ⟨isEnabled, careful⟩
  obtain ⟨next, stepped, -⟩ := invariant.step isEnabled careful
  exact Option.isSome_of_eq_some stepped

/-- A copy buffer that nobody has used. -/
def sampleStart : State Nat where
  rank := none
  remoteReqId := none
  flag := fun _ => false
  process := fun _ => ⟨[], [], none, 0, .idle, []⟩
  named := none
  started := []

/-- The first process sends a message of one chunk. -/
def sampleTransfer
    (ident : Nat) : Transfer Nat :=
  ⟨ident, false, ident, ident, 1, 1, Nat.one_pos, Nat.one_pos⟩

theorem sampleStart_initial :
    Initial sampleStart :=
  ⟨rfl, rfl, rfl, fun _ => ⟨rfl, rfl, rfl, rfl, rfl⟩⟩

/-- The receiver takes the buffer for the first of two transfers. -/
theorem sound_of_careful_sample :
    ∃ state : State Nat, state.remoteReqId = some 1 ∧ Sound state ∧
        (system.restrict Careful).Responsive state := by
  have start : (system.restrict Careful).Reachable sampleStart := .initial sampleStart_initial
  have received := start.step (Action.startRecv (sampleTransfer 1)) ⟨⟨rfl, not_mem_nil⟩, le_rfl⟩ rfl
  have sent := received.step (Action.startSend false) ⟨⟨rfl, cons_ne_nil _ _⟩, trivial⟩ rfl
  have asked := sent.step (Action.advance true)
    ⟨fun _ _ => cons_ne_nil _ _, nofun, nofun, nofun⟩ rfl
  have taken := asked.step (Action.advance true) ⟨nofun, fun _ => nofun, nofun, nofun⟩ rfl
  have cleared := taken.step (Action.advance true) ⟨nofun, nofun, nofun, nofun⟩ rfl
  have written := cleared.step (Action.advance true) ⟨nofun, nofun, nofun, nofun⟩ rfl
  exact ⟨_, rfl, sound_of_careful written⟩

/-- The sender is done with the first transfer and asks for the second one. It sees
the receiver as the owner, and waits. The receiver then releases the buffer. -/
theorem not_sound_sample :
    ∃ state : State Nat, system.Reachable state ∧ (state.process false).place = .waitReqId ∧
        state.rank = none ∧ state.remoteReqId = none ∧
        state.advance false = some state ∧ ¬ Sound state := by
  have start : system.Reachable sampleStart := .initial sampleStart_initial
  have receivedFirst := start.step (Action.startRecv (sampleTransfer 1)) ⟨rfl, not_mem_nil⟩ rfl
  have sentFirst := receivedFirst.step (Action.startSend false) ⟨rfl, cons_ne_nil _ _⟩ rfl
  have receivedSecond := sentFirst.step (Action.startRecv (sampleTransfer 2))
    ⟨rfl, by simp [sampleStart, sampleTransfer, State.put]⟩ rfl
  have sentSecond := receivedSecond.step (Action.startSend false) ⟨rfl, cons_ne_nil _ _⟩ rfl
  have asked := sentSecond.step (Action.advance true) (fun _ _ => cons_ne_nil _ _) rfl
  have taken := asked.step (Action.advance true) nofun rfl
  have cleared := taken.step (Action.advance true) nofun rfl
  have written := cleared.step (Action.advance true) nofun rfl
  have followed := written.step (Action.advance false) (fun _ _ => cons_ne_nil _ _) rfl
  have waited := followed.step (Action.advance false) nofun rfl
  have searched := waited.step (Action.advance false) nofun rfl
  have found := searched.step (Action.advance false) nofun rfl
  have filled := found.step (Action.advance false) (fun _ => nofun) rfl
  have drained := filled.step (Action.advance true) (fun _ => nofun) rfl
  have askedAgain := drained.step (Action.advance false) (fun _ _ => cons_ne_nil _ _) rfl
  have waitedAgain := askedAgain.step (Action.advance false) nofun rfl
  have unnamed := waitedAgain.step (Action.advance true) (fun _ => nofun) rfl
  have released := unnamed.step (Action.advance true) nofun rfl
  refine ⟨_, released, rfl, rfl, rfl, rfl, ?_⟩
  intro sound
  nomatch (sound.waits false rfl rfl).1

end Mpich.Nemesis.Lmt
