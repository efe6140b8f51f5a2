import Mpich.Ch3.Close.Defs
import Mpich.Foundation.FiniteSum
import Mathlib.Algebra.BigOperators.Ring.Finset

/-!
# The close handshake is clean

The two ends of a connection are always in one of nine phases of the handshake,
up to their order. Every step keeps them there, and changes the number of
closing ends of a process exactly as it changes the count of outstanding close
operations. Safety, the meaning of the count and the absence of endless runs
follow.
-/

namespace Mpich.Ch3.Close

open Function Option

/-- An end that has not been asked to terminate, with its state and the
packets on their way to it. It has sent a close exactly in the two states that
follow one. -/
structure CloseEnd.At
    (vc : CloseEnd)
    (vcState : VcState)
    (inbox : List ClosePkt) : Prop where
  vcState_eq : vc.vcState = vcState
  inbox_eq : vc.inbox = inbox
  terminating_eq : vc.terminating = 0
  terminations_eq : vc.terminations = 0
  closesSent_pos :
    0 < vc.closesSent ↔ vcState = .localClose ∨ vcState = .closeAcked

/-- An end whose connection is being terminated, or has been. -/
structure CloseEnd.Finished (vc : CloseEnd) : Prop where
  inbox_eq : vc.inbox = []
  closesSent_pos : 0 < vc.closesSent
  phase :
    (vc.vcState = .closeAcked ∧ vc.terminating = 1 ∧ vc.terminations = 0) ∨
      (vc.vcState = .inactive ∧ vc.terminating = 0 ∧ vc.terminations = 1)

/-- A request to close. -/
def closeRequest : ClosePkt := { ack := false }

/-- An answer to a request to close. -/
def closeAnswer : ClosePkt := { ack := true }

/-- The phases of the handshake between two ends, up to their order. -/
inductive Handshake (first second : CloseEnd) : Prop
  | idle :
      first.At .active [] → second.At .active [] → Handshake first second
  | initiated :
      first.At .localClose [] → second.At .active [closeRequest] →
      Handshake first second
  | crossing :
      first.At .localClose [closeRequest] →
      second.At .localClose [closeRequest] → Handshake first second
  | noticed :
      first.At .localClose [] → second.At .remoteClose [] →
      Handshake first second
  | answered :
      first.At .localClose [closeAnswer] → second.At .closeAcked [] →
      Handshake first second
  | crossed :
      first.At .closeAcked [] →
      second.At .localClose [closeRequest, closeAnswer] → Handshake first second
  | acknowledged :
      first.At .closeAcked [closeAnswer] →
      second.At .closeAcked [closeAnswer] → Handshake first second
  | halfFinished :
      first.Finished → second.At .closeAcked [closeAnswer] →
      Handshake first second
  | finished : first.Finished → second.Finished → Handshake first second

/-- The two ends of one connection are in some phase of the handshake. -/
def Linked (first second : CloseEnd) : Prop :=
  Handshake first second ∨ Handshake second first

theorem Linked.symm
    {first second : CloseEnd}
    (linked : Linked first second) :
    Linked second first :=
  Or.symm linked

variable {vcState : VcState} {outstandingCloseOps : Int}

theorem vcSendClose_eq_some
    {result : SendCloseResult}
    (sent : vcSendClose vcState outstandingCloseOps = some result) :
    (vcState = .active ∧ result = ⟨.localClose, outstandingCloseOps + 1, closeRequest⟩) ∨
    (vcState = .remoteClose ∧ result = ⟨.closeAcked, outstandingCloseOps + 1, closeAnswer⟩) := by
  cases vcState <;> simp_all [vcSendClose, closeRequest, closeAnswer, eq_comm]

variable {closePkt : ClosePkt} {result : PktHandlerResult}

theorem pktHandlerClose_eq_some
    (handled : pktHandlerClose vcState closePkt = some result) :
    (vcState = .localClose ∧ closePkt = closeRequest ∧
      result = ⟨.closeAcked, [closeAnswer], false⟩) ∨
    (vcState = .active ∧ closePkt = closeRequest ∧ result = ⟨.remoteClose, [], false⟩) ∨
    (vcState = .localClose ∧ closePkt = closeAnswer ∧ result = ⟨.closeAcked, [closeAnswer], true⟩) ∨
    (vcState = .closeAcked ∧ closePkt = closeAnswer ∧ result = ⟨.closeAcked, [], true⟩) := by
  rcases closePkt with ⟨ack⟩
  cases vcState <;> cases ack <;> simp_all [pktHandlerClose, closeRequest, closeAnswer, eq_comm]

theorem handleConnection_eq_some
    {result : VcState × Int}
    (handled : handleConnection vcState outstandingCloseOps = some result) :
    vcState = .closeAcked ∧ result = (.inactive, outstandingCloseOps - 1) := by
  cases vcState <;> simp_all [handleConnection, eq_comm]

variable {vc : CloseEnd}

theorem CloseEnd.Finished.vcState_eq
    (finished : vc.Finished) :
    vc.vcState = .closeAcked ∨ vc.vcState = .inactive :=
  finished.phase.imp And.left And.left

section

variable {vc other : CloseEnd} (linked : Linked vc other)

include linked

theorem Linked.of_active
    (vcState_eq : vc.vcState = .active) :
    (vc.At .active [] ∧ other.At .active []) ∨
      (vc.At .active [closeRequest] ∧ other.At .localClose []) := by
  rcases linked with handshake | handshake <;> cases handshake <;>
    grind [CloseEnd.At.vcState_eq, CloseEnd.Finished.vcState_eq]

theorem Linked.of_remoteClose
    (vcState_eq : vc.vcState = .remoteClose) :
    vc.At .remoteClose [] ∧ other.At .localClose [] := by
  rcases linked with handshake | handshake <;> cases handshake <;>
    grind [CloseEnd.At.vcState_eq, CloseEnd.Finished.vcState_eq]

theorem Linked.of_closeRequest
    {inbox : List ClosePkt}
    (oldest : vc.inbox = closeRequest :: inbox) :
    (vc.At .active [closeRequest] ∧ other.At .localClose []) ∨
    (vc.At .localClose [closeRequest] ∧ other.At .localClose [closeRequest]) ∨
    (vc.At .localClose [closeRequest, closeAnswer] ∧ other.At .closeAcked []) := by
  rcases linked with handshake | handshake <;> cases handshake <;>
    grind [CloseEnd.At.inbox_eq, CloseEnd.Finished.inbox_eq, closeRequest, closeAnswer]

theorem Linked.of_closeAnswer
    {inbox : List ClosePkt}
    (oldest : vc.inbox = closeAnswer :: inbox) :
    (vc.At .localClose [closeAnswer] ∧ other.At .closeAcked []) ∨
    (vc.At .closeAcked [closeAnswer] ∧ other.At .closeAcked [closeAnswer]) ∨
    (vc.At .closeAcked [closeAnswer] ∧ other.Finished) := by
  rcases linked with handshake | handshake <;> cases handshake <;>
    grind [CloseEnd.At.inbox_eq, CloseEnd.Finished.inbox_eq, closeRequest, closeAnswer]

theorem Linked.of_terminating
    (terminating : 0 < vc.terminating) :
    vc.Finished ∧ vc.vcState = .closeAcked ∧
      (other.At .closeAcked [closeAnswer] ∨ other.Finished) := by
  rcases linked with handshake | handshake <;> cases handshake <;>
    grind [CloseEnd.At.terminating_eq, CloseEnd.Finished.phase]

end

/-- New packets queue up behind those already in flight. -/
theorem CloseEnd.At.receive
    {inbox : List ClosePkt}
    (vcAt : vc.At vcState inbox)
    (sent : List ClosePkt) :
    CloseEnd.At { vc with inbox := vc.inbox ++ sent } vcState (inbox ++ sent) where
  vcState_eq := vcAt.vcState_eq
  inbox_eq := by simp [vcAt.inbox_eq]
  terminating_eq := vcAt.terminating_eq
  terminations_eq := vcAt.terminations_eq
  closesSent_pos := vcAt.closesSent_pos

theorem CloseEnd.Finished.receive_nil
    (finished : vc.Finished) :
    CloseEnd.Finished { vc with inbox := vc.inbox ++ [] } where
  inbox_eq := by simp [finished.inbox_eq]
  closesSent_pos := finished.closesSent_pos
  phase := finished.phase

section

variable {vc other : CloseEnd} (linked : Linked vc other)

include linked

/-- Sending a close keeps the ends of the connection linked. -/
theorem Linked.sendClose
    {result : SendCloseResult}
    (sent : vcSendClose vc.vcState outstandingCloseOps = some result) :
    Linked
      { vc with
        vcState := result.vcState
        closesSent := vc.closesSent + 1 }
      { other with inbox := other.inbox ++ [result.closePkt] } := by
  rcases vcSendClose_eq_some sent with ⟨isActive, rfl⟩ | ⟨isRemote, rfl⟩
  · rcases linked.of_active isActive with
      ⟨vcAt, otherAt⟩ | ⟨vcAt, otherAt⟩
    · exact .inl (.initiated ⟨rfl, vcAt.2, vcAt.3, vcAt.4, by simp⟩ (otherAt.receive _))
    · exact .inl (.crossing ⟨rfl, vcAt.2, vcAt.3, vcAt.4, by simp⟩ (otherAt.receive _))
  · obtain ⟨vcAt, otherAt⟩ := linked.of_remoteClose isRemote
    exact .inr (.answered (otherAt.receive _) ⟨rfl, vcAt.2, vcAt.3, vcAt.4, by simp⟩)

omit linked in
/-- The packet at the head of an inbox is a request or an answer. -/
theorem ClosePkt.request_or_answer (closePkt : ClosePkt) :
    closePkt = closeRequest ∨ closePkt = closeAnswer := by
  rcases closePkt with ⟨_ | _⟩
  · exact .inl rfl
  · exact .inr rfl

/-- The oldest packet towards an end is one its state allows. -/
theorem Linked.pktHandlerClose_isSome
    {inbox : List ClosePkt}
    (oldest : vc.inbox = closePkt :: inbox) :
    (pktHandlerClose vc.vcState closePkt).isSome := by
  rcases closePkt.request_or_answer with rfl | rfl
  · rcases linked.of_closeRequest oldest with
      ⟨vcAt, _⟩ | ⟨vcAt, _⟩ | ⟨vcAt, _⟩ <;>
      rw [vcAt.vcState_eq] <;> rfl
  · rcases linked.of_closeAnswer oldest with
      ⟨vcAt, _⟩ | ⟨vcAt, _⟩ | ⟨vcAt, _⟩ <;>
      rw [vcAt.vcState_eq] <;> rfl

/-- Handling the oldest packet keeps the ends of the connection linked. -/
theorem Linked.deliver
    {inbox : List ClosePkt}
    (oldest : vc.inbox = closePkt :: inbox)
    (handled : pktHandlerClose vc.vcState closePkt = some result) :
    Linked
      { vc with
        vcState := result.vcState
        inbox := inbox
        terminating := vc.terminating + if result.terminates then 1 else 0
        closesSent := vc.closesSent + result.responses.length }
      { other with inbox := other.inbox ++ result.responses } := by
  rcases closePkt.request_or_answer with rfl | rfl
  · rcases linked.of_closeRequest oldest with
      ⟨vcAt, otherAt⟩ | ⟨vcAt, otherAt⟩ | ⟨vcAt, otherAt⟩
    all_goals
      have inbox_eq := oldest.symm.trans vcAt.inbox_eq
      rw [vcAt.vcState_eq] at handled
      obtain rfl := Option.some.inj handled
      obtain ⟨-, rfl⟩ := List.cons.inj inbox_eq
    · refine .inr (.noticed (otherAt.receive _)
        ⟨rfl, rfl, ?_, vcAt.terminations_eq, ?_⟩)
      · simp [vcAt.terminating_eq]
      · simpa using vcAt.closesSent_pos
    · refine .inl (.crossed ⟨rfl, rfl, ?_, vcAt.terminations_eq, ?_⟩
        (otherAt.receive _))
      · simp [vcAt.terminating_eq]
      · simp
    · refine .inl (.acknowledged ⟨rfl, rfl, ?_, vcAt.terminations_eq, ?_⟩
        (otherAt.receive _))
      · simp [vcAt.terminating_eq]
      · simp
  · rcases linked.of_closeAnswer oldest with
      ⟨vcAt, otherAt⟩ | ⟨vcAt, otherAt⟩ | ⟨vcAt, otherFinished⟩
    all_goals
      have inbox_eq := oldest.symm.trans vcAt.inbox_eq
      have sent : 0 < vc.closesSent := vcAt.closesSent_pos.mpr (by simp)
      rw [vcAt.vcState_eq] at handled
      obtain rfl := Option.some.inj handled
      obtain ⟨-, rfl⟩ := List.cons.inj inbox_eq
    · refine .inl (.halfFinished ⟨rfl, Nat.lt_add_right _ sent, .inl ?_⟩ (otherAt.receive _))
      simp [vcAt.terminating_eq, vcAt.terminations_eq]
    · refine .inl (.halfFinished ⟨rfl, Nat.lt_add_right _ sent, .inl ?_⟩ (otherAt.receive _))
      simp [vcAt.terminating_eq, vcAt.terminations_eq]
    · refine .inl (.finished ⟨rfl, Nat.lt_add_right _ sent, .inl ?_⟩ otherFinished.receive_nil)
      simp [vcAt.terminating_eq, vcAt.terminations_eq]

/-- A termination event keeps the ends of the connection linked. -/
theorem Linked.terminated
    {result : VcState × Int}
    (terminating : 0 < vc.terminating)
    (handled : handleConnection vc.vcState outstandingCloseOps = some result) :
    Linked
      { vc with
        vcState := result.1
        terminating := vc.terminating - 1
        terminations := vc.terminations + 1 }
      { other with inbox := other.inbox ++ [] } := by
  obtain ⟨vcFinished, -, others⟩ := linked.of_terminating terminating
  obtain ⟨-, rfl⟩ := handleConnection_eq_some handled
  have ended : CloseEnd.Finished
      { vc with
        vcState := .inactive
        terminating := vc.terminating - 1
        terminations := vc.terminations + 1 } := by
    refine ⟨vcFinished.inbox_eq, vcFinished.closesSent_pos, .inr ?_⟩
    rcases vcFinished.phase with phase | phase
    · simp [phase]
    · omega
  rcases others with otherAt | otherFinished
  · exact .inl (.halfFinished ended (otherAt.receive []))
  · exact .inl (.finished ended otherFinished.receive_nil)

end

/-- A close has been sent from this end, and it has not terminated. -/
def CloseEnd.Closing (vc : CloseEnd) : Prop :=
  0 < vc.closesSent ∧ vc.terminations = 0

instance (vc : CloseEnd) : Decidable vc.Closing :=
  inferInstanceAs (Decidable (_ ∧ _))

section

variable {Proc Conn : Type*} [DecidableEq Proc] [DecidableEq Conn]
  [Fintype Conn]

/-- The connection ends of a process that have sent a close and have not
terminated. -/
def closingEnds
    (owner : Endpoint Conn → Proc)
    (ends : Endpoint Conn → CloseEnd)
    (process : Proc) : Finset (Endpoint Conn) :=
  Finset.univ.filter fun endpoint =>
    owner endpoint = process ∧ (ends endpoint).Closing

/-- What every reachable network satisfies. -/
structure NetInvariant
    (owner : Endpoint Conn → Proc)
    (net : CloseNet Proc Conn) : Prop where
  linked : ∀ endpoint, Linked (net.ends endpoint) (net.ends (peer endpoint))
  outstanding : ∀ process, net.outstandingCloseOps process =
      (closingEnds owner net.ends process).card

omit [DecidableEq Proc] [Fintype Conn] in
/-- An update keeps all connections linked when it keeps the one it touches
linked. -/
theorem linked_update
    {net : CloseNet Proc Conn}
    (linked : ∀ endpoint, Linked (net.ends endpoint) (net.ends (peer endpoint)))
    {endpoint : Endpoint Conn} {sent : List ClosePkt}
    (touched : Linked vc
      { net.ends (peer endpoint) with
        inbox := (net.ends (peer endpoint)).inbox ++ sent })
    (other : Endpoint Conn) :
    Linked (net.update endpoint vc sent other) (net.update endpoint vc sent (peer other)) := by
  by_cases same : other = endpoint
  · subst same
    simpa using touched
  · by_cases across : other = peer endpoint
    · subst across
      simpa using touched.symm
    · have peerDifferent : peer other ≠ endpoint := by
        rintro rfl
        simp at across
      have peerAcross : peer other ≠ peer endpoint := by
        intro equal
        apply same
        simpa using congrArg peer equal
      rw [net.update_of_ne _ _ _ _ same across, net.update_of_ne _ _ _ _ peerDifferent peerAcross]
      exact linked other

section

variable
    (owner : Endpoint Conn → Proc)
    (net : CloseNet Proc Conn)

include owner net

/-- An update changes the number of closing ends of a process by what it does
to the end it touches. -/
theorem card_closingEnds_update
    (endpoint : Endpoint Conn)
    (vc : CloseEnd)
    (sent : List ClosePkt)
    (process : Proc) :
    ((closingEnds owner (net.update endpoint vc sent) process).card : Int) +
        (if owner endpoint = process ∧ (net.ends endpoint).Closing
          then 1 else 0) =
      (closingEnds owner net.ends process).card +
        (if owner endpoint = process ∧ vc.Closing then 1 else 0) := by
  have change := FiniteSum.sum_add_pair
    (fun other => if owner other = process ∧ (net.ends other).Closing
      then (1 : Int) else 0)
    (fun other =>
      if owner other = process ∧ (net.update endpoint vc sent other).Closing
      then (1 : Int) else 0)
    (peer_ne endpoint).symm
    (fun other different notPeer => by
      simp only [net.update_of_ne _ _ _ _ different notPeer])
  have peerClosing :
      (net.update endpoint vc sent (peer endpoint)).Closing =
        (net.ends (peer endpoint)).Closing := by
    rw [net.update_peer]
    rfl
  simp only [net.update_self, peerClosing] at change
  rw [closingEnds, closingEnds, Finset.natCast_card_filter, Finset.natCast_card_filter]
  omega

/-- A step that leaves the closing ends as they are. -/
theorem card_closingEnds_update_of_iff
    {endpoint : Endpoint Conn}
    (sent : List ClosePkt)
    (process : Proc)
    (same : vc.Closing ↔ (net.ends endpoint).Closing) :
    (closingEnds owner (net.update endpoint vc sent) process).card =
      (closingEnds owner net.ends process).card := by
  have change := card_closingEnds_update owner net endpoint vc sent process
  simp only [same] at change
  omega

/-- A step that starts a close at one end. -/
theorem card_closingEnds_update_of_opens
    (endpoint : Endpoint Conn)
    (vc : CloseEnd)
    (sent : List ClosePkt)
    (process : Proc)
    (before : ¬(net.ends endpoint).Closing)
    (after : vc.Closing) :
    ((closingEnds owner (net.update endpoint vc sent) process).card : Int) =
      (closingEnds owner net.ends process).card + if owner endpoint = process then 1 else 0 := by
  have change := card_closingEnds_update owner net endpoint vc sent process
  simpa only [before, after, and_false, and_true, if_false, add_zero] using change

/-- A step that ends a close at one end. -/
theorem card_closingEnds_update_of_closes
    (endpoint : Endpoint Conn)
    (vc : CloseEnd)
    (sent : List ClosePkt)
    (process : Proc)
    (before : (net.ends endpoint).Closing)
    (after : ¬vc.Closing) :
    ((closingEnds owner (net.update endpoint vc sent) process).card : Int) +
        (if owner endpoint = process then 1 else 0) =
      (closingEnds owner net.ends process).card := by
  have change := card_closingEnds_update owner net endpoint vc sent process
  simpa only [before, after, and_false, and_true, if_false, add_zero] using change

/-- The invariant holds before any close. -/
theorem netInvariant_initial (initial : (closeSystem owner).initial net) :
    NetInvariant owner net := by
  obtain ⟨connected, none⟩ := initial
  have idle : CloseEnd.connected.At .active [] :=
    ⟨rfl, rfl, rfl, rfl, by simp [CloseEnd.connected]⟩
  constructor
  · intro endpoint
    rw [connected, connected]
    exact .inl (.idle idle idle)
  · intro process
    simp [none, closingEnds, connected, CloseEnd.connected, CloseEnd.Closing]

end

omit [DecidableEq Proc] [DecidableEq Conn] [Fintype Conn] in
/-- An end that may send a close has sent none and has not terminated. -/
theorem Linked.fresh
    {other : CloseEnd}
    (linked : Linked vc other)
    (sendable : vc.vcState = .active ∨ vc.vcState = .remoteClose) :
    vc.closesSent = 0 ∧ vc.terminations = 0 := by
  have silent {vcState : VcState} {inbox : List ClosePkt}
      (vcAt : vc.At vcState inbox)
      (open_ : vcState = .active ∨ vcState = .remoteClose) :
      vc.closesSent = 0 ∧ vc.terminations = 0 := by
    refine ⟨?_, vcAt.terminations_eq⟩
    have sent := vcAt.closesSent_pos
    rcases open_ with rfl | rfl <;> simpa using sent
  rcases sendable with isActive | isRemote
  · rcases linked.of_active isActive with ⟨vcAt, _⟩ | ⟨vcAt, _⟩
    · exact silent vcAt (.inl rfl)
    · exact silent vcAt (.inl rfl)
  · exact silent (linked.of_remoteClose isRemote).1 (.inr rfl)

omit [DecidableEq Proc] [DecidableEq Conn] [Fintype Conn] in
/-- Only an end that has sent a close answers a packet at once. -/
theorem Linked.responses_eq_nil
    {other : CloseEnd} {inbox : List ClosePkt}
    (linked : Linked vc other)
    (oldest : vc.inbox = closePkt :: inbox)
    (handled : pktHandlerClose vc.vcState closePkt = some result)
    (silent : vc.closesSent = 0) :
    result.responses = [] := by
  rcases pktHandlerClose_eq_some handled with
    ⟨state, rfl, rfl⟩ | ⟨state, rfl, rfl⟩ | ⟨state, rfl, rfl⟩ |
      ⟨state, rfl, rfl⟩
  · rcases linked.of_closeRequest oldest with
      ⟨vcAt, _⟩ | ⟨vcAt, _⟩ | ⟨vcAt, _⟩
    · simp [vcAt.vcState_eq] at state
    · simpa [silent] using vcAt.closesSent_pos
    · simpa [silent] using vcAt.closesSent_pos
  · rfl
  · rcases linked.of_closeAnswer oldest with
      ⟨vcAt, _⟩ | ⟨vcAt, _⟩ | ⟨vcAt, _⟩ <;>
      simpa [silent] using vcAt.closesSent_pos
  · rfl

/-- Every step preserves the invariant. -/
theorem netInvariant_step
    (owner : Endpoint Conn → Proc)
    (net : CloseNet Proc Conn)
    (action : CloseAction Conn)
    (next : CloseNet Proc Conn)
    (invariant : NetInvariant owner net)
    (enabled : (closeSystem owner).enabled net action)
    (stepped : closeStep owner net action = some next) :
    NetInvariant owner next := by
  cases action with
  | sendClose endpoint =>
    obtain ⟨result, sent, rfl⟩ := map_eq_some_iff.mp stepped
    have linked := invariant.linked endpoint
    refine ⟨linked_update invariant.linked (linked.sendClose sent), ?_⟩
    intro process
    have outstanding := invariant.outstanding process
    obtain ⟨silent, alive⟩ := linked.fresh enabled
    have counted : result.outstandingCloseOps = net.outstandingCloseOps (owner endpoint) + 1 := by
      rcases vcSendClose_eq_some sent with ⟨_, rfl⟩ | ⟨_, rfl⟩ <;> rfl
    have change := card_closingEnds_update_of_opens owner net endpoint
      { net.ends endpoint with
        vcState := result.vcState
        closesSent := (net.ends endpoint).closesSent + 1 }
      [result.closePkt] process
      (fun closing => Nat.ne_of_gt closing.1 silent)
      ⟨Nat.succ_pos _, alive⟩
    by_cases mine : owner endpoint = process
    · subst mine
      simp only [if_true, update_self, counted] at change ⊢
      omega
    · simp only [mine, if_false, ne_eq, Ne.symm mine, not_false_eq_true, update_of_ne] at change ⊢
      omega
  | deliver endpoint =>
    cases oldest : (net.ends endpoint).inbox with
    | nil => simp [closeStep, oldest] at stepped
    | cons closePkt inbox =>
      simp only [closeStep, oldest] at stepped
      obtain ⟨result, handled, rfl⟩ := map_eq_some_iff.mp stepped
      have linked := invariant.linked endpoint
      refine ⟨linked_update invariant.linked (linked.deliver oldest handled), ?_⟩
      intro process
      rw [invariant.outstanding, card_closingEnds_update_of_iff owner net result.responses]
      have silent := linked.responses_eq_nil oldest handled
      simp only [CloseEnd.Closing, and_congr_left_iff]
      intro _
      constructor
      · intro sent
        by_contra none
        have := silent (by omega)
        simp [this] at sent
        omega
      · omega
  | terminated endpoint =>
    obtain ⟨result, handled, rfl⟩ := map_eq_some_iff.mp stepped
    have linked := invariant.linked endpoint
    refine ⟨linked_update invariant.linked (linked.terminated enabled handled), ?_⟩
    intro process
    have outstanding := invariant.outstanding process
    obtain ⟨finished, acked, -⟩ := linked.of_terminating enabled
    obtain ⟨-, rfl⟩ := handleConnection_eq_some handled
    have alive : (net.ends endpoint).terminations = 0 := by
      rcases finished.phase with phase | phase
      · exact phase.2.2
      · simp [acked] at phase
    have change := card_closingEnds_update_of_closes owner net endpoint
      { net.ends endpoint with
        vcState := .inactive
        terminating := (net.ends endpoint).terminating - 1
        terminations := (net.ends endpoint).terminations + 1 }
      [] process
      ⟨finished.closesSent_pos, alive⟩
      (fun closing => Nat.succ_ne_zero _ closing.2)
    by_cases mine : owner endpoint = process
    · subst mine
      simp only [if_true, update_self] at change ⊢
      omega
    · simp only [mine, if_false, ne_eq, Ne.symm mine, not_false_eq_true, update_of_ne] at change ⊢
      omega

theorem netInvariant_inductive (owner : Endpoint Conn → Proc) :
    (closeSystem owner).Inductive (NetInvariant owner) where
  initial := netInvariant_initial owner
  step := netInvariant_step owner

end

/-- What remains to be done at an end: its own packets, the packets in flight
towards it, and the termination events to come. -/
def VcState.closeRank : VcState → Nat
  | .active => 5
  | .remoteClose => 3
  | .localClose => 2
  | .closeAcked => 0
  | .inactive => 0

/-- Work left at one end; a packet weighs more than a termination event. -/
def CloseEnd.closeRank (vc : CloseEnd) : Nat :=
  vc.vcState.closeRank + 2 * vc.inbox.length + vc.terminating

/-- Work left in a network. -/
def CloseNet.closeRank
    {Proc Conn : Type*} [Fintype Conn]
    (net : CloseNet Proc Conn) : Nat :=
  ∑ endpoint, (net.ends endpoint).closeRank

/-- An update that spends more at one end than it sends to the other leaves
less to be done. -/
theorem closeRank_update_lt
    {Proc Conn : Type*} [Fintype Conn] [DecidableEq Conn]
    (net : CloseNet Proc Conn)
    {endpoint : Endpoint Conn} {sent : List ClosePkt}
    (spent : vc.closeRank + 2 * sent.length < (net.ends endpoint).closeRank) :
    ∑ other, (net.update endpoint vc sent other).closeRank < net.closeRank := by
  have change := FiniteSum.sum_add_pair
    (fun other => (net.ends other).closeRank)
    (fun other => (net.update endpoint vc sent other).closeRank)
    (peer_ne endpoint).symm
    (fun other different notPeer => by
      simp only [net.update_of_ne _ _ _ _ different notPeer])
  have peerRank :
      (net.update endpoint vc sent (peer endpoint)).closeRank =
        (net.ends (peer endpoint)).closeRank + 2 * sent.length := by
    rw [net.update_peer]
    simp only [CloseEnd.closeRank, List.length_append]
    omega
  simp only [net.update_self, peerRank] at change
  rw [CloseNet.closeRank]
  omega

/-- Every step leaves less to be done, so no run goes on for ever. -/
theorem closeRank_step_lt
    {Proc Conn : Type*} [DecidableEq Proc] [DecidableEq Conn] [Fintype Conn]
    (owner : Endpoint Conn → Proc)
    (net next : CloseNet Proc Conn)
    (action : CloseAction Conn)
    (enabled : (closeSystem owner).enabled net action)
    (stepped : closeStep owner net action = some next) :
    next.closeRank < net.closeRank := by
  cases action with
  | sendClose endpoint =>
    obtain ⟨result, sent, rfl⟩ := map_eq_some_iff.mp stepped
    apply closeRank_update_lt net
    rcases vcSendClose_eq_some sent with ⟨state, rfl⟩ | ⟨state, rfl⟩ <;>
      simp [CloseEnd.closeRank, VcState.closeRank, state] <;>
      omega
  | deliver endpoint =>
    cases oldest : (net.ends endpoint).inbox with
    | nil => simp [closeStep, oldest] at stepped
    | cons closePkt inbox =>
      simp only [closeStep, oldest] at stepped
      obtain ⟨result, handled, rfl⟩ := map_eq_some_iff.mp stepped
      apply closeRank_update_lt net
      rcases pktHandlerClose_eq_some handled with
        ⟨state, -, rfl⟩ | ⟨state, -, rfl⟩ | ⟨state, -, rfl⟩ |
          ⟨state, -, rfl⟩ <;>
        simp [CloseEnd.closeRank, VcState.closeRank, state, oldest] <;>
        omega
  | terminated endpoint =>
    obtain ⟨result, handled, rfl⟩ := map_eq_some_iff.mp stepped
    apply closeRank_update_lt net
    obtain ⟨state, rfl⟩ := handleConnection_eq_some handled
    have pending : 0 < (net.ends endpoint).terminating := enabled
    simp [CloseEnd.closeRank, VcState.closeRank, state]
    omega

/-- Nothing is on its way, and no end waits for its process to answer. -/
def Quiescent {Proc Conn : Type*} (net : CloseNet Proc Conn) : Prop :=
  ∀ endpoint, (net.ends endpoint).inbox = [] ∧ (net.ends endpoint).terminating = 0 ∧
      (net.ends endpoint).vcState ≠ .remoteClose

section

variable {Proc Conn : Type*} [DecidableEq Proc] [DecidableEq Conn]
  [Fintype Conn]

/-- What the close handshake guarantees of a network. -/
structure Clean
    (owner : Endpoint Conn → Proc)
    (net : CloseNet Proc Conn) : Prop where
  /-- No state assertion fails, whatever happens next. -/
  responsive : (closeSystem owner).Responsive net
  /-- An end is told to terminate at most once, counting what is to come. -/
  terminates_once : ∀ endpoint,
    (net.ends endpoint).terminating + (net.ends endpoint).terminations ≤ 1
  /-- An end terminates only after both ends have sent a close. -/
  terminates_after_both : ∀ endpoint,
    0 < (net.ends endpoint).terminating + (net.ends endpoint).terminations →
      0 < (net.ends endpoint).closesSent ∧ 0 < (net.ends (peer endpoint)).closesSent
  /-- Nothing is in flight towards an end that terminates. -/
  quiet_after : ∀ endpoint, 0 < (net.ends endpoint).terminating + (net.ends endpoint).terminations →
      (net.ends endpoint).inbox = []
  /-- The count of a process is the number of its closing ends. -/
  outstanding : ∀ process, net.outstandingCloseOps process = (Finset.univ.filter fun endpoint =>
        owner endpoint = process ∧ 0 < (net.ends endpoint).closesSent ∧
          (net.ends endpoint).terminations = 0).card
  /-- A process stops waiting only when all its closes have terminated. -/
  waits : ∀ process, ¬vcWaitForCloseContinues (net.outstandingCloseOps process) →
      ∀ endpoint, owner endpoint = process → 0 < (net.ends endpoint).closesSent →
          (net.ends endpoint).terminations = 1
  /-- Every step leaves less to be done. -/
  progress : ∀ action next, (closeSystem owner).enabled net action →
      closeStep owner net action = some next → next.closeRank < net.closeRank
  /-- Once nothing is left to be done, every close has terminated and the
  counts are back at zero. -/
  returns_to_zero : Quiescent net → (∀ process, net.outstandingCloseOps process = 0) ∧
      ∀ endpoint, 0 < (net.ends endpoint).closesSent → (net.ends endpoint).terminations = 1

omit [DecidableEq Proc] [Fintype Conn] [DecidableEq Conn] in
/-- What the phase of a connection says about the termination of an end. -/
theorem Linked.termination
    {other : CloseEnd}
    (linked : Linked vc other) :
    vc.terminating + vc.terminations ≤ 1 ∧ (0 < vc.terminating + vc.terminations →
        0 < vc.closesSent ∧ 0 < other.closesSent ∧ vc.inbox = []) := by
  rcases linked with handshake | handshake <;> cases handshake <;>
    grind [CloseEnd.At, CloseEnd.Finished]

omit [DecidableEq Proc] [Fintype Conn] [DecidableEq Conn] in
/-- With nothing left to be done, a close has terminated. -/
theorem Linked.terminations_eq_one
    {other : CloseEnd}
    (linked : Linked vc other)
    (sent : 0 < vc.closesSent)
    (inbox_eq : vc.inbox = [])
    (terminating_eq : vc.terminating = 0)
    (otherInbox_eq : other.inbox = [])
    (answered : other.vcState ≠ .remoteClose) :
    vc.terminations = 1 := by
  rcases linked with handshake | handshake <;> cases handshake <;>
    grind [CloseEnd.At, CloseEnd.Finished]

/-- The invariant makes a network clean. -/
theorem NetInvariant.clean
    {owner : Endpoint Conn → Proc} {net : CloseNet Proc Conn}
    (invariant : NetInvariant owner net) :
    Clean owner net := by
  have termination := fun endpoint =>
    (invariant.linked endpoint).termination
  have settled : Quiescent net → ∀ endpoint, 0 < (net.ends endpoint).closesSent →
        (net.ends endpoint).terminations = 1 := by
    intro quiescent endpoint sent
    exact (invariant.linked endpoint).terminations_eq_one sent
      (quiescent endpoint).1 (quiescent endpoint).2.1
      (quiescent (peer endpoint)).1 (quiescent (peer endpoint)).2.2
  constructor
  · intro action enabled
    cases action with
    | sendClose endpoint =>
      have sendable : (net.ends endpoint).vcState = .active ∨
          (net.ends endpoint).vcState = .remoteClose := enabled
      simp [closeSystem, closeStep, vcSendClose, sendable]
    | deliver endpoint =>
      cases oldest : (net.ends endpoint).inbox with
      | nil => exact absurd oldest enabled
      | cons closePkt inbox =>
        have handled := (invariant.linked endpoint).pktHandlerClose_isSome oldest
        simpa [closeSystem, closeStep, oldest] using handled
    | terminated endpoint =>
      obtain ⟨-, acked, -⟩ := (invariant.linked endpoint).of_terminating enabled
      simp [closeSystem, closeStep, handleConnection, acked]
  · exact fun endpoint => (termination endpoint).1
  · intro endpoint positive
    obtain ⟨sent, otherSent, -⟩ := (termination endpoint).2 positive
    exact ⟨sent, otherSent⟩
  · intro endpoint positive
    exact ((termination endpoint).2 positive).2.2
  · exact invariant.outstanding
  · intro process stopped endpoint owned sent
    have empty : closingEnds owner net.ends process = ∅ := by
      have outstanding := invariant.outstanding process
      rw [vcWaitForCloseContinues] at stopped
      rw [← Finset.card_eq_zero]
      omega
    have notClosing : ¬(net.ends endpoint).Closing := by
      intro closing
      have member : endpoint ∈ closingEnds owner net.ends process :=
        Finset.mem_filter.mpr ⟨Finset.mem_univ _, owned, closing⟩
      simp [empty] at member
    have ended : (net.ends endpoint).terminations ≠ 0 :=
      fun alive => notClosing ⟨sent, alive⟩
    have := (termination endpoint).1
    omega
  · intro action next enabled stepped
    exact closeRank_step_lt owner net next action enabled stepped
  · intro quiescent
    refine ⟨?_, settled quiescent⟩
    intro process
    rw [invariant.outstanding, Nat.cast_eq_zero, Finset.card_eq_zero,
      closingEnds, Finset.filter_eq_empty_iff]
    rintro endpoint - ⟨-, sent, alive⟩
    have := settled quiescent endpoint sent
    omega

/-- The close handshake is clean in every reachable network: for any number of
processes and connections, and whatever order the closes, the packets and the
termination events come in. -/
theorem closeHandshake_clean
    (owner : Endpoint Conn → Proc)
    (net : CloseNet Proc Conn)
    (reachable : (closeSystem owner).Reachable net) :
    Clean owner net :=
  ((netInvariant_inductive owner).reachable reachable).clean

end

/-- Two processes with one connection between them, before any close. -/
def twoProcesses : CloseNet Side Unit where
  ends := fun _ => .connected
  outstandingCloseOps := fun _ => 0

/-- The handshake is clean after one of two processes has sent its close. -/
theorem closeHandshake_clean_afterSendClose :
    ∃ net : CloseNet Side Unit,
      closeStep Prod.snd twoProcesses (.sendClose ((), .left)) = some net ∧
        net.outstandingCloseOps .left = 1 ∧ Clean Prod.snd net := by
  have start :
      (closeSystem (Prod.snd : Endpoint Unit → Side)).Reachable twoProcesses :=
    .initial ⟨fun _ => rfl, fun _ => rfl⟩
  exact ⟨_, rfl, rfl, closeHandshake_clean Prod.snd _
    (.step (.sendClose ((), .left)) start (.inl rfl) rfl)⟩

end Mpich.Ch3.Close
