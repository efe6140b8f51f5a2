import Mpich.Foundation.MessagePassing.Defs
import Mathlib.Algebra.BigOperators.Group.Finset.Basic
import Mathlib.Data.Nat.Find

/-!
# Certificates of message-passing programs

A certificate gives each rank the list of its sends and receives with a time for
each, such that every send is paired with a later receive of the same message.
It is checked one rank at a time, against the messages the others promise to
send, and `Certificate.completes` draws the conclusion for every interleaving.
-/

namespace Mpich.MessagePassing

open List Function

variable {Rank Msg Out : Type} [DecidableEq Rank]

/-- The communications of each rank, with times at which they could happen. -/
structure Certificate
    (programs : Rank → Prog Rank Msg Out)
    (out : Rank → Out)
    (trace : Rank → List (Event Rank Msg)) : Prop where
  /-- Each program ends, if it receives what the trace says. -/
  ends : ∀ rank, (programs rank).Ends ((trace rank).map Prod.snd) (out rank)
  /-- The communications of a rank come in the order of their times. -/
  sorted : ∀ rank, (trace rank).Pairwise fun first second => first.1 ≤ second.1
  /-- Each send is paired with a later receive of the same message. -/
  paired : ∀ src dst, List.Forall₂
      (fun sent received => sent.2 = received.2 ∧ sent.1 < received.1)
      (sentTo dst (trace src)) (receivedFrom src (trace dst))
  /-- Finitely many ranks communicate. -/
  finite : ∃ members : Finset Rank, ∀ rank ∉ members, trace rank = []

/-- A network that has followed a trace so far. -/
structure Followed
    (out : Rank → Out)
    (trace past future : Rank → List (Event Rank Msg))
    (net : Network Rank Msg Out) : Prop where
  split : ∀ rank, trace rank = past rank ++ future rank
  ends : ∀ rank, (net.prog rank).Ends ((future rank).map Prod.snd) (out rank)
  balanced : Balanced net past

namespace Certificate

variable
  {programs : Rank → Prog Rank Msg Out}
  {out : Rank → Out}
  {trace past future : Rank → List (Event Rank Msg)}
  {net : Network Rank Msg Out}

section

variable
    (certificate : Certificate programs out trace)

include certificate

variable (followed : Followed out trace past future net)

section

include followed

/-- The messages on their way, then those still to be sent, are those still to
be received. -/
theorem pending
    (src dst : Rank) :
    net.channel src dst ++ (sentTo dst (future src)).map Prod.snd =
      (receivedFrom src (future dst)).map Prod.snd := by
  have same :
      (sentTo dst (trace src)).map Prod.snd = (receivedFrom src (trace dst)).map Prod.snd := by
    rw [← forall₂_eq_eq_eq, forall₂_map_left_iff, forall₂_map_right_iff]
    exact (certificate.paired src dst).imp fun _ _ both => both.1
  rw [followed.split src, followed.split dst, sentTo_append,
    receivedFrom_append, map_append, map_append, followed.balanced src dst, append_assoc] at same
  exact append_cancel_left same

/-- A step takes the next communication of the trace. -/
theorem step
    {rank : Rank} {next : Network Rank Msg Out}
    (stepped : net.step rank = some next) :
    ∃ event events, future rank = event :: events ∧ Followed out trace
        (update past rank (past rank ++ [event]))
        (update future rank events) next := by
  have ends := followed.ends rank
  have pending := fun src => certificate.pending followed src rank
  cases coming : future rank with
  | nil =>
    rw [coming] at ends
    have ended : net.prog rank = .done (out rank) := ends
    simp [Network.step, ended] at stepped
  | cons event events =>
    obtain ⟨time, op⟩ := event
    refine ⟨(time, op), events, rfl, ?_⟩
    have split : ∀ other, trace other = update past rank (past rank ++ [(time, op)]) other ++
          update future rank events other := by
      intro other
      by_cases same : other = rank
      · subst same
        simp only [update_self, append_assoc]
        rw [followed.split, coming]
        rfl
      · simp only [update_of_ne same]
        exact followed.split other
    have others : ∀ program src dst messages,
        Prog.Ends program (events.map Prod.snd) (out rank) → ∀ other,
          Prog.Ends ((net.update rank program src dst messages).prog other)
            ((update future rank events other).map Prod.snd)
            (out other) := by
      intro program src dst messages rest other
      by_cases same : other = rank
      · subst same
        simpa only [Network.update, update_self] using rest
      · simpa only [Network.update, update_of_ne same] using followed.ends other
    rw [coming] at ends
    rcases Network.step_eq_some stepped with
      ⟨dst, msg, program, about, rfl⟩ |
        ⟨src, msg, program, messages, about, queue, rfl⟩
    · rw [about] at ends
      rcases Prog.Path.cons_cases ends with
        ⟨_, _, _, opEq, progEq, rest⟩ | ⟨_, _, _, opEq, progEq, rest⟩
      · cases progEq
        obtain rfl : op = .send dst msg := opEq
        exact ⟨split, others _ _ _ _ rest, followed.balanced.send rank dst msg time program⟩
      · cases progEq
    · rw [about] at ends
      rcases Prog.Path.cons_cases ends with
        ⟨_, _, _, opEq, progEq, rest⟩ | ⟨_, promised, _, opEq, progEq, rest⟩
      · cases progEq
      · cases progEq
        obtain rfl : op = .recv src promised := opEq
        have received : msg = promised := by
          have messagesEq := pending src
          rw [coming, queue] at messagesEq
          simp only [receivedFrom_cons_recv, if_true, map_cons, cons_append] at messagesEq
          exact (List.cons.inj messagesEq).1
        subst received
        exact ⟨split, others _ _ _ _ rest, followed.balanced.recv queue time (program msg)⟩

/-- Where something is still to be done, some rank need not wait: one whose
next communication comes first. -/
theorem exists_ready
    {someone : Rank}
    (unfinished : future someone ≠ []) :
    ∃ rank, net.Ready rank := by
  classical
  have someTime : ∃ time, ∃ rank op events, future rank = (time, op) :: events := by
    obtain ⟨⟨time, op⟩, events, coming⟩ := exists_cons_of_ne_nil unfinished
    exact ⟨time, someone, op, events, coming⟩
  obtain ⟨rank, op, events, coming⟩ := Nat.find_spec someTime
  have earliest := fun time => @Nat.find_min' _ _ someTime time
  generalize Nat.find someTime = time at coming earliest
  refine ⟨rank, ?_⟩
  have ends := followed.ends rank
  rw [coming] at ends
  unfold Network.Ready
  rcases Prog.Path.cons_cases ends with
    ⟨dst, msg, program, _, about, _⟩ | ⟨src, msg, program, opEq, about, _⟩
  · simp only [about]
  · simp only [about]
    intro empty
    subst opEq
    -- The sender still has the message to send, and at an earlier time.
    have received := followed.balanced src rank
    rw [empty, append_nil] at received
    have lengths := congrArg length received
    simp only [length_map] at lengths
    have paired := certificate.paired src rank
    rw [followed.split src, followed.split rank, coming, sentTo_append,
      receivedFrom_append, receivedFrom_cons_recv, if_pos rfl] at paired
    have stillPaired := forall₂_drop_append _ _ _ paired
    rw [← lengths, drop_left] at stillPaired
    cases sends : sentTo rank (future src) with
    | nil =>
      rw [sends] at stillPaired
      cases stillPaired
    | cons sent rest =>
      rw [sends] at stillPaired
      have sooner : sent.1 < time := (forall₂_cons.mp stillPaired).1.2
      have member : (sent.1, Op.send rank sent.2) ∈ future src :=
        mem_of_mem_sentTo (by rw [sends]; exact mem_cons_self)
      obtain ⟨⟨headTime, headOp⟩, others, srcComing⟩ := exists_cons_of_ne_nil (ne_nil_of_mem member)
      have headFirst : time ≤ headTime := earliest headTime ⟨src, headOp, others, srcComing⟩
      have sorted := certificate.sorted src
      rw [followed.split src, srcComing] at sorted
      rw [srcComing] at member
      have headSooner : headTime ≤ sent.1 := by
        rcases mem_cons.mp member with same | later
        · have times := congrArg Prod.fst same
          exact times.ge
        · exact rel_of_pairwise_cons (pairwise_append.mp sorted).2.1 later
      omega

end

/-- A certificate speaks of every run. -/
theorem followed_of_reachableIn
    {members : Finset Rank}
    (finite : ∀ rank ∉ members, trace rank = [])
    {steps : Nat}
    (reachable : (system programs).ReachableIn steps net) :
    ∃ past future : Rank → List (Event Rank Msg), Followed out trace past future net ∧
      steps + ∑ rank ∈ members, (future rank).length = ∑ rank ∈ members, (trace rank).length := by
  induction reachable with
  | initial start =>
    refine ⟨fun _ => [], trace, ⟨fun _ => rfl, ?_, ?_⟩, by simp⟩
    · intro rank
      rw [start.1]
      exact certificate.ends rank
    · intro src dst
      rw [start.2]
      rfl
  | @step steps net next rank _ _ stepped ih =>
    obtain ⟨past, future, followed, counted⟩ := ih
    obtain ⟨event, events, coming, goesOn⟩ := certificate.step followed stepped
    refine ⟨_, _, goesOn, ?_⟩
    have member : rank ∈ members := by
      by_contra outside
      have empty := finite rank outside
      rw [followed.split, coming] at empty
      simp at empty
    have removed :
        ∑ other ∈ members, (update future rank events other).length = events.length +
            ∑ other ∈ members.erase rank, (future other).length := by
      rw [← Finset.add_sum_erase _ _ member, update_self]
      congr 1
      apply Finset.sum_congr rfl
      intro other inRest
      rw [update_of_ne (Finset.ne_of_mem_erase inRest)]
    have before :
        ∑ other ∈ members, (future other).length = (events.length + 1) +
            ∑ other ∈ members.erase rank, (future other).length := by
      rw [← Finset.add_sum_erase _ _ member, coming, length_cons]
    omega

/-- Where the programs and the traces agree, every interleaving of the programs
completes. -/
theorem completes :
    Completes programs out := by
  obtain ⟨members, finite⟩ := certificate.finite
  refine ⟨?_, ?_, ?_⟩
  · intro net reachable rank ready
    obtain ⟨steps, counted⟩ := reachable.exists_reachableIn
    obtain ⟨past, future, followed, -⟩ := certificate.followed_of_reachableIn finite counted
    have ends := followed.ends rank
    cases program : net.prog rank with
    | done result => simp [system, Network.Ready, program] at ready
    | fail =>
      rw [program] at ends
      cases coming : future rank with
      | nil => rw [coming] at ends; cases ends
      | cons event events =>
        rw [coming] at ends
        rcases Prog.Path.cons_cases ends with
          ⟨_, _, _, _, about, _⟩ | ⟨_, _, _, _, about, _⟩ <;> cases about
    | send dst msg next => simp [system, Network.step, program]
    | recv src next =>
      simp only [system, Network.Ready, program] at ready
      obtain ⟨msg, messages, queue⟩ := exists_cons_of_ne_nil ready
      simp [system, Network.step, program, queue]
  · intro net reachable waiting
    obtain ⟨steps, counted⟩ := reachable.exists_reachableIn
    obtain ⟨past, future, followed, -⟩ := certificate.followed_of_reachableIn finite counted
    have finished : ∀ rank, future rank = [] := by
      intro rank
      by_contra unfinished
      obtain ⟨someone, ready⟩ := certificate.exists_ready followed unfinished
      exact waiting someone ready
    constructor
    · intro rank
      have ends := followed.ends rank
      rw [finished rank] at ends
      exact ends
    · intro src dst
      have pending := certificate.pending followed src dst
      rw [finished src, finished dst] at pending
      simpa using pending
  · refine ⟨∑ rank ∈ members, (trace rank).length, ?_⟩
    intro steps net counted
    obtain ⟨past, future, -, total⟩ := certificate.followed_of_reachableIn finite counted
    omega

end

end Certificate

namespace Completes

variable
  {programs : Rank → Prog Rank Msg Out}
  {out another : Rank → Out}

section

variable (completes : Completes programs out)

include completes

/-- Some run ends. -/
theorem exists_settled :
    ∃ net, (system programs).Reachable net ∧ ∀ rank, ¬ net.Ready rank := by
  obtain ⟨bound, bounded⟩ := completes.bounded
  by_contra goesOn
  push Not at goesOn
  have longer : ∀ steps, ∃ net, (system programs).ReachableIn steps net := by
    intro steps
    induction steps with
    | zero => exact ⟨⟨programs, fun _ _ => []⟩, .initial ⟨rfl, fun _ _ => rfl⟩⟩
    | succ steps ih =>
      obtain ⟨net, counted⟩ := ih
      obtain ⟨rank, ready⟩ := goesOn net counted.reachable
      obtain ⟨next, stepped⟩ := Option.isSome_iff_exists.mp
        (completes.responsive net counted.reachable rank ready)
      exact ⟨next, .step rank counted ready stepped⟩
  obtain ⟨net, counted⟩ := longer (bound + 1)
  have := bounded (bound + 1) net counted
  omega

/-- Programs complete with one result. -/
theorem unique
    (also : Completes programs another) :
    out = another := by
  obtain ⟨net, reachable, waiting⟩ := completes.exists_settled
  funext rank
  have first := (completes.settled net reachable waiting).1 rank
  have second := (also.settled net reachable waiting).1 rank
  exact Prog.done.inj (first.symm.trans second)

/-- The programs of a network that completes have communications in which every
message sent is received. -/
theorem exists_history :
    ∃ past : Rank → List (Event Rank Msg),
      (∀ rank, (programs rank).Ends ((past rank).map Prod.snd) (out rank)) ∧ ∀ src dst,
        (sentTo dst (past src)).map Prod.snd = (receivedFrom src (past dst)).map Prod.snd := by
  obtain ⟨net, reachable, waiting⟩ := completes.exists_settled
  obtain ⟨finished, empty⟩ := completes.settled net reachable waiting
  obtain ⟨past, balanced, path⟩ := MessagePassing.exists_history reachable
  refine ⟨past, ?_, ?_⟩
  · intro rank
    have reached := path rank
    rwa [finished rank] at reached
  · intro src dst
    rw [balanced src dst, empty, append_nil]

end

end Completes

end Mpich.MessagePassing
