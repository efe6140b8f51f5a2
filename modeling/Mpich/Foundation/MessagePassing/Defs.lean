import Mpich.Foundation.TransitionSystem

/-!
# Message-passing programs

A program sends messages to named ranks and waits for messages from named
ranks. The programs of a network run at their own pace: messages travel through
one queue for each ordered pair of ranks, a send never waits, and a receive
waits for the oldest message in its queue. `Completes` speaks of every
interleaving: no program fails, none waits for ever, every message is received
exactly once, and all runs end with the same results.
-/

namespace Mpich.MessagePassing

open List Function

/-- A program of one rank. -/
inductive Prog (Rank Msg Out : Type)
  /-- The program has ended. -/
  | done (out : Out)
  /-- The program has run into an error. -/
  | fail
  /-- Send a message. -/
  | send (dst : Rank) (msg : Msg) (next : Prog Rank Msg Out)
  /-- Wait for a message from a rank. -/
  | recv (src : Rank) (next : Msg → Prog Rank Msg Out)

/-- One communication of a program. -/
inductive Op (Rank Msg : Type)
  | send (dst : Rank) (msg : Msg)
  | recv (src : Rank) (msg : Msg)

variable {Rank Msg Out Final : Type}

namespace Prog

/-- Run one program after another. -/
def bind :
    Prog Rank Msg Out → (Out → Prog Rank Msg Final) → Prog Rank Msg Final
  | .done out, after => after out
  | .fail, _ => .fail
  | .send dst msg next, after => .send dst msg (next.bind after)
  | .recv src next, after => .recv src fun msg => (next msg).bind after

instance : Monad (Prog Rank Msg) where
  pure := Prog.done
  bind := Prog.bind

/-- Go on with a value if there is one. -/
def ofOption : Option Out → Prog Rank Msg Out
  | none => .fail
  | some out => .done out

/-- A program gets from one point to another with these communications. -/
def Path : List (Op Rank Msg) → Prog Rank Msg Out → Prog Rank Msg Out → Prop
  | [], first, last => first = last
  | .send dst msg :: ops, .send dst' msg' next, last =>
    dst = dst' ∧ msg = msg' ∧ Path ops next last
  | .recv src msg :: ops, .recv src' next, last =>
    src = src' ∧ Path ops (next msg) last
  | _ :: _, _, _ => False

@[simp] theorem path_nil (first last : Prog Rank Msg Out) :
    Path [] first last ↔ first = last := by
  rw [Path]

@[simp] theorem path_send
    (dst dst' : Rank)
    (msg msg' : Msg)
    (ops : List (Op Rank Msg))
    (next last : Prog Rank Msg Out) :
    Path (.send dst msg :: ops) (.send dst' msg' next) last ↔
      dst = dst' ∧ msg = msg' ∧ Path ops next last := by
  rw [Path]

@[simp] theorem path_recv
    (src src' : Rank)
    (msg : Msg)
    (ops : List (Op Rank Msg))
    (next : Msg → Prog Rank Msg Out)
    (last : Prog Rank Msg Out) :
    Path (.recv src msg :: ops) (.recv src' next) last ↔ src = src' ∧ Path ops (next msg) last := by
  rw [Path]

variable {ops : List (Op Rank Msg)}

/-- A program that can still communicate is about to send or to receive. -/
theorem Path.cons_cases
    {op : Op Rank Msg}
    {first last : Prog Rank Msg Out}
    (path : Path (op :: ops) first last) :
    (∃ dst msg next, op = .send dst msg ∧ first = .send dst msg next ∧ Path ops next last) ∨
    ∃ src msg next, op = .recv src msg ∧ first = .recv src next ∧ Path ops (next msg) last := by
  cases op <;> cases first <;> simp_all [Path]

theorem Path.trans
    {front back : List (Op Rank Msg)} {first middle last : Prog Rank Msg Out}
    (before : Path front first middle)
    (after : Path back middle last) :
    Path (front ++ back) first last := by
  induction front generalizing first with
  | nil => rwa [before]
  | cons op ops ih =>
    rcases before.cons_cases with
      ⟨dst, msg, next, rfl, rfl, rest⟩ | ⟨src, msg, next, rfl, rfl, rest⟩
    · rw [cons_append, path_send]
      exact ⟨rfl, rfl, ih rest⟩
    · rw [cons_append, path_recv]
      exact ⟨rfl, ih rest⟩

/-- Communications of a program are communications of it followed by
another. -/
theorem Path.bind
    {first last : Prog Rank Msg Out}
    (path : Path ops first last)
    (after : Out → Prog Rank Msg Final) :
    Path ops (first.bind after) (last.bind after) := by
  induction ops generalizing first with
  | nil =>
    rw [path_nil] at path ⊢
    rw [path]
  | cons op ops ih =>
    rcases path.cons_cases with
      ⟨dst, msg, next, rfl, rfl, rest⟩ | ⟨src, msg, next, rfl, rfl, rest⟩
    · exact ⟨rfl, rfl, ih rest⟩
    · exact ⟨rfl, ih rest⟩

/-- A program with these communications ends with this result. -/
def Ends
    (program : Prog Rank Msg Out)
    (ops : List (Op Rank Msg))
    (out : Out) : Prop :=
  Path ops program (.done out)

theorem ends_done (out : Out) :
    Ends (.done out : Prog Rank Msg Out) [] out :=
  rfl

/-- Programs run one after the other communicate one after the other. -/
theorem Ends.bind
    {program : Prog Rank Msg Out} {front back : List (Op Rank Msg)} {out : Out}
    {after : Out → Prog Rank Msg Final} {final : Final}
    (first : program.Ends front out)
    (second : (after out).Ends back final) :
    (program >>= after).Ends (front ++ back) final :=
  Path.trans (Path.bind first after) second

section

variable
    {program : Prog Rank Msg Out} {after : Out → Prog Rank Msg Final}
    {ops : List (Op Rank Msg)} {final : Final}

/-- The communications of a program that runs one after another are those of the
first, and then those of the second. -/
theorem Path.of_bind (path : Path ops (program.bind after) (.done final)) :
    ∃ front back out, ops = front ++ back ∧
      program.Ends front out ∧ (after out).Ends back final := by
  induction ops generalizing program with
  | nil =>
    cases program with
    | done out => exact ⟨[], [], out, rfl, rfl, path⟩
    | fail => cases path
    | send dst msg next => cases path
    | recv src next => cases path
  | cons op ops ih =>
    cases program with
    | done out => exact ⟨[], op :: ops, out, rfl, rfl, path⟩
    | fail =>
      rcases path.cons_cases with
        ⟨_, _, _, _, progEq, _⟩ | ⟨_, _, _, _, progEq, _⟩ <;> cases progEq
    | send dst msg next =>
      rcases path.cons_cases with
        ⟨_, _, _, rfl, progEq, rest⟩ | ⟨_, _, _, rfl, progEq, rest⟩
      · obtain ⟨rfl, rfl, rfl⟩ := Prog.send.inj progEq
        obtain ⟨front, back, out, rfl, first, second⟩ := ih rest
        exact ⟨_ :: front, back, out, rfl, ⟨rfl, rfl, first⟩, second⟩
      · cases progEq
    | recv src next =>
      rcases path.cons_cases with
        ⟨_, _, _, rfl, progEq, rest⟩ | ⟨_, _, _, rfl, progEq, rest⟩
      · cases progEq
      · obtain ⟨rfl, rfl⟩ := Prog.recv.inj progEq
        obtain ⟨front, back, out, rfl, first, second⟩ := ih rest
        exact ⟨_ :: front, back, out, rfl, ⟨rfl, first⟩, second⟩

theorem Ends.of_bind (ends : (program >>= after).Ends ops final) :
    ∃ front back out, ops = front ++ back ∧ program.Ends front out ∧ (after out).Ends back final :=
  Path.of_bind ends

end

/-- A program that has ended has nothing more to communicate. -/
theorem Ends.of_done
    {out final : Out}
    (ends : (.done out : Prog Rank Msg Out).Ends ops final) :
    ops = [] := by
  cases ops with
  | nil => rfl
  | cons op ops =>
    rcases Path.cons_cases ends with
      ⟨_, _, _, _, progEq, _⟩ | ⟨_, _, _, _, progEq, _⟩ <;> cases progEq

end Prog

/-- The programs still to be run and the messages on their way. -/
structure Network (Rank Msg Out : Type) where
  prog : Rank → Prog Rank Msg Out
  /-- The messages from one rank to another, the oldest first. -/
  channel : Rank → Rank → List Msg

namespace Network

/-- A rank that does not wait: it has failed, is about to send, or has a
message to receive. -/
def Ready (net : Network Rank Msg Out) (rank : Rank) : Prop :=
  match net.prog rank with
  | .done _ => False
  | .fail => True
  | .send _ _ _ => True
  | .recv src _ => net.channel src rank ≠ []

variable [DecidableEq Rank]

/-- Replace one program and the messages in one queue. -/
def update
    (net : Network Rank Msg Out)
    (rank : Rank)
    (program : Prog Rank Msg Out)
    (src dst : Rank)
    (messages : List Msg) : Network Rank Msg Out where
  prog := Function.update net.prog rank program
  channel := Function.update net.channel src
    (Function.update (net.channel src) dst messages)

/-- The next communication of a rank. -/
def step (net : Network Rank Msg Out) (rank : Rank) :
    Option (Network Rank Msg Out) :=
  match net.prog rank with
  | .done _ => none
  | .fail => none
  | .send dst msg next =>
    some (net.update rank next rank dst (net.channel rank dst ++ [msg]))
  | .recv src next =>
    match net.channel src rank with
    | [] => none
    | msg :: messages => some (net.update rank (next msg) src rank messages)

end Network

variable [DecidableEq Rank]

/-- The runs of these programs, from a network without messages. -/
def system (programs : Rank → Prog Rank Msg Out) :
    TransitionSystem (Network Rank Msg Out) Rank where
  initial := fun net => net.prog = programs ∧ ∀ src dst, net.channel src dst = []
  enabled := Network.Ready
  step := Network.step

/-- However the programs are interleaved, they do not fail, no more than a
fixed number of communications happen, and when nothing more can happen all
programs have ended with their results and every message has been received. -/
structure Completes
    (programs : Rank → Prog Rank Msg Out)
    (out : Rank → Out) : Prop where
  responsive : ∀ net, (system programs).Reachable net → (system programs).Responsive net
  settled : ∀ net, (system programs).Reachable net → (∀ rank, ¬ net.Ready rank) →
      (∀ rank, net.prog rank = .done (out rank)) ∧ ∀ src dst, net.channel src dst = []
  bounded : ∃ bound, ∀ steps net, (system programs).ReachableIn steps net → steps ≤ bound

/-- A communication with the time it is given. -/
abbrev Event (Rank Msg : Type) := Nat × Op Rank Msg

/-- The messages sent to a rank, with their times. -/
def sentTo (dst : Rank) (events : List (Event Rank Msg)) : List (Nat × Msg) :=
  events.filterMap fun event =>
    match event.2 with
    | .send rank msg => if rank = dst then some (event.1, msg) else none
    | .recv _ _ => none

/-- The messages received from a rank, with their times. -/
def receivedFrom
    (src : Rank)
    (events : List (Event Rank Msg)) : List (Nat × Msg) :=
  events.filterMap fun event =>
    match event.2 with
    | .send _ _ => none
    | .recv rank msg => if rank = src then some (event.1, msg) else none

@[simp] theorem sentTo_append
    (dst : Rank)
    (front back : List (Event Rank Msg)) :
    sentTo dst (front ++ back) = sentTo dst front ++ sentTo dst back :=
  filterMap_append

@[simp] theorem receivedFrom_append
    (src : Rank)
    (front back : List (Event Rank Msg)) :
    receivedFrom src (front ++ back) = receivedFrom src front ++ receivedFrom src back :=
  filterMap_append

@[simp] theorem sentTo_nil (dst : Rank) :
    sentTo dst ([] : List (Event Rank Msg)) = [] :=
  rfl

@[simp] theorem receivedFrom_nil (src : Rank) :
    receivedFrom src ([] : List (Event Rank Msg)) = [] :=
  rfl

@[simp] theorem sentTo_cons_send
    (dst rank : Rank)
    (time : Nat)
    (msg : Msg)
    (events : List (Event Rank Msg)) :
    sentTo dst ((time, .send rank msg) :: events) =
      if rank = dst then (time, msg) :: sentTo dst events
      else sentTo dst events := by
  simp only [sentTo, filterMap_cons]
  split <;> simp_all

@[simp] theorem sentTo_cons_recv
    (dst rank : Rank)
    (time : Nat)
    (msg : Msg)
    (events : List (Event Rank Msg)) :
    sentTo dst ((time, .recv rank msg) :: events) = sentTo dst events := by
  simp only [sentTo, filterMap_cons]

@[simp] theorem receivedFrom_cons_recv
    (src rank : Rank)
    (time : Nat)
    (msg : Msg)
    (events : List (Event Rank Msg)) :
    receivedFrom src ((time, .recv rank msg) :: events) =
      if rank = src then (time, msg) :: receivedFrom src events
      else receivedFrom src events := by
  simp only [receivedFrom, filterMap_cons]
  split <;> simp_all

@[simp] theorem receivedFrom_cons_send
    (src rank : Rank)
    (time : Nat)
    (msg : Msg)
    (events : List (Event Rank Msg)) :
    receivedFrom src ((time, .send rank msg) :: events) = receivedFrom src events := by
  simp only [receivedFrom, filterMap_cons]

variable {events : List (Event Rank Msg)}

theorem mem_of_mem_sentTo
    {dst : Rank} {sent : Nat × Msg}
    (member : sent ∈ sentTo dst events) :
    (sent.1, Op.send dst sent.2) ∈ events := by
  obtain ⟨⟨time, op⟩, inEvents, found⟩ := mem_filterMap.mp member
  cases op with
  | send rank msg =>
    simp only [Option.ite_none_right_eq_some, Option.some.injEq] at found
    obtain ⟨rfl, rfl⟩ := found
    exact inEvents
  | recv rank msg => simp at found

variable {msg : Msg}

theorem sentTo_ne_nil
    {dst : Rank}
    (member : Op.send dst msg ∈ events.map Prod.snd) :
    sentTo dst events ≠ [] := by
  obtain ⟨event, inEvents, opEq⟩ := mem_map.mp member
  have sent : (event.1, msg) ∈ sentTo dst events :=
    mem_filterMap.mpr ⟨event, inEvents, by simp [opEq]⟩
  exact ne_nil_of_mem sent

theorem receivedFrom_ne_nil
    {src : Rank}
    (member : Op.recv src msg ∈ events.map Prod.snd) :
    receivedFrom src events ≠ [] := by
  obtain ⟨event, inEvents, opEq⟩ := mem_map.mp member
  have received : (event.1, msg) ∈ receivedFrom src events :=
    mem_filterMap.mpr ⟨event, inEvents, by simp [opEq]⟩
  exact ne_nil_of_mem received

/-- The messages sent so far are those received so far and those on their
way. -/
def Balanced
    (net : Network Rank Msg Out)
    (past : Rank → List (Event Rank Msg)) : Prop :=
  ∀ src dst, (sentTo dst (past src)).map Prod.snd =
      (receivedFrom src (past dst)).map Prod.snd ++ net.channel src dst

theorem Network.update_channel
    (net : Network Rank Msg Out)
    (rank : Rank)
    (program : Prog Rank Msg Out)
    (src dst : Rank)
    (messages : List Msg)
    (other another : Rank) :
    (net.update rank program src dst messages).channel other another =
      if other = src ∧ another = dst then messages
      else net.channel other another := by
  unfold Network.update
  by_cases sameSrc : other = src
  · subst sameSrc
    by_cases sameDst : another = dst
    · subst sameDst
      simp
    · simp [sameDst]
  · simp [sameSrc]

variable {net : Network Rank Msg Out}

/-- What the next communication of a rank can be. -/
theorem Network.step_eq_some
    {next : Network Rank Msg Out} {rank : Rank}
    (stepped : net.step rank = some next) :
    (∃ dst msg program, net.prog rank = .send dst msg program ∧
      next = net.update rank program rank dst (net.channel rank dst ++ [msg])) ∨
    ∃ src msg program messages, net.prog rank = .recv src program ∧
      net.channel src rank = msg :: messages ∧
      next = net.update rank (program msg) src rank messages := by
  unfold Network.step at stepped
  cases program : net.prog rank with
  | done out => simp [program] at stepped
  | fail => simp [program] at stepped
  | send dst msg rest =>
    rw [program] at stepped
    exact Or.inl ⟨dst, msg, rest, rfl, (Option.some.inj stepped).symm⟩
  | recv src rest =>
    rw [program] at stepped
    cases queue : net.channel src rank with
    | nil => simp [queue] at stepped
    | cons msg messages =>
      simp only [queue] at stepped
      exact Or.inr ⟨src, msg, rest, messages, rfl, queue, (Option.some.inj stepped).symm⟩

/-- A message that is sent is on its way. -/
theorem Balanced.send
    {past : Rank → List (Event Rank Msg)}
    (balanced : Balanced net past)
    (rank dst : Rank)
    (msg : Msg)
    (time : Nat)
    (program : Prog Rank Msg Out) :
    Balanced
      (net.update rank program rank dst (net.channel rank dst ++ [msg]))
      (Function.update past rank (past rank ++ [(time, .send dst msg)])) := by
  intro source target
  have received :
      receivedFrom source (Function.update past rank
          (past rank ++ [(time, .send dst msg)]) target) =
        receivedFrom source (past target) := by
    by_cases same : target = rank
    · subst same
      simp
    · rw [update_of_ne same]
  rw [received, Network.update_channel]
  by_cases same : source = rank
  · subst same
    rw [update_self, sentTo_append, map_append, balanced source target]
    by_cases sameDst : target = dst
    · subst sameDst
      simp
    · simp [sameDst, Ne.symm sameDst]
  · rw [update_of_ne same, balanced source target]
    simp [same]

/-- A message that is received is no longer on its way. -/
theorem Balanced.recv
    {past : Rank → List (Event Rank Msg)}
    (balanced : Balanced net past)
    {rank src : Rank} {messages : List Msg}
    (queue : net.channel src rank = msg :: messages)
    (time : Nat)
    (program : Prog Rank Msg Out) :
    Balanced (net.update rank program src rank messages)
      (Function.update past rank (past rank ++ [(time, .recv src msg)])) := by
  intro source target
  have sent :
      sentTo target (Function.update past rank (past rank ++ [(time, .recv src msg)]) source) =
        sentTo target (past source) := by
    by_cases same : source = rank
    · subst same
      simp
    · rw [update_of_ne same]
  rw [sent, balanced source target, Network.update_channel]
  by_cases same : target = rank
  · subst same
    by_cases sameSrc : source = src
    · subst sameSrc
      simp [queue]
    · simp [sameSrc, Ne.symm sameSrc]
  · rw [update_of_ne same]
    simp [same]

/-- In every run each program has got where it is through communications that
account for the messages on their way. -/
theorem exists_history
    {programs : Rank → Prog Rank Msg Out}
    (reachable : (system programs).Reachable net) :
    ∃ past : Rank → List (Event Rank Msg), Balanced net past ∧
      ∀ rank, Prog.Path ((past rank).map Prod.snd) (programs rank) (net.prog rank) := by
  induction reachable with
  | initial start =>
    refine ⟨fun _ => [], ?_, ?_⟩
    · intro src dst
      rw [start.2]
      rfl
    · intro rank
      rw [start.1]
      rfl
  | step rank _ _ stepped ih =>
    obtain ⟨past, balanced, path⟩ := ih
    rcases Network.step_eq_some stepped with
      ⟨dst, msg, program, about, rfl⟩ |
        ⟨src, msg, program, messages, about, queue, rfl⟩
    · refine ⟨_, balanced.send rank dst msg 0 program, ?_⟩
      intro other
      by_cases same : other = rank
      · subst same
        have taken : Prog.Path [.send dst msg]
            (.send dst msg program : Prog Rank Msg Out) program :=
          ⟨rfl, rfl, rfl⟩
        simp only [Network.update, update_self, map_append]
        exact (about ▸ path other).trans taken
      · simpa only [Network.update, update_of_ne same] using path other
    · refine ⟨_, balanced.recv queue 0 (program msg), ?_⟩
      intro other
      by_cases same : other = rank
      · subst same
        have taken : Prog.Path [.recv src msg]
            (.recv src program : Prog Rank Msg Out) (program msg) :=
          ⟨rfl, rfl⟩
        simp only [Network.update, update_self, map_append]
        exact (about ▸ path other).trans taken
      · simpa only [Network.update, update_of_ne same] using path other

end Mpich.MessagePassing
