import Mathlib.Data.List.Nodup

/-!
# Singly linked queues

A queue given by its head and tail pointers and by the `next` pointer of each
node, as a program keeps it when the pointers live in the nodes themselves.
`Represents` relates the pointers to the list of the queue's nodes. Searching
takes a bound on the number of nodes it may visit, and yields the node found
together with the one before it, which is what unlinking a node needs. Several
queues may share one `next`: an operation on one of them leaves alone every
queue that has no node in common with it.
-/

namespace Mpich.LinkedQueue

open List Function

variable {Node : Type*}

/-- The head and tail pointers of a queue. -/
structure Ends (Node : Type*) where
  head : Option Node
  tail : Option Node
  deriving DecidableEq, Repr

/-- Following `next` from `start` visits exactly these nodes and then ends. -/
def Chain (next : Node → Option Node) : Option Node → List Node → Prop
  | start, [] => start = none
  | start, node :: rest => start = some node ∧ Chain next (next node) rest

/-- The pointers hold exactly these nodes, in this order. -/
structure Represents
    (next : Node → Option Node)
    (ends : Ends Node)
    (nodes : List Node) : Prop where
  chain : Chain next ends.head nodes
  tail_eq : ends.tail = nodes.getLast?
  nodup : nodes.Nodup

variable {start : Option Node} {next : Node → Option Node} {nodes : List Node}

/-- A chain depends only on the pointers of its own nodes. -/
theorem Chain.congr
    {other : Node → Option Node}
    (chain : Chain next start nodes)
    (agree : ∀ node ∈ nodes, other node = next node) :
    Chain other start nodes := by
  induction nodes generalizing start with
  | nil => exact chain
  | cons node rest ih =>
    refine ⟨chain.1, ?_⟩
    rw [agree node (by simp)]
    apply ih chain.2
    intro later member
    exact agree later (by simp [member])

variable {node : Node} {before : List Node}

/-- The last node of a chain points nowhere, every other one to its
successor. -/
theorem Chain.next_eq
    {after : List Node}
    (chain : Chain next start (before ++ node :: after)) :
    next node = after.head? := by
  induction before generalizing start with
  | nil =>
    cases after with
    | nil => exact chain.2
    | cons successor rest => exact chain.2.1
  | cons first rest ih => exact ih chain.2

section

variable [DecidableEq Node]

/-- Redirecting the pointer before a node takes the node out of the chain. -/
theorem Chain.unlink
    {after : List Node}
    {prev : Node}
    (chain : Chain next start (before ++ prev :: node :: after))
    (nodup : (before ++ prev :: node :: after).Nodup) :
    Chain (update next prev (next node)) start (before ++ prev :: after) := by
  induction before generalizing start with
  | nil =>
    obtain ⟨startEq, prevEq, rest⟩ := chain
    refine ⟨startEq, ?_⟩
    rw [update_self]
    apply rest.congr
    intro later member
    apply update_of_ne
    rintro rfl
    simp [member] at nodup
  | cons first rest ih =>
    refine ⟨chain.1, ?_⟩
    have different : first ≠ prev := by
      rintro rfl
      simp at nodup
    rw [update_of_ne different]
    exact ih chain.2 (nodup_cons.mp nodup).2

/-- Pointing the last node of a chain to a new one extends the chain. -/
theorem Chain.append
    {last : Node}
    (chain : Chain next start (before ++ [last]))
    (nodup : (before ++ [last]).Nodup)
    (fresh : node ∉ before ++ [last]) :
    Chain (update (update next node none) last (some node)) start (before ++ [last, node]) := by
  induction before generalizing start with
  | nil =>
    have different : node ≠ last := by simpa using fresh
    refine ⟨chain.1, ?_⟩
    rw [update_self]
    refine ⟨rfl, ?_⟩
    rw [update_of_ne different, update_self]
    rfl
  | cons first rest ih =>
    have notLast : first ≠ last := by
      rintro rfl
      simp at nodup
    have notNode : first ≠ node := by
      rintro rfl
      simp at fresh
    refine ⟨chain.1, ?_⟩
    rw [update_of_ne notLast, update_of_ne notNode]
    apply ih chain.2 (nodup_cons.mp nodup).2
    intro member
    exact fresh (mem_cons_of_mem first member)

end

section

variable (next : Node → Option Node) (accepts : Node → Bool)

/-- Walk from a node, remembering the one before it, to the first node that is
accepted. `some none` means that there is no such node, and `none` that the
walk was cut short by its bound. -/
def findFirst :
    Nat → Option Node → Option Node → Option (Option (Option Node × Node))
  | _, _, none => some none
  | 0, _, some _ => none
  | bound + 1, prev, some node =>
    if accepts node then
      some (some (prev, node))
    else
      findFirst bound (some node) (next node)

/-- Walk all the way, remembering the last node that was accepted and the one
before it. -/
def findLast :
    Nat → Option (Option Node × Node) → Option Node → Option Node →
      Option (Option (Option Node × Node))
  | _, matching, _, none => some matching
  | 0, _, _, some _ => none
  | bound + 1, matching, prev, some node =>
    findLast bound
      (if accepts node then some (prev, node) else matching)
      (some node) (next node)

end

/-- A node of a list and the one before it: `prev` is the node in front of the
list when the list starts with `node`. -/
structure FoundAt
    (nodes before after : List Node)
    (front : Option Node)
    (found : Option Node × Node) : Prop where
  split : nodes = before ++ found.2 :: after
  prev_eq : found.1 = before.getLast?.or front

variable {found : Option Node × Node}

theorem FoundAt.cons
    {rest after : List Node} {front : Option Node}
    (foundAt : FoundAt rest before after (some node) found) :
    FoundAt (node :: rest) (node :: before) after front found where
  split := by rw [foundAt.split, cons_append]
  prev_eq := by
    rw [foundAt.prev_eq]
    cases before with
    | nil => rfl
    | cons first later => rw [getLast?_cons_cons, getLast?_cons]; rfl

section

variable
    {next : Node → Option Node} {start : Option Node} {nodes : List Node}
    (chain : Chain next start nodes)
    (accepts : Node → Bool)
    (bound : Nat)
    (long : nodes.length ≤ bound)

include chain accepts bound long

/-- A long enough search finds nothing exactly when nothing is accepted, and
otherwise the first accepted node. -/
theorem findFirst_of_chain (front : Option Node) :
    (findFirst next accepts bound front start = some none ∧ ∀ node ∈ nodes, accepts node = false) ∨
    ∃ found before after, findFirst next accepts bound front start = some (some found) ∧
      FoundAt nodes before after front found ∧ accepts found.2 = true ∧
      ∀ node ∈ before, accepts node = false := by
  induction nodes generalizing start bound front with
  | nil =>
    have startEq : start = none := chain
    subst startEq
    exact Or.inl ⟨by rw [findFirst], by simp⟩
  | cons node rest ih =>
    obtain ⟨rfl, chain⟩ := chain
    cases bound with
    | zero => simp at long
    | succ bound =>
      rw [findFirst]
      by_cases accepted : accepts node = true
      · rw [if_pos accepted]
        exact Or.inr ⟨(front, node), [], rest, rfl, ⟨rfl, rfl⟩, accepted, by simp⟩
      · rw [if_neg accepted]
        have rejected : accepts node = false := by
          simpa using accepted
        have long : rest.length ≤ bound := by simpa using long
        rcases ih chain bound long (some node) with
          ⟨searched, none⟩ | ⟨found, before, after, searched, foundAt, acceptedFound, first⟩
        · refine Or.inl ⟨searched, ?_⟩
          simpa [rejected] using none
        · refine Or.inr ⟨found, node :: before, after, searched, foundAt.cons, acceptedFound, ?_⟩
          simpa [rejected] using first

/-- A long enough walk keeps what it had when nothing is accepted, and
otherwise yields the last accepted node. -/
theorem findLast_of_chain
    (matching : Option (Option Node × Node))
    (front : Option Node) :
    (findLast next accepts bound matching front start = some matching ∧
      ∀ node ∈ nodes, accepts node = false) ∨
    ∃ found before after, findLast next accepts bound matching front start = some (some found) ∧
      FoundAt nodes before after front found ∧ accepts found.2 = true ∧
      ∀ node ∈ after, accepts node = false := by
  induction nodes generalizing start bound matching front with
  | nil =>
    have startEq : start = none := chain
    subst startEq
    exact Or.inl ⟨by rw [findLast], by simp⟩
  | cons node rest ih =>
    obtain ⟨rfl, chain⟩ := chain
    cases bound with
    | zero => simp at long
    | succ bound =>
      rw [findLast]
      have long : rest.length ≤ bound := by simpa using long
      rcases ih chain bound long
          (if accepts node then some (front, node) else matching)
          (some node) with
        ⟨searched, none⟩ | ⟨found, before, after, searched, foundAt, acceptedFound, last⟩
      · by_cases accepted : accepts node = true
        · rw [if_pos accepted] at searched ⊢
          exact Or.inr ⟨(front, node), [], rest, searched, ⟨rfl, rfl⟩, accepted, none⟩
        · rw [if_neg accepted] at searched ⊢
          refine Or.inl ⟨searched, ?_⟩
          simpa [accepted] using none
      · exact Or.inr ⟨found, node :: before, after, searched, foundAt.cons, acceptedFound, last⟩

end

section

variable [DecidableEq Node]

/-- Take a node out, given the one before it. -/
def unlink
    (next : Node → Option Node)
    (ends : Ends Node)
    (prev : Option Node)
    (node : Node) : (Node → Option Node) × Ends Node :=
  let next' :=
    match prev with
    | some prev => update next prev (next node)
    | none => next
  let head :=
    match prev with
    | some _ => ends.head
    | none => next node
  let tail := if next' node = none then prev else ends.tail
  (next', { head, tail })

/-- Put a node at the end. -/
def append
    (next : Node → Option Node)
    (ends : Ends Node)
    (node : Node) : (Node → Option Node) × Ends Node :=
  let next' := update next node none
  match ends.tail with
  | some tail => (update next' tail (some node), { ends with tail := some node })
  | none => (next', { head := some node, tail := some node })

/-- Unlinking writes only to the node before the one unlinked. -/
theorem unlink_next_of_ne
    (next : Node → Option Node)
    (ends : Ends Node)
    (prev : Option Node)
    (node other : Node)
    (different : prev ≠ some other) :
    (unlink next ends prev node).1 other = next other := by
  cases prev with
  | none => rfl
  | some prev =>
    apply update_of_ne
    rintro rfl
    exact different rfl

/-- Appending writes only to the new node and to the old tail. -/
theorem append_next_of_ne
    (next : Node → Option Node)
    (ends : Ends Node)
    (node other : Node)
    (notTail : ends.tail ≠ some other)
    (notNode : other ≠ node) :
    (append next ends node).1 other = next other := by
  unfold append
  cases tailEq : ends.tail with
  | none => exact update_of_ne notNode _ _
  | some tail =>
    have notTail : other ≠ tail := by
      rintro rfl
      exact notTail tailEq
    exact (update_of_ne notTail _ _).trans (update_of_ne notNode _ _)

section

variable
    {next : Node → Option Node}

variable {ends : Ends Node}

/-- Unlinking the node found takes it out of the queue and keeps the order of
the others. -/
theorem Represents.unlink
    {after : List Node}
    (represents : Represents next ends nodes)
    (foundAt : FoundAt nodes before after none found) :
    Represents (unlink next ends found.1 found.2).1
      (unlink next ends found.1 found.2).2 (before ++ after) := by
  obtain ⟨prev, node⟩ := found
  obtain ⟨rfl, prevEq⟩ := foundAt
  obtain ⟨chain, tailEq, nodup⟩ := represents
  have nextNode : next node = after.head? := chain.next_eq
  have nodup' : (before ++ after).Nodup := nodup.sublist (by simp)
  rcases eq_nil_or_concat before with rfl | ⟨front, last, rfl⟩
  · have prevNone : prev = none := prevEq
    subst prevNone
    refine ⟨chain.2, ?_, nodup'⟩
    cases after with
    | nil => simp [LinkedQueue.unlink, nextNode]
    | cons successor rest => simpa [LinkedQueue.unlink, nextNode] using tailEq
  · have prevLast : prev = some last := by simpa using prevEq
    subst prevLast
    simp only [concat_append] at chain nodup tailEq nodup' ⊢
    have different : node ≠ last := by
      rintro rfl
      simp [nodup_append] at nodup
    refine ⟨chain.unlink nodup, ?_, nodup'⟩
    simp only [LinkedQueue.unlink, update_of_ne different, nextNode]
    cases after with
    | nil => simp
    | cons successor rest => simpa using tailEq

/-- Appending a node that is not in the queue puts it last. -/
theorem Represents.append
    (represents : Represents next ends nodes)
    (fresh : node ∉ nodes) :
    Represents (append next ends node).1 (append next ends node).2 (nodes ++ [node]) := by
  obtain ⟨chain, tailEq, nodup⟩ := represents
  have nodup' : (nodes ++ [node]).Nodup := by
    rw [nodup_append_comm]
    exact nodup_cons.mpr ⟨fresh, nodup⟩
  unfold LinkedQueue.append
  rcases eq_nil_or_concat nodes with rfl | ⟨front, last, rfl⟩
  · have tailNone : ends.tail = none := tailEq
    simp only [tailNone]
    refine ⟨⟨rfl, ?_⟩, rfl, nodup'⟩
    exact update_self ..
  · have tailLast : ends.tail = some last := by simpa using tailEq
    simp only [tailLast]
    refine ⟨?_, by simp, nodup'⟩
    simp only [concat_eq_append] at chain nodup fresh
    rw [concat_append]
    exact chain.append nodup fresh

/-- A queue that does not hold the node before the one unlinked is left
alone. -/
theorem Represents.unlink_other
    {others : Ends Node} {after rest : List Node}
    (represents : Represents next others rest)
    (foundAt : FoundAt nodes before after none found)
    (disjoint : nodes.Disjoint rest) :
    Represents (LinkedQueue.unlink next ends found.1 found.2).1 others rest := by
  refine ⟨represents.chain.congr ?_, represents.tail_eq, represents.nodup⟩
  intro other member
  apply unlink_next_of_ne
  intro prevEq
  have inBefore : other ∈ before := by
    apply mem_of_getLast?
    rw [← prevEq, foundAt.prev_eq, Option.or_none]
  apply disjoint _ member
  rw [foundAt.split]
  exact mem_append_left _ inBefore

/-- A queue that holds neither the new node nor the old tail is left alone. -/
theorem Represents.append_other
    {others : Ends Node} {rest : List Node}
    (represents : Represents next others rest)
    (appended : Represents next ends nodes)
    (disjoint : nodes.Disjoint rest)
    (fresh : node ∉ rest) :
    Represents (LinkedQueue.append next ends node).1 others rest := by
  refine ⟨represents.chain.congr ?_, represents.tail_eq, represents.nodup⟩
  intro other member
  apply append_next_of_ne
  · intro tailEq
    rw [appended.tail_eq] at tailEq
    exact disjoint (mem_of_getLast? tailEq) member
  · rintro rfl
    exact fresh member

end

end

end Mpich.LinkedQueue
