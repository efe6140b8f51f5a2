import Mathlib.Data.List.Induction
import Mathlib.Data.List.Nodup

/-!
# Doubly linked lists

Lists that end in a null pointer, threaded through the `next` and `prev`
pointers of their nodes. `Joined` describes a stretch of such a list between
two given neighbours; the stretches of `lo ++ hi` are those of `lo` and of `hi`.

Two writes are enough for everything a program does with such a list. `join`
makes one node follow another, and `start` makes a node the first one. Each is
described once, by what it does to a stretch, and unlinking, inserting and
replacing nodes are compositions of the two.
-/

namespace Mpich.DoublyLinked

open List Function Option

variable {Node : Type*}

/-- The pointers of all nodes. -/
structure Links (Node : Type*) where
  next : Node → Option Node
  prev : Node → Option Node

/-- The nodes follow each other both ways; `before` comes before the first of
them and `after` comes after the last. -/
def Joined (links : Links Node) :
    Option Node → List Node → Option Node → Prop
  | _, [], _ => True
  | before, node :: rest, after =>
    links.prev node = before ∧ links.next node = rest.head?.or after ∧
        Joined links (some node) rest after

/-- From this head, the pointers hold exactly these nodes in this order. -/
structure Represents
    (links : Links Node)
    (head : Option Node)
    (nodes : List Node) : Prop where
  head_eq : head = nodes.head?
  joined : Joined links none nodes none
  nodup : nodes.Nodup

@[simp] theorem joined_nil
    (links : Links Node)
    (before after : Option Node) :
    Joined links before [] after :=
  trivial

/-- A single node is a stretch between its own neighbours. -/
theorem joined_singleton (links : Links Node) (node : Node) :
    Joined links (links.prev node) [node] (links.next node) :=
  ⟨rfl, rfl, trivial⟩

variable {nodes : List Node} {before after : Option Node} {links : Links Node}

/-- A stretch depends only on the pointers of its own nodes. -/
theorem Joined.congr
    {other : Links Node}
    (joined : Joined links before nodes after)
    (sameNext : ∀ node ∈ nodes, other.next node = links.next node)
    (samePrev : ∀ node ∈ nodes, other.prev node = links.prev node) :
    Joined other before nodes after := by
  induction nodes generalizing before with
  | nil => trivial
  | cons node rest ih =>
    obtain ⟨prevEq, nextEq, restJoined⟩ := joined
    refine ⟨?_, ?_, ?_⟩
    · rw [samePrev node (by simp), prevEq]
    · rw [sameNext node (by simp), nextEq]
    · apply ih restJoined
      · intro later member
        exact sameNext later (mem_cons_of_mem node member)
      · intro later member
        exact samePrev later (mem_cons_of_mem node member)

private theorem getLast?_cons_or
    (node : Node)
    (rest : List Node)
    (before : Option Node) :
    (node :: rest).getLast?.or before = rest.getLast?.or (some node) := by
  cases rest using reverseRecOn with
  | nil => rfl
  | append_singleton others last _ =>
    rw [← cons_append, getLast?_concat, getLast?_concat]
    rfl

/-- The two halves of a stretch. -/
theorem joined_append
    {lo hi : List Node} :
    Joined links before (lo ++ hi) after ↔ Joined links before lo (hi.head?.or after) ∧
        Joined links (lo.getLast?.or before) hi after := by
  induction lo generalizing before with
  | nil => simp
  | cons node rest ih =>
    have headEq :
        ((rest ++ hi).head?).or after = (rest.head?).or ((hi.head?).or after) := by
      cases rest <;> simp
    rw [getLast?_cons_or, cons_append]
    simp only [Joined, headEq, ih, and_assoc]

variable {node : Node}

/-- The neighbours of a node inside a stretch. -/
theorem Joined.neighbours
    {lo hi : List Node}
    (joined : Joined links before (lo ++ node :: hi) after) :
    links.prev node = lo.getLast?.or before ∧ links.next node = hi.head?.or after := by
  have rest := (joined_append.mp joined).2
  exact ⟨rest.1, rest.2.1⟩

section

variable [DecidableEq Node]

/-- Make `after` follow a node. -/
def Links.join
    (links : Links Node)
    (node : Node)
    (after : Option Node) : Links Node where
  next := update links.next node after
  prev :=
    match after with
    | none => links.prev
    | some follower => update links.prev follower (some node)

/-- Make a node the first of its list. -/
def Links.start
    (links : Links Node)
    (first : Option Node) : Links Node where
  next := links.next
  prev :=
    match first with
    | none => links.prev
    | some node => update links.prev node none

@[simp] theorem Links.join_next_self
    (links : Links Node)
    (node : Node)
    (after : Option Node) :
    (links.join node after).next node = after := by
  simp only [Links.join, update_self]

theorem Links.join_next_of_ne
    (links : Links Node)
    {other : Node}
    (after : Option Node)
    (different : other ≠ node) :
    (links.join node after).next other = links.next other := by
  exact update_of_ne different _ _

theorem Links.join_prev_of_ne
    (links : Links Node)
    {other : Node}
    (different : after ≠ some other) :
    (links.join node after).prev other = links.prev other := by
  cases after with
  | none => rfl
  | some follower =>
    apply update_of_ne
    rintro rfl
    exact different rfl

theorem Links.start_prev_of_ne
    (links : Links Node)
    {other : Node} {first : Option Node}
    (different : first ≠ some other) :
    (links.start first).prev other = links.prev other := by
  cases first with
  | none => rfl
  | some node =>
    apply update_of_ne
    rintro rfl
    exact different rfl

section

variable
    {links : Links Node}

/-- Joining leaves a stretch alone that holds neither of the two nodes. -/
theorem Joined.of_join
    {behind : Option Node}
    (joined : Joined links before nodes behind)
    (notNode : node ∉ nodes)
    (notAfter : ∀ follower, after = some follower → follower ∉ nodes) :
    Joined (links.join node after) before nodes behind := by
  apply joined.congr
  · intro member inside
    apply Links.join_next_of_ne
    rintro rfl
    exact notNode inside
  · intro member inside
    apply Links.join_prev_of_ne
    intro equal
    exact notAfter member equal inside

/-- Starting a list leaves a stretch alone that does not hold its first
node. -/
theorem Joined.of_start
    {first : Option Node}
    (joined : Joined links before nodes after)
    (notFirst : ∀ node, first = some node → node ∉ nodes) :
    Joined (links.start first) before nodes after := by
  apply joined.congr
  · intro member inside
    rfl
  · intro member inside
    apply Links.start_prev_of_ne
    intro equal
    exact notFirst member equal inside

/-- Joining the last node of one stretch to the first of another makes one
stretch of them. -/
theorem Joined.join
    {between other behind : Option Node} {lo hi : List Node}
    (left : Joined links before (lo ++ [node]) between)
    (right : Joined links other hi none)
    (nodup : (lo ++ node :: hi).Nodup)
    (isHead : behind = hi.head?) :
    Joined (links.join node behind) before (lo ++ node :: hi) none := by
  subst isHead
  have apart := nodup_append.mp nodup
  have nodeOnce := nodup_cons.mp apart.2.1
  obtain ⟨left, last⟩ := joined_append.mp left
  rw [joined_append]
  refine ⟨?_, ?_, ?_, ?_⟩
  · apply left.of_join
    · intro member
      exact apart.2.2 node member node (by simp) rfl
    · intro follower equal member
      have later := mem_of_mem_head? equal
      exact apart.2.2 follower member follower (mem_cons_of_mem node later) rfl
  · rw [Links.join_prev_of_ne]
    · exact last.1
    · intro equal
      exact nodeOnce.1 (mem_of_mem_head? equal)
  · rw [Links.join_next_self]
    simp
  · cases hi with
    | nil => trivial
    | cons first rest =>
      have firstOnce := nodup_cons.mp nodeOnce.2
      refine ⟨by simp [Links.join], ?_, ?_⟩
      · rw [Links.join_next_of_ne]
        · exact right.2.1
        · rintro rfl
          exact nodeOnce.1 (by simp)
      · apply right.2.2.of_join
        · intro member
          exact nodeOnce.1 (mem_cons_of_mem first member)
        · intro follower equal member
          cases equal
          exact firstOnce.1 member

/-- A single node joined to the front of a stretch. -/
theorem Joined.joinFront
    {other behind : Option Node} {hi : List Node}
    (right : Joined links other hi none)
    (nodup : (node :: hi).Nodup)
    (isHead : behind = hi.head?) :
    Joined (links.join node behind) (links.prev node) (node :: hi) none := by
  have left : Joined links (links.prev node) ([] ++ [node]) (links.next node) :=
    joined_singleton links node
  exact left.join right nodup isHead

/-- A stretch whose first node is made the first of its list. -/
theorem Joined.start
    {first : Option Node}
    (joined : Joined links before nodes none)
    (nodup : nodes.Nodup)
    (isHead : first = nodes.head?) :
    Represents (links.start first) first nodes := by
  subst isHead
  refine ⟨rfl, ?_, nodup⟩
  cases nodes with
  | nil => trivial
  | cons node rest =>
    refine ⟨by simp [Links.start], joined.2.1, ?_⟩
    apply joined.2.2.of_start
    intro other equal
    cases equal
    exact (nodup_cons.mp nodup).1

end

/-- Take a node out of the list it is on, together with the new head of that
list. -/
def Links.unlink
    (links : Links Node)
    (head : Option Node)
    (node : Node) : Option Node × Links Node :=
  match links.prev node with
  | some before => (head, links.join before (links.next node))
  | none => (links.next node, links.start (links.next node))

variable {links : Links Node}

variable {head : Option Node}

/-- Unlinking takes just that node out of the list. -/
theorem Represents.unlink
    {lo hi : List Node}
    (represents : Represents links head (lo ++ node :: hi)) :
    Represents (links.unlink head node).2 (links.unlink head node).1 (lo ++ hi) := by
  have nodup : (lo ++ hi).Nodup := by
    have all := represents.nodup
    rw [nodup_middle] at all
    exact (nodup_cons.mp all).2
  obtain ⟨prevEq, nextEq⟩ := represents.joined.neighbours
  have halves := joined_append.mp represents.joined
  rw [or_none] at prevEq nextEq
  unfold Links.unlink
  cases lo using reverseRecOn with
  | nil =>
    rw [prevEq, nextEq]
    exact halves.2.2.2.start nodup rfl
  | append_singleton others before _ =>
    rw [getLast?_concat] at prevEq
    rw [prevEq, nextEq]
    rw [append_assoc, singleton_append] at nodup ⊢
    refine ⟨?_, ?_, nodup⟩
    · rw [represents.head_eq]
      cases others <;> simp
    · exact halves.1.join halves.2.2.2 nodup rfl

/-- Unlinking changes no pointer of the nodes of another list. -/
theorem Joined.of_unlink
    {lo hi : List Node}
    (joined : Joined links before nodes after)
    (represents : Represents links head (lo ++ node :: hi))
    (apart : ∀ member ∈ nodes, member ∉ lo ++ node :: hi) :
    Joined (links.unlink head node).2 before nodes after := by
  obtain ⟨prevEq, nextEq⟩ := represents.joined.neighbours
  rw [or_none] at prevEq nextEq
  have notNext :
      ∀ follower, links.next node = some follower → follower ∉ nodes := by
    intro follower equal member
    rw [nextEq] at equal
    apply apart follower member
    simp [mem_of_mem_head? equal]
  unfold Links.unlink
  cases found : links.prev node with
  | none => exact joined.of_start notNext
  | some previous =>
    apply joined.of_join _ notNext
    intro member
    rw [prevEq] at found
    apply apart previous member
    simp [mem_of_getLast? found]

/-- Put a node before the first one of a list. -/
def Links.push
    (links : Links Node)
    (head : Option Node)
    (node : Node) : Links Node :=
  (links.join node head).start (some node)

/-- Pushing puts just that node in front. -/
theorem Represents.push
    (represents : Represents links head nodes)
    (fresh : node ∉ nodes) :
    Represents (links.push head node) (some node) (node :: nodes) := by
  have nodup : (node :: nodes).Nodup := nodup_cons.mpr ⟨fresh, represents.nodup⟩
  have joined := represents.joined.joinFront nodup represents.head_eq
  exact joined.start nodup rfl

/-- Pushing changes no pointer of the nodes of another list. -/
theorem Joined.of_push
    {others : List Node}
    (joined : Joined links before others after)
    (represents : Represents links head nodes)
    (fresh : node ∉ others)
    (apart : ∀ member ∈ others, member ∉ nodes) :
    Joined (links.push head node) before others after := by
  apply Joined.of_start
  · apply joined.of_join fresh
    intro follower equal member
    rw [represents.head_eq] at equal
    exact apart follower member (mem_of_mem_head? equal)
  · intro other equal
    cases equal
    exact fresh

/-- Put a node behind another one. -/
def Links.insertAfter
    (links : Links Node)
    (node fresh : Node) : Links Node :=
  (links.join fresh (links.next node)).join node (some fresh)

/-- Inserting adds just that node. -/
theorem Represents.insertAfter
    {lo hi : List Node} {fresh : Node}
    (represents : Represents links head (lo ++ node :: hi))
    (isFresh : fresh ∉ lo ++ node :: hi) :
    Represents (links.insertAfter node fresh) head (lo ++ node :: fresh :: hi) := by
  have nodup : (lo ++ node :: fresh :: hi).Nodup := by
    have shifted : (lo ++ node :: fresh :: hi).Perm (fresh :: (lo ++ node :: hi)) := by
      rw [← singleton_append, ← append_assoc]
      apply perm_middle.trans
      rw [append_assoc, singleton_append]
    rw [shifted.nodup_iff]
    exact nodup_cons.mpr ⟨isFresh, represents.nodup⟩
  have nextEq := represents.joined.neighbours.2
  rw [or_none] at nextEq
  have joined := represents.joined
  rw [← singleton_append, ← append_assoc] at joined
  obtain ⟨left, right⟩ := joined_append.mp joined
  refine ⟨?_, ?_, nodup⟩
  · rw [represents.head_eq]
    cases lo <;> rfl
  · have parts := nodup_append.mp nodup
    have behind : Joined (links.join fresh (links.next node))
        (links.prev fresh) (fresh :: hi) none :=
      right.joinFront (nodup_cons.mp parts.2.1).2 nextEq
    have ahead : Joined (links.join fresh (links.next node))
        none (lo ++ [node]) (hi.head?.or none) := by
      apply left.of_join
      · intro member
        apply isFresh
        rw [← singleton_append, ← append_assoc]
        exact mem_append_left hi member
      · intro follower equal member
        rw [nextEq] at equal
        have later := mem_of_mem_head? equal
        rw [← singleton_append, ← append_assoc] at nodup
        exact (nodup_append.mp nodup).2.2 follower member follower (mem_cons_of_mem fresh later) rfl
    exact ahead.join behind nodup rfl

/-- Inserting changes no pointer of the nodes of another list. -/
theorem Joined.of_insertAfter
    {lo hi : List Node}
    {fresh : Node}
    (joined : Joined links before nodes after)
    (represents : Represents links head (lo ++ node :: hi))
    (isFresh : fresh ∉ nodes)
    (apart : ∀ member ∈ nodes, member ∉ lo ++ node :: hi) :
    Joined (links.insertAfter node fresh) before nodes after := by
  have nextEq := represents.joined.neighbours.2
  rw [or_none] at nextEq
  apply Joined.of_join
  · apply joined.of_join isFresh
    intro follower equal member
    rw [nextEq] at equal
    apply apart follower member
    simp [mem_of_mem_head? equal]
  · intro member
    exact apart node member (by simp)
  · intro follower equal
    cases equal
    exact isFresh

end

section

variable (next : Node → Option Node) (stops : Node → Bool)

/-- Walk from a node to the first that `stops` accepts or to the end of the
list, and yield it with the node before it. `none` means that the walk was cut
short by its bound. -/
def walk :
    Nat → Option Node → Option Node → Option (Option Node × Option Node)
  | _, before, none => some (before, none)
  | 0, _, some _ => none
  | bound + 1, before, some node =>
    if stops node then some (before, some node)
    else walk bound (some node) (next node)

end

/-- Along a list, a walk stops where the nodes that it passes over end. -/
theorem Joined.walk_eq
    (joined : Joined links before nodes none)
    (stops : Node → Bool)
    {bound : Nat}
    (enough : nodes.length ≤ bound) :
    ∃ lo hi, nodes = lo ++ hi ∧ (∀ node ∈ lo, stops node = false) ∧
      (∀ node ∈ hi.head?, stops node = true) ∧ walk links.next stops bound before nodes.head? =
        some (lo.getLast?.or before, hi.head?) := by
  induction nodes generalizing before bound with
  | nil => exact ⟨[], [], rfl, by simp, by simp, by simp [walk]⟩
  | cons node rest ih =>
    obtain ⟨less, rfl⟩ : ∃ less, bound = less + 1 :=
      Nat.exists_eq_add_one.mpr (by simp at enough; omega)
    obtain ⟨_, nextEq, restJoined⟩ := joined
    rw [or_none] at nextEq
    cases stopped : stops node with
    | true =>
      refine ⟨[], node :: rest, rfl, by simp, by simp [stopped], ?_⟩
      simp [walk, stopped]
    | false =>
      have enoughLess : rest.length ≤ less := by
        simp at enough
        omega
      obtain ⟨lo, hi, split, passed, stop, walked⟩ := ih restJoined enoughLess
      refine ⟨node :: lo, hi, by rw [split, cons_append], ?_, stop, ?_⟩
      · simpa [stopped] using passed
      · simp only [head?_cons, walk, stopped, nextEq, walked, getLast?_cons_or]
        rfl

end Mpich.DoublyLinked
