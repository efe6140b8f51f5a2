import Mathlib.Algebra.Order.BigOperators.Group.Finset
import Mpich.Ch3.Refcount.Defs
import Mpich.Foundation.FiniteSum

/-!
# The reference count of a process group

A change of one connection changes the number of connections of its group that
are in use or closing by at most one. The group takes or gives back a reference
exactly when the number changes, and it is destroyed when the last one is given
back.
-/

namespace Mpich.Ch3.Refcount

open Function

open Close (VcState)

variable {Group : Type*} [DecidableEq Group]

section

variable
    (state : State Group)

include state

theorem pgAddRef_pg_self (group : Group) :
    (pgAddRef state group).pg group = ⟨(state.pg group).refCount + 1, (state.pg group).destroyed⟩ :=
  update_self _ _ _

variable {group : Group}

theorem pgAddRef_pg_of_ne
    {other : Group}
    (different : other ≠ group) :
    (pgAddRef state group).pg other = state.pg other :=
  update_of_ne different _ _

theorem pgAddRef_opened_self (group : Group) :
    (pgAddRef state group).opened group = true :=
  update_self _ _ _

theorem pgAddRef_opened_of_ne
    {other : Group}
    (different : other ≠ group) :
    (pgAddRef state group).opened other = state.opened other :=
  update_of_ne different _ _

theorem pgRelease_pg_self (group : Group) :
    (pgRelease state group).pg group = ⟨(state.pg group).refCount - 1,
        if (state.pg group).refCount - 1 = 0 then true
        else (state.pg group).destroyed⟩ :=
  update_self _ _ _

theorem pgRelease_pg_of_ne
    {other : Group}
    (different : other ≠ group) :
    (pgRelease state group).pg other = state.pg other :=
  update_of_ne different _ _

end

/-- The count of a group is exact, and it is destroyed when it should be. -/
structure Balanced
    (setup : Setup Group)
    (state : State Group)
    (group : Group) : Prop where
  refCount : (state.pg group).refCount =
    countedIn setup state group + if group = setup.myPg then 1 else 0
  destroyed : (state.pg group).destroyed = true ↔
    group ≠ setup.myPg ∧ state.opened group = true ∧ countedIn setup state group = 0
  opened : 0 < countedIn setup state group → state.opened group = true

/-- Two states have the same connections, except one. -/
def SameBut
    {Group : Type*}
    (state next : State Group)
    (conn : Conn Group) : Prop :=
  ∀ other, other ≠ conn → next.vc other = state.vc other ∧ next.kept other = state.kept other

section

variable
  {setup : Setup Group}
  {state next : State Group}
  {conn : Conn Group}

section

omit [DecidableEq Group]

variable (same : SameBut state next conn)

include same in
theorem SameBut.counted
    {other : Conn Group}
    (different : other ≠ conn) :
    Counted next other ↔ Counted state other := by
  unfold Counted
  rw [(same other different).1, (same other different).2]

variable {group : Group}

include same in
/-- Groups of other connections have the number they had. -/
theorem SameBut.countedIn_other
    (different : group ≠ conn.1) :
    countedIn setup next group = countedIn setup state group := by
  apply Finset.sum_congr rfl
  intro rank _
  have apart : (group, rank) ≠ conn := fun equal =>
    different (congrArg Prod.fst equal)
  simp only [same.counted apart]

include same in
/-- The number of the group of the connection, before and after. -/
theorem SameBut.countedIn_add
    (inGroup : conn.2 < setup.size conn.1) :
    countedIn setup next conn.1 + (if Counted state conn then 1 else 0) =
      countedIn setup state conn.1 + if Counted next conn then 1 else 0 := by
  apply FiniteSum.sum_add_point
    (fun rank => if Counted state (conn.1, rank) then 1 else 0)
    (fun rank => if Counted next (conn.1, rank) then 1 else 0)
    (Finset.mem_range.2 inGroup)
  intro rank different
  have apart : (conn.1, rank) ≠ conn := fun equal =>
    different (congrArg Prod.snd equal)
  simp only [same.counted apart]

/-- A connection that counts is one of the number. -/
theorem countedIn_pos
    {rank : Nat}
    (inGroup : rank < setup.size group)
    (counted : Counted state (group, rank)) :
    0 < countedIn setup state group := by
  have member := Finset.mem_range.2 inGroup
  have one : (1 : Nat) = if Counted state (group, rank) then 1 else 0 := (if_pos counted).symm
  calc
    0 < 1 := Nat.one_pos
    _ = if Counted state (group, rank) then 1 else 0 := one
    _ ≤ _ := Finset.single_le_sum
      (f := fun rank => if Counted state (group, rank) then 1 else 0)
      (fun _ _ => Nat.zero_le _) member

end

variable {group : Group}

/-- A group that has connections in use or closing is not destroyed. -/
theorem Balanced.alive
    (balanced : Balanced setup state group)
    (some : 0 < countedIn setup state group) :
    (state.pg group).destroyed = false := by
  rw [← Bool.not_eq_true, balanced.destroyed]
  rintro ⟨_, _, none⟩
  omega

end

section

variable
  {setup : Setup Group}
  {state next : State Group}
  {conn : Conn Group}

section

variable
    {group : Group}
    (balanced : Balanced setup state group)

include balanced

/-- A change of a connection that counts as before, or does not. -/
theorem Balanced.unchanged
    (same : SameBut state next conn)
    (inGroup : conn.2 < setup.size conn.1)
    (counted : Counted next conn ↔ Counted state conn)
    (pg : next.pg = state.pg)
    (opened : next.opened = state.opened) :
    Balanced setup next group := by
  have number : countedIn setup next group = countedIn setup state group := by
    rcases eq_or_ne group conn.1 with rfl | different
    · have sums := same.countedIn_add inGroup
      simp only [counted] at sums
      omega
    · exact same.countedIn_other different
  constructor
  · rw [pg, number]
    exact balanced.refCount
  · rw [pg, opened, number]
    exact balanced.destroyed
  · rw [opened, number]
    exact balanced.opened

/-- The first use of a connection. -/
theorem Balanced.addRef
    (alive : (state.pg conn.1).destroyed = false)
    (same : SameBut state next conn)
    (inGroup : conn.2 < setup.size conn.1)
    (before : ¬ Counted state conn)
    (after : Counted next conn)
    (pg : next.pg = (pgAddRef state conn.1).pg)
    (opened : next.opened = (pgAddRef state conn.1).opened) :
    Balanced setup next group := by
  rcases eq_or_ne group conn.1 with rfl | different
  · have sums := same.countedIn_add inGroup
    rw [if_neg before, if_pos after] at sums
    have count := balanced.refCount
    constructor
    · rw [pg, pgAddRef_pg_self]
      show (state.pg conn.1).refCount + 1 = _
      omega
    · rw [pg, pgAddRef_pg_self, alive]
      refine iff_of_false Bool.false_ne_true ?_
      rintro ⟨_, _, none⟩
      omega
    · rw [opened, pgAddRef_opened_self]
      exact fun _ => rfl
  · have number : countedIn setup next group = countedIn setup state group :=
      same.countedIn_other different
    constructor
    · rw [pg, pgAddRef_pg_of_ne state different, number]
      exact balanced.refCount
    · rw [pg, opened, number, pgAddRef_pg_of_ne state different,
        pgAddRef_opened_of_ne state different]
      exact balanced.destroyed
    · rw [opened, number, pgAddRef_opened_of_ne state different]
      exact balanced.opened

/-- A connection that is in use or closing is so no longer. -/
theorem Balanced.release
    (same : SameBut state next conn)
    (inGroup : conn.2 < setup.size conn.1)
    (before : Counted state conn)
    (after : ¬ Counted next conn)
    (pg : next.pg = (pgRelease state conn.1).pg)
    (opened : next.opened = state.opened) :
    Balanced setup next group := by
  rcases eq_or_ne group conn.1 with rfl | different
  · have sums := same.countedIn_add inGroup
    rw [if_pos before, if_neg after] at sums
    have some : 0 < countedIn setup state conn.1 := by omega
    have alive := balanced.alive some
    have count := balanced.refCount
    constructor
    · rw [pg, pgRelease_pg_self]
      show (state.pg conn.1).refCount - 1 = _
      omega
    · rw [pg, pgRelease_pg_self, opened]
      split
      case isTrue last =>
        refine iff_of_true rfl ⟨?_, balanced.opened some, by omega⟩
        intro own
        rw [if_pos own] at count
        omega
      case isFalse more =>
        rw [alive]
        refine iff_of_false Bool.false_ne_true ?_
        rintro ⟨foreign, _, none⟩
        rw [if_neg foreign] at count
        omega
    · rw [opened]
      exact fun _ => balanced.opened some
  · have number : countedIn setup next group = countedIn setup state group :=
      same.countedIn_other different
    constructor
    · rw [pg, pgRelease_pg_of_ne state different, number]
      exact balanced.refCount
    · rw [pg, opened, number, pgRelease_pg_of_ne state different]
      exact balanced.destroyed
    · rw [opened, number]
      exact balanced.opened

end

end

end Mpich.Ch3.Refcount

/-!
## The invariant of the reference counts

Inside `MPID_VCRT_Release` the table is gone and some of its entries are still
to be released. The counts are exact when these pending entries are counted as
well. What is exact of one connection depends on its own fields and on the
number of its entries, so a step that changes one connection needs to look at
no other.
-/

namespace Mpich.Ch3.Refcount

open Close (VcState)

variable {Group : Type*} [DecidableEq Group]

/-- What holds of one connection that has so many entries. -/
structure Fine
    (setup : Setup Group)
    (conn : Conn Group)
    (entries : Nat)
    (vc : VC)
    (kept : Bool) : Prop where
  refCount : vc.refCount = entries + if kept then 1 else 0
  inUse : 0 < entries → kept = true
  /-- A connection that is closing is not used again. -/
  closing : Closing vc.state → kept = false ∧ conn ≠ setup.myself
  opened : vc.state ≠ .inactive → kept = true ∨ Closing vc.state ∨ conn = setup.myself
  range : kept = true ∨ Closing vc.state → conn.2 < setup.size conn.1

/-- The counts, with entries that are still to be released. -/
structure Counts
    (setup : Setup Group)
    (pending : List (Option (Conn Group)))
    (state : State Group) : Prop where
  fine : ∀ conn, Fine setup conn (liveEntries state conn + pending.count (some conn))
      (state.vc conn) (state.kept conn)
  balanced : ∀ group, Balanced setup state group

variable {handle : Nat}

theorem tableAt_eq_some
    {Group : Type*} {state : State Group} {vcrt : VCRT Group}
    (isTable : tableAt state handle = some vcrt) :
    state.vcrt[handle]? = some (some vcrt) := by
  rw [tableAt, Option.join_eq_some_iff] at isTable
  exact isTable

/-- The entries of a connection after one table is replaced. -/
theorem liveEntries_set
    {state next : State Group} {vcrt : VCRT Group}
    (isTable : tableAt state handle = some vcrt)
    (new : Option (VCRT Group))
    (isNext : next.vcrt = state.vcrt.set handle new)
    (conn : Conn Group) :
    liveEntries next conn + vcrt.vcrTable.count (some conn) = liveEntries state conn +
        new.elim 0 fun vcrt => vcrt.vcrTable.count (some conn) := by
  unfold liveEntries
  rw [isNext]
  exact FiniteSum.sum_map_set
    (fun table : Option (VCRT Group) =>
      table.elim 0 fun vcrt => vcrt.vcrTable.count (some conn))
    (tableAt_eq_some isTable) new

theorem liveEntries_replace
    {state : State Group} {vcrt : VCRT Group}
    (isTable : tableAt state handle = some vcrt)
    (new : Option (VCRT Group))
    (conn : Conn Group) :
    liveEntries { state with vcrt := state.vcrt.set handle new } conn +
        vcrt.vcrTable.count (some conn) =
      liveEntries state conn + new.elim 0 fun vcrt => vcrt.vcrTable.count (some conn) :=
  liveEntries_set isTable new rfl conn

/-- A new table names no connection. -/
theorem liveEntries_create
    (state : State Group)
    (size : Nat)
    (conn : Conn Group) :
    liveEntries (vcrtCreate state size) conn = liveEntries state conn := by
  simp [liveEntries, vcrtCreate, List.count_replicate]

/-- An entry that is filled adds one to the entries of its connection. -/
theorem count_set_none
    {table : List (Option (Conn Group))} {slot : Nat}
    (isFree : table[slot]? = some none)
    (conn other : Conn Group) :
    (table.set slot (some conn)).count (some other) =
      table.count (some other) + if other = conn then 1 else 0 := by
  obtain ⟨inTable, isNone⟩ := List.getElem?_eq_some_iff.1 isFree
  rw [List.count_set inTable, isNone]
  rcases eq_or_ne other conn with rfl | different
  · simp
  · simp [different, different.symm]

/-- A state that differs in its tables only. -/
theorem Balanced.congr
    {setup : Setup Group} {state next : State Group} {group : Group}
    (balanced : Balanced setup state group)
    (vc : next.vc = state.vc)
    (kept : next.kept = state.kept)
    (pg : next.pg = state.pg)
    (opened : next.opened = state.opened) :
    Balanced setup next group := by
  have number : countedIn setup next group = countedIn setup state group := by
    have counted (rank : Nat) :
        Counted next (group, rank) ↔ Counted state (group, rank) := by
      unfold Counted
      rw [vc, kept]
    unfold countedIn
    simp only [counted]
  constructor
  · rw [pg, number]
    exact balanced.refCount
  · rw [pg, opened, number]
    exact balanced.destroyed
  · rw [opened, number]
    exact balanced.opened

/-- Nothing changes but a table, and no connection gains or loses an entry. -/
theorem Counts.retable
    {setup : Setup Group} {pending pending' : List (Option (Conn Group))}
    {state next : State Group}
    (counts : Counts setup pending state)
    (vc : next.vc = state.vc)
    (kept : next.kept = state.kept)
    (pg : next.pg = state.pg)
    (opened : next.opened = state.opened)
    (entries : ∀ conn, liveEntries next conn + pending'.count (some conn) =
        liveEntries state conn + pending.count (some conn)) :
    Counts setup pending' next where
  fine := fun conn => by
    rw [entries, vc, kept]
    exact counts.fine conn
  balanced := fun group => (counts.balanced group).congr vc kept pg opened

section

variable
  {setup : Setup Group}
  {pending : List (Option (Conn Group))}
  {state : State Group}
  {conn : Conn Group}

/-- The group of a connection that counts is alive. -/
theorem Counts.alive
    (counts : Counts setup pending state)
    (counted : Counted state conn) :
    (state.pg conn.1).destroyed = false :=
  (counts.balanced conn.1).alive (countedIn_pos ((counts.fine conn).range counted) counted)

/-- A step that changes one connection. -/
theorem Counts.update
    {pending' : List (Option (Conn Group))} {next : State Group}
    (counts : Counts setup pending state)
    (same : SameBut state next conn)
    (entries : ∀ other, other ≠ conn → liveEntries next other + pending'.count (some other) =
        liveEntries state other + pending.count (some other))
    (fine : Fine setup conn
      (liveEntries next conn + pending'.count (some conn))
      (next.vc conn) (next.kept conn))
    (balanced : ∀ group, Balanced setup next group) :
    Counts setup pending' next where
  fine := fun other => by
    rcases eq_or_ne other conn with rfl | different
    · exact fine
    · rw [entries other different, (same other different).1, (same other different).2]
      exact counts.fine other
  balanced := balanced

end

end Mpich.Ch3.Refcount
