import Mpich.Ch3.Refcount.Steps

/-!
# Releasing a table

The loop of `MPID_VCRT_Release` goes through the entries of a table that is not
used any more. A turn takes one entry from its connection. When a disconnect
takes the last one, the connection is closed if it is open and starts to count
as closing; if it is not open, it gives its group the reference back. The group
is destroyed in the loop when that was its last reference.
-/

namespace Mpich.Ch3.Refcount

open List Function

open Close (VcState)

variable {Group : Type*} [DecidableEq Group]

/-- What `Stays` says inside the loop: these entries are still to be released,
and the table they come from is no longer live. -/
def Remains
    (state : State Group)
    (pending : List (Option (Conn Group)))
    (conn : Conn Group) : Prop :=
  Closing (state.vc conn).state ∨ state.kept conn = true ∧
      (some conn ∉ pending ∨ 0 < liveEntries state conn ∨ (state.vc conn).state ≠ .inactive)

/-- A group of which some connection remains when all entries are released. -/
def Survives
    (setup : Setup Group)
    (state : State Group)
    (pending : List (Option (Conn Group)))
    (group : Group) : Prop :=
  ∃ rank < setup.size group, Remains state pending (group, rank)

section

variable
  {setup : Setup Group}
  {isDisconnect : Bool}
  {rest : List (Option (Conn Group))}
  {state : State Group}
  {conn : Conn Group}

/-- A connection that remains counts. -/
theorem Remains.counted
    {pending : List (Option (Conn Group))}
    (remains : Remains state pending conn) :
    Counted state conn := by
  rcases remains with isClosing | ⟨used, _⟩
  · exact .inr isClosing
  · exact .inl used

/-- A step that changes one connection only, and no table. -/
structure Touches
    (state next : State Group)
    (conn : Conn Group) : Prop where
  same : SameBut state next conn
  vcrt : next.vcrt = state.vcrt

theorem Touches.liveEntries
    {next : State Group}
    (touches : Touches state next conn)
    (other : Conn Group) :
    liveEntries next other = liveEntries state other := by
  unfold Refcount.liveEntries
  rw [touches.vcrt]

/-- Other connections remain when an entry is released. -/
theorem Remains.other
    {next : State Group} {other : Conn Group}
    (remains : Remains state (some conn :: rest) other)
    (touches : Touches state next conn)
    (different : other ≠ conn) :
    Remains next rest other := by
  unfold Remains
  rw [(touches.same other different).1, (touches.same other different).2, touches.liveEntries]
  apply remains.imp_right
  rintro ⟨used, reason⟩
  refine ⟨used, reason.imp_left fun notPending isPending => ?_⟩
  exact notPending (mem_cons_of_mem _ isPending)

/-- One entry of the connection goes, and others or the extra reference stay. -/
theorem Counts.releaseOne
    (counts : Counts setup (some conn :: rest) state)
    (more : ¬ (isDisconnect = true ∧ liveEntries state conn + rest.count (some conn) = 0)) :
    ∃ next, releaseEntry setup isDisconnect rest state conn = some next ∧
      Counts setup rest next ∧ Touches state next conn ∧
      (Remains state (some conn :: rest) conn → Remains next rest conn) := by
  have fine := counts.fine conn
  rw [count_cons_self] at fine
  have used : state.kept conn = true := fine.inUse (by omega)
  have count := fine.refCount
  rw [used, if_pos rfl] at count
  have isAlive := counts.alive (.inl used)
  have inUse : (if isDisconnect = true ∧ (state.vc conn).refCount - 1 = 1 then
      (state.vc conn).refCount - 1 - 1 else (state.vc conn).refCount - 1) =
      (state.vc conn).refCount - 1 := by
    rw [if_neg]
    rintro ⟨isDis, last⟩
    exact more ⟨isDis, by omega⟩
  have isNext : releaseEntry setup isDisconnect rest state conn = some (setVc state conn
        { state.vc conn with refCount := (state.vc conn).refCount - 1 }) := by
    unfold releaseEntry
    rw [isAlive, if_neg Bool.false_ne_true]
    simp only [inUse, if_neg more]
    rw [if_neg (by omega)]
    rfl
  have isVc : (setVc state conn
      { state.vc conn with refCount := (state.vc conn).refCount - 1 }).vc conn =
      { state.vc conn with refCount := (state.vc conn).refCount - 1 } :=
    update_self _ _ _
  have touches : Touches state (setVc state conn
      { state.vc conn with refCount := (state.vc conn).refCount - 1 }) conn :=
    ⟨fun other different => ⟨update_of_ne different _ _, rfl⟩, rfl⟩
  refine ⟨_, isNext, ?_, touches, ?_⟩
  · apply counts.update touches.same
    · intro other different
      rw [touches.liveEntries, count_cons_of_ne]
      simpa using different.symm
    · rw [isVc, touches.liveEntries]
      exact
        { refCount := by
            show (state.vc conn).refCount - 1 = _
            rw [show (setVc state conn _).kept conn = state.kept conn from rfl, used, if_pos rfl]
            omega
          inUse := fun _ => used
          closing := fine.closing
          opened := fine.opened
          range := fine.range }
    · intro group
      apply (counts.balanced group).unchanged touches.same (fine.range (.inl used)) ?_ rfl rfl
      exact iff_of_true (.inl used) (.inl used)
  · unfold Remains
    rw [isVc, touches.liveEntries]
    apply Or.imp_right
    rintro ⟨stillUsed, reason⟩
    refine ⟨stillUsed, ?_⟩
    rcases reason with notPending | elsewhere | isOpen
    · exact absurd mem_cons_self notPending
    · exact .inr (.inl elsewhere)
    · exact .inr (.inr isOpen)

/-- The connection after a disconnect has removed its last entry. -/
def unused
    (state : State Group)
    (conn : Conn Group) : State Group :=
  { setVc state conn { state.vc conn with refCount := 0 } with
    kept := update state.kept conn false }

theorem unused_vc_self
    (state : State Group)
    (conn : Conn Group) :
    (unused state conn).vc conn = ⟨0, (state.vc conn).state⟩ :=
  update_self _ _ _

theorem unused_kept_self
    (state : State Group)
    (conn : Conn Group) :
    (unused state conn).kept conn = false :=
  update_self _ _ _

theorem unused_touches
    (state : State Group)
    (conn : Conn Group) :
    Touches state (unused state conn) conn :=
  ⟨fun _ different => ⟨update_of_ne different _ _, update_of_ne different _ _⟩, rfl⟩

section

variable
    (counts : Counts setup (some conn :: rest) state)

include counts

/-- The last entry goes with a disconnect. -/
theorem releaseEntry_last
    (isDis : isDisconnect = true)
    (last : liveEntries state conn + rest.count (some conn) = 0) :
    releaseEntry setup isDisconnect rest state conn =
      closeUnused setup (unused state conn) conn := by
  have fine := counts.fine conn
  rw [count_cons_self] at fine
  have used : state.kept conn = true := fine.inUse (by omega)
  have count := fine.refCount
  rw [used, if_pos rfl] at count
  have two : (state.vc conn).refCount = 2 := by omega
  unfold releaseEntry
  rw [counts.alive (.inl used), if_neg Bool.false_ne_true]
  simp only [isDis, last, two, true_and]
  rfl

section

variable (last : liveEntries state conn + rest.count (some conn) = 0)

include last

/-- An unused connection that need not be closed gives its group the reference
back. -/
theorem Counts.giveBack
    (idle : (state.vc conn).state = .inactive ∨ conn = setup.myself) :
    Counts setup rest (pgRelease (unused state conn) conn.1) := by
  have fine := counts.fine conn
  rw [count_cons_self] at fine
  have used : state.kept conn = true := fine.inUse (by omega)
  have notClosing : ¬ Closing (state.vc conn).state := by
    intro isClosing
    exact Bool.false_ne_true ((fine.closing isClosing).1.symm.trans used)
  have touches : Touches state (pgRelease (unused state conn) conn.1) conn :=
    ⟨(unused_touches state conn).same, rfl⟩
  have isVc : (pgRelease (unused state conn) conn.1).vc conn = ⟨0, (state.vc conn).state⟩ :=
    unused_vc_self state conn
  have isKept : (pgRelease (unused state conn) conn.1).kept conn = false :=
    unused_kept_self state conn
  apply counts.update touches.same
  · intro other different
    rw [touches.liveEntries, count_cons_of_ne]
    simpa using different.symm
  · rw [isVc, isKept, touches.liveEntries, last]
    exact
      { refCount := rfl
        inUse := fun impossible => absurd impossible (lt_irrefl 0)
        closing := fun isClosing => absurd isClosing notClosing
        opened := fun isOpen => .inr (.inr (idle.resolve_left isOpen))
        range := fun _ => fine.range (.inl used) }
  · intro group
    apply (counts.balanced group).release touches.same (fine.range (.inl used))
      (.inl used) ?_ rfl rfl
    unfold Counted
    rw [isVc, isKept]
    rintro (impossible | isClosing)
    · exact Bool.false_ne_true impossible
    · exact notClosing isClosing

/-- An unused connection that is open starts to close. -/
theorem Counts.startClose
    (foreign : conn ≠ setup.myself)
    (vcState : VcState)
    (isClosing : Closing vcState)
    (outstandingCloseOps : Int) :
    Counts setup rest
      { setVc (unused state conn) conn ⟨0, vcState⟩ with
        outstandingCloseOps := outstandingCloseOps } := by
  have fine := counts.fine conn
  rw [count_cons_self] at fine
  have used : state.kept conn = true := fine.inUse (by omega)
  have touches : Touches state
      { setVc (unused state conn) conn ⟨0, vcState⟩ with
        outstandingCloseOps := outstandingCloseOps } conn := by
    refine ⟨fun other different => ⟨?_, ?_⟩, rfl⟩
    · exact (update_of_ne different _ _).trans ((unused_touches state conn).same other different).1
    · exact ((unused_touches state conn).same other different).2
  have isVc : (setVc (unused state conn) conn ⟨0, vcState⟩).vc conn = ⟨0, vcState⟩ :=
    update_self _ _ _
  apply counts.update touches.same
  · intro other different
    rw [touches.liveEntries, count_cons_of_ne]
    simpa using different.symm
  · rw [touches.liveEntries, last]
    simp only [isVc]
    rw [show (setVc (unused state conn) conn ⟨0, vcState⟩).kept conn = false
      from unused_kept_self state conn]
    exact
      { refCount := rfl
        inUse := fun impossible => absurd impossible (lt_irrefl 0)
        closing := fun _ => ⟨rfl, foreign⟩
        opened := fun _ => .inr (.inl isClosing)
        range := fun _ => fine.range (.inl used) }
  · intro group
    apply (counts.balanced group).unchanged touches.same (fine.range (.inl used)) ?_ rfl rfl
    refine iff_of_true (.inr ?_) (.inl used)
    simp only [isVc]
    exact isClosing

/-- A connection that remains does not lose its last entry while it is not
open. -/
theorem Counts.isOpen_of_remains
    (remains : Remains state (some conn :: rest) conn) :
    (state.vc conn).state ≠ .inactive := by
  have fine := counts.fine conn
  rw [count_cons_self] at fine
  have used : state.kept conn = true := fine.inUse (by omega)
  rcases remains with isClosing | ⟨_, notPending | elsewhere | isOpen⟩
  · exact absurd ((fine.closing isClosing).1.symm.trans used) Bool.false_ne_true
  · exact absurd mem_cons_self notPending
  · omega
  · exact isOpen

end

/-- A turn of the loop that takes the last entry. -/
theorem Counts.releaseLast
    (isDis : isDisconnect = true)
    (last : liveEntries state conn + rest.count (some conn) = 0)
    (careful : setup.vcDestroyReads = true → conn.1 ≠ setup.myPg →
      Survives setup state (some conn :: rest) conn.1) :
    ∃ next, releaseEntry setup isDisconnect rest state conn = some next ∧
      Counts setup rest next ∧ Touches state next conn ∧ (conn ≠ setup.myself →
        Remains state (some conn :: rest) conn → Remains next rest conn) := by
  have fine := counts.fine conn
  rw [count_cons_self] at fine
  have used : state.kept conn = true := fine.inUse (by omega)
  have givenBack : Touches state (pgRelease (unused state conn) conn.1) conn :=
    ⟨(unused_touches state conn).same, rfl⟩
  have isState : ((unused state conn).vc conn).state = (state.vc conn).state := by
    rw [unused_vc_self]
  rw [releaseEntry_last counts isDis last]
  unfold closeUnused
  by_cases isMyself : conn = setup.myself
  case pos =>
    rw [if_pos isMyself]
    exact ⟨_, rfl, counts.giveBack last (.inr isMyself), givenBack,
      fun foreign => absurd isMyself foreign⟩
  case neg =>
    rw [if_neg isMyself]
    simp only [isState]
    by_cases isInactive : (state.vc conn).state = .inactive
    case pos =>
      rw [if_neg (not_not_intro isInactive)]
      have after := counts.giveBack last (.inl isInactive)
      have alive : ¬ (setup.vcDestroyReads = true ∧
          ((pgRelease (unused state conn) conn.1).pg conn.1).destroyed = true) := by
        rintro ⟨reads, isDestroyed⟩
        have dead := (after.balanced conn.1).destroyed.1 isDestroyed
        obtain ⟨rank, inGroup, remains⟩ := careful reads dead.1
        rcases eq_or_ne (conn.1, rank) conn with same | different
        · rw [same] at remains
          exact counts.isOpen_of_remains last remains isInactive
        · have counted := (remains.other givenBack different).counted
          have := countedIn_pos inGroup counted
          omega
      simp only [if_neg alive]
      exact ⟨_, rfl, after, givenBack, fun _ remains =>
        absurd isInactive (counts.isOpen_of_remains last remains)⟩
    case neg =>
      rw [if_pos isInactive]
      have notClosing : ¬ Closing (state.vc conn).state := by
        intro isClosing
        exact Bool.false_ne_true ((fine.closing isClosing).1.symm.trans used)
      have isOpen : (state.vc conn).state = .active ∨ (state.vc conn).state = .remoteClose := by
        cases isVcState : (state.vc conn).state with
        | inactive => exact absurd isVcState isInactive
        | active => exact .inl rfl
        | remoteClose => exact .inr rfl
        | localClose | closeAcked =>
          rw [isVcState] at notClosing
          exact absurd trivial notClosing
      unfold Close.vcSendClose
      rw [if_pos isOpen]
      simp only [unused_vc_self]
      generalize isNew : (if (state.vc conn).state = .active then VcState.localClose
        else VcState.closeAcked) = vcState
      have isClosing : Closing vcState := by
        rw [← isNew]
        split <;> trivial
      have after := counts.startClose last isMyself vcState isClosing
        ((unused state conn).outstandingCloseOps + 1)
      have isVc : (setVc (unused state conn) conn ⟨0, vcState⟩).vc conn = ⟨0, vcState⟩ :=
        update_self _ _ _
      have counted : Counted
          { setVc (unused state conn) conn ⟨0, vcState⟩ with
            outstandingCloseOps := (unused state conn).outstandingCloseOps + 1 }
          conn := by
        refine .inr ?_
        simp only [isVc]
        exact isClosing
      rw [if_neg fun both =>
        Bool.false_ne_true ((after.alive counted).symm.trans both.2)]
      refine ⟨_, rfl, after, ⟨fun other different => ⟨?_, ?_⟩, rfl⟩, fun _ _ => .inl ?_⟩
      · exact (update_of_ne different _ _).trans
          ((unused_touches state conn).same other different).1
      · exact ((unused_touches state conn).same other different).2
      · simp only [isVc]
        exact isClosing

end

end

/-- All entries of a table are released. -/
theorem Counts.releaseEntries
    {setup : Setup Group} {isDisconnect : Bool}
    (pending : List (Option (Conn Group)))
    {state : State Group}
    (counts : Counts setup pending state)
    (full : none ∉ pending)
    (careful : setup.vcDestroyReads = true → isDisconnect = true →
      ∀ conn, some conn ∈ pending → conn.1 ≠ setup.myPg → Survives setup state pending conn.1) :
    ∃ next, releaseEntries setup isDisconnect pending state = some next ∧ Counts setup [] next := by
  induction pending generalizing state with
  | nil => exact ⟨state, rfl, counts⟩
  | cons entry rest ih =>
    cases entry with
    | none => exact absurd mem_cons_self full
    | some conn =>
      obtain ⟨next, isNext, countsNext, touches, own⟩ :
          ∃ next, releaseEntry setup isDisconnect rest state conn = some next ∧
            Counts setup rest next ∧ Touches state next conn ∧ (conn ≠ setup.myself →
              Remains state (some conn :: rest) conn → Remains next rest conn) := by
        by_cases last : isDisconnect = true ∧ liveEntries state conn + rest.count (some conn) = 0
        case pos =>
          exact counts.releaseLast last.1 last.2 fun reads foreign =>
            careful reads last.1 conn mem_cons_self foreign
        case neg =>
          obtain ⟨next, isNext, countsNext, touches, own⟩ := counts.releaseOne last
          exact ⟨next, isNext, countsNext, touches, fun _ => own⟩
      simp only [Refcount.releaseEntries, isNext]
      apply ih countsNext (fun isNone => full (mem_cons_of_mem _ isNone))
      intro reads isDis other isPending foreign
      obtain ⟨rank, inGroup, remains⟩ :=
        careful reads isDis other (mem_cons_of_mem _ isPending) foreign
      refine ⟨rank, inGroup, ?_⟩
      rcases eq_or_ne (other.1, rank) conn with same | different
      · rw [same] at remains ⊢
        apply own _ remains
        intro isMyself
        exact foreign (congrArg Prod.fst (same.trans isMyself))
      · exact remains.other touches different

/-- A table loses a reference, and when it was the last one its entries are
released. -/
theorem Counts.vcrtRelease
    {setup : Setup Group} {state : State Group} {handle : Nat}
    {isDisconnect : Bool} {vcrt : VCRT Group}
    (counts : Counts setup [] state)
    (isTable : tableAt state handle = some vcrt)
    (full : vcrt.refCount = 1 → none ∉ vcrt.vcrTable)
    (careful : Careful setup state (.release handle isDisconnect)) :
    ∃ next, vcrtRelease setup state handle isDisconnect = some next ∧ Counts setup [] next := by
  unfold Refcount.vcrtRelease
  simp only [isTable]
  by_cases last : vcrt.refCount - 1 = 0
  case neg =>
    rw [if_pos last]
    refine ⟨_, rfl, counts.retable rfl rfl rfl rfl fun conn => ?_⟩
    have sums := liveEntries_replace isTable (some { vcrt with refCount := vcrt.refCount - 1 }) conn
    simp only [Option.elim_some] at sums
    omega
  case pos =>
    rw [if_neg (not_not_intro last)]
    have one : vcrt.refCount = 1 := by omega
    have entries := liveEntries_replace isTable none
    simp only [Option.elim_none, add_zero] at entries
    have freed : Counts setup vcrt.vcrTable
        { state with vcrt := state.vcrt.set handle none } := by
      refine counts.retable rfl rfl rfl rfl fun conn => ?_
      rw [entries, count_nil, add_zero]
    apply freed.releaseEntries _ (full one)
    intro reads isDis conn isEntry foreign
    obtain ⟨rank, inGroup, stays⟩ := careful reads isDis vcrt isTable one conn isEntry foreign
    refine ⟨rank, inGroup, stays.imp_right ?_⟩
    rintro ⟨used, reason⟩
    refine ⟨used, reason.imp_right (Or.imp_left fun elsewhere => ?_)⟩
    have := entries (conn.1, rank)
    omega

end Mpich.Ch3.Refcount

/-!
## The reference counts are exact in careful runs

Two things can go wrong. A connection that is still closing may get a new
entry: its group gets a second reference for it, and since the handshake then
ends with a reference count that is not zero, that reference is never given
back. And a release that destroys a process group passes the connection, which
was freed with the group, to `MPIDI_CH3_VC_Destroy`. In a run without the first,
and without the second where the channel reads the connection, all counts are
exact and nothing of a destroyed group is touched.
-/

namespace Mpich.Ch3.Refcount

variable {Group : Type*} [DecidableEq Group]

section

variable
    {setup : Setup Group} {state : State Group}

/-- The counts of the invariant are the ones that should be exact. -/
theorem Counts.exact (counts : Counts setup [] state) :
    Exact setup state where
  connections := fun conn => by
    have count := (counts.fine conn).refCount
    rwa [List.count_nil, add_zero] at count
  groups := fun group => (counts.balanced group).refCount
  destroyed := fun group => (counts.balanced group).destroyed

/-- The counts are exact where a run starts. -/
theorem counts_initial (start : Initial setup state) :
    Counts setup [] state := by
  obtain ⟨isVc, isPg, isVcrt, isKept, isOpened⟩ := start
  have notCounted (conn : Conn Group) : ¬ Counted state conn := by
    unfold Counted
    rw [isKept, isVc]
    rintro (impossible | impossible)
    · exact Bool.false_ne_true impossible
    · exact impossible
  have number (group : Group) : countedIn setup state group = 0 := by
    apply Finset.sum_eq_zero
    intro rank _
    rw [if_neg (notCounted _)]
  constructor
  · intro conn
    have none : liveEntries state conn = 0 := by
      rw [liveEntries, isVcrt]
      rfl
    rw [isVc, isKept, none]
    exact
      { refCount := rfl
        inUse := fun impossible => absurd impossible (lt_irrefl 0)
        closing := fun impossible => impossible.elim
        opened := fun isOpen => absurd rfl isOpen
        range := fun counted => by
          rcases counted with impossible | impossible
          · exact absurd impossible Bool.false_ne_true
          · exact impossible.elim }
  · intro group
    constructor
    · rw [isPg, number, Nat.cast_zero, zero_add]
    · rw [isPg, number, isOpened]
      refine iff_of_false Bool.false_ne_true ?_
      rintro ⟨_, impossible, _⟩
      exact Bool.false_ne_true impossible
    · rw [number]
      exact fun impossible => absurd impossible (lt_irrefl 0)

/-- A careful step succeeds and keeps the counts exact. -/
theorem Counts.step
    (counts : Counts setup [] state)
    (action : Action Group)
    (enabled : Enabled setup state action)
    (careful : Careful setup state action) :
    ∃ next, step setup state action = some next ∧ Counts setup [] next := by
  cases action with
  | create size =>
    refine ⟨_, rfl, counts.retable rfl rfl rfl rfl fun conn => ?_⟩
    rw [liveEntries_create]
  | addRef handle =>
    obtain ⟨vcrt, isTable⟩ := enabled
    refine ⟨{ state with
      vcrt := state.vcrt.set handle
        (some { vcrt with refCount := vcrt.refCount + 1 }) }, ?_,
      counts.retable rfl rfl rfl rfl fun conn => ?_⟩
    · simp only [Refcount.step, vcrtAddRef, isTable]
    · have sums := liveEntries_replace isTable
        (some { vcrt with refCount := vcrt.refCount + 1 }) conn
      simp only [Option.elim_some] at sums
      omega
  | vcrDup conn handle slot =>
    obtain ⟨next, isNext, fills⟩ := vcrDup_fills enabled
    exact ⟨next, isNext, counts.fills enabled careful fills⟩
  | pgDupVcr conn handle slot =>
    obtain ⟨next, isNext, fills⟩ := pgDupVcr_fills enabled
    exact ⟨next, isNext, counts.fills enabled careful fills⟩
  | getVc handle slot =>
    obtain ⟨vcrt, conn, isTable, isEntry⟩ := enabled
    exact counts.commGetVc isTable isEntry
  | release handle isDisconnect =>
    obtain ⟨vcrt, isTable, full⟩ := enabled
    exact counts.vcrtRelease isTable full careful
  | receiveClose conn ack => exact counts.receiveClose enabled.1 enabled.2
  | terminated conn => exact counts.terminated enabled.2

end

/-- The process itself, and one other process in a group of its own. -/
def pair
    (vcDestroyReads : Bool) : Setup Bool where
  size := fun _ => 1
  myPg := false
  myPgRank := 0
  myRankInGroup := one_pos
  vcDestroyReads := vcDestroyReads

def pairStart : State Bool where
  vc := fun _ => ⟨0, .inactive⟩
  pg := fun group => ⟨if group = false then 1 else 0, false⟩
  vcrt := []
  outstandingCloseOps := 0
  kept := fun _ => false
  opened := fun _ => false

theorem pairStart_initial (vcDestroyReads : Bool) :
    (system (pair vcDestroyReads)).initial pairStart :=
  ⟨fun _ => rfl, fun _ => rfl, rfl, fun _ => rfl, fun _ => rfl⟩

/-- The connection to the other process. -/
def peer : Conn Bool :=
  (true, 0)

end Mpich.Ch3.Refcount
