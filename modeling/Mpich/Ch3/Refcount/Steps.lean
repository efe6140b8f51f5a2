import Mpich.Ch3.Refcount.Invariant

/-!
# The steps outside a release

Filling an entry, using a connection, and the close handshake. Each of them
changes one connection and keeps the counts exact; filling does so as long as
the connection is not one that is still closing.
-/

namespace Mpich.Ch3.Refcount

open Function

open Close (VcState)

variable {Group : Type*} [DecidableEq Group] {setup : Setup Group} {state : State Group}
  (counts : Counts setup [] state)

omit [DecidableEq Group] in
/-- A connection after one more entry names it. -/
theorem Fine.dup
    {setup : Setup Group} {conn : Conn Group} {entries : Nat} {vc : VC}
    {kept : Bool}
    (fine : Fine setup conn entries vc kept)
    (inGroup : conn.2 < setup.size conn.1)
    (notClosing : ¬ Closing vc.state) :
    Fine setup conn (entries + 1)
      { vc with
        refCount := if vc.refCount = 0 then 2 else vc.refCount + 1 }
      true where
  refCount := by
    have count := fine.refCount
    cases isKept : kept with
    | false =>
      have none : entries = 0 := by
        by_contra some
        have used := fine.inUse (pos_of_ne_zero some)
        rw [isKept] at used
        exact Bool.false_ne_true used
      rw [isKept, none] at count
      simp [count, none]
    | true =>
      rw [isKept] at count
      simp only [if_true] at count ⊢
      omega
  inUse := fun _ => rfl
  closing := fun isClosing => absurd isClosing notClosing
  opened := fun _ => .inl rfl
  range := fun _ => inGroup

omit [DecidableEq Group] in
/-- A connection has no reference exactly when it is not in use. -/
theorem Fine.refCount_eq_zero
    {setup : Setup Group} {conn : Conn Group} {entries : Nat} {vc : VC}
    {kept : Bool}
    (fine : Fine setup conn entries vc kept) :
    vc.refCount = 0 ↔ kept = false := by
  have count := fine.refCount
  cases kept with
  | false =>
    have none : entries = 0 := by
      by_contra some
      exact Bool.false_ne_true (fine.inUse (pos_of_ne_zero some))
    simp [count, none]
  | true =>
    simp only [if_true] at count
    simp only [Bool.true_eq_false, iff_false]
    omega

/-- What both routines for filling an entry do with the connection and its
group. -/
structure Fills
    (state next : State Group)
    (conn : Conn Group)
    (handle slot : Nat) : Prop where
  vc : next.vc = update state.vc conn
    { state.vc conn with
      refCount :=
        if (state.vc conn).refCount = 0 then 2 else (state.vc conn).refCount + 1 }
  kept : next.kept = update state.kept conn true
  groups : if (state.vc conn).refCount = 0 then
      next.pg = (pgAddRef state conn.1).pg ∧ next.opened = (pgAddRef state conn.1).opened
    else next.pg = state.pg ∧ next.opened = state.opened
  vcrt : ∃ vcrt, tableAt state handle = some vcrt ∧ next.vcrt = state.vcrt.set handle
      (some { vcrt with vcrTable := vcrt.vcrTable.set slot (some conn) })

section

variable {conn : Conn Group} {handle slot : Nat}

omit [DecidableEq Group] in
theorem storeEntry_some
    (vcrt : VCRT Group)
    (isTable : tableAt state handle = some vcrt) :
    storeEntry state handle slot conn =
      some { state with
        vcrt := state.vcrt.set handle
          (some { vcrt with vcrTable := vcrt.vcrTable.set slot (some conn) }) } := by
  simp only [storeEntry, isTable]

variable (mayFill : MayFill setup state conn handle slot)

section

include mayFill

theorem vcrDup_fills :
    ∃ next, vcrDup state conn handle slot = some next ∧ Fills state next conn handle slot := by
  obtain ⟨_, alive, vcrt, isTable, _⟩ := mayFill
  unfold vcrDup
  rw [alive, if_neg Bool.false_ne_true]
  by_cases first : (state.vc conn).refCount = 0
  case pos =>
    simp only [if_pos first]
    refine ⟨_, storeEntry_some vcrt isTable, ?_⟩
    exact
      { vc := by simp only [if_pos first]; rfl
        kept := rfl
        groups := by rw [if_pos first]; exact ⟨rfl, rfl⟩
        vcrt := ⟨vcrt, isTable, rfl⟩ }
  case neg =>
    simp only [if_neg first]
    refine ⟨_, storeEntry_some vcrt isTable, ?_⟩
    exact
      { vc := by simp only [if_neg first]; rfl
        kept := rfl
        groups := by rw [if_neg first]; exact ⟨rfl, rfl⟩
        vcrt := ⟨vcrt, isTable, rfl⟩ }

theorem pgDupVcr_fills :
    ∃ next, pgDupVcr state conn.1 conn.2 handle slot = some next ∧
      Fills state next conn handle slot := by
  obtain ⟨_, alive, vcrt, isTable, _⟩ := mayFill
  unfold pgDupVcr
  rw [alive, if_neg Bool.false_ne_true]
  by_cases first : (state.vc conn).refCount = 0
  case pos =>
    simp only [Prod.mk.eta, if_pos first]
    refine ⟨_, storeEntry_some vcrt isTable, ?_⟩
    exact
      { vc := by
          simp only [keep, setVc, pgAddRef, update_self, update_idem, first]
          rfl
        kept := rfl
        groups := by rw [if_pos first]; exact ⟨rfl, rfl⟩
        vcrt := ⟨vcrt, isTable, rfl⟩ }
  case neg =>
    simp only [Prod.mk.eta, if_neg first]
    refine ⟨_, storeEntry_some vcrt isTable, ?_⟩
    exact
      { vc := by simp only [if_neg first]; rfl
        kept := rfl
        groups := by rw [if_neg first]; exact ⟨rfl, rfl⟩
        vcrt := ⟨vcrt, isTable, rfl⟩ }

include counts in
/-- The counts are exact after an entry is filled with a connection that is not
closing. -/
theorem Counts.fills
    {next : State Group}
    (notClosing : ¬ Closing (state.vc conn).state)
    (fills : Fills state next conn handle slot) :
    Counts setup [] next := by
  obtain ⟨inGroup, alive, vcrt, isTable, isFree⟩ := mayFill
  obtain ⟨other, isOther, isSet⟩ := fills.vcrt
  obtain rfl := Option.some.inj (isTable.symm.trans isOther)
  have entries (other : Conn Group) : liveEntries next other =
      liveEntries state other + if other = conn then 1 else 0 := by
    have sums := liveEntries_set isTable _ isSet other
    simp only [Option.elim_some, count_set_none isFree conn other] at sums
    omega
  have same : SameBut state next conn := by
    intro other different
    rw [fills.vc, fills.kept, update_of_ne different, update_of_ne different]
    exact ⟨rfl, rfl⟩
  have fine := counts.fine conn
  have isKept : next.kept conn = true := by
    rw [fills.kept, update_self]
  apply counts.update same
  · intro other different
    rw [entries, if_neg different, add_zero]
  · have dup := fine.dup inGroup notClosing
    rw [entries, if_pos rfl, fills.vc, update_self, isKept]
    exact dup
  · intro group
    have groups := fills.groups
    have unused := fine.refCount_eq_zero
    split at groups
    case isTrue first =>
      apply (counts.balanced group).addRef alive same inGroup ?_ (.inl isKept) groups.1 groups.2
      rintro (used | isClosing)
      · rw [unused.1 first] at used
        exact Bool.false_ne_true used
      · exact notClosing isClosing
    case isFalse again =>
      apply (counts.balanced group).unchanged same inGroup ?_ groups.1 groups.2
      have used : state.kept conn = true := by
        rw [← Bool.not_eq_false, ← unused]
        exact again
      exact iff_of_true (.inl isKept) (.inl used)

end

end

section

variable {conn : Conn Group}

section

include counts

/-- Only the state of a connection changes, and it counts as before. -/
theorem Counts.setState
    (counted : Counted state conn)
    (vcState : VcState)
    (closing : Closing vcState → state.kept conn = false ∧ conn ≠ setup.myself)
    (still : state.kept conn = true ∨ Closing vcState)
    (outstandingCloseOps : Int) :
    Counts setup []
      { setVc state conn { state.vc conn with state := vcState } with
        outstandingCloseOps := outstandingCloseOps } := by
  have fine := counts.fine conn
  have inGroup := fine.range counted
  have same : SameBut state
      { setVc state conn { state.vc conn with state := vcState } with
        outstandingCloseOps := outstandingCloseOps } conn := by
    intro other different
    exact ⟨update_of_ne different _ _, rfl⟩
  have isState : (setVc state conn { state.vc conn with state := vcState }).vc
      conn = { state.vc conn with state := vcState } :=
    update_self _ _ _
  apply counts.update same
  · exact fun _ _ => rfl
  · simp only [isState]
    exact
      { refCount := fine.refCount
        inUse := fine.inUse
        closing := closing
        opened := fun _ => still.imp_right .inl
        range := fun _ => inGroup }
  · intro group
    apply (counts.balanced group).unchanged same inGroup ?_ rfl rfl
    apply iff_of_true ?_ counted
    unfold Counted
    simp only [isState]
    exact still

/-- The handshake is over: the connection gives its group the reference
back. -/
theorem Counts.terminated
    (isAcked : (state.vc conn).state = .closeAcked) :
    ∃ next, terminated state conn = some next ∧ Counts setup [] next := by
  have fine := counts.fine conn
  have isClosing : Closing (state.vc conn).state := by
    rw [isAcked]
    trivial
  have counted : Counted state conn := .inr isClosing
  have unused := (fine.closing isClosing).1
  have isZero := fine.refCount_eq_zero.2 unused
  refine ⟨pgRelease
    { setVc state conn { state.vc conn with state := .inactive } with
      outstandingCloseOps := state.outstandingCloseOps - 1 } conn.1, ?_, ?_⟩
  · unfold Refcount.terminated
    rw [counts.alive counted, if_neg Bool.false_ne_true]
    simp only [isAcked, Close.handleConnection, setVc, update_self, isZero, if_true]
  · have isState : (setVc state conn
        { state.vc conn with state := .inactive }).vc conn =
        { state.vc conn with state := .inactive } :=
      update_self _ _ _
    have same : SameBut state (pgRelease
        { setVc state conn { state.vc conn with state := .inactive } with
          outstandingCloseOps := state.outstandingCloseOps - 1 } conn.1)
        conn := by
      intro other different
      exact ⟨update_of_ne different _ _, rfl⟩
    apply counts.update same
    · exact fun _ _ => rfl
    · simp only [pgRelease, isState]
      exact
        { refCount := fine.refCount
          inUse := fine.inUse
          closing := fun impossible => impossible.elim
          opened := fun open_ => absurd rfl open_
          range := fun _ => fine.range counted }
    · intro group
      apply (counts.balanced group).release same (fine.range counted) counted ?_ rfl rfl
      rintro (used | stillClosing)
      · exact Bool.false_ne_true (unused.symm.trans used)
      · simp only [pgRelease, isState] at stillClosing
        exact stillClosing

/-- A close packet comes that the other end may send. -/
theorem Counts.receiveClose
    {ack : Bool}
    (foreign : conn ≠ setup.myself)
    (expected : (state.vc conn).state = .localClose ∨
      if ack then (state.vc conn).state = .closeAcked
      else (state.vc conn).state = .active) :
    ∃ next, receiveClose state conn ack = some next ∧ Counts setup [] next := by
  have fine := counts.fine conn
  have notInactive : (state.vc conn).state ≠ .inactive := by
    intro isInactive
    rw [isInactive] at expected
    cases ack <;> simp at expected
  have counted : Counted state conn := by
    rcases fine.opened notInactive with used | isClosing | isMyself
    · exact .inl used
    · exact .inr isClosing
    · exact absurd isMyself foreign
  have becomes (vcState : VcState)
      (closing : Closing vcState → state.kept conn = false ∧ conn ≠ setup.myself)
      (still : state.kept conn = true ∨ Closing vcState) :
      Counts setup [] (setVc state conn { state.vc conn with state := vcState }) :=
    counts.setState counted vcState closing still state.outstandingCloseOps
  unfold Refcount.receiveClose
  rw [counts.alive counted, if_neg Bool.false_ne_true]
  rcases expected with isLocal | isOther
  · have isClosing : Closing (state.vc conn).state := by
      rw [isLocal]
      trivial
    have acked := becomes .closeAcked (fun _ => fine.closing isClosing) (.inr trivial)
    cases ack <;> exact ⟨_, by simp [isLocal, Close.pktHandlerClose], acked⟩
  · cases ack with
    | false =>
      have isActive : (state.vc conn).state = .active := by simpa using isOther
      have used : state.kept conn = true := by
        rcases counted with used | impossible
        · exact used
        · rw [isActive] at impossible
          exact impossible.elim
      exact ⟨_, by simp [isActive, Close.pktHandlerClose],
        becomes .remoteClose (fun impossible => impossible.elim) (.inl used)⟩
    | true =>
      have isAcked : (state.vc conn).state = .closeAcked := by
        simpa using isOther
      have isClosing : Closing (state.vc conn).state := by
        rw [isAcked]
        trivial
      exact ⟨_, by simp [isAcked, Close.pktHandlerClose],
        becomes .closeAcked (fun _ => fine.closing isClosing) (.inr trivial)⟩

end

/-- A connection that a table names has an entry. -/
theorem count_le_liveEntries
    {handle : Nat} {vcrt : VCRT Group}
    (isTable : tableAt state handle = some vcrt) :
    vcrt.vcrTable.count (some conn) ≤ liveEntries state conn := by
  have sums := liveEntries_replace isTable none conn
  simp only [Option.elim_none] at sums
  omega

include counts in
/-- The connection of an entry is used. -/
theorem Counts.commGetVc
    {handle slot : Nat} {vcrt : VCRT Group}
    (isTable : tableAt state handle = some vcrt)
    (isEntry : vcrt.vcrTable[slot]? = some (some conn)) :
    ∃ next, commGetVc state handle slot = some next ∧ Counts setup [] next := by
  have named : 0 < liveEntries state conn :=
    lt_of_lt_of_le
      (List.count_pos_iff.2 (List.mem_of_getElem? isEntry))
      (count_le_liveEntries isTable)
  have used : state.kept conn = true :=
    (counts.fine conn).inUse (lt_of_lt_of_le named (Nat.le_add_right _ _))
  unfold Refcount.commGetVc
  simp only [isTable, isEntry, Option.join_some]
  rw [counts.alive (.inl used), if_neg Bool.false_ne_true]
  split
  case isTrue =>
    exact ⟨_, rfl, counts.setState (.inl used) .active
      (fun impossible => impossible.elim) (.inl used) state.outstandingCloseOps⟩
  case isFalse => exact ⟨state, rfl, counts⟩

end

end Mpich.Ch3.Refcount
