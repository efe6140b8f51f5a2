import Mathlib.Data.List.Basic

/-!
# What the calls on a window do to its fence counter

`MPIDI_Win_fence` decides by the fence counter of its own process whether it
takes part in the collective that completes an epoch. The counter and the list of
queued operations are changed by the calls of that process only, so that what
other processes do, and when, plays no part here.
-/

namespace Mpich.Ch3.Fence

/-- `MPI_MODE_NOPRECEDE`. -/
def modeNoprecede : BitVec 32 := 8192

/-- `MPI_MODE_NOSUCCEED`. -/
def modeNosucceed : BitVec 32 := 16384

/-- The type of an operation. -/
inductive RmaType
  | put
  | get
  | accumulate
  deriving DecidableEq

inductive LockType
  | shared
  | exclusive
  deriving DecidableEq

/-- An entry of `rma_ops_list`. -/
inductive Entry
  | op (type : RmaType) (target : Nat)
  | lock (lockType : LockType) (target : Nat)
  deriving DecidableEq

/-- The fields of a window that these calls use. -/
structure Win where
  fenceCnt : Nat
  rmaOpsList : List Entry
  deriving DecidableEq

/-- A new window. -/
def Win.create : Win where
  fenceCnt := 0
  rmaOpsList := []

/-- A call between two fences. No rank stands for `MPI_PROC_NULL`. -/
inductive Call
  | access (type : RmaType) (target : Option Nat) (dataSz : Nat)
  | post
  | start
  | complete
  | wait
  | lock (lockType : LockType) (dest : Option Nat)
  | unlock (dest : Option Nat)

namespace Win

variable (rank : Nat) (win : Win)

/-- `MPIDI_Put`, `MPIDI_Get` or `MPIDI_Accumulate`. An operation on the process's
own window is done at once. -/
def access (type : RmaType) (target : Option Nat) (dataSz : Nat) : Win :=
  match target with
  | none => win
  | some target =>
    if dataSz = 0 ∨ target = rank then win
    else { win with rmaOpsList := win.rmaOpsList ++ [.op type target] }

/-- `MPIDI_Win_post`. -/
def post : Win :=
  { win with fenceCnt := 0 }

/-- `MPIDI_Win_start`. -/
def start : Win :=
  { win with fenceCnt := 0 }

/-- `MPIDI_Win_complete`, which sends all queued operations. -/
def complete : Win :=
  { win with rmaOpsList := [] }

/-- `MPIDI_Win_lock`. -/
def lock (lockType : LockType) (dest : Option Nat) : Win :=
  match dest with
  | none => { win with fenceCnt := 0 }
  | some dest =>
    if dest = rank then { win with fenceCnt := 0 }
    else { fenceCnt := 0, rmaOpsList := [.lock lockType dest] }

/-- `MPIDI_Win_unlock`, which returns an error if the list does not begin with
the lock. -/
def unlock (dest : Option Nat) : Win :=
  match dest with
  | none => win
  | some dest =>
    if dest = rank then win
    else
      match win.rmaOpsList with
      | .lock _ target :: _ =>
        if target = dest then { win with rmaOpsList := [] } else win
      | _ => win

/-- The window after a call. -/
def call : Call → Win
  | .access type target dataSz => win.access rank type target dataSz
  | .post => win.post
  | .start => win.start
  | .complete => win.complete
  | .wait => win
  | .lock lockType dest => win.lock rank lockType dest
  | .unlock dest => win.unlock rank dest

/-- The window after several calls. -/
def calls (calls : List Call) : Win :=
  calls.foldl (Win.call rank) win

/-- `MPIDI_Win_fence`: whether the process performs the collective, and the window
in the end. A lock on the window is waited for first, which changes neither
field. -/
def fence (assert : BitVec 32) : Bool × Win :=
  if assert &&& modeNoprecede ≠ 0 then
    (false, { win with
      fenceCnt := if assert &&& modeNosucceed ≠ 0 then 0 else 1 })
  else if win.fenceCnt = 0 ∧ assert &&& modeNosucceed ≠ 1 then
    (false, { win with fenceCnt := 1 })
  else
    (true,
      { fenceCnt := if assert &&& modeNosucceed ≠ 0 then 0 else win.fenceCnt
        rmaOpsList := [] })

end Win

/-- What happens up to the end of a fence: the calls that each process makes
before it, and the assertion that all processes give. -/
structure Round where
  calls : Nat → List Call
  assert : BitVec 32

/-- What the fences of a process do: for each of them, whether the process
performs the collective, and the window after it. -/
def fences (rank : Nat) : Win → List Round → List (Bool × Win)
  | _, [] => []
  | win, round :: rounds =>
    let fenced := (win.calls rank (round.calls rank)).fence round.assert
    fenced :: fences rank fenced.2 rounds

/-- Which fences of a process perform the collective. -/
def branches (rank : Nat) (win : Win) (rounds : List Round) : List Bool :=
  (fences rank win rounds).map Prod.fst

/-- In every fence either all processes perform the collective or none does. -/
def EnteredTogether (size : Nat) (rounds : List Round) : Prop :=
  ∀ rank < size, ∀ other < size, branches rank .create rounds = branches other .create rounds

/-- No queued operation survives a fence. -/
def Flushed (size : Nat) (rounds : List Round) : Prop :=
  ∀ rank < size, ∀ fenced ∈ fences rank .create rounds, fenced.2.rmaOpsList = []

/-- The epoch that a process is in as an origin. -/
inductive Epoch
  | none
  /-- A fence has opened an epoch, without an access so far. -/
  | opened
  | fence
  | started
  | locked (dest : Option Nat)
  deriving DecidableEq

namespace Epoch

/-- The epoch after a call, if the call is allowed. Accesses that follow a fence
are completed by the next one before another kind of epoch begins. -/
def after : Epoch → Call → Option Epoch
  | .opened, .access .. => some .fence
  | .fence, .access .. => some .fence
  | .started, .access .. => some .started
  | .locked dest, .access _ target _ =>
    if target = dest then some (.locked dest) else Option.none
  | .none, .post => some .none
  | .opened, .post => some .none
  | .started, .post => some .started
  | .locked dest, .post => some (.locked dest)
  | .none, .start => some .started
  | .opened, .start => some .started
  | .started, .complete => some .none
  | .none, .lock _ dest => some (.locked dest)
  | .opened, .lock _ dest => some (.locked dest)
  | .locked held, .unlock dest => if dest = held then some .none else Option.none
  | epoch, .wait => some epoch
  | _, _ => Option.none

/-- The epoch after several calls. -/
def afterAll : Epoch → List Call → Option Epoch
  | epoch, [] => some epoch
  | epoch, call :: calls => (epoch.after call).bind (afterAll · calls)

/-- The epoch after a fence, if the fence is allowed: no other epoch is open, and
no access precedes a fence that asserts so. -/
def afterFence (assert : BitVec 32) : Epoch → Option Epoch
  | .none => some (if assert &&& modeNosucceed ≠ 0 then .none else .opened)
  | .opened => some (if assert &&& modeNosucceed ≠ 0 then .none else .opened)
  | .fence =>
    if assert &&& modeNoprecede ≠ 0 then Option.none
    else some (if assert &&& modeNosucceed ≠ 0 then .none else .opened)
  | _ => Option.none

/-- All calls and fences of a process are allowed. -/
def Legal (rank : Nat) : Epoch → List Round → Prop
  | _, [] => True
  | epoch, round :: rounds =>
    ∃ before after, epoch.afterAll (round.calls rank) = some before ∧
      before.afterFence round.assert = some after ∧ after.Legal rank rounds

end Epoch

/-- A call sets the fence counter to zero. -/
def Call.Resets : Call → Prop
  | .post => True
  | .start => True
  | .lock .. => True
  | _ => False

instance : DecidablePred Call.Resets
  | .post => isTrue trivial
  | .start => isTrue trivial
  | .lock .. => isTrue trivial
  | .access .. => isFalse id
  | .complete => isFalse id
  | .wait => isFalse id
  | .unlock _ => isFalse id

/-- A process sets its fence counter to zero before a fence. -/
def Round.Resets (round : Round) (rank : Nat) : Prop :=
  ∃ call ∈ round.calls rank, call.Resets

instance (round : Round) : DecidablePred round.Resets :=
  fun _ => inferInstanceAs (Decidable (∃ _ ∈ _, _))

/-- A fence leaves the counters at one, where it is known whether they were before
it. -/
def leavesOne (assert : BitVec 32) (one : Bool) : Bool :=
  if assert &&& modeNoprecede ≠ 0 ∨ one then assert &&& modeNosucceed = 0 else true

/-- Where a fence has left the counters at one and the next one looks at them,
either all processes set theirs to zero in between or none does. -/
def ResetTogether (size : Nat) : Bool → List Round → Prop
  | _, [] => True
  | one, round :: rounds =>
    (one → round.assert &&& modeNoprecede = 0 →
      (∀ rank < size, round.Resets rank) ∨ ∀ rank < size, ¬ round.Resets rank) ∧
    ResetTogether size
      (leavesOne round.assert (one && decide (∀ rank < size, ¬ round.Resets rank)))
      rounds

end Mpich.Ch3.Fence
