import Mathlib.Algebra.Group.Nat.Defs
import Mathlib.Data.Set.Finite.Basic

/-!
# Attributes

An object, for instance a communicator, has a list of attributes, each a value under a
keyval. `MPI_Comm_set_attr` and `MPI_Comm_delete_attr` change the list of one object,
`MPIR_Attr_dup_list` copies a list and `MPIR_Attr_delete_list` deletes one. What the
user's functions and the allocator answer is a part of the action.
-/

namespace Mpich.Attr

open Function

/-- `MPID_Lang_t` -/
inductive Language
  | c
  | cxx
  | fortran
  | fortran90
  deriving DecidableEq

/-- The value that a delete function of the language gets; one of Fortran 77 gets an
`MPI_Fint`. -/
def Language.passed
    (language : Language)
    (value : Int) : Int :=
  match language with
  | .fortran => value.bmod (2 ^ 32)
  | _ => value

/-- `MPID_Keyval`, with whether it has a copy function and a delete function. -/
structure Keyval where
  language : Language
  copyfn : Bool
  delfn : Bool
  refCount : Nat
  deriving DecidableEq

/-- `MPID_Attribute`, with the handle of its keyval. -/
structure Attribute where
  keyval : Int
  value : Int
  deriving DecidableEq

/-- Why an operation fails: the code of a user function, `**nomem`, or a keyval that is
not valid. -/
inductive Error
  | user (code : Int)
  | nomem
  | keyval
  deriving DecidableEq

abbrev Result := Except Error Unit

/-- A call of a delete function. -/
structure DeleteCall (Object : Type*) where
  object : Object
  keyval : Int
  value : Int

/-- What a copy function returns: its code, `flag` and `new_value`. -/
structure CopyResult where
  errno : Int
  flag : Bool
  newValue : Int

/-- The keyvals in use, which of them the user has not freed, the lists of the objects,
and the calls of delete functions so far. -/
structure State (Object : Type*) where
  keyvals : Int → Option Keyval
  held : Int → Bool
  attributes : Object → List Attribute
  calls : List (DeleteCall Object)

/-- The operations. A function of several attributes answers for the index of each. -/
inductive Action (Object : Type*)
  | createKeyval (handle : Int) (language : Language) (copyfn delfn : Bool)
  | freeKeyval (handle : Int)
  | setAttr (object : Object) (keyval value : Int) (available : Bool) (deletes : Int)
  | deleteAttr (object : Object) (keyval : Int) (deletes : Int)
  | dupList (source target : Object) (copies : Nat → CopyResult) (available : Nat → Bool)
  | deleteList (object : Object) (deletes : Nat → Int)

/-- The loop of `MPI_Comm_set_attr`: the attribute of the keyval that it comes to, if
any, and the list with the value. A new attribute goes behind the first one with a
greater handle, or to the end. -/
def place
    (keyval value : Int) : List Attribute → Option Attribute × List Attribute
  | [] => (none, [⟨keyval, value⟩])
  | attr :: rest =>
    if attr.keyval = keyval then (some attr, ⟨keyval, value⟩ :: rest)
    else if keyval < attr.keyval then
      (none, attr :: ⟨keyval, value⟩ :: rest)
    else ((place keyval value rest).1, attr :: (place keyval value rest).2)

namespace State

variable {Object : Type*} [DecidableEq Object]

/-- `MPIR_Keyval_add_ref` -/
def addRef
    (state : State Object)
    (handle : Int) : State Object :=
  { state with
    keyvals := update state.keyvals handle
      ((state.keyvals handle).map fun keyval =>
        { keyval with refCount := keyval.refCount + 1 }) }

/-- `MPIR_Keyval_release_ref`, and the keyval is freed when it is not in use any more;
`none` for a keyval that has been freed. -/
def releaseRef
    (state : State Object)
    (handle : Int) : Option (State Object) :=
  (state.keyvals handle).map fun keyval =>
    { state with
      keyvals := update state.keyvals handle
        (if keyval.refCount - 1 = 0 then none
        else some { keyval with refCount := keyval.refCount - 1 }) }

def putAttributes
    (state : State Object)
    (object : Object)
    (list : List Attribute) : State Object :=
  { state with attributes := update state.attributes object list }

/-- `MPIR_Call_attr_delete`; `none` when the keyval has been freed. -/
def callAttrDelete
    (state : State Object)
    (object : Object)
    (attr : Attribute)
    (answer : Int) : Option (State Object × Result) :=
  (state.keyvals attr.keyval).map fun keyval =>
    if keyval.delfn then
      ({ state with calls := state.calls ++
          [⟨object, attr.keyval, keyval.language.passed attr.value⟩] },
        if answer = 0 then .ok () else .error (.user answer))
    else (state, .ok ())

/-- What follows a delete function that has not failed. -/
def unlessFailed
    (finish : State Object → Option (State Object)) :
    State Object × Result → Option (State Object × Result)
  | (state, .error error) => some (state, .error error)
  | (state, .ok ()) => (finish state).map fun state => (state, .ok ())

/-- `MPI_Comm_set_attr` -/
def setAttr
    (state : State Object)
    (object : Object)
    (keyval value : Int)
    (available : Bool)
    (deletes : Int) : Option (State Object × Result) :=
  match state.keyvals keyval with
  | none => some (state, .error .keyval)
  | some _ =>
    match place keyval value (state.attributes object) with
    | (some old, placed) =>
      (state.callAttrDelete object old deletes).bind
        (unlessFailed fun state => some (state.putAttributes object placed))
    | (none, placed) =>
      if available then some ((state.putAttributes object placed).addRef keyval, .ok ())
      else some (state, .error .nomem)

/-- `MPI_Comm_delete_attr` -/
def deleteAttr
    (state : State Object)
    (object : Object)
    (keyval deletes : Int) : Option (State Object × Result) :=
  match state.keyvals keyval with
  | none => some (state, .error .keyval)
  | some _ =>
    match (state.attributes object).find? (·.keyval = keyval) with
    | none => some (state, .ok ())
    | some attr =>
      (state.callAttrDelete object attr deletes).bind
        (unlessFailed fun state =>
          (state.putAttributes object
            ((state.attributes object).eraseP (·.keyval = keyval))).releaseRef keyval)

/-- The loop of `MPIR_Attr_dup_list`; what has been copied is at the end of the new
list. -/
def dupLoop
    (target : Object)
    (copies : Nat → CopyResult)
    (available : Nat → Bool) :
    Nat → List Attribute → State Object → Option (State Object × Result)
  | _, [], state => some (state, .ok ())
  | index, attr :: rest, state =>
    (state.keyvals attr.keyval).bind fun keyval =>
      if keyval.copyfn then
        let copy := copies index
        if copy.errno ≠ 0 then some (state, .error (.user copy.errno))
        else if copy.flag then
          if available index then
            dupLoop target copies available (index + 1) rest
              ((state.putAttributes target
                (state.attributes target ++ [⟨attr.keyval, copy.newValue⟩])).addRef attr.keyval)
          else some (state, .error .nomem)
        else dupLoop target copies available (index + 1) rest state
      else dupLoop target copies available (index + 1) rest state

/-- The loop of `MPIR_Attr_delete_list`, with `mpi_errno`. -/
def deleteLoop
    (object : Object)
    (deletes : Nat → Int) :
    Nat → List Attribute → Result → State Object → Option (State Object × Result)
  | _, [], errno, state => some (state, errno)
  | index, attr :: rest, _, state =>
    (state.callAttrDelete object attr (deletes index)).bind fun (state, errno) =>
      deleteLoop object deletes (index + 1) rest errno state

/-- `MPIR_Attr_delete_list` -/
def deleteList
    (state : State Object)
    (object : Object)
    (deletes : Nat → Int) : Option (State Object × Result) :=
  (deleteLoop object deletes 0 (state.attributes object) (.ok ()) state).map
    fun (state, errno) => (state.putAttributes object [], errno)

/-- One operation; `none` when it uses a keyval that has been freed. -/
def step
    (state : State Object) : Action Object → Option (State Object × Result)
  | .createKeyval handle language copyfn delfn =>
    some ({ state with
      keyvals := update state.keyvals handle (some ⟨language, copyfn, delfn, 1⟩)
      held := update state.held handle true }, .ok ())
  | .freeKeyval handle =>
    (({ state with held := update state.held handle false } :
      State Object).releaseRef handle).map fun state => (state, .ok ())
  | .setAttr object keyval value available deletes =>
    state.setAttr object keyval value available deletes
  | .deleteAttr object keyval deletes => state.deleteAttr object keyval deletes
  | .dupList source target copies available =>
    dupLoop target copies available 0 (state.attributes source) state
  | .deleteList object deletes => state.deleteList object deletes

/-- What the library and a correct program do: a new keyval gets a handle that is not in
use, a keyval is freed by its owner once, and a list is duplicated for an object that
has no attributes yet. -/
def Offered
    (state : State Object) : Action Object → Prop
  | .createKeyval handle _ _ _ => state.keyvals handle = none
  | .freeKeyval handle => state.held handle = true
  | .dupList source target _ _ => source ≠ target ∧ state.attributes target = []
  | _ => True

/-- `MPI_Comm_get_attr`: the value found for a keyval. -/
def getAttr
    (state : State Object)
    (object : Object)
    (keyval : Int) : Option Int :=
  ((state.attributes object).find? (·.keyval = keyval)).map Attribute.value

/-- No keyval and no attribute yet. -/
def initial : State Object where
  keyvals := fun _ => none
  held := fun _ => false
  attributes := fun _ => []
  calls := []

end Mpich.Attr.State
