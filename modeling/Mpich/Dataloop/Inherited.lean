import Mpich.Dataloop.Run

/-!
# Inherited dataloops

`Dataloop_create` gives a `MPI_COMBINER_DUP` or `MPI_COMBINER_RESIZED` type a copy of the
dataloop of its base. It makes that one first when there is none, and learns its size and
depth from making it. When there is one already, nothing sets `old_dlsz` and
`old_dldepth`.
-/

namespace Mpich.Dataloop

/-- A dataloop, with the size and depth that are kept beside it. -/
structure Stored where
  loop : Loop
  size : Int
  depth : Int

/-- The `dataloop` and the `hetero_dloop` of a datatype. -/
inductive Flavour
  | homogeneous
  | heterogeneous
  deriving DecidableEq

/-- The dataloops of a datatype that are there. -/
abbrev OwnLoops := Flavour → Option Stored

inductive CopyCombiner
  | dup
  | resized

/-- A derived type: one that is made from a derived type by DUP or RESIZED, or another
one, with the dataloops that are made for it. -/
inductive Derived
  | copy (combiner : CopyCombiner) (own : OwnLoops) (base : Derived)
  | other (own : OwnLoops) (made : Flavour → Stored)

/-- `DLOOP_Handle_get_loopptr_macro` with the size and the depth. -/
def Derived.own : Derived → OwnLoops
  | .copy _ own _ => own
  | .other own _ => own

/-- `DLOOP_Handle_set_loopptr_macro` with the size and the depth. -/
def Derived.store (flag : Flavour) (stored : Stored) : Derived → Derived
  | .copy combiner own base => .copy combiner (Function.update own flag (some stored)) base
  | .other own made => .other (Function.update own flag (some stored)) made

section

variable (dataloopDup : Loop → Int → Loop) (flag : Flavour)

/-- `Dataloop_create`, with what it leaves behind in the types below. `uninit` are the
values of `old_dlsz` and `old_dldepth` when each call begins. -/
def dataloopCreate (uninit : Nat → Int × Int) : Nat → Derived → Stored × Derived
  | _, .other own made =>
    match own flag with
    | some stored => (stored, .other own made)
    | none => (made flag, .other own made)
  | level, .copy combiner own base =>
    match own flag with
    | some stored => (stored, .copy combiner own base)
    | none =>
      let old : Stored × Derived :=
        match base.own flag with
        | some stored => (⟨stored.loop, (uninit level).1, (uninit level).2⟩, base)
        | none =>
          let made := dataloopCreate uninit (level + 1) base
          (made.1, made.2.store flag made.1)
      (match combiner with
        | .dup => ⟨dataloopDup old.1.loop old.1.size, old.1.size, old.1.depth⟩
        | .resized => ⟨dataloopDup old.1.loop old.1.size, old.1.size, old.1.depth⟩,
        .copy combiner own old.2)

/-- The dataloop has the denotation, size and depth of the other one. -/
def Stored.Matches (new base : Stored) : Prop :=
  new.loop.bytes = base.loop.bytes ∧ new.size = base.size ∧ new.depth = base.depth

/-- A call that makes the dataloop of a DUP or RESIZED type gives it that of its base,
and so do the calls below it. -/
def Inherits (uninit : Nat → Int × Int) : Nat → Derived → Prop
  | _, .other _ _ => True
  | level, .copy combiner own base =>
    own flag = none → (∃ left, ∃ stored ∈ left.own flag,
        (dataloopCreate dataloopDup flag uninit level (.copy combiner own base)).2 =
            .copy combiner own left ∧
          (dataloopCreate dataloopDup flag uninit level
            (.copy combiner own base)).1.Matches stored) ∧
      (base.own flag = none → Inherits uninit (level + 1) base)

/-- None of the bases down to the first other type has a dataloop. -/
def NoneBelow : Derived → Prop
  | .other _ _ => True
  | .copy _ own base => own flag = none → base.own flag = none ∧ NoneBelow base

/-- The dataloops that are made have the sizes that are returned with them. -/
def Derived.Measured (abi : Abi) : Derived → Prop
  | .copy _ _ base => base.Measured abi
  | .other _ made => ∀ flag, (made flag).size = (made flag).loop.size abi

end

section

variable {dataloopDup : Loop → Int → Loop} {flag : Flavour} {abi : Abi}

theorem Derived.own_store (stored : Stored) (type : Derived) :
    (type.store flag stored).own flag = some stored := by
  cases type <;> exact Function.update_self ..

/-- All dataloops along the way have their sizes. -/
theorem dataloopCreate_measured
    (copied : ∀ loop : Loop, dataloopDup loop (loop.size abi) = loop)
    (uninit : Nat → Int × Int) {level : Nat} {type : Derived}
    (measured : type.Measured abi)
    (fresh : type.own flag = none)
    (noneBelow : NoneBelow flag type) :
    (dataloopCreate dataloopDup flag uninit level type).1.size =
      (dataloopCreate dataloopDup flag uninit level type).1.loop.size abi := by
  induction type generalizing level with
  | other own made =>
    have absent : own flag = none := fresh
    simp only [dataloopCreate, absent]
    exact measured flag
  | copy combiner own base ih =>
    obtain ⟨baseFresh, below⟩ := noneBelow fresh
    have absent : own flag = none := fresh
    have size_eq := @ih (level + 1) measured baseFresh below
    cases combiner <;>
      simp only [dataloopCreate, absent, baseFresh] <;>
      rw [size_eq, copied]

/-- The dataloops are inherited, whatever was in the variables, if and only if there
was none to be found. -/
theorem inherits_iff
    (copied : ∀ loop : Loop, dataloopDup loop (loop.size abi) = loop)
    {type : Derived}
    (measured : type.Measured abi) :
    (∀ uninit, Inherits dataloopDup flag uninit 0 type) ↔ NoneBelow flag type := by
  generalize 0 = level
  induction type generalizing level with
  | other own made => exact ⟨fun _ => trivial, fun _ _ => trivial⟩
  | copy combiner own base ih =>
    constructor
    · intro inherits absent
      have baseFresh : base.own flag = none := by
        by_contra present
        obtain ⟨stored, isStored⟩ := Option.ne_none_iff_exists'.mp present
        obtain ⟨⟨left, found, isFound, isLeft, -, sameSize, -⟩, -⟩ :=
          inherits (fun _ => (stored.size + 1, 0)) absent
        simp only [dataloopCreate, absent, isStored] at isLeft sameSize
        obtain ⟨-, -, rfl⟩ := isLeft
        obtain rfl : stored = found := Option.some.inj (isStored.symm.trans isFound)
        cases combiner <;> simp at sameSize
      exact ⟨baseFresh, (ih measured (level + 1)).mp fun uninit =>
        (inherits uninit absent).2 baseFresh⟩
    · intro noneBelow uninit absent
      obtain ⟨baseFresh, below⟩ := noneBelow absent
      refine ⟨⟨(dataloopCreate dataloopDup flag uninit (level + 1) base).2.store flag
          (dataloopCreate dataloopDup flag uninit (level + 1) base).1, _,
          Derived.own_store _ _, ?_, ?_⟩,
        fun _ => (ih measured (level + 1)).mpr below uninit⟩
      · simp only [dataloopCreate, absent, baseFresh]
      · have baseMeasured : base.Measured abi := measured
        have size_eq := @dataloopCreate_measured _ flag _ copied uninit (level + 1) _
          baseMeasured baseFresh below
        simp only [dataloopCreate, absent, baseFresh]
        cases combiner <;> exact ⟨by dsimp only; rw [size_eq, copied], rfl, rfl⟩

end

/-- A vector of two integers, every second one. -/
def evenLoop : Stored :=
  ⟨.leaf (.vector 2 1 8) ⟨4, 4, 1⟩, 40, 1⟩

/-- The dataloop of the base is made with that of the new type. -/
theorem inherits_dup :
    NoneBelow .homogeneous (.copy .dup (fun _ => none) (.other (fun _ => none) fun _ => evenLoop)) ∧
    Inherits (fun loop _ => loop) .homogeneous (fun _ => (7, 7)) 0
      (.copy .dup (fun _ => none) (.other (fun _ => none) fun _ => evenLoop)) := by
  have measured : Derived.Measured ilp32
      (.copy .dup (fun _ => none) (.other (fun _ => none) fun _ => evenLoop)) :=
    fun _ => rfl
  have noneBelow : NoneBelow .homogeneous
      (.copy .dup (fun _ => none) (.other (fun _ => none) fun _ => evenLoop)) :=
    fun _ => ⟨rfl, trivial⟩
  exact ⟨noneBelow, (inherits_iff (fun _ => rfl) measured).mpr noneBelow _⟩

/-- The base has been committed. -/
theorem not_inherits_resized :
    ¬ Inherits (fun loop _ => loop) .homogeneous (fun _ => (0, 0)) 0
      (.copy .resized (fun _ => none) (.other (fun _ => some evenLoop) fun _ => evenLoop)) := by
  intro inherits
  obtain ⟨⟨left, stored, isStored, isLeft, -, sameSize, -⟩, -⟩ := inherits rfl
  cases isLeft
  cases isStored
  revert sameSize
  decide

end Mpich.Dataloop
