import Mathlib.Logic.Relation
import Mathlib.Data.List.Nodup

/-!
# Stored references

A reference may find a place, and a place keeps a reference, which may find a place again.
The places that are visited from a reference are the same each time, and none of them is
visited twice. When one place gets another reference, all paths still end if the new
reference does not lead to that place.
-/

namespace Mpich

open List

/-- What references find, and what the places keep. -/
structure Pointers (Ref Place : Type*) where
  find : Ref → Option Place
  stored : Place → Ref

namespace Pointers

variable {Ref Place : Type*} {links later : Pointers Ref Place}
  {reference last other target : Ref} {place : Place} {places front back : List Place}

/-- The places that are visited from a reference, and the reference that finds none. -/
inductive Path (links : Pointers Ref Place) : Ref → List Place → Ref → Prop
  | stop
      {reference : Ref}
      (missed : links.find reference = none) :
      Path links reference [] reference
  | visit
      {reference : Ref}
      {place : Place}
      {places : List Place}
      {last : Ref}
      (found : links.find reference = some place)
      (rest : Path links (links.stored place) places last) :
      Path links reference (place :: places) last

/-- Every reference leads to an end. -/
def Ends
    (links : Pointers Ref Place) : Prop :=
  ∀ reference, ∃ places last, links.Path reference places last

/-- One reference leads to the other one without using what is kept at a place. -/
def LeadsTo
    (links : Pointers Ref Place)
    (place : Place) : Ref → Ref → Prop :=
  Relation.ReflTransGen fun reference next =>
    ∃ other, links.find reference = some other ∧ other ≠ place ∧ links.stored other = next

namespace Path

variable (path : links.Path reference places last)

include path in
/-- The visited places are determined by the reference. -/
theorem unique
    {otherPlaces : List Place} {otherLast : Ref}
    (otherPath : links.Path reference otherPlaces otherLast) :
    places = otherPlaces ∧ last = otherLast := by
  induction path generalizing otherPlaces with
  | stop missed =>
    cases otherPath with
    | stop _ => exact ⟨rfl, rfl⟩
    | visit found _ =>
      rw [missed] at found
      cases found
  | visit found _ ih =>
    cases otherPath with
    | stop missed =>
      rw [found] at missed
      cases missed
    | visit otherFound otherRest =>
      obtain rfl := Option.some.inj (found.symm.trans otherFound)
      obtain ⟨rfl, same⟩ := ih otherRest
      exact ⟨rfl, same⟩

/-- What follows a visited place is the path from the reference kept there. -/
theorem split (path : links.Path reference (front ++ place :: back) last) :
    links.Path (links.stored place) back last := by
  induction front generalizing reference with
  | nil =>
    cases path with
    | visit _ rest => exact rest
  | cons first front ih =>
    cases path with
    | visit _ rest => exact ih rest

include path in
/-- No place is visited twice. -/
theorem nodup :
    places.Nodup := by
  induction path with
  | stop _ => exact nodup_nil
  | @visit _ place places last _ rest ih =>
    refine nodup_cons.mpr ⟨fun again => ?_, ih⟩
    obtain ⟨front, back, isSplit⟩ := append_of_mem again
    rw [isSplit] at rest
    have shorter := congrArg length (rest.unique rest.split).1
    rw [length_append, length_cons] at shorter
    omega

/-- A place that keeps the reference by which it is found is on no path. -/
theorem not_of_self
    (found : links.find reference = some place)
    (isSelf : links.stored place = reference) :
    ¬ links.Path reference places last := by
  intro path
  cases path with
  | stop missed =>
    rw [found] at missed
    cases missed
  | visit otherFound rest =>
    obtain rfl := Option.some.inj (found.symm.trans otherFound)
    rw [isSelf] at rest
    have longer := (rest.unique (.visit found (by rw [isSelf]; exact rest))).1
    exact absurd (congrArg length longer) (Nat.ne_of_lt (Nat.lt_succ_self _))

include path in
/-- A path is kept if what the visited places keep does not change. -/
theorem frame
    (finds : later.find = links.find)
    (kept : ∀ place ∈ places, later.stored place = links.stored place) :
    later.Path reference places last := by
  induction path with
  | stop missed => exact .stop (by rw [finds, missed])
  | visit found _ ih =>
    refine .visit (by rw [finds, found]) ?_
    rw [kept _ mem_cons_self]
    exact ih fun place member => kept place (mem_cons_of_mem _ member)

/-- The last place of a path gets another reference, and the path goes on from there. -/
theorem append
    {backLast : Ref}
    (path : links.Path reference (front ++ [place]) last)
    (finds : later.find = links.find)
    (kept : ∀ other ∈ front, later.stored other = links.stored other)
    (rest : later.Path (later.stored place) back backLast) :
    later.Path reference (front ++ place :: back) backLast := by
  induction front generalizing reference with
  | nil =>
    cases path with
    | visit found _ => exact .visit (by rw [finds, found]) rest
  | cons first front ih =>
    cases path with
    | visit found others =>
      refine .visit (by rw [finds, found]) ?_
      rw [kept _ mem_cons_self]
      exact ih others fun other member =>
        kept other (mem_cons_of_mem _ member)

include path in
/-- A path visits the places that it leads to. -/
theorem mem_of_leadsTo
    (leads : links.LeadsTo place reference other)
    (found : links.find other = some place) :
    place ∈ places := by
  induction leads using Relation.ReflTransGen.head_induction_on generalizing places with
  | refl =>
    cases path with
    | stop missed =>
      rw [found] at missed
      cases missed
    | visit otherFound _ =>
      obtain rfl := Option.some.inj (found.symm.trans otherFound)
      exact mem_cons_self
  | head step _ ih =>
    obtain ⟨between, isFound, _, rfl⟩ := step
    cases path with
    | stop missed =>
      rw [isFound] at missed
      cases missed
    | visit otherFound rest =>
      obtain rfl := Option.some.inj (isFound.symm.trans otherFound)
      exact mem_cons_of_mem _ (ih rest)

end Path

section

variable
  (finds : ∀ reference, later.find reference = links.find reference ∨
    later.find reference = none ∨ later.find reference = some place)
  (kept : ∀ other, other ≠ place → later.stored other = links.stored other)
include finds kept

theorem exists_path_of_avoids
    (path : links.Path reference places last)
    (avoids : ∀ other, links.LeadsTo place reference other → later.find other ≠ some place) :
    ∃ places last, later.Path reference places last := by
  induction path with
  | @stop reference missed =>
    rcases finds reference with same | isNone | isPlace
    · exact ⟨_, _, .stop (same.trans missed)⟩
    · exact ⟨_, _, .stop isNone⟩
    · exact absurd isPlace (avoids reference .refl)
  | @visit reference next _ _ found _ ih =>
    rcases finds reference with same | isNone | isPlace
    · have foundLater := same.trans found
      have notPlace : next ≠ place := by
        rintro rfl
        exact avoids reference .refl foundLater
      obtain ⟨places, last, rest⟩ := ih fun other leads =>
        avoids other (.head ⟨next, found, notPlace, rfl⟩ leads)
      exact ⟨_, _, .visit foundLater (by rw [kept next notPlace]; exact rest)⟩
    · exact ⟨_, _, .stop isNone⟩
    · exact absurd isPlace (avoids reference .refl)

/-- A place gets a reference that does not lead back to it. -/
theorem Ends.redirect
    (ends : links.Ends)
    (avoids : ∀ other, links.LeadsTo place (later.stored place) other →
      later.find other ≠ some place) :
    later.Ends := by
  obtain ⟨placesBefore, lastBefore, pathBefore⟩ := ends (later.stored place)
  obtain ⟨placesFrom, lastFrom, pathFrom⟩ := exists_path_of_avoids finds kept pathBefore avoids
  intro reference
  obtain ⟨places, last, path⟩ := ends reference
  induction path with
  | @stop reference missed =>
    rcases finds reference with same | isNone | isPlace
    · exact ⟨_, _, .stop (same.trans missed)⟩
    · exact ⟨_, _, .stop isNone⟩
    · exact ⟨_, _, .visit isPlace pathFrom⟩
  | @visit reference next _ _ found _ ih =>
    rcases finds reference with same | isNone | isPlace
    · obtain rfl | notPlace := eq_or_ne next place
      · exact ⟨_, _, .visit (same.trans found) pathFrom⟩
      · obtain ⟨_, _, rest⟩ := ih
        exact ⟨_, _, .visit (same.trans found) (by rw [kept next notPlace]; exact rest)⟩
    · exact ⟨_, _, .stop isNone⟩
    · exact ⟨_, _, .visit isPlace pathFrom⟩

end

end Mpich.Pointers
