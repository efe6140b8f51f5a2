import Mathlib.Data.List.Perm.Basic

/-!
# Products in a given order

The product of the values of a list of indices, for an associative operation
without a unit. The list says in which order the values are combined.
-/

namespace Mpich.OrderedProduct

variable {Index Value : Type*}

/-- The product over a list of indices; there is none over the empty list. -/
def product
    (op : Value → Value → Value)
    (value : Index → Value) : List Index → Option Value
  | [] => none
  | index :: indices =>
    match product op value indices with
    | none => some (value index)
    | some rest => some (op (value index) rest)

variable {op : Value → Value → Value} {value : Index → Value}

theorem product_cons
    {indices : List Index} {rest : Value}
    (index : Index)
    (restProduct : product op value indices = some rest) :
    product op value (index :: indices) = some (op (value index) rest) := by
  rw [product, restProduct]

/-- Only the empty list has no product. -/
theorem eq_nil_of_product
    {indices : List Index}
    (noProduct : product op value indices = none) :
    indices = [] := by
  cases indices with
  | nil => rfl
  | cons index indices =>
    rw [product] at noProduct
    cases rest : product op value indices <;> simp [rest] at noProduct

/-- The product over two lists is the product of their products. -/
theorem product_append
    (associative : ∀ a b c, op (op a b) c = op a (op b c))
    {front back : List Index} {first second : Value}
    (frontProduct : product op value front = some first)
    (backProduct : product op value back = some second) :
    product op value (front ++ back) = some (op first second) := by
  induction front generalizing first with
  | nil => cases frontProduct
  | cons index indices ih =>
    rw [List.cons_append]
    cases restProduct : product op value indices with
    | none =>
      obtain rfl := eq_nil_of_product restProduct
      obtain rfl : value index = first := Option.some.inj frontProduct
      exact product_cons index backProduct
    | some rest =>
      rw [product_cons index restProduct] at frontProduct
      obtain rfl : op (value index) rest = first := Option.some.inj frontProduct
      rw [product_cons index (ih restProduct), associative]

/-- In the free semigroup, the product over a list is the list. -/
theorem product_append_singletons
    (indices : List Index)
    (nonempty : indices ≠ []) :
    product (· ++ ·) (fun index => [index]) indices = some indices := by
  induction indices with
  | nil => exact absurd rfl nonempty
  | cons index indices ih =>
    cases indices with
    | nil => rfl
    | cons next indices =>
      exact product_cons index (ih (List.cons_ne_nil next indices))

end Mpich.OrderedProduct
