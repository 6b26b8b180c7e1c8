/-
# Acting from both sides

A pair of elements of a monoid acts by one of them on the left and the other on the right.
One pair around another is a pair again, so that the pairs are a monoid that acts in the
order of the product, and a loop that puts one pair after another around what it has is
their product.
-/

import Mathlib.Algebra.BigOperators.Group.List.Basic
import Mathlib.Algebra.Group.Basic

set_option autoImplicit false

namespace OSVR.Math

universe u v w

/-- An element for the right side and one for the left. -/
@[ext] structure TwoSided (M : Type u) where
  pre : M
  post : M

namespace TwoSided

variable {M : Type u} [Monoid M]

/-- The product `a * b` is `b` around `a`. -/
instance : Monoid (TwoSided M) where
  one := ⟨1, 1⟩
  mul first second := ⟨first.pre * second.pre, second.post * first.post⟩
  mul_assoc first second third :=
    congrArg₂ mk (mul_assoc first.pre second.pre third.pre)
      (mul_assoc third.post second.post first.post).symm
  one_mul second := congrArg₂ mk (one_mul second.pre) (mul_one second.post)
  mul_one first := congrArg₂ mk (mul_one first.pre) (one_mul first.post)

@[simp] theorem pre_one : (1 : TwoSided M).pre = 1 := rfl

@[simp] theorem post_one : (1 : TwoSided M).post = 1 := rfl

@[simp] theorem pre_mul (first second : TwoSided M) :
    (first * second).pre = first.pre * second.pre := rfl

@[simp] theorem post_mul (first second : TwoSided M) :
    (first * second).post = second.post * first.post := rfl

/-- What a pair makes of an element. -/
def act (pair : TwoSided M) (element : M) : M := pair.post * element * pair.pre

@[simp] theorem act_one (element : M) : (1 : TwoSided M).act element = element := by
  rw [act, post_one, pre_one, one_mul, mul_one]

/-- The second factor acts on what the first one gives. -/
theorem act_mul (first second : TwoSided M) (element : M) :
    (first * second).act element = second.act (first.act element) := by
  simp only [act, pre_mul, post_mul, mul_assoc]

/-- On the right, the factors stand in their order. -/
theorem pre_prod (pairs : List (TwoSided M)) : pairs.prod.pre = (pairs.map pre).prod := by
  induction pairs with
  | nil => rfl
  | cons pair pairs ih => rw [List.prod_cons, pre_mul, ih, List.map_cons, List.prod_cons]

/-- On the left, they stand in the opposite order. -/
theorem post_prod (pairs : List (TwoSided M)) :
    pairs.prod.post = (pairs.reverse.map post).prod := by
  induction pairs with
  | nil => rfl
  | cons pair pairs ih =>
      rw [List.prod_cons, post_mul, ih, List.reverse_cons, List.map_append, List.prod_append]
      simp

end TwoSided

section Loop

variable {N : Type w} [Monoid N] {α : Type v} {ε : Type w}

/-- A loop each of whose rounds multiplies by a factor, or fails. -/
theorem foldlM_mul (factor : α → Except ε N) (entries : List α) (start : N) :
    entries.foldlM (fun product entry => (factor entry).map (product * ·)) start =
      (entries.mapM factor).map fun factors => start * factors.prod := by
  induction entries generalizing start with
  | nil => simp [pure, Except.pure, Except.map]
  | cons entry entries ih =>
      rw [List.foldlM_cons, List.mapM_cons]
      cases factor entry with
      | error failure => rfl
      | ok first =>
          have hrest := ih (start * first)
          simp only [Except.map, bind, Except.bind] at hrest ⊢
          rw [hrest]
          cases entries.mapM factor with
          | error failure => rfl
          | ok factors => simp [pure, Except.pure, mul_assoc]

end Loop

end OSVR.Math
