import Mathlib.Order.Lattice
import Mathlib.Algebra.BigOperators.Group.List.Basic
import Mathlib.Data.UInt

/-! # 64-bit words

`uint64_t` is `UInt64`: sums, products and differences wrap modulo `2 ^ 64`. This file gives the
words their linear order and says when a sum, product or quotient is the one of the natural numbers
they stand for. -/

namespace TwigKV

/-- The order of `uint64_t`. -/
instance linearOrderUInt64 : LinearOrder UInt64 where
  le_refl := UInt64.le_refl
  le_trans _ _ _ := UInt64.le_trans
  le_antisymm _ _ := UInt64.le_antisymm
  le_total := UInt64.le_total
  lt_iff_le_not_ge a b := by
    rw [UInt64.lt_iff_toNat_lt, UInt64.le_iff_toNat_le, UInt64.le_iff_toNat_le]
    omega
  toDecidableLE := inferInstance
  toDecidableLT := inferInstance

/-- A sum that does not wrap. -/
theorem toNat_add_of_lt {a b : UInt64} (h : a.toNat + b.toNat < 2 ^ 64) :
    (a + b).toNat = a.toNat + b.toNat := by
  rw [UInt64.toNat_add, Nat.mod_eq_of_lt h]

/-- A product that does not wrap. -/
theorem toNat_mul_of_lt {a b : UInt64} (h : a.toNat * b.toNat < 2 ^ 64) :
    (a * b).toNat = a.toNat * b.toNat := by
  rw [UInt64.toNat_mul, Nat.mod_eq_of_lt h]

/-- The conversion of a natural number. -/
theorem toNat_ofInt_natCast {k : ℕ} (h : k < 2 ^ 64) : (UInt64.ofInt (k : ℤ)).toNat = k := by
  have hmod : ((k : ℤ) % 2 ^ 64).toNat = k := by omega
  rw [UInt64.ofInt, hmod, UInt64.toNat_ofNat_of_lt' h]

/-- A running sum, modulo `2 ^ 64`. -/
theorem toNat_foldl_add_mod {α : Type*} (f : α → UInt64) (l : List α) (init : UInt64) :
    (l.foldl (fun total a => total + f a) init).toNat
      = (init.toNat + (l.map fun a => (f a).toNat).sum) % 2 ^ 64 := by
  induction l generalizing init with
  | nil => exact (Nat.mod_eq_of_lt init.toNat_lt).symm
  | cons a l ih =>
      rw [List.foldl_cons, ih, UInt64.toNat_add, List.map_cons, List.sum_cons, Nat.mod_add_mod,
        Nat.add_assoc]

/-- A running sum that does not wrap. -/
theorem toNat_foldl_add {α : Type*} (f : α → UInt64) (l : List α) (init : UInt64)
    (h : init.toNat + (l.map fun a => (f a).toNat).sum < 2 ^ 64) :
    (l.foldl (fun total a => total + f a) init).toNat
      = init.toNat + (l.map fun a => (f a).toNat).sum := by
  rw [toNat_foldl_add_mod, Nat.mod_eq_of_lt h]

/-- A sum of a list that does not wrap. -/
theorem toNat_sum_map_of_lt {α : Type*} (f : α → UInt64) (l : List α)
    (h : (l.map fun a => (f a).toNat).sum < 2 ^ 64) :
    (l.map f).sum.toNat = (l.map fun a => (f a).toNat).sum := by
  induction l with
  | nil => rfl
  | cons a l ih =>
      rw [List.map_cons, List.sum_cons] at h ⊢
      have hrest := ih (by omega)
      rw [List.map_cons, List.sum_cons, toNat_add_of_lt (by rw [hrest]; exact h), hrest]

end TwigKV
