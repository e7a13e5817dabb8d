import Mathlib.Algebra.GroupWithZero.Nat
import Mathlib.Algebra.Ring.Int.Defs
import Mathlib.Tactic.Common

/-! C arithmetic on non-negative integers, and on those of `int32_t`, with a flag that says whether every step so far was exact:
nothing wrapped around, nothing was cut off, no divisor was zero. -/
namespace OrbFirmware
universe u

inductive CType where
  | uint16 | uint32 | int
  deriving DecidableEq, Repr

namespace CType

def size : CType → Nat
  | .uint16 => 2^16
  | .uint32 | .int => 2^32

/-- The values of the type that are not negative. -/
def limit : CType → Nat
  | .uint16 => 2^16
  | .uint32 => 2^32
  | .int => 2^31

theorem limit_le (t : CType) : t.limit ≤ t.size := by
  cases t <;> decide

end CType

/-- The result of a calculation and whether it was exact. -/
structure Calc (α : Type u) where
  value : α
  exact : Bool

namespace Calc
variable {α β : Type u} {t : CType} {a b n : Nat}

instance : Monad Calc where
  pure a := ⟨a, true⟩
  bind x f := ⟨(f x.value).value, x.exact && (f x.value).exact⟩

@[simp] theorem pure_value (a : α) : (pure a : Calc α).value = a := rfl

@[simp] theorem bind_value (x : Calc α) (f : α → Calc β) : (x >>= f).value = (f x.value).value := rfl

def conv (t : CType) (n : Nat) : Calc Nat := ⟨n % t.size, n < t.limit⟩

def add (t : CType) (a b : Nat) : Calc Nat := conv t (a+b)

def mul (t : CType) (a b : Nat) : Calc Nat := conv t (a*b)

def sub (t : CType) (a b : Nat) : Calc Nat := ⟨(a+(t.size-b)) % t.size, b ≤ a⟩

def div (a b : Nat) : Calc Nat := ⟨a/b, b ≠ 0⟩

/-- The `int32_t` that an integer is cut to. -/
def int32 (n : Int) : Calc Int := ⟨n.bmod (2^32), -2^31 ≤ n ∧ n < 2^31⟩

instance : LawfulMonad Calc := LawfulMonad.mk' Calc
  (fun x => by simp only [Functor.map, Function.comp_def, id_eq, Bool.and_true])
  (fun a f => by simp only [bind, pure, Bool.true_and])
  (fun x f g => by simp only [bind, Bool.and_assoc])

/-! An exact step is the same step on the natural numbers. -/

theorem conv_exact (h : n < t.limit) : conv t n = pure n := by
  have hm : n % t.size = n := Nat.mod_eq_of_lt (Nat.lt_of_lt_of_le h t.limit_le)
  simp only [conv, hm, h, decide_true, pure]

theorem add_exact (h : a+b < t.limit) : add t a b = pure (a+b) := conv_exact h

theorem mul_exact (h : a*b < t.limit) : mul t a b = pure (a*b) := conv_exact h

theorem sub_exact (h : b ≤ a) (ha : a < t.size) : sub t a b = pure (a-b) := by
  have hs : a+(t.size-b) = a-b+t.size := by omega
  have hm : (a+(t.size-b)) % t.size = a-b := by
    rw [hs, Nat.add_mod_right, Nat.mod_eq_of_lt (by omega)]
  simp only [sub, hm, h, decide_true, pure]

theorem div_exact (h : b ≠ 0) : div a b = pure (a/b) := by
  simp only [div, h, ne_eq, not_false_eq_true, decide_true, pure]

theorem int32_exact {n : Int} (h : -2^31 ≤ n ∧ n < 2^31) : int32 n = pure n := by
  have hm : n.bmod (2^32) = n := Int.bmod_eq_of_le (by omega) (by omega)
  simp only [int32, hm, h, and_self, decide_true, pure]

theorem int32_exact_iff {n : Int} : (int32 n).exact = true ↔ -2^31 ≤ n ∧ n < 2^31 := by
  simp only [int32, decide_eq_true_eq]

end Calc
end OrbFirmware
