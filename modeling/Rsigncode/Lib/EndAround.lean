import Mathlib.Algebra.Order.Ring.Nat
import Rsigncode.Lib.Number

/-! Sums with an end-around carry. Adding words and folding the carry back in after
each addition keeps, of the exact sum, its residue modulo the largest word, with the
largest word itself for a positive multiple. -/
namespace EndAround

open Number Window

/-- What is kept of the exact sum `n`; `m` is the largest word. -/
def carry (m n : Nat) : Nat := if n = 0 then 0 else 1 + (n - 1) % m

variable {m : Nat}

theorem carry_zero (m : Nat) : carry m 0 = 0 := rfl

theorem carry_succ (m n : Nat) : carry m (n + 1) = 1 + n % m := rfl

theorem carry_of_le {n : Nat} (h : n ≤ m) : carry m n = n := by
  cases n with
  | zero => rfl
  | succ n => rw [carry_succ, Nat.mod_eq_of_lt h, Nat.add_comm]

theorem carry_le (positive : 0 < m) (n : Nat) : carry m n ≤ m := by
  cases n with
  | zero => exact Nat.zero_le m
  | succ n =>
    have low := Nat.mod_lt n positive
    rw [carry_succ]
    omega

theorem carry_mod (m n : Nat) : carry m n % m = n % m := by
  cases n with
  | zero => rfl
  | succ n => rw [carry_succ, Nat.add_mod_mod, Nat.add_comm]

/-- Adding a word to what was kept, and folding the carry, keeps the same of the sum. -/
theorem fold_carry_add (n : Nat) {v : Nat} (word : v ≤ m) :
    (carry m n + v) % (m + 1) + (carry m n + v) / (m + 1) = carry m (n + v) := by
  cases n with
  | zero =>
    rw [carry_zero, Nat.zero_add, Nat.mod_eq_of_lt (by omega), Nat.div_eq_of_lt (by omega),
      Nat.add_zero, carry_of_le word]
  | succ n =>
    by_cases none : m = 0
    · subst none
      rw [Nat.le_zero.mp word]
      simp [Nat.mod_one]
    · have low := Nat.mod_lt n (Nat.pos_of_ne_zero none)
      have same : (n + v) % m = (n % m + v) % m := (Nat.mod_add_mod n m v).symm
      have next : n + 1 + v = n + v + 1 := by omega
      rw [next, carry_succ, carry_succ, same]
      by_cases small : n % m + v < m
      · rw [Nat.mod_eq_of_lt small, Nat.mod_eq_of_lt (by omega), Nat.div_eq_of_lt (by omega)]
        omega
      · have beyond : 1 + n % m + v = n % m + v - m + 1 * (m + 1) := by omega
        rw [Nat.mod_eq_sub_mod (Nat.not_lt.mp small), Nat.mod_eq_of_lt (a := n % m + v - m)
          (by omega), beyond, Nat.add_mul_mod_self_right, Nat.add_mul_div_right _ _ (by omega),
          Nat.mod_eq_of_lt (by omega), Nat.div_eq_of_lt (by omega)]
        omega

/-- The sum of the little-endian 16-bit words; an odd last byte is a word of its own. -/
def wordSum : List UInt8 → Nat
  | lo :: hi :: rest => ofLe [lo, hi] + wordSum rest
  | [last] => last.toNat
  | [] => 0

def weight (i : Nat) : Nat := if i % 2 = 0 then 1 else 256

theorem weight_zero : weight 0 = 1 := rfl
theorem weight_one : weight 1 = 256 := rfl

theorem weight_add_two (i : Nat) : weight (i + 2) = weight i := by
  rw [weight, Nat.add_mod_right, weight]

theorem ofLe_pair (lo hi : UInt8) : ofLe [lo, hi] = lo.toNat + 256 * hi.toNat := rfl

theorem wordSum_set (d : List UInt8) {i : Nat} {x : UInt8} (here : d[i]? = some x) (y : UInt8) :
    wordSum (d.set i y) + weight i * x.toNat = wordSum d + weight i * y.toNat := by
  induction d using wordSum.induct generalizing i with
  | case1 lo hi rest ih =>
    rcases i with _ | _ | i
    · cases here
      simp only [List.set_cons_zero, wordSum, ofLe_pair, weight_zero]
      omega
    · cases here
      simp only [List.set_cons_succ, List.set_cons_zero, wordSum, ofLe_pair, Nat.zero_add,
        weight_one]
      omega
    · have rest := ih (i := i) here
      simp only [List.set_cons_succ, wordSum, weight_add_two]
      omega
  | case2 last =>
    rcases i with _ | i
    · cases here
      simp only [List.set_cons_zero, wordSum, weight_zero]
      omega
    · cases here
  | case3 => cases here

end EndAround
