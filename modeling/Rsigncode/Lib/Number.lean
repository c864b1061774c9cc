import Mathlib.Algebra.Group.Nat.Defs
import Rsigncode.Lib.Window

/-! Unsigned numbers as bytes, least or most significant byte first. Widths are
arbitrary; a number too large for its width keeps its low bytes. -/
namespace Number

/-- The `w` low bytes of `n`, least significant first. -/
def le : Nat → Nat → List UInt8
  | 0, _ => []
  | w + 1, n => UInt8.ofNat n :: le w (n / 256)

def ofLe : List UInt8 → Nat
  | [] => 0
  | b :: bs => b.toNat + 256 * ofLe bs

def be (w n : Nat) : List UInt8 := (le w n).reverse

def ofBe (bs : List UInt8) : Nat := bs.foldl (fun n b => n * 256 + b.toNat) 0

theorem byte_toNat_lt (b : UInt8) : b.toNat < 256 := b.toNat_lt

theorem ofNat_toNat_mod (n : Nat) : (UInt8.ofNat n).toNat = n % 256 := UInt8.toNat_ofNat'

@[simp] theorem le_length (w n : Nat) : (le w n).length = w := by
  induction w generalizing n with
  | zero => rfl
  | succ w ih => simp only [le, List.length_cons, ih]

theorem ofLe_le_mod (w n : Nat) : ofLe (le w n) = n % 256 ^ w := by
  induction w generalizing n with
  | zero => simp [le, ofLe, Nat.mod_one]
  | succ w ih =>
    simp only [le, ofLe, ih, ofNat_toNat_mod]
    rw [Nat.pow_succ', Nat.mod_mul]

theorem ofLe_le {w n : Nat} (h : n < 256 ^ w) : ofLe (le w n) = n := by
  rw [ofLe_le_mod, Nat.mod_eq_of_lt h]

theorem ofLe_lt (bs : List UInt8) : ofLe bs < 256 ^ bs.length := by
  induction bs with
  | nil => simp [ofLe]
  | cons b bs ih =>
    have hb := byte_toNat_lt b
    simp only [ofLe, List.length_cons, Nat.pow_succ]
    omega

theorem le_ofLe (bs : List UInt8) : le bs.length (ofLe bs) = bs := by
  induction bs with
  | nil => rfl
  | cons b bs ih =>
    have hb := byte_toNat_lt b
    have hd : (b.toNat + 256 * ofLe bs) / 256 = ofLe bs := by omega
    have hm : UInt8.ofNat (b.toNat + 256 * ofLe bs) = b := by
      apply UInt8.toNat_inj.mp
      rw [ofNat_toNat_mod]
      omega
    simp only [List.length_cons, le, ofLe, hd, hm, ih]

theorem ofBe_eq_ofLe_reverse (bs : List UInt8) : ofBe bs = ofLe bs.reverse := by
  have fold : ∀ cs : List UInt8,
      cs.foldr (fun b n => n * 256 + b.toNat) 0 = ofLe cs := by
    intro cs
    induction cs with
    | nil => rfl
    | cons c cs ih => simp only [List.foldr_cons, ih, ofLe]; omega
  rw [ofBe, ← fold, List.foldr_reverse]

theorem ofBe_be {w n : Nat} (h : n < 256 ^ w) : ofBe (be w n) = n := by
  rw [ofBe_eq_ofLe_reverse, be, List.reverse_reverse, ofLe_le h]

theorem ofBe_lt (bs : List UInt8) : ofBe bs < 256 ^ bs.length := by
  simpa [ofBe_eq_ofLe_reverse] using ofLe_lt bs.reverse

theorem ofNat_inj_of_lt {a b : Nat} (ha : a < 256) (hb : b < 256)
    (h : UInt8.ofNat a = UInt8.ofNat b) : a = b := by
  have values := congrArg UInt8.toNat h
  rw [ofNat_toNat_mod, ofNat_toNat_mod] at values
  omega

def trim (x : List UInt8) : List UInt8 := x.dropWhile (· == 0)

theorem ofBe_cons (a : UInt8) (x : List UInt8) :
    ofBe (a :: x) = a.toNat * 256 ^ x.length + ofBe x := by
  have fold : ∀ (y : List UInt8) (n : Nat),
      y.foldl (fun n b => n * 256 + b.toNat) n = n * 256 ^ y.length + ofBe y := by
    intro y
    induction y with
    | nil => simp [ofBe]
    | cons b y ih =>
      intro n
      have first : ofBe (b :: y) = (0 * 256 + b.toNat) * 256 ^ y.length + ofBe y := ih _
      rw [List.foldl_cons, ih, first, List.length_cons, Nat.pow_succ', Nat.zero_mul, Nat.zero_add,
        Nat.add_mul, Nat.mul_assoc, Nat.add_assoc]
  rw [ofBe, List.foldl_cons, fold, Nat.zero_mul, Nat.zero_add]

theorem ofBe_trim (x : List UInt8) : ofBe (trim x) = ofBe x := by
  induction x with
  | nil => rfl
  | cons a x ih =>
    by_cases zero : a = 0
    · subst zero
      rw [trim, List.dropWhile_cons_of_pos rfl, ofBe_cons, UInt8.toNat_zero, Nat.zero_mul,
        Nat.zero_add]
      exact ih
    · rw [trim, List.dropWhile_cons_of_neg (by simpa using zero)]

theorem be_ofBe (x : List UInt8) : be x.length (ofBe x) = x := by
  have back := le_ofLe x.reverse
  rw [List.length_reverse] at back
  rw [be, ofBe_eq_ofLe_reverse, back, List.reverse_reverse]

theorem be_ofBe_of_le {w : Nat} {x : List UInt8} (wide : x.length ≤ w) :
    be w (ofBe x) = List.replicate (w - x.length) 0 ++ x := by
  have zeros : ∀ k, ofBe (List.replicate k 0 ++ x) = ofBe x := by
    intro k
    induction k with
    | zero => rfl
    | succ k ih =>
      rw [List.replicate_succ, List.cons_append, ofBe_cons, ih, UInt8.toNat_zero, Nat.zero_mul,
        Nat.zero_add]
  have back := be_ofBe (List.replicate (w - x.length) 0 ++ x)
  rwa [zeros, List.length_append, List.length_replicate, Nat.sub_add_cancel wide] at back

theorem trim_zeros (k : Nat) (x : List UInt8) : trim (List.replicate k 0 ++ x) = trim x := by
  induction k with
  | zero => rfl
  | succ k ih =>
    rw [List.replicate_succ, List.cons_append, trim, List.dropWhile_cons_of_pos rfl]
    exact ih

theorem trim_eq_self {x : List UInt8} (leading : x.head? ≠ some 0) : trim x = x := by
  cases x with
  | nil => rfl
  | cons a x => exact List.dropWhile_cons_of_neg (by simpa using leading)

theorem trim_be_ofBe {w : Nat} {x : List UInt8} (wide : x.length ≤ w)
    (leading : x.head? ≠ some 0) : trim (be w (ofBe x)) = x := by
  rw [be_ofBe_of_le wide, trim_zeros, trim_eq_self leading]

theorem trim_length_le {x : List UInt8} {k : Nat} (h : ofBe x < 256 ^ k) : (trim x).length ≤ k := by
  induction x with
  | nil => exact Nat.zero_le k
  | cons a x ih =>
    by_cases zero : a = 0
    · subst zero
      rw [ofBe_cons, UInt8.toNat_zero, Nat.zero_mul, Nat.zero_add] at h
      rw [trim, List.dropWhile_cons_of_pos rfl]
      exact ih h
    · rw [trim, List.dropWhile_cons_of_neg (by simpa using zero), List.length_cons]
      have low : 1 ≤ a.toNat := Nat.one_le_iff_ne_zero.mpr fun none =>
        zero (UInt8.toNat_inj.mp none)
      have pow : 256 ^ x.length < 256 ^ k := calc
        256 ^ x.length ≤ a.toNat * 256 ^ x.length := Nat.le_mul_of_pos_left _ low
        _ ≤ ofBe (a :: x) := by rw [ofBe_cons]; exact Nat.le_add_right _ _
        _ < 256 ^ k := h
      exact (Nat.pow_lt_pow_iff_right (by decide)).mp pow

theorem trim_ne_nil {x : List UInt8} (h : 0 < ofBe x) : trim x ≠ [] := by
  intro empty
  have value := ofBe_trim x
  rw [empty, ofBe, List.foldl_nil] at value
  omega

end Number
