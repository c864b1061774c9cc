import Mathlib.Data.List.Basic

/-! Windows of a list: what stands at a position, slices between two positions,
and overwriting in place. Positions are list indices; nothing here knows what
the elements mean, except that an overwrite past the end fills the gap with zero. -/
namespace Window

variable {α : Type}

def slice (b : List α) (s e : Nat) : List α := (b.drop s).take (e - s)

def At (b : List α) (p : Nat) (x : List α) : Prop :=
  ∃ l r, b = l ++ x ++ r ∧ l.length = p

theorem At.le {b x : List α} {p : Nat} (h : At b p x) : p + x.length ≤ b.length := by
  obtain ⟨l, r, rfl, rfl⟩ := h
  simp only [List.length_append]
  omega

theorem at_zero_self (b : List α) : At b 0 b := ⟨[], [], by simp, rfl⟩

theorem at_middle (l x r : List α) : At (l ++ x ++ r) l.length x := ⟨l, r, rfl, rfl⟩

theorem at_append {b x y : List α} {p : Nat} :
    At b p (x ++ y) ↔ At b p x ∧ At b (p + x.length) y := by
  constructor
  · rintro ⟨l, r, rfl, rfl⟩
    exact ⟨⟨l, y ++ r, by simp, rfl⟩, ⟨l ++ x, r, by simp, by simp⟩⟩
  · rintro ⟨⟨l, r, rfl, rfl⟩, l', r', h, hl⟩
    rw [List.append_assoc l'] at h
    have split := List.append_inj h (by simpa using hl.symm)
    exact ⟨l, r', by rw [split.2]; simp, rfl⟩

theorem at_cons {b y : List α} {a : α} {p : Nat} :
    At b p (a :: y) ↔ At b p [a] ∧ At b (p + 1) y := by
  rw [← List.singleton_append, at_append, List.length_singleton]

theorem At.append_right {b x : List α} {p : Nat} (h : At b p x) (s : List α) :
    At (b ++ s) p x := by
  obtain ⟨l, r, rfl, rfl⟩ := h
  exact ⟨l, r ++ s, by simp, rfl⟩

theorem At.shift {b x : List α} {p : Nat} (h : At b p x) (l : List α) :
    At (l ++ b) (l.length + p) x := by
  obtain ⟨k, r, rfl, rfl⟩ := h
  exact ⟨l ++ k, r, by simp, by simp⟩

theorem At.trans {b x y : List α} {p q : Nat} (h : At b p x) (g : At x q y) : At b (p + q) y := by
  obtain ⟨l, r, rfl, rfl⟩ := h
  exact (g.shift l).append_right r

theorem At.slice_eq {b x : List α} {p e : Nat} (h : At b p x) (he : e = p + x.length) :
    slice b p e = x := by
  obtain ⟨l, r, rfl, rfl⟩ := h
  simp [slice, he, List.append_assoc]

theorem At.getElem? {b x : List α} {p i : Nat} (h : At b p x) (hi : i < x.length) :
    b[p + i]? = x[i]? := by
  obtain ⟨l, r, rfl, rfl⟩ := h
  rw [List.append_assoc, List.getElem?_append_right (by omega), Nat.add_sub_cancel_left,
    List.getElem?_append_left hi]

theorem At.eq_of_agree {b d x y : List α} {p : Nat} (h : At b p x) (g : At d p y)
    (len : x.length = y.length) (agree : ∀ i, i < x.length → b[p + i]? = d[p + i]?) : x = y := by
  apply List.ext_getElem?
  intro i
  by_cases inside : i < x.length
  · rw [← h.getElem? inside, agree i inside, g.getElem? (len ▸ inside)]
  · rw [List.getElem?_eq_none (by omega), List.getElem?_eq_none (by omega)]

theorem at_slice {b : List α} {s e : Nat} (hs : s ≤ e) (he : e ≤ b.length) :
    At b s (slice b s e) := by
  refine ⟨b.take s, b.drop e, ?_, by simp only [List.length_take]; omega⟩
  have he' : e = s + (e - s) := by omega
  conv_rhs => rw [he', ← List.drop_drop]
  simp only [slice, Nat.add_sub_cancel_left, List.append_assoc, List.take_append_drop]

theorem At.unique {b x y : List α} {p : Nat} (h : At b p x) (g : At b p y)
    (hl : x.length = y.length) : x = y := by
  have hx := h.slice_eq rfl
  rw [hl] at hx
  exact hx.symm.trans (g.slice_eq rfl)

theorem at_singleton {b : List α} {a : α} {p : Nat} : At b p [a] ↔ b[p]? = some a := by
  constructor
  · intro h
    simpa using h.getElem? (i := 0) (by simp)
  · intro h
    have hp : p < b.length := (List.getElem?_eq_some_iff.mp h).1
    have hs : slice b p (p + 1) = [a] := by
      rw [slice, Nat.add_sub_cancel_left, List.take_one, List.head?_drop, h]
      rfl
    exact hs ▸ at_slice (by omega) hp

def Tail (b : List α) (p : Nat) (x : List α) : Prop := ∃ l, b = l ++ x ∧ l.length = p

theorem tail_zero (b : List α) : Tail b 0 b := ⟨[], rfl, rfl⟩

theorem Tail.behind {b x y : List α} {p : Nat} (h : Tail b p (x ++ y)) :
    Tail b (p + x.length) y := by
  obtain ⟨l, rfl, rfl⟩ := h
  exact ⟨l ++ x, by rw [List.append_assoc], by rw [List.length_append]⟩

theorem Tail.at_iff {b x y : List α} {p : Nat} (h : Tail b p x) : At b p y ↔ y <+: x := by
  obtain ⟨l, rfl, rfl⟩ := h
  constructor
  · rintro ⟨l', r, same, len⟩
    rw [List.append_assoc] at same
    exact ⟨r, (List.append_inj same len.symm).2.symm⟩
  · rintro ⟨r, rfl⟩
    exact ⟨l, r, by rw [List.append_assoc], rfl⟩

@[simp] theorem slice_length (b : List α) (s e : Nat) :
    (slice b s e).length = min (e - s) (b.length - s) := by
  simp [slice]

theorem slice_zero (b : List α) (e : Nat) : slice b 0 e = b.take e := by simp [slice]

theorem slice_empty {b : List α} {s e : Nat} (h : e ≤ s) : slice b s e = [] := by
  simp [slice, Nat.sub_eq_zero_of_le h]

theorem at_nil {b : List α} {p : Nat} (h : p ≤ b.length) : At b p [] :=
  slice_empty (Nat.le_refl p) ▸ at_slice (Nat.le_refl p) h

theorem slice_past {b : List α} {s : Nat} (e : Nat) (h : b.length ≤ s) : slice b s e = [] := by
  simp [slice, List.drop_eq_nil_of_le h]

theorem slice_append {b : List α} {s m e : Nat} (hs : s ≤ m) (he : m ≤ e) :
    slice b s m ++ slice b m e = slice b s e := by
  have hm : m = s + (m - s) := by omega
  have hd : b.drop m = (b.drop s).drop (m - s) := by rw [List.drop_drop, ← hm]
  have hl : e - s = (m - s) + (e - m) := by omega
  simp only [slice, hd, hl, List.take_add]

theorem At.isPrefix_slice {b x : List α} {p e : Nat} (h : At b p x) (hp : p ≤ e) :
    x <+: slice b p e ↔ p + x.length ≤ e := by
  constructor
  · intro inside
    have len := inside.length_le
    rw [slice_length] at len
    omega
  · intro fits
    rw [← slice_append (Nat.le_add_right p x.length) fits, h.slice_eq rfl]
    exact List.prefix_append x _

theorem slice_append_left {a b : List α} {s e : Nat} (h : e ≤ a.length) :
    slice (a ++ b) s e = slice a s e := by
  by_cases hs : s ≤ a.length
  · simp only [slice, List.drop_append_of_le_length hs]
    exact List.take_append_of_le_length (by simp only [List.length_drop]; omega)
  · rw [slice_empty (by omega), slice_empty (by omega)]

theorem slice_append_right {a b : List α} {s e : Nat} (h : a.length ≤ s) :
    slice (a ++ b) s e = slice b (s - a.length) (e - a.length) := by
  have hd : (a ++ b).drop s = b.drop (s - a.length) := by
    rw [List.drop_append, List.drop_eq_nil_of_le h, List.nil_append]
  have hl : e - a.length - (s - a.length) = e - s := by omega
  simp only [slice, hd, hl]

theorem slice_take {b : List α} {s e n : Nat} (h : e ≤ n) : slice (b.take n) s e = slice b s e := by
  have hd : (b.take n).drop s = (b.drop s).take (n - s) := List.drop_take ..
  rw [slice, hd, List.take_take, Nat.min_eq_left (by omega), slice]

theorem slice_getElem? (b : List α) (s e i : Nat) :
    (slice b s e)[i]? = if s + i < e then b[s + i]? else none := by
  by_cases inside : s + i < e
  · rw [if_pos inside, slice, List.getElem?_take_of_lt (by omega), List.getElem?_drop]
  · rw [if_neg inside, slice, List.getElem?_take_eq_none (by omega)]

theorem slice_congr {b d : List α} {s e : Nat} (same : ∀ i, s ≤ i → i < e → b[i]? = d[i]?) :
    slice b s e = slice d s e := by
  apply List.ext_getElem?
  intro i
  rw [slice_getElem?, slice_getElem?]
  split
  · rw [same _ (by omega) (by assumption)]
  · rfl

section Overwrite
variable [Zero α]

def zeros (n : Nat) : List α := List.replicate n 0

/-- Write `x` at position `p`: a gap past the end is filled with zeros, and
writing nothing changes nothing. -/
def overwrite (b : List α) (p : Nat) : List α → List α
  | [] => b
  | a :: x => (b ++ zeros (p - b.length)).take p ++ (a :: x) ++ b.drop (p + (a :: x).length)

@[simp] theorem zeros_length (n : Nat) : (zeros n : List α).length = n := by simp [zeros]

@[simp] theorem zeros_zero : (zeros 0 : List α) = [] := rfl

theorem overwrite_of_le {b : List α} {p : Nat} (x : List α) (h : p ≤ b.length) :
    overwrite b p x = b.take p ++ x ++ b.drop (p + x.length) := by
  cases x with
  | nil => simp [overwrite]
  | cons a x =>
    have gap : p - b.length = 0 := by omega
    simp [overwrite, gap]

theorem overwrite_window (l : List α) {x y : List α} (r : List α) (h : y.length = x.length) :
    overwrite (l ++ x ++ r) l.length y = l ++ y ++ r := by
  rw [overwrite_of_le y (by simp only [List.length_append]; omega), List.append_assoc l x r,
    List.take_left, h, ← List.append_assoc l x r, ← List.length_append, List.drop_left]

theorem overwrite_append (b x y : List α) (p : Nat) :
    overwrite (overwrite b p x) (p + x.length) y = overwrite b p (x ++ y) := by
  cases x with
  | nil => simp [overwrite]
  | cons a x =>
    have reach : (overwrite b p (a :: x)).take (p + (a :: x).length) =
        (b ++ zeros (p - b.length)).take p ++ (a :: x) := by
      rw [overwrite]
      apply List.take_left'
      simp only [List.length_append, List.length_take, zeros_length]
      omega
    have rest : (overwrite b p (a :: x)).drop (p + (a :: x).length) =
        b.drop (p + (a :: x).length) := by
      rw [overwrite]
      apply List.drop_left'
      simp only [List.length_append, List.length_take, zeros_length]
      omega
    have long : p + (a :: x).length ≤ (overwrite b p (a :: x)).length := by
      simp only [overwrite, List.length_append, List.length_take, zeros_length]
      omega
    have stop : p + (a :: x).length + y.length = p + (a :: (x ++ y)).length := by
      simp only [List.length_cons, List.length_append]
      omega
    rw [overwrite_of_le y long, ← List.drop_drop, reach, rest, List.drop_drop, stop]
    simp only [overwrite, List.cons_append, List.append_assoc]

theorem overwrite_end (b x : List α) : overwrite b b.length x = b ++ x := by
  rw [overwrite_of_le x (Nat.le_refl _), List.take_length, List.drop_eq_nil_of_le (by omega),
    List.append_nil]

theorem zeros_append (m n : Nat) : (zeros m ++ zeros n : List α) = zeros (m + n) := by
  simp only [zeros, List.replicate_append_replicate]

theorem overwrite_past {b x : List α} {p : Nat} (past : b.length ≤ p) (nonempty : x ≠ []) :
    overwrite b p x = b ++ zeros (p - b.length) ++ x := by
  have reach : (b ++ zeros (p - b.length)).length = p := by
    rw [List.length_append, zeros_length]
    omega
  cases x with
  | nil => exact absurd rfl nonempty
  | cons a x =>
    rw [overwrite, List.take_of_length_le (Nat.le_of_eq reach),
      List.drop_eq_nil_of_le (Nat.le_add_right_of_le past), List.append_nil]

theorem overwrite_before {b : List α} {p i : Nat} (x : List α) (before : i < p)
    (inside : i < b.length) : (overwrite b p x)[i]? = b[i]? := by
  cases x with
  | nil => rfl
  | cons a x =>
    rw [overwrite, List.append_assoc, List.getElem?_append_left (by
      simp only [List.length_take, List.length_append, zeros_length]
      omega), List.getElem?_take_of_lt before, List.getElem?_append_left inside]

theorem overwrite_gap {b : List α} {p i : Nat} {x : List α} (nonempty : x ≠ [])
    (past : b.length ≤ i) (before : i < p) : (overwrite b p x)[i]? = some 0 := by
  cases x with
  | nil => exact absurd rfl nonempty
  | cons a x =>
    rw [overwrite, List.append_assoc, List.getElem?_append_left (by
      simp only [List.length_take, List.length_append, zeros_length]
      omega), List.getElem?_take_of_lt before, List.getElem?_append_right past, zeros,
      List.getElem?_replicate, if_pos (by omega)]

theorem overwrite_length_max (b x : List α) (p : Nat) :
    (overwrite b p x).length ≤ max b.length (p + x.length) := by
  cases x with
  | nil => exact Nat.le_max_left _ _
  | cons a x =>
    simp only [overwrite, List.length_append, List.length_take, List.length_drop, zeros_length]
    omega

theorem overwrite_nil (x : List α) : overwrite [] 0 x = x := overwrite_end [] x

theorem overwrite_getElem? {b : List α} {p : Nat} (x : List α) (h : p ≤ b.length) (i : Nat) :
    (overwrite b p x)[i]? = if p ≤ i ∧ i < p + x.length then x[i - p]? else b[i]? := by
  have start : (b.take p).length = p := List.length_take_of_le h
  rw [overwrite_of_le x h, List.append_assoc]
  by_cases before : i < p
  · rw [if_neg (by omega), List.getElem?_append_left (by omega), List.getElem?_take_of_lt before]
  · rw [List.getElem?_append_right (by omega), start]
    by_cases inside : i < p + x.length
    · rw [if_pos ⟨by omega, inside⟩, List.getElem?_append_left (by omega)]
    · have here : p + x.length + (i - p - x.length) = i := by omega
      rw [if_neg (by omega), List.getElem?_append_right (by omega), List.getElem?_drop, here]

theorem overwrite_length {b : List α} {p : Nat} {x : List α} (h : p + x.length ≤ b.length) :
    (overwrite b p x).length = b.length := by
  rw [overwrite_of_le x (by omega)]
  simp only [List.length_append, List.length_take, List.length_drop]
  omega

theorem overwrite_overwrite {b : List α} {p : Nat} {x y : List α} (h : p + x.length ≤ b.length)
    (len : x.length = y.length) : overwrite (overwrite b p x) p y = overwrite b p y := by
  apply List.ext_getElem?
  intro i
  rw [overwrite_getElem? y (by rw [overwrite_length h]; omega), overwrite_getElem? y (by omega),
    overwrite_getElem? x (by omega), len]
  split <;> rfl

theorem overwrite_set_inside {b : List α} {p i : Nat} {x : List α} (a : α) (h : p ≤ b.length)
    (inside : p ≤ i ∧ i < p + x.length) : overwrite (b.set i a) p x = overwrite b p x := by
  apply List.ext_getElem?
  intro j
  rw [overwrite_getElem? x (by rwa [List.length_set]), overwrite_getElem? x h]
  split
  · rfl
  · rw [List.getElem?_set_ne (by omega)]

theorem overwrite_set_outside {b : List α} {p i : Nat} {x : List α} (a : α)
    (h : p + x.length ≤ b.length) (outside : ¬ (p ≤ i ∧ i < p + x.length)) :
    overwrite (b.set i a) p x = (overwrite b p x).set i a := by
  apply List.ext_getElem?
  intro j
  rw [overwrite_getElem? x (by rw [List.length_set]; omega), List.getElem?_set, List.getElem?_set,
    overwrite_length h, overwrite_getElem? x (by omega)]
  by_cases here : i = j
  · rw [if_neg (by omega), if_pos here, if_pos here]
  · rw [if_neg here, if_neg here]

/-- A range copied to the same range of another list replaces that range only. -/
theorem overwrite_slice_getElem? {b d : List α} {s e : Nat} (he : e ≤ b.length)
    (hs : s ≤ d.length) (i : Nat) :
    (overwrite d s (slice b s e))[i]? = if s ≤ i ∧ i < e then b[i]? else d[i]? := by
  rw [overwrite_getElem? _ hs, slice_length]
  by_cases inside : s ≤ i ∧ i < e
  · have here : s + (i - s) = i := by omega
    rw [if_pos (by omega), if_pos inside, slice_getElem?, here, if_pos inside.2]
  · rw [if_neg (by omega), if_neg inside]

theorem overwrite_slice_self (b : List α) (s e : Nat) : overwrite b s (slice b s e) = b := by
  by_cases past : b.length ≤ s
  · rw [slice_past e past, overwrite]
  · apply List.ext_getElem?
    intro i
    have same : slice b s e = slice b s (min e b.length) := by
      simp only [slice]
      rw [List.take_eq_take_iff, List.length_drop]
      omega
    rw [same, overwrite_slice_getElem? (Nat.min_le_right _ _) (by omega), ite_self]

theorem overwrite_length_le (b x : List α) (p : Nat) : b.length ≤ (overwrite b p x).length := by
  cases x with
  | nil => exact Nat.le_refl _
  | cons a x =>
    simp only [overwrite, List.length_append, List.length_take, List.length_drop, zeros_length]
    omega

end Overwrite

end Window
