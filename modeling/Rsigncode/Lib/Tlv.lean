import Rsigncode.Lib.Number

/-! Tag-length-value elements with one-byte tags and definite lengths: the short
form, or one to four length octets of any width. A run of elements is a prefix code,
so bytes determine the elements they hold. -/

open Number Window

namespace Tlv

/-- The length octets that announce `n` content octets. -/
inductive LengthForm : List UInt8 → Nat → Prop where
  | short {n : Nat} (small : n < 128) : LengthForm [UInt8.ofNat n] n
  | long {x : List UInt8} (some : 0 < x.length) (few : x.length ≤ 4) :
      LengthForm (UInt8.ofNat (128 + x.length) :: x) (ofBe x)

end Tlv

@[ext] structure Tlv where
  tag : UInt8
  len : List UInt8
  content : List UInt8
  form : Tlv.LengthForm len content.length

namespace Tlv

theorem LengthForm.length_pos {x : List UInt8} {n : Nat} (h : LengthForm x n) : 0 < x.length := by
  cases h <;> simp

theorem LengthForm.length_le {x : List UInt8} {n : Nat} (h : LengthForm x n) : x.length ≤ 5 := by
  cases h with
  | short small => simp
  | long some few =>
    rw [List.length_cons]
    omega

theorem LengthForm.lt {x : List UInt8} {n : Nat} (h : LengthForm x n) : n < 2 ^ 32 := by
  cases h with
  | short small => omega
  | long some few =>
    rename_i x
    calc ofBe x < 256 ^ x.length := ofBe_lt x
      _ ≤ 256 ^ 4 := Nat.pow_le_pow_right (by decide) few

/-- The first octet of a length tells where the length ends. -/
theorem LengthForm.append_inj {x y r s : List UInt8} {n m : Nat} (h : LengthForm x n)
    (g : LengthForm y m) (same : x ++ r = y ++ s) : x = y ∧ n = m ∧ r = s := by
  cases h with
  | short small =>
    cases g with
    | short small' =>
      obtain ⟨first, rest⟩ := List.cons.inj same
      cases ofNat_inj_of_lt (by omega) (by omega) first
      exact ⟨rfl, rfl, rest⟩
    | long some few =>
      have first := ofNat_inj_of_lt (by omega) (by omega) (List.cons.inj same).1
      omega
  | long some few =>
    cases g with
    | short small' =>
      have first := ofNat_inj_of_lt (by omega) (by omega) (List.cons.inj same).1
      omega
    | long some' few' =>
      obtain ⟨first, rest⟩ := List.cons.inj same
      have width := ofNat_inj_of_lt (by omega) (by omega) first
      obtain ⟨rfl, tail⟩ := List.append_inj rest (by omega)
      exact ⟨rfl, rfl, tail⟩

def header (t : Tlv) : List UInt8 := t.tag :: t.len

def bytes (t : Tlv) : List UInt8 := t.header ++ t.content

def flat (ts : List Tlv) : List UInt8 := ts.flatMap bytes

@[simp] theorem flat_nil : flat [] = [] := rfl

@[simp] theorem flat_cons (t : Tlv) (ts : List Tlv) : flat (t :: ts) = t.bytes ++ flat ts := rfl

theorem flat_singleton (t : Tlv) : flat [t] = t.bytes := by
  rw [flat_cons, flat_nil, List.append_nil]

@[simp] theorem flat_append (ts us : List Tlv) : flat (ts ++ us) = flat ts ++ flat us := by
  simp [flat]

theorem bytes_length (t : Tlv) : t.bytes.length = t.header.length + t.content.length := by
  rw [bytes, List.length_append]

theorem bytes_end (t : Tlv) (p : Nat) :
    p + t.bytes.length = p + t.header.length + t.content.length := by
  rw [bytes_length, Nat.add_assoc]

theorem header_length (t : Tlv) : t.header.length = 1 + t.len.length := by
  rw [header, List.length_cons, Nat.add_comm]

theorem header_length_ge (t : Tlv) : 2 ≤ t.header.length := by
  have some := t.form.length_pos
  rw [header_length]
  omega

theorem header_length_le (t : Tlv) : t.header.length ≤ 6 := by
  have few := t.form.length_le
  rw [header_length]
  omega

theorem bytes_length_ge (t : Tlv) : 2 ≤ t.bytes.length := by
  have some := t.header_length_ge
  rw [bytes_length]
  omega

theorem bytes_append_inj {t u : Tlv} {r s : List UInt8} (h : t.bytes ++ r = u.bytes ++ s) :
    t = u ∧ r = s := by
  simp only [bytes, header, List.cons_append, List.append_assoc] at h
  obtain ⟨tag, rest⟩ := List.cons.inj h
  obtain ⟨len, size, rest⟩ := t.form.append_inj u.form rest
  obtain ⟨content, rest⟩ := List.append_inj rest size
  exact ⟨Tlv.ext tag len content, rest⟩

theorem bytes_injective {t u : Tlv} (h : t.bytes = u.bytes) : t = u := by
  refine (bytes_append_inj (r := []) (s := []) ?_).1
  rw [h]

def lengthOctets (n : Nat) : List UInt8 :=
  if n < 128 then [UInt8.ofNat n]
  else UInt8.ofNat (128 + (trim (be 8 n)).length) :: trim (be 8 n)

theorem lengthOctets_form {n : Nat} (h : n < 2 ^ 32) : LengthForm (lengthOctets n) n := by
  have value : ofBe (be 8 n) = n := ofBe_be (by omega)
  have trimmed : ofBe (trim (be 8 n)) = n := (ofBe_trim _).trans value
  rw [lengthOctets]
  split
  · rename_i small
    exact .short small
  · rename_i large
    have few : (trim (be 8 n)).length ≤ 4 := trim_length_le (by rw [value]; omega)
    have some : 0 < (trim (be 8 n)).length :=
      List.length_pos_iff.mpr (trim_ne_nil (by rw [value]; omega))
    have form := LengthForm.long some few
    rwa [trimmed] at form

def Shortest (len : List UInt8) (n : Nat) : Prop :=
  if n < 128 then len.length = 1 else len[1]? ≠ some 0

theorem LengthForm.eq_lengthOctets {len : List UInt8} {n : Nat} (h : LengthForm len n)
    (shortest : Shortest len n) : len = lengthOctets n := by
  cases h with
  | short small => exact (if_pos small).symm
  | long some few =>
    rename_i x
    by_cases small : ofBe x < 128
    · rw [Shortest, if_pos small, List.length_cons] at shortest
      omega
    · rw [Shortest, if_neg small, List.getElem?_cons_succ, ← List.head?_eq_getElem?] at shortest
      rw [lengthOctets, if_neg small, trim_be_ofBe (by omega) shortest]

def emit (tag : UInt8) (content : List UInt8) (small : content.length < 2 ^ 32) : Tlv where
  tag := tag
  len := lengthOctets content.length
  content := content
  form := lengthOctets_form small

theorem emit_length_le (tag : UInt8) {content : List UInt8} (small : content.length < 2 ^ 32) :
    (emit tag content small).bytes.length ≤ content.length + 6 := by
  have header := (emit tag content small).header_length_le
  have whole := (emit tag content small).bytes_length
  have same : (emit tag content small).content.length = content.length := rfl
  omega

def Minimal (t : Tlv) : Prop := t.len = lengthOctets t.content.length

theorem Minimal.eq_emit {t : Tlv} (h : t.Minimal) : t = emit t.tag t.content t.form.lt :=
  Tlv.ext rfl h rfl

/-- What a reader meets that starts another element as long as fewer than `n` octets
are behind it: the elements fill `n` octets, or the last one ends after them. -/
def Covers : List Tlv → Nat → Prop
  | [], n => n = 0
  | t :: ts, n => 0 < n ∧ Covers ts (n - t.bytes.length)

theorem covers_flat (ts : List Tlv) : Covers ts (flat ts).length := by
  induction ts with
  | nil => rfl
  | cons t ts ih =>
    have two := t.bytes_length_ge
    rw [flat_cons, List.length_append]
    refine ⟨by omega, ?_⟩
    rwa [Nat.add_sub_cancel_left]

theorem covers_append {ts us : List Tlv} {n : Nat} (h : (flat ts).length ≤ n) :
    Covers (ts ++ us) n ↔ Covers us (n - (flat ts).length) := by
  induction ts generalizing n with
  | nil => rfl
  | cons t ts ih =>
    have two := t.bytes_length_ge
    rw [flat_cons, List.length_append] at h ⊢
    have rest := ih (n := n - t.bytes.length) (by omega)
    rw [Nat.sub_sub] at rest
    rw [List.cons_append, Covers, rest]
    exact and_iff_right (by omega)

theorem Covers.split {ts us : List Tlv} {n : Nat} {r s : List UInt8} (h : Covers us n)
    (inside : (flat ts).length ≤ n) (same : flat us ++ s = flat ts ++ r) :
    ∃ vs, us = ts ++ vs ∧ r = flat vs ++ s := by
  induction ts generalizing us n with
  | nil => exact ⟨us, rfl, same.symm⟩
  | cons t ts ih =>
    have two := t.bytes_length_ge
    rw [flat_cons, List.length_append] at inside
    cases us with
    | nil =>
      have none : n = 0 := h
      omega
    | cons u us =>
      simp only [flat_cons, List.append_assoc] at same
      obtain ⟨rfl, tail⟩ := bytes_append_inj same
      obtain ⟨vs, rfl, rest⟩ := ih h.2 (by omega) tail
      exact ⟨vs, rfl, rest⟩

theorem Covers.unique {ts us : List Tlv} {n : Nat} {r s : List UInt8} (h : Covers ts n)
    (g : Covers us n) (same : flat ts ++ r = flat us ++ s) : ts = us := by
  induction ts generalizing us n with
  | nil =>
    cases us with
    | nil => rfl
    | cons u us =>
      have none : n = 0 := h
      have some := g.1
      omega
  | cons t ts ih =>
    cases us with
    | nil =>
      have none : n = 0 := g
      have some := h.1
      omega
    | cons u us =>
      simp only [flat_cons, List.append_assoc] at same
      obtain ⟨rfl, tail⟩ := bytes_append_inj same
      rw [ih h.2 g.2 tail]

theorem Covers.unique_at {b : List UInt8} {ts us : List Tlv} {n p : Nat} (h : Covers ts n)
    (g : Covers us n) (stand : At b p (flat ts)) (stand' : At b p (flat us)) : ts = us := by
  obtain ⟨l, r, rfl, len⟩ := stand
  obtain ⟨l', r', same, len'⟩ := stand'
  rw [List.append_assoc, List.append_assoc] at same
  exact h.unique g (List.append_inj same (len.trans len'.symm)).2

/-- The elements `after` stand in the first buffer at `e`, and the second one holds `vs`
and then the same octets up to `stop`. The same elements are met there as long as they
end by then. -/
theorem Covers.carry_over {der out : List UInt8} {vs after ts : List Tlv} {q e stop m : Nat}
    (covers : Covers after m) (stand : At der e (flat after)) (order : e ≤ stop)
    (ends : stop ≤ der.length) (tail : Tail out q (flat vs ++ slice der e stop)) :
    At out q (flat ts) ∧ Covers ts ((flat vs).length + m) ↔
      e + (flat after).length ≤ stop ∧ ts = vs ++ after := by
  rw [tail.at_iff, ← stand.isPrefix_slice order]
  constructor
  · rintro ⟨⟨s, same⟩, covers'⟩
    obtain ⟨ws, rfl, rest⟩ := covers'.split (Nat.le_add_right _ m) same
    rw [covers_append (Nat.le_add_right _ m), Nat.add_sub_cancel_left] at covers'
    have there : At der e (flat ws) :=
      (at_append.mp (rest ▸ at_slice order ends)).1
    rw [covers'.unique_at covers there stand] at rest ⊢
    exact ⟨⟨s, rest.symm⟩, rfl⟩
  · rintro ⟨fits, rfl⟩
    rw [covers_append (Nat.le_add_right _ m), Nat.add_sub_cancel_left, flat_append]
    exact ⟨(List.prefix_append_right_inj _).mpr fits, covers⟩

/-- A list of elements, opened at the first one with tag `k`. -/
structure Focus (k : UInt8) where
  before : List Tlv
  hit : Tlv
  after : List Tlv
  tag : hit.tag = k
  first : ∀ u ∈ before, u.tag ≠ k

namespace Focus
variable {k : UInt8}

def elems (f : Focus k) : List Tlv := f.before ++ f.hit :: f.after

def offset (f : Focus k) : Nat := (flat f.before).length

def around (f : Focus k) (x : List UInt8) : List UInt8 := flat f.before ++ x ++ flat f.after

def replace (f : Focus k) (t : Tlv) (tag : t.tag = k) : Focus k := { f with hit := t, tag := tag }

theorem elems_injective {f g : Focus k} (h : f.elems = g.elems) : f = g := by
  rcases f with ⟨before, hit, after, tag, first⟩
  rcases g with ⟨before', hit', after', tag', first'⟩
  have parts : before = before' ∧ hit = hit' ∧ after = after' := by
    simp only [elems] at h
    induction before generalizing before' with
    | nil =>
      cases before' with
      | nil =>
        obtain ⟨same, rest⟩ := List.cons.inj h
        exact ⟨rfl, same, rest⟩
      | cons u us =>
        have same := (List.cons.inj h).1
        exact absurd (same ▸ tag) (first' u List.mem_cons_self)
    | cons t ts ih =>
      cases before' with
      | nil =>
        have same := (List.cons.inj h).1
        exact absurd (same ▸ tag') (first t List.mem_cons_self)
      | cons u us =>
        obtain ⟨same, rest⟩ := List.cons.inj h
        obtain ⟨before, others⟩ := ih (fun v hv => first v (List.mem_cons_of_mem t hv)) us
          (fun v hv => first' v (List.mem_cons_of_mem u hv)) rest
        exact ⟨by rw [same, before], others⟩
  obtain ⟨rfl, rfl, rfl⟩ := parts
  rfl

theorem flat_elems (f : Focus k) : flat f.elems = f.around f.hit.bytes := by
  simp [elems, around, List.append_assoc]

theorem around_length (f : Focus k) (x : List UInt8) :
    (f.around x).length + f.hit.bytes.length = (flat f.elems).length + x.length := by
  rw [f.flat_elems]
  simp only [around, List.length_append]
  omega

theorem hit_length_le (f : Focus k) : f.hit.bytes.length ≤ (flat f.elems).length := by
  have whole := f.around_length []
  rw [List.length_nil] at whole
  omega

theorem content_length_le (f : Focus k) : f.hit.content.length + 2 ≤ (flat f.elems).length := by
  have hit := f.hit_length_le
  have whole := f.hit.bytes_length
  have header := f.hit.header_length_ge
  omega

/-- Content that has grown by `n` makes the list at most `n + 4` longer, when its element
has the shortest length octets. -/
theorem around_emit_length (f : Focus k) (tag : UInt8) {content : List UInt8} {n : Nat}
    (small : content.length < 2 ^ 32) (grown : content.length ≤ f.hit.content.length + n) :
    (f.around (emit tag content small).bytes).length ≤ (flat f.elems).length + n + 4 := by
  have long := emit_length_le tag small
  have whole := f.around_length (emit tag content small).bytes
  have old := f.hit.bytes_length
  have header := f.hit.header_length_ge
  omega

theorem around_injective (f : Focus k) {x y : List UInt8} (h : f.around x = f.around y) :
    x = y := by
  simp only [around, List.append_assoc] at h
  exact List.append_cancel_right (List.append_cancel_left h)

end Focus

end Tlv
