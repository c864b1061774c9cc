import Rsigncode.Der

/-! Reading headers and children, as facts about the elements in the buffer: a header
is read exactly where an element stands, and the children of a range are the elements
that stand in it one after another. -/
namespace Rsigncode

open FileStore Window Number

theorem index_eq_ok {b : Bytes} {i : Nat} {x : UInt8} : index b i = .ok x ↔ At b i [x] := by
  rw [at_singleton, index]
  cases b[i]? <;> simp

theorem index_returns {b : Bytes} {i : Nat} (h : i < b.length) : ∃ x, index b i = .ok x := by
  rw [index, List.getElem?_eq_getElem h]
  exact ⟨_, rfl⟩

theorem subslice_of_le {b : Bytes} {start stop : Nat} (h : start ≤ stop) (g : stop ≤ b.length) :
    subslice b start stop = .ok (slice b start stop) := if_pos ⟨h, g⟩

theorem subslice_at {b x : Bytes} {start stop : Nat} (h : At b start x)
    (ends : stop = start + x.length) : subslice b start stop = .ok x := by
  rw [subslice_of_le (by omega) (by have := h.le; omega), h.slice_eq ends]

theorem ofBe_concat (x : Bytes) (a : UInt8) : ofBe (x ++ [a]) = ofBe x * 256 + a.toNat := by
  rw [ofBe, List.foldl_append]
  rfl

theorem lengthLoop_eq (b : Bytes) (p n : Nat) (room : p + n ≤ b.length) :
    (List.range n).foldlM (fun len i => do
      let x ← index b (p + i)
      pure ((len <<< 8) ||| x.toNat)) 0 = (.ok (ofBe (slice b p (p + n))) : Res Nat) := by
  induction n with
  | zero => simp [slice_empty, ofBe, pure, Except.pure]
  | succ n ih =>
    have inside : p + n < b.length := by omega
    obtain ⟨x, read⟩ := index_returns inside
    have last : slice b p (p + (n + 1)) = slice b p (p + n) ++ [x] := by
      have window := (index_eq_ok.mp read).slice_eq (e := p + (n + 1)) rfl
      rw [← window, slice_append (by omega) (by omega)]
    have shift : ∀ m : Nat, (m <<< 8) ||| x.toNat = m * 256 + x.toNat := by
      intro m
      rw [← Nat.shiftLeft_add_eq_or_of_lt (byte_toNat_lt x), Nat.shiftLeft_eq]
    rw [List.range_succ, List.foldlM_append, ih (by omega), last, ofBe_concat]
    simp only [List.foldlM_cons, List.foldlM_nil, bind, Except.bind, read, pure, Except.pure, shift]

theorem shortForm_iff (l0 : UInt8) : l0 &&& 0x80 = 0 ↔ l0.toNat < 128 := by
  have all : ∀ n < 256, (UInt8.ofNat n &&& 0x80 = 0 ↔ n < 128) := by decide +kernel
  simpa using all l0.toNat (byte_toNat_lt l0)

theorem lengthWidth (l0 : UInt8) : (l0 &&& 0x7f).toNat = l0.toNat % 128 := by
  rw [UInt8.toNat_and]
  exact Nat.and_two_pow_sub_one_eq_mod l0.toNat 7

theorem readLength_short {b : Bytes} {pos n : Nat} (small : n < 128) :
    readLength b pos (UInt8.ofNat n) = .ok (pos + 2, n) := by
  have value : (UInt8.ofNat n).toNat = n := by
    rw [ofNat_toNat_mod]
    omega
  rw [readLength, if_pos ((shortForm_iff _).mpr (by omega)), value]
  rfl

theorem readLength_long {b x : Bytes} {pos : Nat} (some : 0 < x.length) (few : x.length ≤ 4)
    (window : At b (pos + 2) x) :
    readLength b pos (UInt8.ofNat (128 + x.length)) = .ok (pos + 2 + x.length, ofBe x) := by
  have value : (UInt8.ofNat (128 + x.length)).toNat = 128 + x.length := by
    rw [ofNat_toNat_mod]
    omega
  have width : ((UInt8.ofNat (128 + x.length)) &&& 0x7f).toNat = x.length := by
    rw [lengthWidth, value]
    omega
  have room := window.le
  have supported : ¬ (x.length = 0 ∨ x.length > 4 ∨ pos + 2 + x.length > b.length) := by omega
  rw [readLength, if_neg (by rw [shortForm_iff]; omega)]
  simp only [width, if_neg supported]
  rw [lengthLoop_eq b (pos + 2) x.length room, window.slice_eq rfl]
  rfl

theorem readLength_form {b len : Bytes} {pos n : Nat} (form : Tlv.LengthForm len n)
    (window : At b (pos + 1) len) :
    ∃ l0, index b (pos + 1) = .ok l0 ∧
      readLength b pos l0 = .ok (pos + (1 + len.length), n) := by
  cases form with
  | short small => exact ⟨_, index_eq_ok.mpr window, readLength_short small⟩
  | long some few =>
    obtain ⟨first, octets⟩ := at_cons.mp window
    refine ⟨_, index_eq_ok.mpr first, ?_⟩
    rw [readLength_long some few octets, List.length_cons]
    congr 2
    omega

theorem readHeader_at {b : Bytes} {p : Nat} {t : Tlv} (h : At b p t.bytes) :
    readHeader b p = .ok (t.tag, p + t.header.length, p + t.bytes.length) := by
  have room := h.le
  have two := t.bytes_length_ge
  rw [Tlv.bytes, Tlv.header, List.cons_append, at_cons, at_append] at h
  obtain ⟨tagAt, lenAt, contentAt⟩ := h
  obtain ⟨l0, first, len⟩ := readLength_form t.form lenAt
  have fits : ¬ p + (1 + t.len.length) + t.content.length > b.length := by
    have inside := contentAt.le
    omega
  rw [readHeader, if_neg (by omega), Res.bind_ok (index_eq_ok.mpr tagAt), Res.bind_ok first,
    Res.bind_ok len, Tlv.bytes_length, Tlv.header_length]
  refine (if_neg fits).trans ?_
  rw [Nat.add_assoc p]
  rfl

theorem readLength_eq_ok {b : Bytes} {pos cs n : Nat} {l0 : UInt8}
    (first : At b (pos + 1) [l0]) (h : readLength b pos l0 = .ok (cs, n)) :
    ∃ len, Tlv.LengthForm len n ∧ At b (pos + 1) len ∧ cs = pos + 1 + len.length := by
  by_cases short : l0 &&& 0x80 = 0
  · rw [readLength, if_pos short] at h
    cases h
    have small := (shortForm_iff l0).mp short
    have form := Tlv.LengthForm.short small
    rw [UInt8.ofNat_toNat] at form
    exact ⟨[l0], form, first, rfl⟩
  · have large : ¬ l0.toNat < 128 := fun small => short ((shortForm_iff l0).mpr small)
    have bound := byte_toNat_lt l0
    rw [readLength, if_neg short] at h
    simp only [lengthWidth] at h
    split at h
    · cases h
    · rename_i supported
      rw [lengthLoop_eq b (pos + 2) _ (by omega)] at h
      cases h
      have octets := at_slice (b := b) (s := pos + 2) (e := pos + 2 + l0.toNat % 128) (by omega)
        (by omega)
      have width : (slice b (pos + 2) (pos + 2 + l0.toNat % 128)).length = l0.toNat % 128 := by
        rw [slice_length]
        omega
      have byte : UInt8.ofNat (128 + (slice b (pos + 2) (pos + 2 + l0.toNat % 128)).length) =
          l0 := by
        have whole : 128 + l0.toNat % 128 = l0.toNat := by omega
        rw [width, whole, UInt8.ofNat_toNat]
      have form := Tlv.LengthForm.long (x := slice b (pos + 2) (pos + 2 + l0.toNat % 128))
        (by omega) (by omega)
      rw [byte] at form
      refine ⟨_, form, at_cons.mpr ⟨first, octets⟩, ?_⟩
      rw [List.length_cons, width]
      omega

theorem readHeader_eq_ok {b : Bytes} {p cs ce : Nat} {tag : UInt8} :
    readHeader b p = .ok (tag, cs, ce) ↔ ∃ t : Tlv, At b p t.bytes ∧ tag = t.tag ∧
      cs = p + t.header.length ∧ ce = p + t.bytes.length := by
  constructor
  · intro h
    rw [readHeader] at h
    split at h
    · cases h
    · obtain ⟨tag', tagAt, h⟩ := Res.bind_eq_ok.mp h
      obtain ⟨l0, first, h⟩ := Res.bind_eq_ok.mp h
      obtain ⟨⟨cs', n⟩, len, h⟩ := Res.bind_eq_ok.mp h
      dsimp only at h
      split at h
      · cases h
      · rename_i room
        cases h
        obtain ⟨octets, form, octetsAt, starts⟩ := readLength_eq_ok (index_eq_ok.mp first) len
        have contentAt := at_slice (b := b) (s := cs) (e := cs + n) (by omega) (by omega)
        have size : (slice b cs (cs + n)).length = n := by
          rw [slice_length]
          omega
        refine ⟨⟨tag, octets, slice b cs (cs + n), size.symm ▸ form⟩, ?_, rfl, ?_, ?_⟩
        · rw [Tlv.bytes, Tlv.header, List.cons_append, at_cons, at_append, ← starts]
          exact ⟨index_eq_ok.mp tagAt, octetsAt, contentAt⟩
        · rw [Tlv.header_length]
          dsimp only
          omega
        · rw [Tlv.bytes_length, Tlv.header_length]
          dsimp only
          omega
  · rintro ⟨t, h, rfl, rfl, rfl⟩
    exact readHeader_at h

theorem readLength_returns {b : Bytes} {pos : Nat} (l0 : UInt8) :
    (readLength b pos l0).Returns := by
  rw [readLength]
  split
  · exact Res.returns_ok _
  · dsimp only
    split
    · exact Res.returns_error _
    · rename_i supported
      rw [lengthLoop_eq b (pos + 2) _ (by omega)]
      exact Res.returns_ok _

theorem readHeader_returns (b : Bytes) (p : Nat) : (readHeader b p).Returns := by
  rw [readHeader]
  split
  · exact Res.returns_error _
  · rename_i room
    have second : p + 1 < b.length := by omega
    obtain ⟨tag, read⟩ := index_returns (Nat.lt_of_succ_lt second)
    obtain ⟨l0, first⟩ := index_returns second
    rw [Res.bind_ok read, Res.bind_ok first]
    refine (readLength_returns l0).bind fun ⟨cs, n⟩ _ => ?_
    dsimp only
    split
    · exact Res.returns_error _
    · exact Res.returns_ok _

def childAt (p : Nat) (t : Tlv) : Child :=
  ⟨t.tag, p, p + t.header.length, p + t.bytes.length⟩

def childrenAt : Nat → List Tlv → List Child
  | _, [] => []
  | p, t :: ts => childAt p t :: childrenAt (p + t.bytes.length) ts

theorem exists_covers_zero {b : Bytes} {p : Nat} {cs : List Child} (inside : p ≤ b.length) :
    (∃ ts, At b p (Tlv.flat ts) ∧ Tlv.Covers ts 0 ∧ cs = childrenAt p ts) ↔ cs = [] := by
  constructor
  · rintro ⟨ts, -, covers, rfl⟩
    cases ts with
    | nil => rfl
    | cons t ts => exact absurd covers.1 (Nat.lt_irrefl 0)
  · rintro rfl
    exact ⟨[], at_nil inside, rfl, rfl⟩

/-- The loop succeeds exactly where elements stand one after another that cover the range;
only the last of them can end after the range does. -/
theorem childrenLoop_eq_ok {b : Bytes} {p stop rounds : Nat} {cs : List Child}
    (inside : p ≤ b.length) (enough : stop - p ≤ rounds) :
    childrenLoop b stop rounds p = .ok cs ↔
      ∃ ts, At b p (Tlv.flat ts) ∧ Tlv.Covers ts (stop - p) ∧ cs = childrenAt p ts := by
  induction rounds generalizing p cs with
  | zero =>
    rw [Nat.eq_zero_of_le_zero enough, exists_covers_zero inside, childrenLoop]
    exact (Except.ok.injEq [] cs).to_iff.trans eq_comm
  | succ rounds ih =>
    rw [childrenLoop]
    by_cases more : p < stop
    · rw [if_pos more]
      constructor
      · intro h
        obtain ⟨⟨tag, start, stop'⟩, header, h⟩ := Res.bind_eq_ok.mp h
        dsimp only at h
        obtain ⟨rest, tail, h⟩ := Res.bind_eq_ok.mp h
        obtain ⟨t, here, rfl, rfl, rfl⟩ := readHeader_eq_ok.mp header
        have two := t.bytes_length_ge
        obtain ⟨ts, after, covers, rfl⟩ := (ih here.le (by omega)).mp tail
        cases h
        exact ⟨t :: ts, at_append.mpr ⟨here, after⟩,
          ⟨Nat.sub_pos_of_lt more, Nat.sub_sub stop p _ ▸ covers⟩, rfl⟩
      · rintro ⟨ts, stand, covers, rfl⟩
        cases ts with
        | nil =>
          have none : stop - p = 0 := covers
          omega
        | cons t ts =>
          obtain ⟨here, after⟩ := at_append.mp stand
          have two := t.bytes_length_ge
          have tail := (ih here.le (by omega)).mpr
            ⟨ts, after, (Nat.sub_sub stop p _).symm ▸ covers.2, rfl⟩
          rw [Res.bind_ok (readHeader_at here)]
          dsimp only
          rw [Res.bind_ok tail]
          rfl
    · rw [if_neg more, Nat.sub_eq_zero_of_le (Nat.not_lt.mp more), exists_covers_zero inside]
      exact (Except.ok.injEq [] cs).to_iff.trans eq_comm

theorem children_eq_ok {b : Bytes} {start stop : Nat} {cs : List Child}
    (inside : start ≤ b.length) : children b start stop = .ok cs ↔
      ∃ ts, At b start (Tlv.flat ts) ∧ Tlv.Covers ts (stop - start) ∧ cs = childrenAt start ts :=
  childrenLoop_eq_ok inside (Nat.le_refl _)

theorem children_at {b : Bytes} {ts : List Tlv} {p stop : Nat} (h : At b p (Tlv.flat ts))
    (ends : stop = p + (Tlv.flat ts).length) : children b p stop = .ok (childrenAt p ts) := by
  subst ends
  have room := h.le
  refine (children_eq_ok (by omega)).mpr ⟨ts, h, ?_, rfl⟩
  rw [Nat.add_sub_cancel_left]
  exact Tlv.covers_flat ts

theorem childrenLoop_returns (b : Bytes) (stop rounds p : Nat) :
    (childrenLoop b stop rounds p).Returns := by
  induction rounds generalizing p with
  | zero => exact Res.returns_ok _
  | succ rounds ih =>
    rw [childrenLoop]
    split
    · refine (readHeader_returns b p).bind fun ⟨tag, cs, ce⟩ _ => ?_
      exact (ih ce).bind fun rest _ => Res.returns_ok _
    · exact Res.returns_ok _

theorem children_returns (b : Bytes) (start stop : Nat) : (children b start stop).Returns :=
  childrenLoop_returns b stop _ start

theorem okOr_returns {α : Type} (x : Option α) (e : Error) : (okOr x (.error e)).Returns := by
  cases x with
  | none => exact Res.returns_error e
  | some a => exact Res.returns_ok a

theorem okOr_eq_ok {α : Type} {x : Option α} {e : Fault} {a : α} :
    okOr x e = .ok a ↔ x = some a := by
  cases x <;> simp [okOr]

theorem firstWithTag_elems {k : UInt8} (f : Tlv.Focus k) (p : Nat) :
    firstWithTag (childrenAt p f.elems) k = some (childAt (p + f.offset) f.hit) := by
  rcases f with ⟨before, hit, after, tag, first⟩
  induction before generalizing p with
  | nil =>
    simp only [Tlv.Focus.elems, Tlv.Focus.offset, List.nil_append, childrenAt, Tlv.flat_nil,
      List.length_nil, Nat.add_zero]
    exact List.find?_cons_of_pos (by simp [childAt, tag])
  | cons u before ih =>
    have other : ¬ ((childAt p u).tag == k) = true := by simpa [childAt] using first u (by simp)
    have rest := ih (p + u.bytes.length) fun v hv => first v (by simp [hv])
    simp only [Tlv.Focus.elems, Tlv.Focus.offset, List.cons_append, childrenAt, Tlv.flat_cons,
      List.length_append, ← Nat.add_assoc] at rest ⊢
    exact (List.find?_cons_of_neg (p := fun c : Child => c.tag == k) other).trans rest

theorem exists_focus {k : UInt8} {ts : List Tlv} {p : Nat} {c : Child}
    (h : firstWithTag (childrenAt p ts) k = some c) :
    ∃ f : Tlv.Focus k, f.elems = ts ∧ c = childAt (p + f.offset) f.hit := by
  induction ts generalizing p with
  | nil => cases h
  | cons t ts ih =>
    by_cases here : t.tag = k
    · refine ⟨⟨[], t, ts, here, by simp⟩, rfl, ?_⟩
      rw [childrenAt, firstWithTag, List.find?_cons_of_pos (by simp [childAt, here])] at h
      cases h
      rfl
    · rw [childrenAt, firstWithTag, List.find?_cons_of_neg (by simpa [childAt] using here)] at h
      obtain ⟨f, rfl, rfl⟩ := ih h
      refine ⟨⟨t :: f.before, f.hit, f.after, f.tag, ?_⟩, rfl, ?_⟩
      · intro u hu
        rcases List.mem_cons.mp hu with rfl | hu
        · exact here
        · exact f.first u hu
      · simp only [Tlv.Focus.offset, Tlv.flat_cons, List.length_append, Nat.add_assoc]

end Rsigncode
