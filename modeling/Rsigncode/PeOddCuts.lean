import Mathlib.Data.Nat.Count
import Mathlib.Order.Interval.Finset.Nat
import Rsigncode.PeCuts

/-! Which cuts the checksum stands. Every byte that a header leaves open counts for the
same in the code's sum and in the image checksum only if all cuts are even and the
field is at an even offset; otherwise some accepted file of the same shape shows it. -/
namespace Rsigncode

open FileStore Window Number EndAround

def pairWeight (cso offset n i : Nat) : Nat :=
  if i % 2 = 0 ∧ i + 1 = n ∨ offset + i / 2 * 2 = cso ∨ offset + i / 2 * 2 = cso + 2 then 0
  else weight i

def cutWeight (cso : Nat) : Nat → List Nat → Nat → Nat
  | _, [], _ => 0
  | offset, k :: ks, i =>
    if i < k then pairWeight cso offset k i else cutWeight cso (offset + k / 2 * 2) ks (i - k)

def imageWeight (cso i : Nat) : Nat := if cso ≤ i ∧ i < cso + 4 then 0 else weight i

theorem weight_cases (i : Nat) : i % 2 = 0 ∧ weight i = 1 ∨ i % 2 = 1 ∧ weight i = 256 := by
  rw [weight]
  split <;> omega

theorem pairSum_set (cso offset : Nat) {i : Nat} {d : Bytes} {x : UInt8} (here : d[i]? = some x)
    (y : UInt8) :
    pairSum cso offset (d.set i y) + pairWeight cso offset d.length i * x.toNat =
      pairSum cso offset d + pairWeight cso offset d.length i * y.toNat := by
  induction offset, d using pairSum.induct generalizing i with
  | case1 offset lo hi rest ih =>
    rcases i with _ | _ | i
    · cases here
      simp only [List.set_cons_zero, pairSum, pairWord, pairWeight, ofLe_pair, List.length_cons,
        weight_zero]
      split <;> split <;> omega
    · cases here
      simp only [List.set_cons_succ, List.set_cons_zero, pairSum, pairWord, pairWeight, ofLe_pair,
        List.length_cons, weight_one, Nat.zero_add]
      split <;> split <;> omega
    · have tail := ih (i := i) here
      have same : pairWeight cso offset (rest.length + 1 + 1) (i + 2) =
          pairWeight cso (offset + 2) rest.length i := by
        have half : (i + 2) / 2 * 2 = i / 2 * 2 + 2 := by omega
        have shift : offset + (i / 2 * 2 + 2) = offset + 2 + i / 2 * 2 := by omega
        have last : i + 2 + 1 = rest.length + 1 + 1 ↔ i + 1 = rest.length := by omega
        simp only [pairWeight, half, shift, last, Nat.add_mod_right, weight_add_two]
      simp only [List.set_cons_succ, pairSum, List.length_cons, same]
      omega
  | case2 d offset short =>
    rcases d with _ | ⟨lo, _ | ⟨hi, rest⟩⟩
    · cases here
    · rcases i with _ | i
      · simp [pairSum, pairWeight]
      · cases here
    · exact absurd rfl (short lo hi rest)

theorem cutSum_set (cso offset : Nat) {i : Nat} {ks : List Nat} {d : Bytes} {x : UInt8}
    (whole : ks.sum = d.length) (here : d[i]? = some x) (y : UInt8) :
    cutSum cso offset ks (d.set i y) + cutWeight cso offset ks i * x.toNat =
      cutSum cso offset ks d + cutWeight cso offset ks i * y.toNat := by
  induction ks generalizing offset i d with
  | nil => simp [cutSum, cutWeight]
  | cons k ks ih =>
    rw [List.sum_cons] at whole
    have len : (d.take k).length = k := List.length_take_of_le (by omega)
    rw [cutSum, cutSum, cutWeight, List.take_set, List.drop_set]
    by_cases inside : i < k
    · have first := pairSum_set cso offset (d := d.take k) (i := i)
        (by rw [List.getElem?_take_of_lt inside, here]) y
      rw [len] at first
      rw [if_pos inside, if_pos inside]
      omega
    · have rest := ih (offset + k / 2 * 2) (d := d.drop k) (i := i - k)
        (by rw [List.length_drop]; omega)
        (by rw [List.getElem?_drop, Nat.add_sub_cancel' (Nat.not_lt.mp inside), here])
      rw [if_neg inside, if_neg inside, List.set_eq_of_length_le (by omega)]
      omega

theorem imageSum_set {cso i : Nat} {d : Bytes} {x : UInt8} (inside : cso + 4 ≤ d.length)
    (here : d[i]? = some x) (y : UInt8) :
    wordSum (overwrite (d.set i y) cso (zeros 4)) + imageWeight cso i * x.toNat =
      wordSum (overwrite d cso (zeros 4)) + imageWeight cso i * y.toNat := by
  have len : (zeros 4 : Bytes).length = 4 := zeros_length 4
  rw [imageWeight]
  split
  · rename_i field
    rw [overwrite_set_inside y (by omega) (by rwa [len]), Nat.zero_mul, Nat.zero_mul]
  · rename_i out
    rw [overwrite_set_outside y (by rwa [len]) (by rwa [len])]
    exact wordSum_set _ (by rw [overwrite_getElem? _ (by omega), len, if_neg out, here]) y

/-- The positions that the header checks leave open, with the directories from `h + 26` on. -/
def OpenAt (h i : Nat) : Prop := 2 ≤ i ∧ i < 44 ∨ 64 ≤ i ∧ i < h ∨ h + 26 ≤ i

theorem u32At_of_low {d : Bytes} {p : Nat} (room : p + 4 ≤ d.length)
    (low : ∀ i x, p ≤ i → d[i]? = some x → 1 ≤ x.toNat ∧ x.toNat ≤ 2) :
    0x01010101 ≤ u32At d p ∧ u32At d p ≤ 0x02020202 := by
  have byte : ∀ (i : Nat) (x : UInt8), (slice d p (p + 4))[i]? = some x →
      1 ≤ x.toNat ∧ x.toNat ≤ 2 := by
    intro i x here
    rw [slice_getElem?] at here
    split at here
    · exact low _ x (Nat.le_add_right p i) here
    · cases here
  have len : (slice d p (p + 4)).length = 4 := by
    rw [slice_length]
    omega
  rw [u32At]
  generalize slice d p (p + 4) = word at byte len ⊢
  rcases word with _ | ⟨x0, _ | ⟨x1, _ | ⟨x2, _ | ⟨x3, _ | ⟨x4, rest⟩⟩⟩⟩⟩
  · cases len
  · cases len
  · cases len
  · cases len
  · have h0 := byte 0 x0 rfl
    have h1 := byte 1 x1 rfl
    have h2 := byte 2 x2 rfl
    have h3 := byte 3 x3 rfl
    simp only [ofLe]
    omega
  · simp only [List.length_cons] at len
    omega

theorem signatureDirectory_returns (b : Build) {p l : Nat} (n : Nat) (small : p + l < 2 ^ 32) :
    ∃ sigpos siglen, signatureDirectory b p l n = .ok (sigpos, siglen) := by
  unfold signatureDirectory
  by_cases quick : p = 0 ∨ l = 0 ∨ p ≥ n
  · simp only [quick, if_true]
    exact ⟨_, _, rfl⟩
  · simp only [quick, if_false, add_of_lt small]
    exact ⟨_, _, rfl⟩

/-- A file stays accepted, with its layout, when open bytes change; from `h + 26` on the
new bytes are small, so that the directories can be counted and the entry added up. -/
theorem Accepts.reopened {b : Build} {d d' : Bytes} {pe : PeInfo} (h : Accepts b d pe)
    (len : d'.length = d.length) (same : ∀ i, ¬ OpenAt pe.headerSize i → d'[i]? = d[i]?)
    (low : ∀ i x, pe.headerSize + 26 ≤ i → d'[i]? = some x → 1 ≤ x.toNat ∧ x.toNat ≤ 2) :
    ∃ pe', Accepts b d' pe' ∧ pe'.checksumOffset = pe.checksumOffset := by
  have header := h.header_ge
  have plus := pe32plusOffset_le pe.pe32plus
  have table := h.certTableOffset
  have room := h.room
  have here : ∀ {s e : Nat}, (∀ i, s ≤ i → i < e → ¬ OpenAt pe.headerSize i) →
      slice d' s e = slice d s e := fun fixed =>
    slice_congr fun i low high => same i (fixed i low high)
  have small : ∀ p, pe.headerSize + 26 ≤ p → p + 4 ≤ d.length → _ := fun p above inside =>
    u32At_of_low (d := d') (p := p) (by omega) fun i x le => low i x (by omega)
  obtain ⟨sigpos, siglen, dir⟩ := signatureDirectory_returns b (p := u32At d' pe.certTableOffset)
    (l := u32At d' (pe.certTableOffset + 4)) pe.fileend (by
      have first := small pe.certTableOffset (by omega) (by omega)
      have second := small (pe.certTableOffset + 4) (by omega) (by omega)
      omega)
  refine ⟨{ pe with sigpos := sigpos, siglen := siglen }, ?_, rfl⟩
  exact {
    fileend := by rw [len]; exact h.fileend
    long := h.long
    mz := by
      rw [u16At, here (fun i low high => by simp only [OpenAt]; omega)]
      exact h.mz
    lfanew := by
      rw [u32At, here (fun i low high => by simp only [OpenAt]; omega)]
      exact h.lfanew
    header_ge := h.header_ge
    header_le := h.header_le
    needed := h.needed
    signature := by
      rw [u32At, here (fun i low high => by simp only [OpenAt] at *; omega)]
      exact h.signature
    magic := by
      rw [u16At, here (fun i low high => by simp only [OpenAt] at *; omega)]
      exact h.magic
    nrvas := by
      have count := small (pe.headerSize + 116 + pe32plusOffset pe.pe32plus) (by omega) (by omega)
      exact Nat.le_trans (by decide) count.1
    checksumOffset := h.checksumOffset
    certTableOffset := h.certTableOffset
    room := by rw [len]; exact h.room
    entry := dir }

def onesFrom (n : Nat) (d : Bytes) : Bytes := d.take n ++ List.replicate (d.length - n) 1

theorem onesFrom_length (n : Nat) (d : Bytes) : (onesFrom n d).length = d.length := by
  simp only [onesFrom, List.length_append, List.length_take, List.length_replicate]
  omega

theorem onesFrom_below {n i : Nat} {d : Bytes} (below : i < n) : (onesFrom n d)[i]? = d[i]? := by
  by_cases inside : i < d.length
  · rw [onesFrom, List.getElem?_append_left (by rw [List.length_take]; omega),
      List.getElem?_take_of_lt below]
  · rw [List.getElem?_eq_none (by rw [onesFrom_length]; omega),
      List.getElem?_eq_none (by omega)]

theorem onesFrom_above {n i : Nat} {d : Bytes} {x : UInt8} (above : n ≤ i)
    (here : (onesFrom n d)[i]? = some x) : x = 1 := by
  rw [onesFrom, List.getElem?_append_right (by rw [List.length_take]; omega),
    List.getElem?_replicate] at here
  split at here
  · exact (Option.some.inj here).symm
  · cases here

theorem cutWeight_cases (cso offset : Nat) (ks : List Nat) (i : Nat) :
    cutWeight cso offset ks i = 0 ∨ cutWeight cso offset ks i = 1 ∨
      cutWeight cso offset ks i = 256 := by
  induction ks generalizing offset i with
  | nil => exact .inl rfl
  | cons k ks ih =>
    rw [cutWeight, pairWeight]
    have byte := weight_cases i
    have rest := ih (offset + k / 2 * 2) (i - k)
    split
    · split <;> omega
    · exact rest

/-- The code and the image count every open byte for the same: two accepted files that
differ in that byte alone tell their weights apart. -/
theorem weights_agree {b : Build} {reads : Reads} {d : Bytes} {pe : PeInfo}
    (accepts : Accepts b d pe) (small : d.length < 2 ^ 32 - 2 ^ 16)
    (right : RightFor b reads d.length pe.checksumOffset) {i : Nat}
    (free : OpenAt pe.headerSize i) (inside : i < d.length) :
    cutWeight pe.checksumOffset 0 (fileCuts reads d.length) i =
      imageWeight pe.checksumOffset i := by
  have offset := accepts.checksumOffset
  have table := accepts.certTableOffset
  have room := accepts.room
  have whole := fileCuts_sum reads d.length
  let base := onesFrom (pe.headerSize + 26) d
  have len : base.length = d.length := onesFrom_length _ d
  obtain ⟨x, here⟩ : ∃ x, base[i]? = some x :=
    ⟨_, List.getElem?_eq_getElem (by omega)⟩
  have congruent : ∀ d' : Bytes, d'.length = d.length →
      (∀ j, ¬ OpenAt pe.headerSize j → d'[j]? = d[j]?) →
      (∀ j y, pe.headerSize + 26 ≤ j → d'[j]? = some y → 1 ≤ y.toNat ∧ y.toNat ≤ 2) →
      cutSum pe.checksumOffset 0 (fileCuts reads d.length) d' % maxWord =
        wordSum (overwrite d' pe.checksumOffset (zeros 4)) % maxWord := by
    intro d' len' same low
    obtain ⟨pe', accepted, layout⟩ := accepts.reopened len' same low
    have image := right.image d' pe' (parseBytes_eq_ok.mpr accepted) len' layout
    rw [checksumBytes_eq b reads (by omega) (by omega), imageChecksum, len'] at image
    have kept := Nat.add_left_cancel (Except.ok.inj image)
    rw [← carry_mod maxWord, kept, carry_mod]
  have below : ∀ j, ¬ OpenAt pe.headerSize j → base[j]? = d[j]? := fun j closed =>
    onesFrom_below (by simp only [OpenAt] at closed; omega)
  have first := congruent base len below fun j y above at_ => by
    rw [onesFrom_above above at_]
    decide
  have second := congruent (base.set i (x + 1)) (by rw [List.length_set, len])
    (fun j closed => by
      have other : i ≠ j := fun same => closed (same ▸ free)
      rw [List.getElem?_set_ne other, below j closed])
    (fun j y above at_ => by
      by_cases same : i = j
      · subst same
        rw [List.getElem?_set_self (by omega), onesFrom_above above here] at at_
        rw [← Option.some.inj at_]
        decide
      · rw [List.getElem?_set_ne same] at at_
        rw [onesFrom_above above at_]
        decide)
  have moved := cutSum_set pe.checksumOffset 0 (whole.trans len.symm) here (x + 1)
  have field : pe.checksumOffset + 4 ≤ base.length := by omega
  have moved' := imageSum_set field here (x + 1)
  have other : x.toNat ≠ (x + 1).toNat := by
    rw [UInt8.toNat_add]
    have := byte_toNat_lt x
    simp only [UInt8.toNat_one]
    omega
  have bound := byte_toNat_lt x
  have bound' := byte_toNat_lt (x + 1)
  have image : imageWeight pe.checksumOffset i = 0 ∨ imageWeight pe.checksumOffset i = 1 ∨
      imageWeight pe.checksumOffset i = 256 := by
    have byte := weight_cases i
    rw [imageWeight]
    split <;> omega
  simp only [maxWord] at first second
  rcases cutWeight_cases pe.checksumOffset 0 (fileCuts reads d.length) i with code | code | code <;>
    rcases image with image | image | image <;> rw [code] at moved <;> rw [image] at moved' <;>
    rw [code, image] <;> omega

section Cuts
variable {cso : Nat}

/-- At an odd offset no pair is skipped, and the byte after a low one is a high one. -/
theorem high_after_low {offset i : Nat} {ks : List Nat} (odd : cso % 2 = 1)
    (aligned : offset % 2 = 0) (low : cutWeight cso offset ks i = 1) (inside : i + 1 < ks.sum) :
    cutWeight cso offset ks (i + 1) = 256 := by
  induction ks generalizing offset i with
  | nil => cases inside
  | cons k ks ih =>
    rw [List.sum_cons] at inside
    rw [cutWeight, pairWeight] at low ⊢
    have byte := weight_cases i
    have next := weight_cases (i + 1)
    by_cases here : i < k
    · rw [if_pos here] at low
      split at low
      · cases low
      · rw [if_pos (by omega), if_neg (by omega)]
        omega
    · have back : i + 1 - k = i - k + 1 := by omega
      rw [if_neg here] at low
      rw [if_neg (by omega), back]
      exact ih (by omega) low (by omega)

theorem cutWeight_even {offset i : Nat} {ks : List Nat} (even : ∀ k ∈ ks, k % 2 = 0)
    (inside : i < ks.sum) : cutWeight cso offset ks i =
      if offset + i / 2 * 2 = cso ∨ offset + i / 2 * 2 = cso + 2 then 0 else weight i := by
  induction ks generalizing offset i with
  | nil => cases inside
  | cons k ks ih =>
    rw [List.sum_cons] at inside
    have here := even k List.mem_cons_self
    rw [cutWeight, pairWeight]
    by_cases first : i < k
    · have whole : ¬ (i % 2 = 0 ∧ i + 1 = k) := by omega
      simp only [if_pos first, whole, false_or]
    · have place : offset + k / 2 * 2 + (i - k) / 2 * 2 = offset + i / 2 * 2 := by omega
      have parity : weight (i - k) = weight i := by
        have := weight_cases i
        have := weight_cases (i - k)
        omega
      rw [if_neg first, ih (fun j hj => even j (List.mem_cons_of_mem k hj)) (by omega), place,
        parity]

def oddCuts (ks : List Nat) : Nat := ks.countP (· % 2 = 1)

def keptBytes (ks : List Nat) : Nat := (ks.map (· / 2 * 2)).sum

theorem kept_add_odd (ks : List Nat) : keptBytes ks + oddCuts ks = ks.sum := by
  induction ks with
  | nil => rfl
  | cons k ks ih =>
    have parity := Nat.mod_two_eq_zero_or_one k
    simp only [keptBytes, oddCuts, List.map_cons, List.sum_cons, List.countP_cons,
      decide_eq_true_eq] at ih ⊢
    split <;> omega

theorem kept_even (ks : List Nat) : keptBytes ks % 2 = 0 := by
  induction ks with
  | nil => rfl
  | cons k ks ih =>
    simp only [keptBytes, List.map_cons, List.sum_cons] at ih ⊢
    omega

theorem cutWeight_append {offset i : Nat} (ks js : List Nat) :
    cutWeight cso offset (ks ++ js) i = if i < ks.sum then cutWeight cso offset ks i
      else cutWeight cso (offset + keptBytes ks) js (i - ks.sum) := by
  induction ks generalizing offset i with
  | nil => rfl
  | cons k ks ih =>
    simp only [List.cons_append, cutWeight, List.sum_cons, keptBytes, List.map_cons]
    by_cases here : i < k
    · rw [if_pos here, if_pos (by omega), if_pos here]
    · rw [if_neg here, ih, keptBytes]
      by_cases before : i - k < ks.sum
      · rw [if_pos before, if_pos (by omega), if_neg here]
      · have place : offset + k / 2 * 2 + (ks.map (· / 2 * 2)).sum =
            offset + (k / 2 * 2 + (ks.map (· / 2 * 2)).sum) := Nat.add_assoc _ _ _
        rw [if_neg before, if_neg (by omega), place, Nat.sub_sub]

theorem odd_le_lost (offset : Nat) (ks : List Nat) :
    oddCuts ks ≤ Nat.count (fun i => cutWeight cso offset ks i = 0) ks.sum := by
  induction ks generalizing offset with
  | nil => exact Nat.le_refl 0
  | cons k ks ih =>
    have rest : (fun j => cutWeight cso offset (k :: ks) (k + j) = 0) =
        fun j => cutWeight cso (offset + k / 2 * 2) ks j = 0 := by
      funext j
      rw [cutWeight, if_neg (by omega), Nat.add_sub_cancel_left]
    have tail := ih (offset + k / 2 * 2)
    rw [List.sum_cons, Nat.count_add]
    simp only [rest]
    have first : (if k % 2 = 1 then 1 else 0) ≤
        Nat.count (fun i => cutWeight cso offset (k :: ks) i = 0) k := by
      split
      · rename_i odd
        obtain ⟨m, rfl⟩ : ∃ m, k = m + 1 := ⟨k - 1, by omega⟩
        have lost : cutWeight cso offset ((m + 1) :: ks) m = 0 := by
          rw [cutWeight, if_pos (Nat.lt_succ_self m), pairWeight, if_pos (.inl ⟨by omega, rfl⟩)]
        rw [Nat.count_succ, if_pos lost]
        exact Nat.le_add_left 1 _
      · exact Nat.zero_le _
    simp only [oddCuts, List.countP_cons, decide_eq_true_eq] at tail ⊢
    omega

theorem exists_last_odd {ks : List Nat} (some : ∃ k ∈ ks, k % 2 = 1) :
    ∃ before k after, ks = before ++ k :: after ∧ k % 2 = 1 ∧ ∀ j ∈ after, j % 2 = 0 := by
  induction ks with
  | nil =>
    obtain ⟨k, member, -⟩ := some
    cases member
  | cons k ks ih =>
    by_cases later : ∃ j ∈ ks, j % 2 = 1
    · obtain ⟨before, j, after, rfl, odd, even⟩ := ih later
      exact ⟨k :: before, j, after, rfl, odd, even⟩
    · have even : ∀ j ∈ ks, j % 2 = 0 := fun j member =>
        (Nat.mod_two_eq_zero_or_one j).resolve_right fun odd => later ⟨j, member, odd⟩
      obtain ⟨j, member, odd⟩ := some
      rcases List.mem_cons.mp member with rfl | member
      · exact ⟨[], j, ks, rfl, odd, even⟩
      · exact absurd ⟨j, member, odd⟩ later

variable {h n : Nat} {ks : List Nat}

theorem lost_le (header : 44 ≤ h) (field : cso = h + 88)
    (agree : ∀ i, OpenAt h i → i < n → cutWeight cso 0 ks i = imageWeight cso i) :
    Nat.count (fun i => cutWeight cso 0 ks i = 0) n ≤ 52 := by
  classical
  let few := Finset.Ico 0 2 ∪ Finset.Ico 44 64 ∪ Finset.Ico h (h + 26) ∪ Finset.Ico cso (cso + 4)
  have inside : {i ∈ Finset.range n | cutWeight cso 0 ks i = 0} ⊆ few := by
    intro i member
    obtain ⟨below, lost⟩ := Finset.mem_filter.mp member
    simp only [few, Finset.mem_union, Finset.mem_Ico]
    by_contra outside
    have same := agree i (by simp only [OpenAt]; omega) (Finset.mem_range.mp below)
    have byte := weight_cases i
    rw [lost, imageWeight, if_neg (by omega)] at same
    omega
  rw [Nat.count_eq_card_filter_range]
  calc Finset.card {i ∈ Finset.range n | cutWeight cso 0 ks i = 0}
      ≤ few.card := Finset.card_le_card inside
    _ ≤ (Finset.Ico 0 2).card + (Finset.Ico 44 64).card + (Finset.Ico h (h + 26)).card +
          (Finset.Ico cso (cso + 4)).card := by
        have first := Finset.card_union_le (Finset.Ico 0 2) (Finset.Ico 44 64)
        have second := Finset.card_union_le (Finset.Ico 0 2 ∪ Finset.Ico 44 64)
          (Finset.Ico h (h + 26))
        have third := Finset.card_union_le
          (Finset.Ico 0 2 ∪ Finset.Ico 44 64 ∪ Finset.Ico h (h + 26)) (Finset.Ico cso (cso + 4))
        simp only [few]
        omega
    _ = 52 := by
        simp only [Nat.card_Ico]
        omega

/-- Past the field, the last odd cut cannot be: what it loses or what it shifts into the
field would count. -/
theorem even_of_agree (header : 44 ≤ h) (field : cso = h + 88) (room : h + 176 ≤ n)
    (whole : ks.sum = n)
    (agree : ∀ i, OpenAt h i → i < n → cutWeight cso 0 ks i = imageWeight cso i) :
    cso % 2 = 0 ∧ ∀ k ∈ ks, k % 2 = 0 := by
  have rear : ∀ i, h + 26 ≤ i → i < n → cutWeight cso 0 ks i = imageWeight cso i :=
    fun i above => agree i (.inr (.inr above))
  have counts : ∀ i, i < cso ∨ cso + 4 ≤ i → imageWeight cso i = weight i := fun i out => by
    rw [imageWeight, if_neg (by omega)]
  have aligned : cso % 2 = 0 := by
    by_contra odd
    have before := rear (cso - 1) (by omega) (by omega)
    have here := rear cso (by omega) (by omega)
    have next : cso - 1 + 1 = cso := by omega
    have byte := weight_cases (cso - 1)
    rw [counts (cso - 1) (.inl (by omega))] at before
    have low : cutWeight cso 0 ks (cso - 1) = 1 := by omega
    have high := high_after_low (Nat.mod_two_ne_zero.mp odd) rfl low (by omega)
    rw [next, here, imageWeight, if_pos ⟨Nat.le_refl cso, by omega⟩] at high
    cases high
  refine ⟨aligned, ?_⟩
  by_contra some
  have cut : ∃ k ∈ ks, k % 2 = 1 := by
    by_contra none
    exact some fun k member =>
      (Nat.mod_two_eq_zero_or_one k).resolve_right fun odd => none ⟨k, member, odd⟩
  obtain ⟨before, k, after, rfl, odd, even⟩ := exists_last_odd cut
  have split : before ++ k :: after = (before ++ [k]) ++ after := by simp
  have total : (before ++ [k]).sum + after.sum = n := by
    rw [← List.sum_append, ← split, whole]
  have stop : (before ++ [k]).sum = before.sum + k := by simp
  have kept := kept_add_odd (before ++ [k])
  have kept2 := kept_even (before ++ [k])
  have losses : oddCuts (before ++ k :: after) = oddCuts (before ++ [k]) := by
    have none : oddCuts after = 0 := by
      rw [oddCuts, List.countP_eq_zero]
      intro j member
      simpa using even j member
    rw [split, oddCuts, List.countP_append]
    exact congrArg (oddCuts (before ++ [k]) + ·) none
  have one : 1 ≤ oddCuts (before ++ [k]) := by
    simp only [oddCuts, List.countP_append, List.countP_singleton, decide_eq_true_eq, if_pos odd]
    omega
  -- the byte that the last odd cut loses, and the bytes behind it
  have lost : cutWeight cso 0 (before ++ k :: after) (before.sum + k - 1) = 0 := by
    have last : before.sum + k - 1 - before.sum = k - 1 := by omega
    rw [cutWeight_append, if_neg (by omega), last, cutWeight, if_pos (by omega), pairWeight,
      if_pos (.inl ⟨by omega, by omega⟩)]
  have behind : ∀ i, before.sum + k ≤ i → i < n →
      cutWeight cso 0 (before ++ k :: after) i =
        if keptBytes (before ++ [k]) + (i - (before.sum + k)) / 2 * 2 = cso ∨
          keptBytes (before ++ [k]) + (i - (before.sum + k)) / 2 * 2 = cso + 2 then 0
        else weight (i - (before.sum + k)) := by
    intro i above inside
    rw [split, cutWeight_append, if_neg (by omega), stop, Nat.zero_add,
      cutWeight_even even (by omega)]
  have heavy : ∀ i, weight i ≠ 0 := fun i => by
    have := weight_cases i
    omega
  have open_ : ∀ i, cso + 4 ≤ i → i < n → cutWeight cso 0 (before ++ k :: after) i = weight i :=
    fun i above inside => by rw [rear i (by omega) inside, counts i (.inr above)]
  -- the last byte counts, so it stands behind the cut, at an even distance from it
  have last := open_ (n - 1) (by omega) (by omega)
  have inner : before.sum + k < n := by
    by_contra ends
    have same : before.sum + k - 1 = n - 1 := by omega
    rw [same, last] at lost
    exact heavy _ lost
  have even_start : (before.sum + k) % 2 = 0 := by
    have far := behind (n - 1) (by omega) (by omega)
    rw [last] at far
    split at far
    · exact absurd far (heavy _)
    · have := weight_cases (n - 1)
      have := weight_cases (n - 1 - (before.sum + k))
      omega
  -- the field as the code sees it lies as far behind the field as bytes were lost
  have few := lost_le header field agree
  have many : oddCuts (before ++ k :: after) ≤ Nat.count
      (fun i => cutWeight cso 0 (before ++ k :: after) i = 0) (before ++ k :: after).sum :=
    odd_le_lost 0 _
  rw [whole, losses] at many
  have seen := open_ (cso + 2 + oddCuts (before ++ [k])) (by omega) (by omega)
  by_cases past : before.sum + k ≤ cso + 2 + oddCuts (before ++ [k])
  · rw [behind _ past (by omega), if_pos (.inr (by omega))] at seen
    exact heavy _ seen.symm
  · rw [open_ _ (by omega) (by omega)] at lost
    exact heavy _ lost

end Cuts

/-- For the files of one length and layout the checksum is right exactly when the field is
at an even offset and every read returns an even number of bytes. -/
theorem rightFor_iff (b : Build) (reads : Reads) {d : Bytes} {pe : PeInfo}
    (accepted : parseBytes b d = .ok pe) (small : d.length < 2 ^ 32 - 2 ^ 16) :
    RightFor b reads d.length pe.checksumOffset ↔
      pe.checksumOffset % 2 = 0 ∧ ∀ k ∈ fileCuts reads d.length, k % 2 = 0 := by
  have accepts := parseBytes_eq_ok.mp accepted
  have long := accepts.dataEnd_le
  have room := accepts.room_of_small (by omega)
  have offset := accepts.checksumOffset
  constructor
  · intro right
    exact even_of_agree accepts.header_ge offset (by omega) (fileCuts_sum reads d.length)
      fun i free inside => weights_agree accepts small right free inside
  · rintro ⟨aligned, even⟩
    exact rightFor_of_even b small (by omega) aligned even

theorem rightFor_iff_small :
    RightFor .release uncut (smallPe 0 0).length 152 ↔
      152 % 2 = 0 ∧ ∀ k ∈ fileCuts uncut (smallPe 0 0).length, k % 2 = 0 :=
  rightFor_iff .release uncut (smallPe_unsigned .release) (by rw [smallPe_length]; decide)

/-- A file of 241 bytes, read at once: its last byte is not counted. -/
theorem odd_length_loses_byte : ¬ ∀ (b : Build) (reads : Reads) (d : Bytes) (pe : PeInfo),
    parseBytes b d = .ok pe → d.length < 2 ^ 32 - 2 ^ 16 →
    checksumBytes b reads d pe.checksumOffset = .ok (imageChecksum pe.checksumOffset d) := by
  intro claim
  have right := claim .release uncut (smallPe 0 0 ++ [1]) (smallFrame.info 0 0 241)
    (by decide +kernel) (by decide +kernel)
  exact absurd right (by decide +kernel)

end Rsigncode
