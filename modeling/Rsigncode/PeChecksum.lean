import Rsigncode.Lib.EndAround
import Rsigncode.PeRuns

/-! The stored checksum in closed form. The loop keeps an end-around-carry sum of the
words it has not skipped; what it skips is zero in the file the writer hands it. -/
namespace Rsigncode

open FileStore Window Number EndAround

def maxWord : Nat := 0xFFFF

/-- The PE image checksum: the words of the file with its checksum field zero, and the length. -/
def imageChecksum (cso : Nat) (d : Bytes) : Nat :=
  d.length + carry maxWord (wordSum (overwrite d cso (zeros 4)))

theorem carry_maxWord_le (n : Nat) : carry maxWord n ≤ 0xFFFF := carry_le (by decide) n

theorem imageChecksum_lt (cso : Nat) {d : Bytes} (small : d.length < 2 ^ 32 - 2 ^ 16) :
    imageChecksum cso d < 2 ^ 32 := by
  have low := carry_maxWord_le (wordSum (overwrite d cso (zeros 4)))
  rw [imageChecksum]
  omega

theorem fold_eq (c : Nat) :
    (c &&& 0xFFFF) + (c >>> 16) = c % (maxWord + 1) + c / (maxWord + 1) := by
  have low : c &&& 0xFFFF = c % 2 ^ 16 := Nat.and_two_pow_sub_one_eq_mod c 16
  rw [low, Nat.shiftRight_eq_div_pow]
  rfl

def pairWord (cso offset : Nat) (lo hi : UInt8) : Nat :=
  if offset = cso ∨ offset = cso + 2 then 0 else ofLe [lo, hi]

def pairSum (cso : Nat) : Nat → Bytes → Nat
  | offset, lo :: hi :: rest => pairWord cso offset lo hi + pairSum cso (offset + 2) rest
  | _, _ => 0

theorem pairWord_le (cso offset : Nat) (lo hi : UInt8) : pairWord cso offset lo hi ≤ maxWord := by
  rw [pairWord]
  split
  · exact Nat.zero_le _
  · exact ofLe_pair_le lo hi

theorem addWord_eq (b : Build) {offset val : Nat} (n : Nat) (word : val ≤ maxWord)
    (room : offset + 2 < 2 ^ 32) :
    (do
      let checksum ← b.add (carry maxWord n) val
      let checksum ← b.add (checksum &&& 0xFFFF) (checksum >>> 16)
      let offset ← b.add offset 2
      pure (checksum, offset) : Res (Nat × Nat)) = .ok (carry maxWord (n + val), offset + 2) := by
  have kept := carry_maxWord_le n
  have low : val ≤ 0xFFFF := word
  have folded := fold_le (c := carry maxWord n + val) (by omega)
  rw [Res.bind_ok (add_of_lt (by omega)),
    Res.bind_ok (add_of_lt (Nat.lt_of_le_of_lt folded (by decide))),
    Res.bind_ok (add_of_lt room), fold_eq, fold_carry_add n word]
  rfl

theorem checksumWord_eq (b : Build) {cso offset : Nat} (n : Nat) (lo hi : UInt8)
    (room : offset + 2 < 2 ^ 32) (field : cso + 2 < 2 ^ 32) :
    checksumWord b cso (carry maxWord n) offset lo hi =
      .ok (carry maxWord (n + pairWord cso offset lo hi), offset + 2) := by
  have word := pairWord_le cso offset lo hi
  rw [checksumWord, asU32_of_lt (Nat.lt_of_le_of_lt (Nat.le_add_right cso 2) field)]
  by_cases first : offset = cso
  · have none : pairWord cso offset lo hi = 0 := if_pos (.inl first)
    rw [none] at word ⊢
    rw [if_pos first]
    exact addWord_eq b n word room
  · rw [if_neg first, Res.bind_ok (add_of_lt field)]
    by_cases second : offset = cso + 2
    · have none : pairWord cso offset lo hi = 0 := if_pos (.inr second)
      rw [none] at word ⊢
      rw [second, beq_self_eq_true]
      exact addWord_eq b n word (second ▸ room)
    · have value : pairWord cso offset lo hi = ofLe [lo, hi] :=
        if_neg (not_or.mpr ⟨first, second⟩)
      rw [value] at word ⊢
      rw [beq_false_of_ne second]
      exact addWord_eq b n word room

/-- The buffer's words are added to the exact sum, of which the loop keeps the carry. -/
theorem checksumPairs_eq (b : Build) {cso : Nat} (field : cso + 2 < 2 ^ 32) (n offset : Nat)
    (buf : Bytes) (room : offset + buf.length < 2 ^ 32) :
    checksumPairs b cso (carry maxWord n, offset) buf =
      .ok (carry maxWord (n + pairSum cso offset buf), offset + buf.length / 2 * 2) := by
  induction offset, buf using pairSum.induct generalizing n with
  | case1 offset lo hi rest ih =>
    simp only [List.length_cons] at room
    have stop : offset + 2 + rest.length / 2 * 2 = offset + (rest.length + 1 + 1) / 2 * 2 := by
      omega
    rw [checksumPairs, checksumWord_eq b n lo hi (by omega) field]
    refine (ih (n + pairWord cso offset lo hi) (by omega)).trans ?_
    rw [pairSum, Nat.add_assoc n, stop]
    rfl
  | case2 buf offset short =>
    rcases buf with _ | ⟨lo, _ | ⟨hi, rest⟩⟩
    · rfl
    · simp [checksumPairs, pairSum, pure, Except.pure]
    · exact absurd rfl (short lo hi rest)

theorem refold_eq (b : Build) (n : Nat) :
    b.add (carry maxWord n &&& 0xFFFF) (carry maxWord n >>> 16) = .ok (carry maxWord n) := by
  have low := carry_maxWord_le n
  have same := fold_carry_add n (Nat.zero_le maxWord)
  simp only [Nat.add_zero] at same
  rw [← fold_eq] at same
  rw [add_of_lt (by omega), same]

theorem checksumOf_eq (b : Build) {cso : Nat} (field : cso + 2 < 2 ^ 32) {d : Bytes}
    (small : d.length < 2 ^ 32 - 2 ^ 16) :
    checksumOf b cso d = .ok (carry maxWord (pairSum cso 0 d) + d.length) := by
  have low := carry_maxWord_le (pairSum cso 0 d)
  have pairs := checksumPairs_eq b field 0 0 d (by omega)
  rw [carry_zero, Nat.zero_add] at pairs
  rw [checksumOf, Res.bind_ok pairs]
  dsimp only
  rw [Res.bind_ok (refold_eq b _), asU32_of_lt (by omega), add_of_lt (by omega)]

/-- Where the field is zero it makes no difference that its words are skipped, and none
that a field at an odd offset is not. -/
theorem pairSum_of_clear {cso offset : Nat} {d : Bytes} (even : d.length % 2 = 0)
    (clear : ∀ i x, d[i]? = some x → cso ≤ offset + i → offset + i < cso + 4 → x = 0) :
    pairSum cso offset d = wordSum d := by
  induction offset, d using pairSum.induct with
  | case1 offset lo hi rest ih =>
    have even' : rest.length % 2 = 0 := by
      simp only [List.length_cons] at even
      omega
    have tail := ih even' fun i x here low high =>
      clear (i + 2) x here (by omega) (by omega)
    rw [pairSum, wordSum, tail, pairWord]
    split
    · rename_i field
      have lo0 := clear 0 lo rfl (by omega) (by omega)
      have hi0 := clear 1 hi rfl (by omega) (by omega)
      rw [lo0, hi0]
      rfl
    · rfl
  | case2 d offset short =>
    rcases d with _ | ⟨lo, _ | ⟨hi, rest⟩⟩
    · rfl
    · exact absurd even (by simp)
    · exact absurd rfl (short lo hi rest)

namespace Frame
variable (F : Frame) {checksum entry body d : Bytes}

theorem checksumOf_clear (b : Build) (he : entry.length = 8)
    (even : (F.file (zeros 4) entry body).length % 2 = 0)
    (small : (F.file (zeros 4) entry body).length < 2 ^ 32 - 2 ^ 16) :
    checksumOf b F.checksumOffset (F.file (zeros 4) entry body) =
      .ok (imageChecksum F.checksumOffset (F.file (zeros 4) entry body)) := by
  have len : (F.file (zeros 4) entry body).length = _ := F.file_length (zeros_length 4) he
  have order := F.mid_start
  have field : At (F.file (zeros 4) entry body) F.checksumOffset (zeros 4) := F.at_checksum
  rw [checksumOf_eq b (by omega) small, imageChecksum,
    F.overwrite_checksum (zeros_length 4) (zeros_length 4), Nat.add_comm, pairSum_of_clear even]
  intro i x here low high
  have inside := field.getElem? (i := i - F.checksumOffset) (by rw [zeros_length]; omega)
  have back : F.checksumOffset + (i - F.checksumOffset) = i := by omega
  rw [back, here, zeros, List.getElem?_replicate] at inside
  split at inside
  · exact Option.some.inj inside
  · cases inside

theorem imageChecksum_file (hc : checksum.length = 4) :
    imageChecksum F.checksumOffset (F.file checksum entry body) =
      imageChecksum F.checksumOffset (F.file (zeros 4) entry body) := by
  have len : (F.file checksum entry body).length = (F.file (zeros 4) entry body).length := by
    simp only [file, List.length_append, hc, zeros_length]
  rw [imageChecksum, imageChecksum, len, F.overwrite_checksum hc (zeros_length 4),
    F.overwrite_checksum (zeros_length 4) (zeros_length 4)]

theorem signed_length_even (hc : checksum.length = 4) :
    (F.signed checksum body d).length % 2 = 0 := by
  have first := add_pad8 (F.certTableOffset + 8 + body.length)
  have second := add_pad8 d.length
  rw [F.signed_length hc, certLength]
  omega

end Frame

theorem Accepts.dataEnd_room {b : Build} {input output : File} {pe : PeInfo} {s : Store}
    {d : Bytes} (h : Accepts b (s.data input.path) pe) (unsigned : pe.sigpos = 0)
    (apart : input.path ≠ output.path) (empty : s.data output.path = [])
    (small : (((writeSignedPeTo b input output pe d).run s).2.data output.path).length <
      2 ^ 32 - 2 ^ 16) : pe.certTableOffset + 8 ≤ pe.dataEnd := by
  have grows := writeSignedPeTo_grows b input output pe d apart empty
  have bound := h.dataEnd_le
  have stop := PeInfo.dataEnd_unsigned unsigned
  rw [List.length_take, stop] at grows
  have room := h.room_of_small (by omega)
  have plus := pe32plusOffset_le pe.pe32plus
  have table := h.certTableOffset
  omega

/-- Signing stores the checksum of the file it has written, at any header offset. -/
theorem writeSignedPeTo_checksum (b : Build) {input output : File} {pe : PeInfo} {s : Store}
    (d : Bytes) (accepted : parseBytes b (s.data input.path) = .ok pe)
    (unsigned : pe.sigpos = 0) (apart : input.path ≠ output.path)
    (empty : s.data output.path = []) (full : s.reads = uncut)
    (small : (((writeSignedPeTo b input output pe d).run s).2.data output.path).length <
      2 ^ 32 - 2 ^ 16) :
    ∃ t, (writeSignedPeTo b input output pe d).run s = (.ok (), t) ∧
      imageChecksum pe.checksumOffset (t.data output.path) < 2 ^ 32 ∧
      slice (t.data output.path) pe.checksumOffset (pe.checksumOffset + 4) =
        le 4 (imageChecksum pe.checksumOffset (t.data output.path)) := by
  have accepts := parseBytes_eq_ok.mp accepted
  obtain ⟨F, checksum, entry, body, framed⟩ :=
    accepts.framed (accepts.dataEnd_room unsigned apart empty small)
  obtain ⟨r, t, stored, run, len, wrote, -, determined⟩ := writeSignedPeTo_run b F d
    framed.checksum_length framed.entry_length apart empty framed.checksumOffset
    framed.certTableOffset framed.data
  rw [run] at small
  dsimp only at small
  rw [wrote.data] at small
  have even : (F.signed (zeros 4) body d).length % 2 = 0 := F.signed_length_even (zeros_length 4)
  have same : (F.signed (zeros 4) body d).length = (F.signed stored body d).length := by
    rw [F.signed_length (zeros_length 4), F.signed_length len]
  have sum := F.checksumOf_clear b (directoryEntry_length _ _) even (same.symm ▸ small)
  have inside : pe.dataEnd ≤ (s.data input.path).length :=
    Nat.le_trans accepts.dataEnd_le.1 accepts.dataEnd_le.2
  have pairs : WholePairs (afterCopy s.reads pe.dataEnd) (F.signed (zeros 4) body d).length := by
    rw [full]
    exact wholePairs_uncut _
  obtain ⟨done, value⟩ := storedChecksum_ok (determined inside pairs) sum
  refine ⟨t, by rw [run, done], ?_⟩
  rw [wrote.data, framed.checksumOffset]
  refine ⟨imageChecksum_lt _ small, ?_⟩
  have field : At (F.signed stored body d) F.checksumOffset stored := F.at_checksum
  rw [field.slice_eq (by rw [len]), value]
  exact congrArg (le 4) (F.imageChecksum_file (le_length 4 _)).symm

theorem writeSignedPeTo_checksum_small :
    ∃ t, (writeSignedPeTo .release input output (smallFrame.info 0 0 240) [1, 2, 3]).run
        (workspace (smallPe 0 0) uncut) = (.ok (), t) ∧
      imageChecksum 152 (t.data output.path) < 2 ^ 32 ∧
      slice (t.data output.path) 152 156 = le 4 (imageChecksum 152 (t.data output.path)) :=
  writeSignedPeTo_checksum .release [1, 2, 3] (s := workspace (smallPe 0 0) uncut)
    (by rw [workspace_input]; exact smallPe_unsigned .release) rfl input_ne_output
    (workspace_output _ _) rfl (by decide +kernel)

end Rsigncode
