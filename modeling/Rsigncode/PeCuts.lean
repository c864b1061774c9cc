import Mathlib.Algebra.BigOperators.Ring.List
import Rsigncode.PeChecksum

/-! The checksum under reads that are cut. Each read is paired up on its own: an odd
last byte of it is lost and the offset falls behind, so the sum is one over the cuts. -/
namespace Rsigncode

open FileStore Window Number EndAround

def cutSum (cso : Nat) : Nat → List Nat → Bytes → Nat
  | _, [], _ => 0
  | offset, k :: ks, d =>
    pairSum cso offset (d.take k) + cutSum cso (offset + k / 2 * 2) ks (d.drop k)

theorem readSizes_sum (rounds : Nat) (reads : Reads) {left : Nat} (enough : left ≤ rounds) :
    (readSizes rounds reads left).sum = left := by
  induction rounds generalizing reads left with
  | zero => exact (Nat.le_zero.mp enough).symm
  | succ rounds ih =>
    rw [readSizes]
    split
    · rename_i none
      exact none.symm
    · rename_i some
      have asked : 0 < min bufferSize left := by simp only [bufferSize]; omega
      have moved := cut_pos (reads 0) asked
      have within := cut_le (reads 0) (min bufferSize left)
      rw [List.sum_cons, ih _ (by omega)]
      omega

theorem fileCuts_sum (reads : Reads) (n : Nat) : (fileCuts reads n).sum = n :=
  readSizes_sum _ reads (Nat.le_succ n)

/-- However the reads are cut, the loop keeps the carry of the sum over the cuts. -/
theorem checksumLoop_cuts (b : Build) {cso : Nat} (field : cso + 2 < 2 ^ 32) (rounds : Nat)
    (f : File) (n offset : Nat) (s : Store)
    (room : offset + ((s.data f.path).length - f.pos) < 2 ^ 32) :
    ∃ stop t, (checksumLoop b cso rounds f (carry maxWord n, offset)).run s =
        (.ok (carry maxWord (n + cutSum cso offset
          (readSizes rounds s.reads ((s.data f.path).length - f.pos))
          ((s.data f.path).drop f.pos)), stop), t) ∧ SameFiles s t := by
  induction rounds generalizing f n offset s with
  | zero => exact ⟨offset, s, rfl, rfl⟩
  | succ rounds ih =>
    rw [readSizes]
    generalize left : (s.data f.path).length - f.pos = m at room ⊢
    have run : (f.read bufferSize : Proc _).run s =
        (.ok (slice (s.data f.path) f.pos (f.pos + cut (s.reads 0) (min bufferSize m)),
          f.seek (f.pos + cut (s.reads 0) (min bufferSize m))),
        { s with reads := fun i => s.reads (i + 1) }) := by
      rw [← left]
      rfl
    have within := cut_le (s.reads 0) (min bufferSize m)
    have moves := cut_pos (n := min bufferSize m) (s.reads 0)
    generalize cut (s.reads 0) (min bufferSize m) = k at run within moves ⊢
    have len : (slice (s.data f.path) f.pos (f.pos + k)).length = k := by
      rw [slice_length]
      omega
    by_cases none : m = 0
    · have empty : slice (s.data f.path) f.pos (f.pos + k) = [] :=
        List.length_eq_zero_iff.mp (by omega)
      rw [if_pos none]
      exact ⟨offset, _, checksumLoop_stop rounds _ run empty, rfl⟩
    · have some : slice (s.data f.path) f.pos (f.pos + k) ≠ [] := by
        have moved := moves (by simp only [bufferSize]; omega)
        exact List.length_pos_iff.mp (by omega)
      have pairs := checksumPairs_eq b field n offset (slice (s.data f.path) f.pos (f.pos + k))
        (by omega)
      have window : slice (s.data f.path) f.pos (f.pos + k) =
          ((s.data f.path).drop f.pos).take k := by
        rw [slice, Nat.add_sub_cancel_left]
      have next : (s.data f.path).length - (f.pos + k) = m - k := by omega
      have room' : offset + k / 2 * 2 + ((s.data f.path).length - (f.pos + k)) < 2 ^ 32 := by omega
      rw [len, window] at pairs
      rw [window] at run some
      obtain ⟨stop, t, rest, same⟩ := ih (f.seek (f.pos + k))
        (n + pairSum cso offset (((s.data f.path).drop f.pos).take k)) (offset + k / 2 * 2)
        { s with reads := fun i => s.reads (i + 1) } room'
      refine ⟨stop, t, (checksumLoop_next rounds run some pairs).trans (rest.trans ?_), same⟩
      have data : ({ s with reads := fun i => s.reads (i + 1) } : Store).data f.path =
          s.data f.path := rfl
      rw [if_neg none, cutSum, List.drop_drop, ← Nat.add_assoc, seek_path, seek_pos, data, next]

def checksumBytes (b : Build) (reads : Reads) (d : Bytes) (cso : Nat) : Res Nat :=
  ((peCalcChecksum b input cso).run (workspace d reads)).1

theorem checksumBytes_eq (b : Build) (reads : Reads) {cso : Nat} (field : cso + 2 < 2 ^ 32)
    {d : Bytes} (small : d.length < 2 ^ 32 - 2 ^ 16) :
    checksumBytes b reads d cso =
      .ok (d.length + carry maxWord (cutSum cso 0 (fileCuts reads d.length) d)) := by
  have data := workspace_input d reads
  obtain ⟨stop, t, run, -⟩ := checksumLoop_cuts b field (d.length + 1) (input.seek 0) 0 0
    (workspace d reads) (by rw [seek_path, data]; omega)
  simp only [seek_path, seek_pos, data, Nat.sub_zero, List.drop_zero, Nat.zero_add,
    carry_zero] at run
  have low := carry_maxWord_le (cutSum cso 0 (fileCuts reads d.length) d)
  have value : (peCalcChecksum b input cso).run (workspace d reads) =
      (.ok (carry maxWord (cutSum cso 0 (fileCuts reads d.length) d) + d.length), t) := by
    rw [peCalcChecksum, Prog.bind_ok (seekEnd_eq_ok.mpr ⟨rfl, rfl⟩)]
    simp only [seek_pos, seek_seek, data]
    rw [Prog.bind_ok run]
    dsimp only
    rw [Prog.bind_ok (t := t) (by rw [refold_eq]; rfl), asU32_of_lt (by omega)]
    exact congrArg (·, t)
      (add_of_lt (x := carry maxWord (cutSum cso 0 (fileCuts reads d.length) d)) (by omega))
  rw [checksumBytes, value, Nat.add_comm]

theorem pairSum_append (cso offset : Nat) {xs : Bytes} (ys : Bytes) (even : xs.length % 2 = 0) :
    pairSum cso offset (xs ++ ys) =
      pairSum cso offset xs + pairSum cso (offset + xs.length) ys := by
  induction offset, xs using pairSum.induct with
  | case1 offset lo hi rest ih =>
    have even' : rest.length % 2 = 0 := by
      simp only [List.length_cons] at even
      omega
    have stop : offset + (rest.length + 1 + 1) = offset + 2 + rest.length := by omega
    simp only [List.cons_append, pairSum, List.length_cons]
    rw [ih even', stop, Nat.add_assoc (pairWord cso offset lo hi)]
  | case2 xs offset short =>
    rcases xs with _ | ⟨lo, _ | ⟨hi, rest⟩⟩
    · exact (Nat.zero_add _).symm
    · exact absurd even (by simp)
    · exact absurd rfl (short lo hi rest)

theorem cutSum_even {cso offset : Nat} {ks : List Nat} {d : Bytes} (even : ∀ k ∈ ks, k % 2 = 0)
    (whole : ks.sum = d.length) : cutSum cso offset ks d = pairSum cso offset d := by
  induction ks generalizing offset d with
  | nil =>
    have none : d = [] := List.length_eq_zero_iff.mp whole.symm
    rw [none]
    rfl
  | cons k ks ih =>
    rw [List.sum_cons] at whole
    have here := even k List.mem_cons_self
    have len : (d.take k).length = k := List.length_take_of_le (by omega)
    have step : offset + k / 2 * 2 = offset + (d.take k).length := by omega
    have aligned : (d.take k).length % 2 = 0 := by rw [len, here]
    have split := pairSum_append cso offset (d.drop k) aligned
    rw [List.take_append_drop] at split
    rw [cutSum, ih (fun j hj => even j (List.mem_cons_of_mem k hj))
      (by rw [List.length_drop]; omega), split, step]

/-- At an even offset the field is skipped whole, so its bytes do not count. -/
theorem pairSum_congr {cso offset : Nat} {d d' : Bytes} (len : d.length = d'.length)
    (parity : offset % 2 = cso % 2)
    (same : ∀ i, ¬ (cso ≤ offset + i ∧ offset + i < cso + 4) → d[i]? = d'[i]?) :
    pairSum cso offset d = pairSum cso offset d' := by
  induction offset, d using pairSum.induct generalizing d' with
  | case1 offset lo hi rest ih =>
    rcases d' with _ | ⟨lo', _ | ⟨hi', rest'⟩⟩
    · cases len
    · cases len
    · have tail : pairSum cso (offset + 2) rest = pairSum cso (offset + 2) rest' :=
        ih (by simpa using len) (by omega) fun i out => same (i + 2) (by omega)
      rw [pairSum, pairSum, tail, pairWord, pairWord]
      split
      · rfl
      · have lows : lo = lo' := Option.some.inj (same 0 (by omega))
        have highs : hi = hi' := Option.some.inj (same 1 (by omega))
        rw [lows, highs]
  | case2 d offset short =>
    rcases d with _ | ⟨lo, _ | ⟨hi, rest⟩⟩
    · rw [List.length_eq_zero_iff.mp len.symm]
    · rcases d' with _ | ⟨lo', _ | ⟨hi', rest'⟩⟩
      · cases len
      · simp [pairSum]
      · cases len
    · exact absurd rfl (short lo hi rest)

theorem pairSum_zeroed {cso : Nat} {d : Bytes} (aligned : cso % 2 = 0) (even : d.length % 2 = 0)
    (inside : cso + 4 ≤ d.length) :
    pairSum cso 0 d = wordSum (overwrite d cso (zeros 4)) := by
  have at_ : ∀ i, (overwrite d cso (zeros 4))[i]? =
      if cso ≤ i ∧ i < cso + 4 then (zeros 4)[i - cso]? else d[i]? := fun i => by
    rw [overwrite_getElem? _ (by omega), zeros_length]
  have len : d.length = (overwrite d cso (zeros 4)).length :=
    (overwrite_length (by rwa [zeros_length])).symm
  rw [pairSum_congr len aligned.symm (fun i out => by rw [at_, if_neg (by omega)]),
    pairSum_of_clear (len ▸ even)]
  intro i x here low high
  rw [at_, if_pos (by omega), zeros, List.getElem?_replicate] at here
  split at here
  · exact (Option.some.inj here).symm
  · cases here

/-- Under these reads the checksum of every accepted file of `n` bytes with its field at
`cso` is the image checksum, and is found again once it has been stored. -/
structure RightFor (b : Build) (reads : Reads) (n cso : Nat) : Prop where
  image : ∀ d pe, parseBytes b d = .ok pe → d.length = n → pe.checksumOffset = cso →
    checksumBytes b reads d cso = .ok (imageChecksum cso d)
  stored : ∀ d pe v, parseBytes b d = .ok pe → d.length = n → pe.checksumOffset = cso →
    checksumBytes b reads d cso = .ok v →
    checksumBytes b reads (overwrite d cso (le 4 v)) cso = .ok v

theorem checksumBytes_of_even (b : Build) {reads : Reads} {cso : Nat} {d : Bytes}
    (small : d.length < 2 ^ 32 - 2 ^ 16) (inside : cso + 4 ≤ d.length) (aligned : cso % 2 = 0)
    (even : ∀ k ∈ fileCuts reads d.length, k % 2 = 0) :
    checksumBytes b reads d cso = .ok (imageChecksum cso d) := by
  have whole := fileCuts_sum reads d.length
  have length_even : d.length % 2 = 0 := by
    have dvd : 2 ∣ (fileCuts reads d.length).sum :=
      List.dvd_sum fun k hk => Nat.dvd_of_mod_eq_zero (even k hk)
    omega
  rw [checksumBytes_eq b reads (by omega) small, cutSum_even even whole,
    pairSum_zeroed aligned length_even inside, imageChecksum]

theorem rightFor_of_even (b : Build) {reads : Reads} {n cso : Nat} (small : n < 2 ^ 32 - 2 ^ 16)
    (inside : cso + 4 ≤ n) (aligned : cso % 2 = 0) (even : ∀ k ∈ fileCuts reads n, k % 2 = 0) :
    RightFor b reads n cso := by
  have image : ∀ d : Bytes, d.length = n →
      checksumBytes b reads d cso = .ok (imageChecksum cso d) := by
    rintro d rfl
    exact checksumBytes_of_even b small inside aligned even
  refine ⟨fun d pe _ len _ => image d len, fun d pe v _ len _ computed => ?_⟩
  rw [image d len] at computed
  have stored : (overwrite d cso (le 4 v)).length = d.length :=
    overwrite_length (by rw [le_length]; omega)
  rw [image _ (stored.trans len), ← computed, imageChecksum, imageChecksum, stored,
    overwrite_overwrite (by rw [le_length]; omega) (by rw [le_length, zeros_length])]

end Rsigncode
