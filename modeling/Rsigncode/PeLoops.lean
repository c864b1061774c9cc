import Rsigncode.Pe

/-! The three chunked loops of the PE code. Hashing and copying do not depend on
how the reads are split; the checksum does, so its value is given for reads that
tear no pair, and its success and the untouched files for every split. -/
namespace Rsigncode

open FileStore Window Number

theorem hashLoop_run (rounds : Nat) (f : File) (hasher : Hasher) (remaining : Nat) (s : Store)
    (enough : remaining ≤ rounds) :
    ∃ t, (hashLoop rounds f hasher remaining).run s =
        (.ok (hasher ++ slice (s.data f.path) f.pos (f.pos + remaining)), t) ∧
      SameFiles s t := by
  induction rounds generalizing f hasher remaining s with
  | zero =>
    have none : remaining = 0 := by omega
    exact ⟨s, by simp [hashLoop, none, slice_empty], rfl⟩
  | succ rounds ih =>
    by_cases none : remaining = 0
    · exact ⟨s, by simp [hashLoop, none, slice_empty], rfl⟩
    · have asked : 0 < min remaining bufferSize := by simp only [bufferSize]; omega
      obtain ⟨buf, t, run, same, within, next, eof⟩ := read_run (ε := Fault) f s asked
      simp only [hashLoop, if_neg none, Prog.bind_ok run]
      by_cases empty : buf = []
      · exact ⟨t, by simp [empty, slice_past _ (eof empty)], same⟩
      · have moved := List.length_pos_iff.mpr empty
        obtain ⟨u, rest, same'⟩ := ih (f.seek (f.pos + buf.length)) (hasher.update buf)
          (remaining - buf.length) t (by omega)
        refine ⟨u, ?_, SameFiles.trans s t u same same'⟩
        have stop : f.pos + buf.length + (remaining - buf.length) = f.pos + remaining := by omega
        have joined := slice_append (b := s.data f.path) (s := f.pos) (m := f.pos + buf.length)
          (e := f.pos + remaining) (by omega) (by omega)
        rw [← next] at joined
        rw [if_neg empty, rest]
        simp only [seek_path, seek_pos, data_congr same, Hasher.update, List.append_assoc, stop,
          joined]

/-- Whatever the reads return, the hasher is fed the bytes of the range in order. -/
theorem hashRange_run (f : File) (hasher : Hasher) (start stop : Nat) (s : Store) :
    ∃ t, (hashRange f hasher start stop).run s =
        (.ok (hasher ++ slice (s.data f.path) start stop), t) ∧ SameFiles s t := by
  by_cases empty : stop ≤ start
  · exact ⟨s, by simp [hashRange, empty, slice_empty], rfl⟩
  · obtain ⟨t, run, same⟩ := hashLoop_run (stop - start) (f.seek start) hasher (stop - start) s
      (Nat.le_refl _)
    have stop' : start + (stop - start) = stop := by omega
    refine ⟨t, ?_, same⟩
    simpa only [hashRange, if_neg empty, seek_path, seek_pos, stop'] using run

theorem copyLoop_run (rounds : Nat) (src dst : File) (remaining : Nat) (s : Store)
    (apart : src.path ≠ dst.path) (enough : remaining ≤ rounds) :
    ∃ t, (copyLoop rounds src dst remaining).run s = (.ok (), t) ∧
      Wrote s dst.path (overwrite (s.data dst.path) dst.pos
        (slice (s.data src.path) src.pos (src.pos + remaining))) t := by
  induction rounds generalizing src dst remaining s with
  | zero =>
    have none : remaining = 0 := by omega
    refine ⟨s, by simp [copyLoop], ?_⟩
    simpa [none, slice_empty, overwrite] using wrote_sameFiles rfl dst.path
  | succ rounds ih =>
    by_cases none : remaining = 0
    · refine ⟨s, by simp [copyLoop, none], ?_⟩
      simpa [none, slice_empty, overwrite] using wrote_sameFiles rfl dst.path
    · have asked : 0 < min remaining bufferSize := by simp only [bufferSize]; omega
      obtain ⟨buf, t, run, same, within, next, eof⟩ := read_run (ε := Fault) src s asked
      simp only [copyLoop, if_neg none, Prog.bind_ok run]
      by_cases empty : buf = []
      · refine ⟨t, by simp [empty], ?_⟩
        simpa [slice_past _ (eof empty), overwrite] using wrote_sameFiles same dst.path
      · have moved := List.length_pos_iff.mpr empty
        rw [if_neg empty, Prog.bind_ok (writeAll_run dst buf t)]
        have wrote := wrote_setData t dst.path (overwrite (t.data dst.path) dst.pos buf)
        obtain ⟨u, rest, wrote'⟩ := ih (src.seek (src.pos + buf.length))
          (dst.seek (dst.pos + buf.length)) (remaining - buf.length) _ apart (by omega)
        refine ⟨u, rest, ?_⟩
        have stop : src.pos + buf.length + (remaining - buf.length) = src.pos + remaining := by
          omega
        have joined := slice_append (b := s.data src.path) (s := src.pos)
          (m := src.pos + buf.length) (e := src.pos + remaining) (by omega) (by omega)
        rw [← next] at joined
        have all := ((wrote_sameFiles same dst.path).trans wrote).trans wrote'
        simpa only [seek_path, seek_pos, data_setData, data_setData_ne _ apart, data_congr same,
          stop, overwrite_append, joined] using all

theorem copyRange_run (src dst : File) (start stop : Nat) (s : Store)
    (apart : src.path ≠ dst.path) :
    ∃ t, (copyRange src dst start stop).run s = (.ok (), t) ∧
      Wrote s dst.path
        (overwrite (s.data dst.path) start (slice (s.data src.path) start stop)) t := by
  by_cases empty : stop ≤ start
  · refine ⟨s, by simp [copyRange, empty], ?_⟩
    simpa [empty, slice_empty, overwrite] using wrote_sameFiles rfl dst.path
  · obtain ⟨t, run, wrote⟩ := copyLoop_run (stop - start) (src.seek start) (dst.seek start)
      (stop - start) s apart (Nat.le_refl _)
    have stop' : start + (stop - start) = stop := by omega
    refine ⟨t, by simpa only [copyRange, if_neg empty] using run, ?_⟩
    simpa only [seek_path, seek_pos, stop'] using wrote

theorem copyLoop_self (rounds : Nat) (src dst : File) (remaining : Nat) (s : Store)
    (path : src.path = dst.path) (pos : src.pos = dst.pos) :
    ∃ t, (copyLoop rounds src dst remaining).run s = (.ok (), t) ∧
      Wrote s dst.path (s.data dst.path) t := by
  induction rounds generalizing src dst remaining s with
  | zero => exact ⟨s, rfl, wrote_sameFiles rfl dst.path⟩
  | succ rounds ih =>
    by_cases none : remaining = 0
    · exact ⟨s, by simp [copyLoop, none], wrote_sameFiles rfl dst.path⟩
    · have asked : 0 < min remaining bufferSize := by simp only [bufferSize]; omega
      obtain ⟨buf, t, run, same, within, next, eof⟩ := read_run (ε := Fault) src s asked
      simp only [copyLoop, if_neg none, Prog.bind_ok run]
      by_cases empty : buf = []
      · exact ⟨t, by simp [empty], wrote_sameFiles same dst.path⟩
      · rw [if_neg empty, Prog.bind_ok (writeAll_run dst buf t)]
        have wrote := wrote_setData t dst.path (overwrite (t.data dst.path) dst.pos buf)
        have back : overwrite (t.data dst.path) dst.pos buf = s.data dst.path := by
          rw [data_congr same, next, path, pos, overwrite_slice_self]
        obtain ⟨u, rest, wrote'⟩ := ih (src.seek (src.pos + buf.length))
          (dst.seek (dst.pos + buf.length)) (remaining - buf.length) _ path
          (congrArg (· + buf.length) pos)
        refine ⟨u, rest, ?_⟩
        rw [seek_path, data_setData, back] at wrote'
        rw [back] at wrote
        exact ((wrote_sameFiles same dst.path).trans wrote).trans wrote'

theorem copyRange_self (src dst : File) (start stop : Nat) (s : Store)
    (path : src.path = dst.path) :
    ∃ t, (copyRange src dst start stop).run s = (.ok (), t) ∧
      Wrote s dst.path (s.data dst.path) t := by
  by_cases empty : stop ≤ start
  · exact ⟨s, by simp [copyRange, empty], wrote_sameFiles rfl dst.path⟩
  · obtain ⟨t, run, wrote⟩ := copyLoop_self (stop - start) (src.seek start) (dst.seek start)
      (stop - start) s path rfl
    exact ⟨t, by simpa only [copyRange, if_neg empty] using run, wrote⟩

theorem fold_le {c : Nat} (h : c ≤ 0x1FFFE) : (c &&& 0xFFFF) + (c >>> 16) ≤ 0xFFFF := by
  have low : c &&& 0xFFFF = c % 2 ^ 16 := Nat.and_two_pow_sub_one_eq_mod c 16
  rw [low, Nat.shiftRight_eq_div_pow]
  omega

theorem ofLe_pair_le (lo hi : UInt8) : ofLe [lo, hi] ≤ 0xFFFF := by
  have h := ofLe_lt [lo, hi]
  simp only [List.length_cons, List.length_nil] at h
  omega

theorem checksumWord_run (b : Build) {cso checksum offset : Nat} (lo hi : UInt8)
    (small : checksum ≤ 0xFFFF) (room : offset + 2 < 2 ^ 32) (field : asU32 cso + 2 < 2 ^ 32) :
    ∃ next, checksumWord b cso checksum offset lo hi = .ok (next, offset + 2) ∧
      next ≤ 0xFFFF := by
  have sum : ∀ val, val ≤ 0xFFFF → ∃ next, next ≤ 0xFFFF ∧
      (do
        let checksum ← b.add checksum val
        let checksum ← b.add (checksum &&& 0xFFFF) (checksum >>> 16)
        let offset ← b.add offset 2
        pure (checksum, offset) : Res (Nat × Nat)) = .ok (next, offset + 2) := by
    intro val hval
    have folded := fold_le (c := checksum + val) (by omega)
    have first : checksum + val < 2 ^ 32 := by omega
    refine ⟨_, folded, ?_⟩
    simp only [add_of_lt first, add_of_lt room,
      add_of_lt (Nat.lt_of_le_of_lt folded (by decide)), bind, Except.bind, pure, Except.pure]
  have word := ofLe_pair_le lo hi
  simp only [checksumWord, add_of_lt field]
  split
  · obtain ⟨next, hnext, run⟩ := sum 0 (by omega)
    exact ⟨next, run, hnext⟩
  · obtain ⟨next, hnext, run⟩ := sum (if offset == asU32 cso + 2 then 0
      else ofLe [lo, hi]) (by split <;> omega)
    exact ⟨next, run, hnext⟩

theorem checksumPairs_run (b : Build) {cso : Nat} (field : asU32 cso + 2 < 2 ^ 32)
    (state : Nat × Nat) (buf : Bytes) (small : state.1 ≤ 0xFFFF)
    (room : state.2 + buf.length < 2 ^ 32) :
    ∃ next, checksumPairs b cso state buf = .ok next ∧ next.1 ≤ 0xFFFF ∧
      next.2 ≤ state.2 + buf.length := by
  induction state, buf using checksumPairs.induct with
  | case1 checksum offset lo hi rest ih =>
    simp only [List.length_cons] at room small
    have more : offset + 2 < 2 ^ 32 := by omega
    obtain ⟨next, word, hnext⟩ := checksumWord_run b lo hi small more field
    obtain ⟨last, pairs, hlast, hoffset⟩ := ih (next, offset + 2) hnext
      (by simp only []; omega)
    refine ⟨last, ?_, hlast, ?_⟩
    · simpa only [checksumPairs, word, bind, Except.bind] using pairs
    · simp only [List.length_cons] at hoffset ⊢
      omega
  | case2 buf next short =>
    refine ⟨next, ?_, small, Nat.le_add_right _ _⟩
    cases buf with
    | nil => rfl
    | cons lo rest =>
      cases rest with
      | nil => rfl
      | cons hi rest => exact absurd rfl (short _ _ lo hi rest rfl)

theorem checksumPairs_release (cso : Nat) (state : Nat × Nat) (d : Bytes) :
    ∃ next, checksumPairs .release cso state d = .ok next := by
  induction state, d using checksumPairs.induct with
  | case1 checksum offset lo hi rest ih =>
    have word : ∃ next, checksumWord .release cso checksum offset lo hi = .ok next := by
      simp only [checksumWord, add_release]
      split <;> exact ⟨_, rfl⟩
    obtain ⟨next, word⟩ := word
    obtain ⟨last, pairs⟩ := ih next
    exact ⟨last, by rw [checksumPairs, Res.bind_ok word, pairs]⟩
  | case2 d next short =>
    refine ⟨next, ?_⟩
    cases d with
    | nil => rfl
    | cons lo rest =>
      cases rest with
      | nil => rfl
      | cons hi rest => exact absurd rfl (short _ _ lo hi rest rfl)

theorem checksumPairs_append (b : Build) (cso : Nat) (state : Nat × Nat) (xs ys : Bytes)
    (aligned : xs.length % 2 = 0 ∨ ys = []) :
    checksumPairs b cso state (xs ++ ys) =
      checksumPairs b cso state xs >>= fun next => checksumPairs b cso next ys := by
  induction state, xs using checksumPairs.induct with
  | case1 checksum offset lo hi rest ih =>
    have aligned' : rest.length % 2 = 0 ∨ ys = [] := by
      simp only [List.length_cons, Nat.add_assoc, Nat.add_mod_right] at aligned
      exact aligned
    simp only [List.cons_append, checksumPairs]
    cases checksumWord b cso checksum offset lo hi with
    | error e => rfl
    | ok next => exact ih next aligned'
  | case2 xs state short =>
    cases xs with
    | nil => rfl
    | cons lo rest =>
      cases rest with
      | nil =>
        have none : ys = [] := by simpa using aligned
        subst none
        rfl
      | cons hi rest => exact absurd rfl (short _ _ lo hi rest rfl)

theorem checksumLoop_run (b : Build) {cso : Nat} (field : asU32 cso + 2 < 2 ^ 32)
    (rounds : Nat) (f : File) (state : Nat × Nat) (s : Store) (small : state.1 ≤ 0xFFFF)
    (room : state.2 + ((s.data f.path).length - f.pos) < 2 ^ 32) :
    ∃ next t, (checksumLoop b cso rounds f state).run s = (.ok next, t) ∧ SameFiles s t ∧
      next.1 ≤ 0xFFFF := by
  induction rounds generalizing f state s with
  | zero => exact ⟨state, s, rfl, rfl, small⟩
  | succ rounds ih =>
    have asked : 0 < bufferSize := by decide
    obtain ⟨buf, t, run, same, within, next, eof⟩ := read_run (ε := Fault) f s asked
    simp only [checksumLoop, Prog.bind_ok run]
    by_cases empty : buf = []
    · exact ⟨state, t, by simp [empty], same, small⟩
    · have inside : buf.length ≤ (s.data f.path).length - f.pos := by
        have h := congrArg List.length next
        rw [slice_length] at h
        omega
      obtain ⟨mid, pairs, hmid, hoffset⟩ := checksumPairs_run b field state buf small (by omega)
      obtain ⟨last, u, rest, same', hlast⟩ := ih (f.seek (f.pos + buf.length)) mid t hmid
        (by simp only [seek_path, seek_pos, data_congr same]; omega)
      refine ⟨last, u, ?_, SameFiles.trans s t u same same', hlast⟩
      rw [if_neg empty, Prog.bind_ok (t := t) (a := mid) (by rw [pairs]; rfl), rest]

/-- However the reads are split, the checksum of a file that leaves room for the
final additions is computed, and no file changes. -/
theorem peCalcChecksum_run (b : Build) {cso : Nat} (field : asU32 cso + 2 < 2 ^ 32) (f : File)
    (s : Store) (room : (s.data f.path).length < 2 ^ 32 - 2 ^ 16) :
    ∃ v t, (peCalcChecksum b f cso).run s = (.ok v, t) ∧ SameFiles s t := by
  obtain ⟨last, t, run, same, small⟩ := checksumLoop_run b field
    ((s.data f.path).length + 1) (f.seek 0) (0, 0) s (by simp)
    (by simp only [seek_path, seek_pos]; omega)
  have folded := fold_le (c := last.1) (by omega)
  have len := asU32_le (s.data f.path).length
  refine ⟨(last.1 &&& 0xFFFF) + (last.1 >>> 16) + asU32 (s.data f.path).length, t, ?_, same⟩
  simp only [peCalcChecksum, Prog.bind_ok (seekEnd_eq_ok.mpr ⟨rfl, rfl⟩), seek_pos, seek_seek,
    Prog.bind_ok run]
  rw [Prog.bind_ok (a := (last.1 &&& 0xFFFF) + (last.1 >>> 16)) (t := t)
    (by rw [add_of_lt (by omega)]; rfl), add_of_lt (by omega)]
  rfl

theorem checksumLoop_sameFiles (b : Build) (cso rounds : Nat) (f : File) (state : Nat × Nat) :
    Prog.Within SameFiles (checksumLoop b cso rounds f state) := by
  induction rounds generalizing f state with
  | zero => exact Prog.within_pure SameFiles.refl state
  | succ rounds ih =>
    refine Prog.Within.bind SameFiles.trans (read_sameFiles f bufferSize) ?_
    rintro ⟨buf, f⟩
    dsimp only
    split
    · exact Prog.within_pure SameFiles.refl state
    · exact Prog.Within.bind SameFiles.trans (Prog.within_ofExcept SameFiles.refl _)
        fun state => ih f state

theorem peCalcChecksum_sameFiles (b : Build) (f : File) (cso : Nat) :
    Prog.Within SameFiles (peCalcChecksum b f cso) := by
  refine Prog.Within.bind SameFiles.trans (seekEnd_sameFiles f) fun f => ?_
  refine Prog.Within.bind SameFiles.trans (checksumLoop_sameFiles b cso _ _ _) ?_
  rintro ⟨checksum, offset⟩
  exact Prog.Within.bind SameFiles.trans (Prog.within_ofExcept SameFiles.refl _)
    fun checksum => Prog.within_ofExcept SameFiles.refl _

theorem extractLoop_inspects (b : Build) (f : File) (pe : PeInfo) (rounds pos : Nat) :
    Inspects (extractLoop b f pe rounds pos) := by
  have readU16 : ∀ f, Inspects (readU16 f) := fun f =>
    (readExact_inspects f 2).bind fun _ => inspects_pure _
  have readU32 : ∀ f, Inspects (readU32 f) := fun f =>
    (readExact_inspects f 4).bind fun _ => inspects_pure _
  induction rounds generalizing f pos with
  | zero =>
    unfold extractLoop
    split
    · exact inspects_fail _
    · exact inspects_pure _
  | succ rounds ih =>
    unfold extractLoop
    split
    · refine (inspects_ofExcept _).bind fun start => (readU32 _).bind ?_
      rintro ⟨len, f⟩
      refine (inspects_rejectIf _ _).bind fun _ => (readU16 _).bind ?_
      rintro ⟨revision, f⟩
      refine (readU16 _).bind ?_
      rintro ⟨certType, f⟩
      dsimp only
      split
      · exact (readExact_inspects _ _).bind fun _ => inspects_pure _
      · exact (inspects_ofExcept _).bind fun _ => (inspects_ofExcept _).bind fun pos => ih _ pos
    · exact inspects_pure _

theorem extractSignature_inspects (b : Build) (rounds : Nat) (f : File) (pe : PeInfo) :
    Inspects (extractSignature b rounds f pe) := by
  unfold extractSignature
  split
  · exact inspects_pure _
  · exact extractLoop_inspects b f pe rounds 0

def readSizes : Nat → Reads → Nat → List Nat
  | 0, _, _ => []
  | rounds + 1, reads, left =>
    if left = 0 then []
    else
      let k := cut (reads 0) (min bufferSize left)
      k :: readSizes rounds (fun i => reads (i + 1)) (left - k)

def fileCuts (reads : Reads) (n : Nat) : List Nat := readSizes (n + 1) reads n

def afterCopy (reads : Reads) (n : Nat) : Reads := fun i => reads (i + (fileCuts reads n).length)

/-- Of the reads of a file of `n` bytes only the last may return an odd number of bytes. -/
def WholePairs (reads : Reads) (n : Nat) : Prop := ∀ k ∈ (fileCuts reads n).dropLast, k % 2 = 0

instance (reads : Reads) (n : Nat) : Decidable (WholePairs reads n) :=
  inferInstanceAs (Decidable (∀ k ∈ (fileCuts reads n).dropLast, k % 2 = 0))

theorem readSizes_none (rounds : Nat) (reads : Reads) : readSizes rounds reads 0 = [] := by
  cases rounds <;> rfl

theorem readSizes_some (rounds : Nat) (reads : Reads) {left : Nat} (some : left ≠ 0) :
    readSizes (rounds + 1) reads left = cut (reads 0) (min bufferSize left) ::
      readSizes rounds (fun i => reads (i + 1)) (left - cut (reads 0) (min bufferSize left)) :=
  if_neg some

theorem read_moves (a : Option Nat) {left : Nat} (some : left ≠ 0) :
    0 < cut a (min bufferSize left) :=
  cut_pos a (by simp only [bufferSize]; omega)

theorem readSizes_succ (reads : Reads) {rounds left : Nat} (enough : left ≤ rounds) :
    readSizes (rounds + 1) reads left = readSizes rounds reads left := by
  induction rounds generalizing reads left with
  | zero => rw [Nat.le_zero.mp enough, readSizes_none, readSizes_none]
  | succ rounds ih =>
    by_cases none : left = 0
    · rw [none, readSizes_none, readSizes_none]
    · have moved := read_moves (reads 0) none
      rw [readSizes_some _ reads none, readSizes_some _ reads none, ih _ (by omega)]

theorem readSizes_enough (reads : Reads) {rounds left : Nat} (enough : left ≤ rounds) :
    readSizes rounds reads left = fileCuts reads left := by
  induction rounds, enough using Nat.le_induction with
  | base => rw [fileCuts, readSizes_succ reads (Nat.le_refl left)]
  | succ rounds enough ih => rw [readSizes_succ reads enough, ih]

theorem copyLoop_reads (rounds : Nat) (src dst : File) (remaining : Nat) (s : Store)
    (apart : src.path ≠ dst.path) (inside : src.pos + remaining ≤ (s.data src.path).length) :
    ((copyLoop rounds src dst remaining).run s).2.reads =
      fun i => s.reads (i + (readSizes rounds s.reads remaining).length) := by
  induction rounds generalizing src dst remaining s with
  | zero => rfl
  | succ rounds ih =>
    by_cases none : remaining = 0
    · rw [none, readSizes_none, copyLoop, if_pos rfl]
      rfl
    · have least : min (min remaining bufferSize) ((s.data src.path).length - src.pos) =
          min bufferSize remaining := by omega
      have run : (src.read (min remaining bufferSize) : Proc _).run s =
          (.ok (slice (s.data src.path) src.pos
              (src.pos + cut (s.reads 0) (min bufferSize remaining)),
            src.seek (src.pos + cut (s.reads 0) (min bufferSize remaining))),
          { s with reads := fun i => s.reads (i + 1) }) := by
        rw [← least]
        rfl
      have within := cut_le (s.reads 0) (min bufferSize remaining)
      have moves := read_moves (s.reads 0) none
      rw [copyLoop, if_neg none, Prog.bind_ok run, readSizes_some rounds s.reads none]
      generalize cut (s.reads 0) (min bufferSize remaining) = k at within moves ⊢
      have len : (slice (s.data src.path) src.pos (src.pos + k)).length = k := by
        rw [slice_length]
        omega
      have some : slice (s.data src.path) src.pos (src.pos + k) ≠ [] :=
        List.length_pos_iff.mp (by omega)
      dsimp only
      rw [if_neg some, Prog.bind_ok (writeAll_run dst _ _), len]
      refine (ih (src.seek (src.pos + k)) (dst.seek (dst.pos + k)) (remaining - k) _ apart
        ?_).trans ?_
      · rw [seek_path, seek_pos, data_setData_ne _ apart]
        exact (by omega : src.pos + k + (remaining - k) ≤ (s.data src.path).length)
      · funext i
        exact congrArg s.reads (Nat.add_assoc i _ 1)

theorem copyRange_reads (src dst : File) (stop : Nat) (s : Store) (apart : src.path ≠ dst.path)
    (inside : stop ≤ (s.data src.path).length) :
    ((copyRange src dst 0 stop).run s).2.reads = afterCopy s.reads stop := by
  by_cases none : stop ≤ 0
  · rw [copyRange, if_pos none, Nat.le_zero.mp none]
    rfl
  · have copied := copyLoop_reads stop (src.seek 0) (dst.seek 0) stop s apart
      (by rwa [seek_path, seek_pos, Nat.zero_add])
    rw [readSizes_enough _ (Nat.le_refl stop)] at copied
    rw [copyRange, if_neg none, Nat.sub_zero]
    exact copied

theorem mem_dropLast_cons {j k : Nat} {ks : List Nat} :
    j ∈ (k :: ks).dropLast ↔ ks ≠ [] ∧ (j = k ∨ j ∈ ks.dropLast) := by
  cases ks <;> simp

theorem wholePairs_uncut (n : Nat) : WholePairs uncut n := by
  have full : ∀ rounds left, ∀ k ∈ (readSizes rounds uncut left).dropLast, k = bufferSize := by
    intro rounds
    induction rounds with
    | zero => simp [readSizes]
    | succ rounds ih =>
      intro left k member
      by_cases none : left = 0
      · rw [none, readSizes_none] at member
        cases member
      · rw [readSizes_some _ _ none, mem_dropLast_cons] at member
        obtain ⟨more, rfl | later⟩ := member
        · have long : ¬ left ≤ bufferSize := by
            intro last
            have done : left - cut (uncut 0) (min bufferSize left) = 0 := by
              simp only [uncut, cut]
              omega
            exact more (by rw [done, readSizes_none])
          simp only [uncut, cut]
          omega
        · exact ih _ k later
  intro k member
  rw [full (n + 1) n k member]
  rfl

theorem checksumLoop_stop {b : Build} {cso : Nat} (rounds : Nat) {f g : File} {s t : Store}
    {buf : Bytes} (state : Nat × Nat) (run : (f.read bufferSize : Proc _).run s = (.ok (buf, g), t))
    (empty : buf = []) :
    (checksumLoop b cso (rounds + 1) f state).run s = (.ok state, t) := by
  rw [checksumLoop, Prog.bind_ok run]
  simp only [empty, if_true, Prog.pure_run]

theorem checksumLoop_next {b : Build} {cso : Nat} (rounds : Nat) {f g : File} {s t : Store}
    {buf : Bytes} {state next : Nat × Nat}
    (run : (f.read bufferSize : Proc _).run s = (.ok (buf, g), t)) (some : buf ≠ [])
    (pairs : checksumPairs b cso state buf = .ok next) :
    (checksumLoop b cso (rounds + 1) f state).run s = (checksumLoop b cso rounds g next).run t := by
  rw [checksumLoop, Prog.bind_ok run]
  simp only [if_neg some]
  rw [Prog.bind_ok (t := t) (a := next) (by rw [pairs]; rfl)]

def checksumOf (b : Build) (cso : Nat) (d : Bytes) : Res Nat := do
  let (checksum, _) ← checksumPairs b cso (0, 0) d
  let checksum ← b.add (checksum &&& 0xFFFF) (checksum >>> 16)
  b.add checksum (asU32 d.length)

theorem checksumLoop_pairs (b : Build) (cso rounds : Nat) (f : File) (state : Nat × Nat)
    (s : Store) (enough : (s.data f.path).length < f.pos + rounds)
    (whole : ∀ k ∈ (readSizes rounds s.reads ((s.data f.path).length - f.pos)).dropLast,
      k % 2 = 0) :
    ((checksumLoop b cso rounds f state).run s).1 =
      checksumPairs b cso state ((s.data f.path).drop f.pos) := by
  induction rounds generalizing f state s with
  | zero =>
    rw [List.drop_eq_nil_of_le (by omega)]
    rfl
  | succ rounds ih =>
    have run : (f.read bufferSize : Proc _).run s =
        (.ok (slice (s.data f.path) f.pos (f.pos +
            cut (s.reads 0) (min bufferSize ((s.data f.path).length - f.pos))),
          f.seek (f.pos + cut (s.reads 0) (min bufferSize ((s.data f.path).length - f.pos)))),
        { s with reads := fun i => s.reads (i + 1) }) := rfl
    have data : ({ s with reads := fun i => s.reads (i + 1) } : Store).data f.path =
        s.data f.path := rfl
    generalize left : (s.data f.path).length - f.pos = m at run whole
    have within := cut_le (s.reads 0) (min bufferSize m)
    have moves : m ≠ 0 → _ := read_moves (s.reads 0)
    have sizes : m ≠ 0 → _ := readSizes_some rounds s.reads
    generalize cut (s.reads 0) (min bufferSize m) = k at run within moves sizes
    have len : (slice (s.data f.path) f.pos (f.pos + k)).length = k := by
      rw [slice_length]
      omega
    by_cases none : m = 0
    · have empty : slice (s.data f.path) f.pos (f.pos + k) = [] :=
        List.length_eq_zero_iff.mp (by omega)
      rw [checksumLoop_stop rounds _ run empty, List.drop_eq_nil_of_le (by omega)]
      rfl
    · have moved := moves none
      rw [sizes none] at whole
      have some : slice (s.data f.path) f.pos (f.pos + k) ≠ [] :=
        List.length_pos_iff.mp (by omega)
      have next : (s.data f.path).length - (f.pos + k) = m - k := by omega
      have cutAt : (s.data f.path).drop f.pos =
          slice (s.data f.path) f.pos (f.pos + k) ++ (s.data f.path).drop (f.pos + k) := by
        rw [slice, Nat.add_sub_cancel_left, ← List.drop_drop, List.take_append_drop]
      -- a buffer is of even length, or it is the last one
      have aligned : (slice (s.data f.path) f.pos (f.pos + k)).length % 2 = 0 ∨
          (s.data f.path).drop (f.pos + k) = [] := by
        rw [len]
        by_cases last : m - k = 0
        · exact .inr (List.drop_eq_nil_of_le (by omega))
        · obtain ⟨r, rfl⟩ : ∃ r, rounds = r + 1 := ⟨rounds - 1, by omega⟩
          refine .inl (whole k (mem_dropLast_cons.mpr ⟨?_, .inl rfl⟩))
          rw [readSizes_some r _ last]
          exact List.cons_ne_nil _ _
      have rest : ∀ j ∈ (readSizes rounds (fun i => s.reads (i + 1)) (m - k)).dropLast,
          j % 2 = 0 := by
        intro j member
        refine whole j (mem_dropLast_cons.mpr ⟨fun none => ?_, .inr member⟩)
        rw [none] at member
        cases member
      rw [cutAt, checksumPairs_append b cso state _ _ aligned]
      cases pairs : checksumPairs b cso state (slice (s.data f.path) f.pos (f.pos + k)) with
      | error e =>
        rw [checksumLoop, Prog.bind_ok run]
        simp only [if_neg some, pairs]
        rfl
      | ok now =>
        rw [checksumLoop_next rounds run some pairs, ih _ now _
          (by simp only [seek_path, seek_pos, data]; omega)
          (by simp only [seek_path, seek_pos, data, next]; exact rest)]
        rfl

/-- Reads that tear no pair give the sum of the bytes, wherever they are cut. -/
theorem peCalcChecksum_pairs (b : Build) (f : File) (cso : Nat) (s : Store)
    (whole : WholePairs s.reads (s.data f.path).length) :
    ((peCalcChecksum b f cso).run s).1 = checksumOf b cso (s.data f.path) := by
  have loop := checksumLoop_pairs b cso ((s.data f.path).length + 1) (f.seek 0) (0, 0) s
    (by simp) whole
  simp only [peCalcChecksum, Prog.bind_ok (seekEnd_eq_ok.mpr ⟨rfl, rfl⟩), seek_pos, seek_seek]
  simp only [checksumOf, seek_path, seek_pos, List.drop_zero] at loop ⊢
  rcases run : (checksumLoop b cso ((s.data f.path).length + 1) (f.seek 0) (0, 0)).run s with
    ⟨r, t⟩
  rw [run] at loop
  dsimp only at loop
  rw [← loop]
  cases r with
  | error e =>
    rw [Prog.bind_error run]
    rfl
  | ok last =>
    rw [Prog.bind_ok run]
    simp only [bind, Except.bind]
    cases b.add (last.1 &&& 0xFFFF) (last.1 >>> 16) <;> rfl

theorem checksumOf_ok (b : Build) {cso : Nat} (field : asU32 cso + 2 < 2 ^ 32) {d : Bytes}
    (room : d.length < 2 ^ 32 - 2 ^ 16) : ∃ v, checksumOf b cso d = .ok v := by
  obtain ⟨v, t, run, -⟩ := peCalcChecksum_run b field ⟨"", 0⟩ ⟨fun _ => some d, uncut⟩ room
  have sum := peCalcChecksum_pairs b ⟨"", 0⟩ cso ⟨fun _ => some d, uncut⟩ (wholePairs_uncut _)
  rw [run] at sum
  exact ⟨v, sum.symm⟩

end Rsigncode
