import Rsigncode.PeDigest

/-! The 32-bit arithmetic of `parsePe`: which sums are formed for which files, and when
they and the length of the file are what the code takes them for. -/
namespace Rsigncode

open FileStore Window Number

theorem checked_add_panics {x y : Nat} :
    Build.checked.add x y = .error .panic ↔ 2 ^ 32 ≤ x + y := by
  unfold Build.add
  split
  · simp
    omega
  · simp
    omega

theorem readU16_no_panic {f : File} {s t : Store} : ¬ (readU16 f).run s = (.error .panic, t) :=
  (readU16_never (by decide) f).run_ne

theorem readU32_no_panic {f : File} {s t : Store} : ¬ (readU32 f).run s = (.error .panic, t) :=
  (readU32_never (by decide) f).run_ne

theorem seekEnd_no_panic {f : File} {s t : Store} :
    ¬ (f.seekEnd : Proc _).run s = (.error .panic, t) :=
  (seekEnd_never f _).run_ne

theorem signatureDirectory_panics {p l n : Nat} :
    signatureDirectory .checked p l n = .error .panic ↔
      0 < p ∧ 0 < l ∧ p < n ∧ 2 ^ 32 ≤ p + l := by
  unfold signatureDirectory
  by_cases quick : p = 0 ∨ l = 0 ∨ p ≥ n
  · simp only [quick, if_true, bind, Except.bind, pure, Except.pure, reduceCtorEq, false_iff]
    omega
  · simp only [quick, if_false]
    by_cases beyond : 2 ^ 32 ≤ p + l
    · simp only [checked_add_panics.mpr beyond, bind, Except.bind, true_iff]
      omega
    · simp only [add_of_lt (Nat.not_le.mp beyond), bind, Except.bind, pure, Except.pure,
        reduceCtorEq, beyond, and_false]

structure FormsHeaderSum (d : Bytes) : Prop where
  long : 64 ≤ d.length
  mz : u16At d 0 = dosMagic
  header_ge : 44 ≤ u32At d 0x3C
  header_le : u32At d 0x3C ≤ d.length

def optMagic (d : Bytes) : Nat := u16At d (u32At d 0x3C + 24)

structure FormsEntrySum (d : Bytes) : Prop extends FormsHeaderSum d where
  needed : u32At d 0x3C + 176 ≤ d.length
  signature : u32At d (u32At d 0x3C) = peSignature
  magic : optMagic d = pe32plusMagic ∨ optMagic d = pe32Magic
  nrvas : 5 ≤ u32At d (u32At d 0x3C + 116 + pe32plusOffset (optMagic d == pe32plusMagic))
  room : entryOffset d + 8 ≤ d.length
  sigpos : 0 < u32At d (entryOffset d)
  siglen : 0 < u32At d (entryOffset d + 4)
  below : u32At d (entryOffset d) < d.length

/-- A checked build panics where one of the two sums is formed and is too large. -/
theorem parsePe_panics {f : File} {s t : Store} (small : (s.data f.path).length < 2 ^ 32) :
    (parsePe .checked f).run s = (.error .panic, t) ↔ t = s ∧
      (FormsHeaderSum (s.data f.path) ∧ 2 ^ 32 ≤ u32At (s.data f.path) 0x3C + 176 ∨
        FormsEntrySum (s.data f.path) ∧
          2 ^ 32 ≤ u32At (s.data f.path) (entryOffset (s.data f.path)) +
            u32At (s.data f.path) (entryOffset (s.data f.path) + 4)) := by
  simp only [parsePe, Prog.bind_eq_error, seekEnd_eq_ok, readU16_eq_ok, readU32_eq_ok,
    Prog.rejectIf_eq_ok, Prog.ofExcept_eq_ok, Prod.exists, seek_pos, seek_path, seek_seek,
    and_assoc, exists_and_left, exists_eq_left, exists_const, readU16_no_panic, readU32_no_panic,
    seekEnd_no_panic, false_or, Prog.rejectIf_eq_error, Prog.ofExcept_eq_error,
    Prog.pure_ne_error, reduceCtorEq, and_false, false_and, checked_add_panics,
    signatureDirectory_panics, asU32_of_lt small, exists_false, or_false]
  generalize s.data f.path = d at *
  constructor
  · rintro ⟨long, -, mz, -, range, ⟨beyond, rfl⟩ | ⟨needed, sum, fits, -, signature, -, magic, -,
      nrvas, -, room, sigpos, siglen, below, beyond, rfl⟩⟩
    · exact ⟨rfl, .inl ⟨⟨by omega, not_not.mp mz, by omega, by omega⟩, beyond⟩⟩
    · have exact : u32At d 60 + 176 < 2 ^ 32 := by
        by_contra large
        rw [checked_add_panics.mpr (by omega)] at sum
        cases sum
      rw [add_of_lt exact] at sum
      cases sum
      have known : optMagic d = pe32plusMagic ∨ optMagic d = pe32Magic := by
        rw [optMagic]
        omega
      exact ⟨rfl, .inr ⟨⟨⟨by omega, not_not.mp mz, by omega, by omega⟩, by omega,
        not_not.mp signature, known, Nat.not_lt.mp nrvas, room, sigpos, siglen, below⟩, beyond⟩⟩
  · rintro ⟨rfl, ⟨⟨long, mz, header_ge, header_le⟩, beyond⟩ | ⟨⟨⟨long, mz, header_ge, header_le⟩,
      needed, signature, magic, nrvas, room, sigpos, siglen, below⟩, beyond⟩⟩
    · exact ⟨by omega, by omega, not_not.mpr mz, by omega, by omega, .inl ⟨beyond, rfl⟩⟩
    · have entry : u32At d 60 + 152 + pe32plusOffset (optMagic d == pe32plusMagic) + 8 ≤
          d.length := room
      simp only [optMagic] at magic entry
      exact ⟨by omega, by omega, not_not.mpr mz, by omega, by omega, .inr ⟨_,
        add_of_lt (by omega), by omega, by omega, not_not.mpr signature, by omega, by omega,
        by omega, Nat.not_lt.mpr nrvas, by omega, room, sigpos, siglen, below, beyond, rfl⟩⟩

/-- The length of the file and both sums are what exact arithmetic gives, and a signature
that is reported ends the file. -/
structure ExactArithmetic (d : Bytes) : Prop where
  length : asU32 d.length = d.length
  sums : parseBytes .checked d ≠ .error .panic
  trailing : ∀ b pe, parseBytes b d = .ok pe → 0 < pe.sigpos → pe.sigpos + pe.siglen = d.length

theorem parseBytes_panics {d : Bytes} (small : d.length < 2 ^ 32) :
    parseBytes .checked d = .error .panic ↔
      FormsHeaderSum d ∧ 2 ^ 32 ≤ u32At d 0x3C + 176 ∨ FormsEntrySum d ∧
        2 ^ 32 ≤ u32At d (entryOffset d) + u32At d (entryOffset d + 4) := by
  have run := fun t => parsePe_panics (f := input) (s := workspace d uncut) (t := t)
    (by rwa [workspace_input])
  simp only [workspace_input] at run
  constructor
  · intro panics
    exact ((run _).mp (Prod.ext panics rfl)).2
  · intro beyond
    rw [parseBytes, (run _).mpr ⟨rfl, beyond⟩]

/-- The arithmetic is exact for the files below 4 GiB that form neither sum beyond 32 bits. -/
theorem exactArithmetic_iff (d : Bytes) :
    ExactArithmetic d ↔ d.length < 2 ^ 32 ∧ (FormsHeaderSum d → u32At d 0x3C + 176 < 2 ^ 32) ∧
      (FormsEntrySum d →
        u32At d (entryOffset d) + u32At d (entryOffset d + 4) < 2 ^ 32) := by
  constructor
  · intro exact
    have small : d.length < 2 ^ 32 := by
      rw [← exact.length]
      exact Nat.mod_lt _ (Nat.two_pow_pos 32)
    have never := exact.sums
    rw [Ne, parseBytes_panics small, not_or] at never
    exact ⟨small, fun forms => Nat.not_le.mp fun beyond => never.1 ⟨forms, beyond⟩,
      fun forms => Nat.not_le.mp fun beyond => never.2 ⟨forms, beyond⟩⟩
  · rintro ⟨small, header, entry⟩
    refine ⟨asU32_of_lt small, ?_, ?_⟩
    · rw [Ne, parseBytes_panics small]
      rintro (⟨forms, beyond⟩ | ⟨forms, beyond⟩)
      · exact absurd beyond (Nat.not_le.mpr (header forms))
      · exact absurd beyond (Nat.not_le.mpr (entry forms))
    · intro b pe accepted signed
      have accepts := parseBytes_eq_ok.mp accepted
      have table := accepts.table
      have fileend := accepts.fileend
      rw [asU32_of_lt small] at fileend
      omega

/-- A file of 240 bytes whose directory entry says that the table at byte 100 is
`2 ^ 32 - 1` bytes long. -/
theorem entry_sum_panics : ¬ ∀ d : Bytes, ExactArithmetic d := by
  intro claim
  have panics : parseBytes .checked (smallPe 100 0xFFFFFFFF) = .error .panic := by decide +kernel
  exact (claim (smallPe 100 0xFFFFFFFF)).sums panics

end Rsigncode
