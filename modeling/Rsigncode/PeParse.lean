import Rsigncode.PeLoops

/-! What `parsePe` accepts, as conditions on the bytes of the file. -/
namespace Rsigncode

open FileStore Window Number

def u16At (d : Bytes) (p : Nat) : Nat := ofLe (slice d p (p + 2))
def u32At (d : Bytes) (p : Nat) : Nat := ofLe (slice d p (p + 4))

theorem pe32plusOffset_le (plus : Bool) : pe32plusOffset plus ≤ 16 := by cases plus <;> decide

theorem u32At_lt (d : Bytes) (p : Nat) : u32At d p < 2 ^ 32 := by
  have bound := ofLe_lt (slice d p (p + 4))
  have len : (slice d p (p + 4)).length ≤ 4 := by
    rw [slice_length]
    omega
  calc u32At d p < 256 ^ (slice d p (p + 4)).length := bound
    _ ≤ 256 ^ 4 := Nat.pow_le_pow_right (by decide) len

theorem readU16_eq_ok {f g : File} {s t : Store} {v : Nat} :
    (readU16 f).run s = (.ok (v, g), t) ↔ f.pos + 2 ≤ (s.data f.path).length ∧
      v = u16At (s.data f.path) f.pos ∧ g = f.seek (f.pos + 2) ∧ t = s := by
  simp only [readU16, Prog.bind_eq_ok, Prod.exists, readExact_eq_ok, Prog.pure_eq_ok,
    Prod.mk.injEq, u16At]
  constructor
  · rintro ⟨x, g', t', ⟨h, rfl, rfl, rfl⟩, ⟨rfl, rfl⟩, rfl⟩
    exact ⟨h, rfl, rfl, rfl⟩
  · rintro ⟨h, rfl, rfl, rfl⟩
    exact ⟨_, _, _, ⟨h, rfl, rfl, rfl⟩, ⟨rfl, rfl⟩, rfl⟩

theorem readU32_eq_ok {f g : File} {s t : Store} {v : Nat} :
    (readU32 f).run s = (.ok (v, g), t) ↔ f.pos + 4 ≤ (s.data f.path).length ∧
      v = u32At (s.data f.path) f.pos ∧ g = f.seek (f.pos + 4) ∧ t = s := by
  simp only [readU32, Prog.bind_eq_ok, Prod.exists, readExact_eq_ok, Prog.pure_eq_ok,
    Prod.mk.injEq, u32At]
  constructor
  · rintro ⟨x, g', t', ⟨h, rfl, rfl, rfl⟩, ⟨rfl, rfl⟩, rfl⟩
    exact ⟨h, rfl, rfl, rfl⟩
  · rintro ⟨h, rfl, rfl, rfl⟩
    exact ⟨_, _, _, ⟨h, rfl, rfl, rfl⟩, ⟨rfl, rfl⟩, rfl⟩

section
variable {e : Fault} (h : e ≠ OfIo.ofIo .unexpectedEof) (f : File)
include h

theorem readU16_never : Prog.Never e (readU16 f) :=
  (readExact_never f 2 h).bind fun _ => Prog.never_pure _

theorem readU32_never : Prog.Never e (readU32 f) :=
  (readExact_never f 4 h).bind fun _ => Prog.never_pure _

end

/-- The bytes `d` pass every check of `parsePe`, and `pe` is what it reports. -/
structure Accepts (b : Build) (d : Bytes) (pe : PeInfo) : Prop where
  fileend : pe.fileend = asU32 d.length
  long : 64 ≤ pe.fileend
  mz : u16At d 0 = dosMagic
  lfanew : u32At d 0x3C = pe.headerSize
  header_ge : 44 ≤ pe.headerSize
  header_le : pe.headerSize ≤ pe.fileend
  needed : ∃ n, b.add pe.headerSize 176 = .ok n ∧ n ≤ pe.fileend
  signature : u32At d pe.headerSize = peSignature
  magic : u16At d (pe.headerSize + 24) = if pe.pe32plus then pe32plusMagic else pe32Magic
  nrvas : 5 ≤ u32At d (pe.headerSize + 116 + pe32plusOffset pe.pe32plus)
  checksumOffset : pe.checksumOffset = pe.headerSize + 88
  certTableOffset : pe.certTableOffset = pe.headerSize + 152 + pe32plusOffset pe.pe32plus
  room : pe.certTableOffset + 8 ≤ d.length
  entry : signatureDirectory b (u32At d pe.certTableOffset) (u32At d (pe.certTableOffset + 4))
    pe.fileend = .ok (pe.sigpos, pe.siglen)

theorem accepts_of_parsePe {b : Build} {f : File} {s t : Store} {pe : PeInfo}
    (h : (parsePe b f).run s = (.ok pe, t)) : t = s ∧ Accepts b (s.data f.path) pe := by
  simp only [parsePe, Prog.bind_eq_ok, seekEnd_eq_ok, readU16_eq_ok, readU32_eq_ok,
    Prog.rejectIf_eq_ok, Prog.ofExcept_eq_ok, Prog.pure_eq_ok, Prod.exists, seek_pos, seek_path,
    seek_seek, and_assoc, exists_and_left, exists_eq_left, exists_const] at h
  obtain ⟨long, -, mz, -, range, needed, add, fits, -, signature, -, magic, -, nrvas, -, room,
    sigpos, siglen, entry, rfl, rfl⟩ := h
  refine ⟨rfl, rfl, Nat.not_lt.mp long, not_not.mp mz, rfl, ?_, ?_,
    ⟨needed, add, Nat.not_lt.mp fits⟩, not_not.mp signature, ?_, Nat.not_lt.mp nrvas, rfl, rfl,
    room, entry⟩
  · exact Nat.not_lt.mp fun h => range (.inl h)
  · exact Nat.not_lt.mp fun h => range (.inr h)
  · by_cases plus : u16At (t.data f.path) (u32At (t.data f.path) 0x3C + 24) = pe32plusMagic
    · simp only [plus, BEq.rfl, if_true]
    · have plain := not_not.mp fun h => magic ⟨plus, h⟩
      rw [plain]
      rfl

theorem parsePe_of_accepts {b : Build} {f : File} {s : Store} {pe : PeInfo}
    (h : Accepts b (s.data f.path) pe) : (parsePe b f).run s = (.ok pe, s) := by
  obtain ⟨fileend, long, mz, lfanew, header_ge, header_le, ⟨needed, add, fits⟩, signature, magic,
    nrvas, checksumOffset, certTableOffset, room, entry⟩ := h
  obtain ⟨plus, headerSize, cso, cto, sigpos, siglen, fileend'⟩ := pe
  simp only [] at *
  subst fileend lfanew checksumOffset certTableOffset
  have kind : (u16At (s.data f.path) (u32At (s.data f.path) 0x3C + 24) == pe32plusMagic) =
      plus := by
    rw [magic]
    cases plus <;> rfl
  have known : ¬ (u16At (s.data f.path) (u32At (s.data f.path) 0x3C + 24) ≠ pe32plusMagic ∧
      u16At (s.data f.path) (u32At (s.data f.path) 0x3C + 24) ≠ pe32Magic) := by
    rw [magic]
    cases plus <;> simp
  have bound := asU32_le (s.data f.path).length
  have offset := pe32plusOffset_le plus
  simp only [parsePe, Prog.bind_eq_ok, seekEnd_eq_ok, readU16_eq_ok, readU32_eq_ok,
    Prog.rejectIf_eq_ok, Prog.ofExcept_eq_ok, Prog.pure_eq_ok, Prod.exists, seek_pos, seek_path,
    seek_seek, and_assoc, exists_and_left, exists_eq_left, exists_const, kind]
  clear kind magic
  refine ⟨Nat.not_lt.mpr long, ?_, not_not.mpr mz, ?_, ?_, needed, add, Nat.not_lt.mpr fits, ?_,
    not_not.mpr signature, ?_, known, ?_, Nat.not_lt.mpr nrvas, ?_, room, sigpos, siglen, entry,
    rfl, trivial⟩
  all_goals omega

/-- `parsePe` reports exactly what the bytes of the file determine, and changes no file. -/
theorem parsePe_eq_ok {b : Build} {f : File} {s t : Store} {pe : PeInfo} :
    (parsePe b f).run s = (.ok pe, t) ↔ t = s ∧ Accepts b (s.data f.path) pe := by
  constructor
  · exact accepts_of_parsePe
  · rintro ⟨rfl, h⟩
    exact parsePe_of_accepts h

theorem signatureDirectory_eq_ok {b : Build} {p l n p' l' : Nat} (hp : p < 2 ^ 32)
    (hl : l < 2 ^ 32) (h : signatureDirectory b p l n = .ok (p', l')) :
    (p' = 0 ∧ l' = 0) ∨ (p' = p ∧ l' = l ∧ 0 < p ∧ 0 < l ∧ p + l = n) := by
  unfold signatureDirectory at h
  by_cases quick : p = 0 ∨ l = 0 ∨ p ≥ n
  · simp only [quick, if_true, bind, Except.bind, pure, Except.pure] at h
    split at h <;> cases h
    · exact .inl ⟨rfl, rfl⟩
    · rename_i both
      simp only [and_true] at both
      exact .inl (by omega)
  · simp only [quick, if_false, bind, Except.bind, pure, Except.pure] at h
    cases sum : b.add p l with
    | error e => simp [sum] at h
    | ok stop =>
      have wrapped := add_eq_ok sum
      simp only [sum] at h
      split at h <;> cases h
      · exact .inl ⟨rfl, rfl⟩
      · rename_i trailing
        have ends : stop = n := by
          by_contra other
          exact trailing ⟨by omega, beq_false_of_ne other⟩
        refine .inr ⟨rfl, rfl, by omega, by omega, ?_⟩
        simp only [asU32] at wrapped
        omega

theorem Accepts.table {b : Build} {d : Bytes} {pe : PeInfo} (h : Accepts b d pe) :
    pe.sigpos = 0 ∧ pe.siglen = 0 ∨
      0 < pe.sigpos ∧ 0 < pe.siglen ∧ pe.sigpos + pe.siglen = pe.fileend := by
  have dir := signatureDirectory_eq_ok (u32At_lt _ _) (u32At_lt _ _) h.entry
  omega

theorem Accepts.table_small {b : Build} {d : Bytes} {pe : PeInfo} (h : Accepts b d pe) :
    pe.sigpos + pe.siglen < 2 ^ 32 := by
  have bound : asU32 d.length < 2 ^ 32 := Nat.mod_lt _ (Nat.two_pow_pos 32)
  have table := h.table
  rw [← h.fileend] at bound
  omega

theorem signatureDirectory_none (b : Build) (n : Nat) :
    signatureDirectory b 0 0 n = .ok (0, 0) := by
  simp [signatureDirectory, bind, Except.bind, pure, Except.pure]

theorem signatureDirectory_trailing (b : Build) {p l n : Nat} (hp : 0 < p) (hl : 0 < l)
    (ends : p + l = n) (hn : n < 2 ^ 32) : signatureDirectory b p l n = .ok (p, l) := by
  have quick : ¬ (p = 0 ∨ l = 0 ∨ p ≥ n) := by omega
  have sum : b.add p l = .ok n := by rw [add_of_lt (by omega), ends]
  simp [signatureDirectory, quick, sum, bind, Except.bind, pure, Except.pure]

end Rsigncode
