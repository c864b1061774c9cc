import Rsigncode.Lib.Mirror
import Rsigncode.PePaths
import Rsigncode.Shelf

/-! The shelf that a file under any path shows, among other files, and the two writers
between two paths. -/
namespace Rsigncode

open FileStore Window

section Mirrors
variable {s t : Store} {f g : File}

theorem readU16_mirrors (h : Twin s t f g) :
    Mirrors s t (Along s t) (readU16 f) (readU16 g) := by
  refine (readExact_mirrors h 2).bind ?_
  rintro ⟨x, f⟩ ⟨y, g⟩ ⟨rfl, next⟩
  exact mirrors_pure ⟨rfl, next⟩

theorem readU32_mirrors (h : Twin s t f g) :
    Mirrors s t (Along s t) (readU32 f) (readU32 g) := by
  refine (readExact_mirrors h 4).bind ?_
  rintro ⟨x, f⟩ ⟨y, g⟩ ⟨rfl, next⟩
  exact mirrors_pure ⟨rfl, next⟩

theorem readU16_then {α : Type} {k l : Nat × File → Proc α} (h : Twin s t f g)
    (next : ∀ n f g, Twin s t f g → Mirrors s t Eq (k (n, f)) (l (n, g))) :
    Mirrors s t Eq (readU16 f >>= k) (readU16 g >>= l) := by
  refine (readU16_mirrors h).bind ?_
  rintro ⟨n, f⟩ ⟨_, g⟩ ⟨rfl, twin⟩
  exact next n f g twin

theorem readU32_then {α : Type} {k l : Nat × File → Proc α} (h : Twin s t f g)
    (next : ∀ n f g, Twin s t f g → Mirrors s t Eq (k (n, f)) (l (n, g))) :
    Mirrors s t Eq (readU32 f >>= k) (readU32 g >>= l) := by
  refine (readU32_mirrors h).bind ?_
  rintro ⟨n, f⟩ ⟨_, g⟩ ⟨rfl, twin⟩
  exact next n f g twin

theorem parsePe_mirrors (b : Build) (h : Twin s t f g) :
    Mirrors s t Eq (parsePe b f) (parsePe b g) := by
  refine (seekEnd_mirrors h).bind fun f g h => ?_
  rw [h.pos]
  refine (mirrors_rejectIf _ _).bind_eq fun _ => readU16_then (h.seek 0) fun _ f g h =>
    (mirrors_rejectIf _ _).bind_eq fun _ => readU32_then (h.seek 0x3C) fun headerSize f g h =>
    (mirrors_rejectIf _ _).bind_eq fun _ => (mirrors_ofExcept _).bind_eq fun _ =>
    (mirrors_rejectIf _ _).bind_eq fun _ => readU32_then (h.seek headerSize) fun _ f g h =>
    (mirrors_rejectIf _ _).bind_eq fun _ => readU16_then (h.seek _) fun _ f g h =>
    (mirrors_rejectIf _ _).bind_eq fun _ => readU32_then (h.seek _) fun _ f g h =>
    (mirrors_rejectIf _ _).bind_eq fun _ => readU32_then (h.seek _) fun _ f g h =>
    readU32_then h fun _ f g h => (mirrors_ofExcept _).bind_eq fun _ => mirrors_pure rfl

theorem extractLoop_mirrors (b : Build) (pe : PeInfo) (rounds pos : Nat) (h : Twin s t f g) :
    Mirrors s t Eq (extractLoop b f pe rounds pos) (extractLoop b g pe rounds pos) := by
  induction rounds generalizing f g pos with
  | zero =>
    unfold extractLoop
    split
    · exact mirrors_ofExcept (.error Fault.fuel)
    · exact mirrors_pure rfl
  | succ rounds ih =>
    unfold extractLoop
    split
    · refine (mirrors_ofExcept _).bind_eq fun start => readU32_then (h.seek start) fun len f g h =>
        (mirrors_rejectIf _ _).bind_eq fun _ => readU16_then h fun revision f g h =>
        readU16_then h fun certType f g h => ?_
      dsimp only
      split
      · refine (readExact_mirrors h _).bind ?_
        rintro ⟨der, f⟩ ⟨_, g⟩ ⟨rfl, -⟩
        exact mirrors_pure rfl
      · exact (mirrors_ofExcept _).bind_eq fun _ => (mirrors_ofExcept _).bind_eq fun pos => ih pos h
    · exact mirrors_pure rfl

theorem extractSignature_mirrors (b : Build) (rounds : Nat) (pe : PeInfo) (h : Twin s t f g) :
    Mirrors s t Eq (extractSignature b rounds f pe) (extractSignature b rounds g pe) := by
  unfold extractSignature
  split
  · exact mirrors_pure rfl
  · exact extractLoop_mirrors b pe rounds 0 h

end Mirrors

section Files
variable (b : Build) (s : Store) (p : Path)

theorem twin_input (reads : Reads) : Twin s (workspace (s.data p) reads) ⟨p, 0⟩ input :=
  ⟨rfl, (workspace_input _ _).symm⟩

theorem parsePe_at : (parsePe b ⟨p, 0⟩).run s = (parseBytes b (s.data p), s) :=
  (parsePe_mirrors b (twin_input s p uncut)).outcome

theorem extractSignature_at (rounds : Nat) (pe : PeInfo) :
    (extractSignature b rounds ⟨p, 0⟩ pe).run s = (extractBytes b rounds (s.data p) pe, s) :=
  (extractSignature_mirrors b rounds pe (twin_input s p uncut)).outcome

theorem verifyPeRich_at (crates : Crates) (opts : VerifyOptions crates.Cert) (rounds : Nat)
    (reads : Reads) : Yields (verifyPeRich crates opts b rounds ⟨p, 0⟩) s
      (verifyBytes crates opts b rounds reads (s.data p)) := by
  rw [verifyBytes_eq]
  refine Yields.bind ⟨s, parsePe_at b s p, SameFiles.refl s⟩ fun pe t _ same => ?_
  rw [← data_congr same]
  refine Yields.bind ⟨t, extractSignature_at b t p rounds pe, SameFiles.refl t⟩
    fun found u _ same => (yields_ofExcept _ u).bind fun pkcs7Der v _ same' => ?_
  rw [← data_congr (SameFiles.trans t u v same same')]
  refine Yields.bind (r := collectSignatureBlobs crates pkcs7Der) (yields_ofExcept _ v)
    fun blobs w _ same => ?_
  rw [← data_congr same]
  exact (verifyBlobs_yields ⟨p, 0⟩ pe 0 blobs w).bind fun _ _ _ _ => yields_pure _ _

end Files

theorem extractLoop_length {b : Build} {f : File} {pe : PeInfo} {rounds pos : Nat} {s t : Store}
    {der : Bytes} (run : (extractLoop b f pe rounds pos).run s = (.ok (some der), t)) :
    der.length ≤ (s.data f.path).length := by
  induction rounds generalizing f pos with
  | zero =>
    unfold extractLoop at run
    split at run <;> cases run
  | succ rounds ih =>
    unfold extractLoop at run
    split at run
    · obtain ⟨start, _, first, run₁⟩ := Prog.bind_eq_ok.mp run
      obtain ⟨-, rfl⟩ := Prog.ofExcept_eq_ok.mp first
      obtain ⟨⟨len, g⟩, _, second, run₂⟩ := Prog.bind_eq_ok.mp run₁
      obtain ⟨-, -, rfl, rfl⟩ := readU32_eq_ok.mp second
      obtain ⟨_, _, third, run₃⟩ := Prog.bind_eq_ok.mp run₂
      obtain ⟨-, rfl⟩ := Prog.rejectIf_eq_ok.mp third
      obtain ⟨⟨revision, g⟩, _, fourth, run₄⟩ := Prog.bind_eq_ok.mp run₃
      obtain ⟨-, -, rfl, rfl⟩ := readU16_eq_ok.mp fourth
      obtain ⟨⟨certType, g⟩, _, fifth, run₅⟩ := Prog.bind_eq_ok.mp run₄
      obtain ⟨-, -, rfl, rfl⟩ := readU16_eq_ok.mp fifth
      dsimp only at run₅
      split at run₅
      · obtain ⟨⟨found, g⟩, _, sixth, run₆⟩ := Prog.bind_eq_ok.mp run₅
        obtain ⟨-, rfl, -, rfl⟩ := readExact_eq_ok.mp sixth
        cases run₆
        rw [slice_length]
        exact (min_le_right _ _).trans (Nat.sub_le _ _)
      · obtain ⟨_, _, sixth, run₆⟩ := Prog.bind_eq_ok.mp run₅
        obtain ⟨-, rfl⟩ := Prog.ofExcept_eq_ok.mp sixth
        obtain ⟨_, _, seventh, run₇⟩ := Prog.bind_eq_ok.mp run₆
        obtain ⟨-, rfl⟩ := Prog.ofExcept_eq_ok.mp seventh
        have inside := ih run₇
        exact inside
    · cases run

section Writers
variable {b : Build} {F : Frame} {core : Bytes} {s : Store} {p out : Path} {pe : PeInfo}
  {shelf : Shelf}

theorem Shows.writeSignedPe (h : Shows b F core (s.data p) pe shelf) (apart : p ≠ out)
    {x : Bytes} {r : Res Unit} {t : Store}
    (run : (writeSignedPe b ⟨p, 0⟩ out pe x).run s = (r, t))
    (small : (t.data out).length < 2 ^ 32 - 2 ^ 16) :
    ∃ pe', Shows b F core (t.data out) pe' (shelf.carry (.sign x)) := by
  obtain ⟨checksum, entry, body, framed, rfl⟩ := h.held.framed
  have data := framed.data
  rw [← data_setData_ne [] apart] at data
  obtain ⟨r', t', checksum', run', len, wrote, -⟩ :
      ∃ r' t' checksum', (writeSignedPeTo b ⟨p, 0⟩ ⟨out, 0⟩ pe x).run _ = (r', t') ∧ _ :=
    writeSignedPeTo_run b F x framed.checksum_length framed.entry_length apart
      (data_setData s out []) framed.checksumOffset framed.certTableOffset data
  rw [Rsigncode.writeSignedPe, Prog.bind_ok (createTruncate_run out s), run'] at run
  cases run
  have padded : F.signed checksum' body x =
      F.signed checksum' (body ++ zeros (pad8 pe.dataEnd)) x := by
    rw [framed.dataEnd]
    exact F.signed_padded body
  rw [wrote.data, padded] at small ⊢
  exact h.signed len x (by omega)

theorem Shows.writeUnsignedPe (h : Shows b F core (s.data p) pe shelf) (apart : p ≠ out)
    (signed : 0 < pe.sigpos) {r : Res Unit} {t : Store}
    (run : (writeUnsignedPe b ⟨p, 0⟩ out pe).run s = (r, t))
    (small : (t.data out).length < 2 ^ 32 - 2 ^ 16) :
    ∃ pe', Shows b F core (t.data out) pe' (shelf.carry .remove) := by
  obtain ⟨checksum, entry, body, framed, rfl⟩ := h.held.framed
  have data := framed.data
  simp only [PeInfo.dataEnd, if_pos signed] at data
  rw [← data_setData_ne [] apart] at data
  obtain ⟨r', t', checksum', run', len, wrote, -⟩ :
      ∃ r' t' checksum', (writeUnsignedPeTo b ⟨p, 0⟩ ⟨out, 0⟩ pe).run _ = (r', t') ∧ _ :=
    writeUnsignedPeTo_run b F framed.checksum_length framed.entry_length apart
      (data_setData s out []) signed framed.checksumOffset framed.certTableOffset data
  rw [Rsigncode.writeUnsignedPe, Prog.bind_ok (createTruncate_run out s), run'] at run
  cases run
  have padded : F.file checksum' (zeros 8) body =
      F.file checksum' (zeros 8) (body ++ zeros (pad8 pe.dataEnd)) := by
    rw [h.held.aligned signed, zeros_zero, List.append_nil]
  rw [wrote.data, padded] at small ⊢
  exact h.unsigned len (by omega)

def Shelved (b : Build) (d : Bytes) (shelf : Shelf) : Prop :=
  ∃ F core pe, Shows b F core d pe shelf

theorem Shelved.image {d : Bytes} (h : Shelved b d shelf) (parsed : parseBytes b d = .ok pe) :
    digestStream d pe = shelf.image := by
  obtain ⟨F, core, pe', shows⟩ := h
  cases (parseBytes_eq_ok.mpr shows.held.accepted).symm.trans parsed
  rw [shows.held.stream, shows.image]

theorem Shelved.extracted {d : Bytes} (h : Shelved b d shelf) (parsed : parseBytes b d = .ok pe)
    (rounds : Nat) : extractBytes b (rounds + 1) d pe = .ok (shelf.signature.map padded) := by
  obtain ⟨F, core, pe', shows⟩ := h
  cases (parseBytes_eq_ok.mpr shows.held.accepted).symm.trans parsed
  exact shows.signature rounds

theorem Shelved.signature_length {d x : Bytes} (h : Shelved b d shelf)
    (worn : shelf.signature = some x) : x.length ≤ d.length := by
  obtain ⟨F, core, pe, shows⟩ := h
  have found := shows.signature 0
  rw [worn, Option.map_some, extractBytes, extractSignature] at found
  split at found
  · cases found
  · have inside := extractLoop_length (Prod.ext found rfl)
    rw [workspace_input, padded_length] at inside
    omega

theorem Shelved.there (h : Shelved b (s.data p) shelf) : s.files p = some (s.data p) := by
  cases here : s.files p with
  | some d => rw [Store.data, here, Option.getD_some]
  | none =>
    obtain ⟨F, core, pe, shows⟩ := h
    have room := shows.held.accepted.room
    rw [Store.data, here, Option.getD_none] at room
    exact absurd room (Nat.not_succ_le_zero _)

theorem Shelved.verify {d : Bytes} {crates : Crates} {opts : VerifyOptions crates.Cert}
    (h : Shelved b d shelf) (transparent : ∀ x, shelf.signature = some x → ∃ s, Transparent x s)
    (rounds : Nat) (reads : Reads) :
    verifyBytes crates opts b (rounds + 1) reads d = shelf.verify crates opts := by
  obtain ⟨F, core, pe, shows⟩ := h
  exact shows.verify transparent rounds reads

theorem Shelved.writeSignedPe (h : Shelved b (s.data p) shelf)
    (parsed : parseBytes b (s.data p) = .ok pe) (apart : p ≠ out) {x : Bytes} {r : Res Unit}
    {t : Store} (run : (writeSignedPe b ⟨p, 0⟩ out pe x).run s = (r, t))
    (small : (t.data out).length < 2 ^ 32 - 2 ^ 16) :
    Shelved b (t.data out) (shelf.carry (.sign x)) := by
  obtain ⟨F, core, pe', shows⟩ := h
  cases (parseBytes_eq_ok.mpr shows.held.accepted).symm.trans parsed
  obtain ⟨pe', next⟩ := shows.writeSignedPe apart run small
  exact ⟨F, core, pe', next⟩

theorem Shelved.writeUnsignedPe (h : Shelved b (s.data p) shelf)
    (parsed : parseBytes b (s.data p) = .ok pe) (apart : p ≠ out) {t : Store}
    (run : (writeUnsignedPe b ⟨p, 0⟩ out pe).run s = (.ok (), t))
    (small : (t.data out).length < 2 ^ 32 - 2 ^ 16) :
    Shelved b (t.data out) (shelf.carry .remove) := by
  obtain ⟨F, core, pe', shows⟩ := h
  cases (parseBytes_eq_ok.mpr shows.held.accepted).symm.trans parsed
  have signed : 0 < pe.sigpos := by
    by_contra unsigned
    rw [writeUnsignedPe_refused (by omega)] at run
    cases run
  obtain ⟨pe', next⟩ := shows.writeUnsignedPe apart signed run small
  exact ⟨F, core, pe', next⟩

theorem Accepts.shelved {f : Bytes} (accepted : parseBytes b f = .ok pe)
    (unsigned : pe.sigpos = 0) (small : f.length < 2 ^ 32 - 2 ^ 16) :
    Shelved b f ⟨digestStream f pe, none⟩ := by
  have first := parseBytes_eq_ok.mp accepted
  have bound := first.dataEnd_le
  obtain ⟨F, core, held⟩ := first.held unsigned (first.room_of_small (by omega))
  exact ⟨F, core, pe, Accepts.shows held unsigned⟩

end Writers

end Rsigncode
