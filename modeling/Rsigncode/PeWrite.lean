import Rsigncode.PeFrame

/-! What the two writers leave in the output file. Both end by computing the
checksum over a file whose checksum field is zero and storing it there. -/
namespace Rsigncode

open FileStore Window Number

def pad8 (n : Nat) : Nat := (8 - n % 8) % 8

theorem pad8_lt (n : Nat) : pad8 n < 8 := Nat.mod_lt _ (by decide)

theorem add_pad8 (n : Nat) : (n + pad8 n) % 8 = 0 := by
  simp only [pad8]
  omega

theorem pad8_of_mod {n : Nat} (h : n % 8 = 0) : pad8 n = 0 := by simp [pad8, h]

/-- The `WIN_CERTIFICATE` entry around a blob, padded to eight bytes. -/
def certLength (d : Bytes) : Nat := d.length + 8 + pad8 d.length

def certificate (d : Bytes) : Bytes :=
  le 4 (asU32 (certLength d)) ++ le 2 winCertRevision20 ++ le 2 winCertTypePkcsSignedData ++
    d ++ zeros (pad8 d.length)

def directoryEntry (sigpos siglen : Nat) : Bytes := le 4 (asU32 sigpos) ++ le 4 (asU32 siglen)

theorem certificate_length (d : Bytes) : (certificate d).length = certLength d := by
  simp only [certificate, certLength, List.length_append, le_length, zeros_length]
  omega

@[simp] theorem directoryEntry_length (p l : Nat) : (directoryEntry p l).length = 8 := by
  simp [directoryEntry]

theorem directoryEntry_low {p : Nat} (l : Nat) (hp : p < 2 ^ 32) :
    u32At (directoryEntry p l) 0 = p := by
  rw [u32At, directoryEntry, slice_append_left (by simp), slice_zero,
    List.take_of_length_le (by simp), ofLe_le (by simp [asU32]; omega), asU32_of_lt hp]

theorem directoryEntry_high (p : Nat) {l : Nat} (hl : l < 2 ^ 32) :
    u32At (directoryEntry p l) 4 = l := by
  rw [u32At, directoryEntry, slice_append_right (by simp), le_length, slice_zero,
    List.take_of_length_le (by simp), ofLe_le (by simp [asU32]; omega), asU32_of_lt hl]

def storeChecksum (b : Build) (f : File) (checksumOffset : Nat) : Proc Unit := do
  let checksum ← peCalcChecksum b f checksumOffset
  let f := f.seek checksumOffset
  let _ ← f.writeAll (le 4 checksum)
  pure ()

def storedChecksum : Res Nat → Res Unit × Bytes
  | .ok v => (.ok (), le 4 v)
  | .error e => (.error e, zeros 4)

theorem storedChecksum_ok {r : Res Unit} {checksum : Bytes} {sum : Res Nat} {v : Nat}
    (h : (r, checksum) = storedChecksum sum) (ok : sum = .ok v) :
    r = .ok () ∧ checksum = le 4 v := by
  subst ok
  exact Prod.mk.inj h

/-- What the last step leaves on a file whose checksum field is zero: some checksum,
that of the bytes where no pair is torn, and success whenever the sums have room. -/
theorem storeChecksum_run (b : Build) (F : Frame) (f : File) {entry body : Bytes} {s : Store}
    (he : entry.length = 8) (h : s.data f.path = F.file (zeros 4) entry body) :
    ∃ r t checksum, (storeChecksum b f F.checksumOffset).run s = (r, t) ∧
      checksum.length = 4 ∧ Wrote s f.path (F.file checksum entry body) t ∧
      ((s.data f.path).length < 2 ^ 32 - 2 ^ 16 → r = .ok ()) ∧
      (WholePairs s.reads (F.file (zeros 4) entry body).length →
        (r, checksum) = storedChecksum (checksumOf b F.checksumOffset
          (F.file (zeros 4) entry body))) := by
  have same := peCalcChecksum_sameFiles b f F.checksumOffset s
  have sum := peCalcChecksum_pairs b f F.checksumOffset s
  rw [h] at sum
  rcases run : (peCalcChecksum b f F.checksumOffset).run s with ⟨e | v, u⟩
  · refine ⟨.error e, u, zeros 4, ?_, by simp, ?_, ?_, ?_⟩
    · rw [storeChecksum, Prog.bind_error run]
    · rw [run] at same
      exact h ▸ wrote_sameFiles same f.path
    · intro room
      have len : (F.file (zeros 4) entry body).length = F.certTableOffset + 8 + body.length :=
        F.file_length (by simp) he
      have field : asU32 F.checksumOffset + 2 < 2 ^ 32 := by
        have low := asU32_le F.checksumOffset
        rw [h, len] at room
        simp only [Frame.certTableOffset, Frame.checksumOffset] at *
        omega
      obtain ⟨v, t, run', _⟩ := peCalcChecksum_run b field f s room
      rw [run] at run'
      cases run'
    · intro whole
      rw [← sum whole, run]
      rfl
  · rw [run] at same
    refine ⟨.ok (), u.setData f.path (overwrite (u.data f.path) F.checksumOffset (le 4 v)), le 4 v,
      ?_, by simp, ?_, fun _ => rfl, ?_⟩
    · rw [storeChecksum, Prog.bind_ok run]
      rfl
    · have wrote := (wrote_sameFiles same f.path).trans (wrote_setData u f.path
        (overwrite (u.data f.path) F.checksumOffset (le 4 v)))
      rw [data_congr same, h, F.overwrite_checksum (by simp) (by simp)] at wrote ⊢
      exact wrote
    · intro whole
      rw [← sum whole, run]
      rfl

theorem writeAll_wrote (f : File) (x : Bytes) (s : Store) :
    ∃ t, (f.writeAll x : Proc _).run s = (.ok (f.seek (f.pos + x.length)), t) ∧
      Wrote s f.path (overwrite (s.data f.path) f.pos x) t ∧ t.reads = s.reads :=
  ⟨_, rfl, wrote_setData s f.path _, rfl⟩

theorem writeAll_end (f : File) (x : Bytes) (s : Store) (h : f.pos = (s.data f.path).length) :
    ∃ t, (f.writeAll x : Proc _).run s = (.ok (f.seek (f.pos + x.length)), t) ∧
      Wrote s f.path (s.data f.path ++ x) t ∧ t.reads = s.reads := by
  obtain ⟨t, run, wrote, same⟩ := writeAll_wrote f x s
  rw [h, overwrite_end] at wrote
  exact ⟨t, run, wrote, same⟩

theorem writeAll_writeAll (f : File) (x y : Bytes) (s : Store) (rest : File → Proc Unit) :
    (f.writeAll x >>= fun f => f.writeAll y >>= rest).run s =
      (f.writeAll (x ++ y) >>= rest).run s := by
  rw [Prog.bind_ok (writeAll_run f x s), Prog.bind_ok (writeAll_run _ y _),
    Prog.bind_ok (writeAll_run f (x ++ y) s)]
  simp only [seek_path, seek_pos, seek_seek, data_setData, setData_setData, overwrite_append,
    List.length_append, Nat.add_assoc]

theorem writeAll_padding (f : File) (x : Bytes) (n : Nat) (s : Store)
    (rest : File → Proc Unit) :
    (f.writeAll x >>= fun f => writePadding f n >>= rest).run s =
      (f.writeAll (x ++ zeros n) >>= rest).run s := by
  by_cases some : n > 0
  · simp only [writePadding, if_pos some]
    exact writeAll_writeAll f x (zeros n) s rest
  · have none : n = 0 := by omega
    subst none
    rw [Prog.bind_ok (writeAll_run f x s), zeros_zero, List.append_nil,
      Prog.bind_ok (writeAll_run f x s)]
    rfl

theorem padding_end (f : File) (n : Nat) (s : Store) (h : f.pos = (s.data f.path).length) :
    ∃ t, (writePadding f n).run s = (.ok (f.seek (f.pos + n)), t) ∧
      Wrote s f.path (s.data f.path ++ zeros n) t ∧ t.reads = s.reads := by
  by_cases some : n > 0
  · obtain ⟨t, run, wrote, same⟩ := writeAll_end f (zeros n) s h
    refine ⟨t, ?_, wrote, same⟩
    rw [writePadding, if_pos some, run, zeros_length]
  · have none : n = 0 := by omega
    subst none
    refine ⟨s, rfl, ?_, rfl⟩
    simpa using wrote_sameFiles rfl f.path

/-- The data both writers copy: the file up to its signature, or all of it. -/
def PeInfo.dataEnd (pe : PeInfo) : Nat := if pe.sigpos > 0 then pe.sigpos else pe.fileend

theorem PeInfo.dataEnd_unsigned {pe : PeInfo} (unsigned : pe.sigpos = 0) :
    pe.dataEnd = pe.fileend := by
  simp [dataEnd, unsigned]

def zeroFields (cso cto : Nat) (z : Bytes) : Bytes :=
  overwrite (overwrite z cso (zeros 4)) cto (zeros 8)

theorem zeroFields_run (output : File) (cso cto : Nat) (s : Store) :
    ∃ t, (∀ rest : File → Proc Unit, (do
        let output := output.seek cso
        let output ← output.writeAll (zeros 4)
        let output := output.seek cto
        let output ← output.writeAll (zeros 8)
        rest output : Proc Unit).run s = (rest (output.seek (cto + 8))).run t) ∧
      Wrote s output.path (zeroFields cso cto (s.data output.path)) t ∧ t.reads = s.reads := by
  obtain ⟨t₁, run₁, wrote₁, same₁⟩ := writeAll_wrote (output.seek cso) (zeros 4) s
  obtain ⟨t₂, run₂, wrote₂, same₂⟩ := writeAll_wrote (output.seek cto) (zeros 8) t₁
  rw [seek_path, seek_pos] at wrote₁
  rw [seek_path, seek_pos, wrote₁.data] at wrote₂
  refine ⟨t₂, fun rest => ?_, wrote₁.trans wrote₂, same₂.trans same₁⟩
  simp only [Prog.bind_ok run₁, seek_seek, Prog.bind_ok run₂, seek_pos, zeros_length]

theorem copyAndZero_run (F : Frame) {input output : File} {stop : Nat}
    {checksum entry body : Bytes} {s : Store} (hc : checksum.length = 4) (he : entry.length = 8)
    (apart : input.path ≠ output.path) (empty : s.data output.path = [])
    (h : (s.data input.path).take stop = F.file checksum entry body) :
    ∃ t, (∀ rest : File → Proc Unit, (do
        copyRange input output 0 stop
        let output := output.seek F.checksumOffset
        let output ← output.writeAll (zeros 4)
        let output := output.seek F.certTableOffset
        let output ← output.writeAll (zeros 8)
        rest output : Proc Unit).run s = (rest (output.seek (F.certTableOffset + 8))).run t) ∧
      Wrote s output.path (F.file (zeros 4) (zeros 8) body) t ∧
      (stop ≤ (s.data input.path).length → t.reads = afterCopy s.reads stop) := by
  obtain ⟨t₁, run₁, wrote₁⟩ := copyRange_run input output 0 stop s apart
  have reads₁ := copyRange_reads input output stop s apart
  rw [run₁] at reads₁
  rw [empty, slice_zero, h, overwrite_nil] at wrote₁
  obtain ⟨t₂, run₂, wrote₂, same⟩ :=
    zeroFields_run output F.checksumOffset F.certTableOffset t₁
  rw [wrote₁.data, zeroFields, F.overwrite_checksum hc (by simp),
    F.overwrite_entry (by simp) he (by simp)] at wrote₂
  exact ⟨t₂, fun rest => (Prog.bind_ok run₁).trans (run₂ rest), wrote₁.trans wrote₂,
    fun inside => same.trans (reads₁ inside)⟩

/-- The signed file: padded data, the entry for what follows, and the certificate. -/
def Frame.signed (F : Frame) (checksum body d : Bytes) : Bytes :=
  let padded := body ++ zeros (pad8 (F.certTableOffset + 8 + body.length))
  F.file checksum (directoryEntry (F.certTableOffset + 8 + padded.length) (certLength d))
    (padded ++ certificate d)

theorem Frame.signed_length (F : Frame) {checksum body d : Bytes} (hc : checksum.length = 4) :
    (F.signed checksum body d).length =
      F.certTableOffset + 8 + (body.length + pad8 (F.certTableOffset + 8 + body.length) +
        certLength d) := by
  rw [Frame.signed, F.file_length hc (by simp)]
  simp only [List.length_append, zeros_length, certificate_length]

/-- However a signing call ends, the output holds at least the copied data. -/
theorem writeSignedPeTo_grows (b : Build) (input output : File) (pe : PeInfo) (d : Bytes)
    {s : Store} (apart : input.path ≠ output.path) (empty : s.data output.path = []) :
    ((s.data input.path).take pe.dataEnd).length ≤
      (((writeSignedPeTo b input output pe d).run s).2.data output.path).length := by
  obtain ⟨t, run, wrote⟩ := copyRange_run input output 0 pe.dataEnd s apart
  have copied : t.data output.path = (s.data input.path).take pe.dataEnd := by
    rw [wrote.data, empty, slice_zero, overwrite_nil]
  have trans := Grows.trans output.path
  have write := fun f x => writeAll_grows (ε := Fault) output.path f x
  have pads : ∀ f n, Prog.Within (Grows output.path) (writePadding f n) := by
    intro f n
    rw [writePadding]
    split
    · exact write f _
    · exact Prog.within_pure (Grows.refl _) f
  rw [← copied]
  rw [PeInfo.dataEnd] at run
  rw [writeSignedPeTo, Prog.bind_ok run]
  refine Prog.Within.bind trans (write _ _) (fun output => ?_) t
  refine Prog.Within.bind trans (write _ _) fun output => ?_
  refine Prog.Within.bind trans (fun s => SameFiles.grows _ (seekEnd_sameFiles _ s))
    fun output => ?_
  refine Prog.Within.bind trans (pads _ _) fun output => ?_
  refine Prog.Within.bind trans (write _ _) fun output => ?_
  refine Prog.Within.bind trans (write _ _) fun output => ?_
  refine Prog.Within.bind trans (write _ _) fun output => ?_
  refine Prog.Within.bind trans (write _ _) fun output => ?_
  refine Prog.Within.bind trans (pads _ _) fun output => ?_
  refine Prog.Within.bind trans (write _ _) fun output => ?_
  refine Prog.Within.bind trans (write _ _) fun output => ?_
  refine Prog.Within.bind trans (fun s => SameFiles.grows _ (peCalcChecksum_sameFiles _ _ _ s))
    fun checksum => ?_
  exact Prog.Within.bind trans (write _ _) fun output => Prog.within_pure (Grows.refl _) ()

def certified (cto : Nat) (z d : Bytes) : Bytes :=
  overwrite (z ++ zeros (pad8 z.length) ++ certificate d) cto
    (directoryEntry (z.length + pad8 z.length) (certLength d))

theorem Frame.certified_file (F : Frame) (body d : Bytes) :
    certified F.certTableOffset (F.file (zeros 4) (zeros 8) body) d =
      F.signed (zeros 4) body d := by
  have len : (F.file (zeros 4) (zeros 8) body).length = F.certTableOffset + 8 + body.length :=
    F.file_length (by simp) (by simp)
  rw [certified, len, F.file_append, F.file_append, F.overwrite_entry (by simp) (by simp)
    (by simp), Frame.signed, List.length_append, zeros_length, Nat.add_assoc]

theorem appendCertificate_run (output : File) (cto : Nat) (d : Bytes) (s : Store) :
    ∃ t, (∀ rest : File → Proc Unit, (do
        let output ← output.seekEnd
        let fileLen := output.pos
        let output ← writePadding output ((8 - fileLen % 8) % 8)
        let newSigpos := asU32 output.pos
        let sigPad := (8 - d.length % 8) % 8
        let totalCertLen := asU32 (d.length + 8 + sigPad)
        let output ← output.writeAll (le 4 totalCertLen)
        let output ← output.writeAll (le 2 winCertRevision20)
        let output ← output.writeAll (le 2 winCertTypePkcsSignedData)
        let output ← output.writeAll d
        let output ← writePadding output sigPad
        let output := output.seek cto
        let output ← output.writeAll (le 4 newSigpos)
        let output ← output.writeAll (le 4 totalCertLen)
        rest output : Proc Unit).run s = (rest (output.seek (cto + 8))).run t) ∧
      Wrote s output.path (certified cto (s.data output.path) d) t ∧ t.reads = s.reads := by
  obtain ⟨t₁, run₁, wrote₁, same₁⟩ := padding_end (output.seek (s.data output.path).length)
    (pad8 (s.data output.path).length) s rfl
  rw [seek_path] at wrote₁
  have len₁ : (t₁.data output.path).length =
      (s.data output.path).length + pad8 (s.data output.path).length := by
    rw [wrote₁.data, List.length_append, zeros_length]
  obtain ⟨t₂, run₂, wrote₂, same₂⟩ := writeAll_end (output.seek (t₁.data output.path).length)
    (certificate d) t₁ rfl
  rw [seek_path, wrote₁.data] at wrote₂
  obtain ⟨t₃, run₃, wrote₃, same₃⟩ := writeAll_wrote (output.seek cto)
    (directoryEntry (t₁.data output.path).length (certLength d)) t₂
  rw [seek_path, seek_pos, wrote₂.data, len₁] at wrote₃
  refine ⟨t₃, fun rest => ?_, (wrote₁.trans wrote₂).trans wrote₃, by rw [same₃, same₂, same₁]⟩
  rw [Prog.bind_ok (seekEnd_eq_ok.mpr ⟨rfl, rfl⟩)]
  have dataEnd : (output.seek (s.data output.path).length).pos +
      pad8 (s.data output.path).length = (t₁.data output.path).length := by
    rw [seek_pos, len₁]
  rw [dataEnd] at run₁
  refine (Prog.bind_ok run₁).trans ?_
  -- five writes in a row are the certificate, two more the entry
  rw [writeAll_writeAll, writeAll_writeAll, writeAll_writeAll, writeAll_padding]
  refine (Prog.bind_ok run₂).trans ?_
  simp only [seek_seek, seek_pos]
  rw [writeAll_writeAll]
  refine (Prog.bind_ok run₃).trans ?_
  simp only [seek_seek, seek_pos, directoryEntry_length]

theorem writeSignedPeTo_run (b : Build) (F : Frame) {input output : File} {pe : PeInfo}
    {checksum entry body : Bytes} (d : Bytes) {s : Store} (hc : checksum.length = 4)
    (he : entry.length = 8) (apart : input.path ≠ output.path)
    (empty : s.data output.path = [])
    (cso : pe.checksumOffset = F.checksumOffset) (cto : pe.certTableOffset = F.certTableOffset)
    (h : (s.data input.path).take pe.dataEnd = F.file checksum entry body) :
    ∃ r t checksum, (writeSignedPeTo b input output pe d).run s = (r, t) ∧
      checksum.length = 4 ∧ Wrote s output.path (F.signed checksum body d) t ∧
      ((F.signed checksum body d).length < 2 ^ 32 - 2 ^ 16 → r = .ok ()) ∧
      (pe.dataEnd ≤ (s.data input.path).length →
        WholePairs (afterCopy s.reads pe.dataEnd) (F.signed (zeros 4) body d).length →
        (r, checksum) = storedChecksum (checksumOf b F.checksumOffset
          (F.signed (zeros 4) body d))) := by
  obtain ⟨t₁, run₁, wrote₁, reads₁⟩ := copyAndZero_run F hc he apart empty h
  obtain ⟨t₂, run₂, wrote₂, same⟩ := appendCertificate_run (output.seek (F.certTableOffset + 8))
    F.certTableOffset d t₁
  rw [seek_path, wrote₁.data, F.certified_file] at wrote₂
  obtain ⟨r, t, checksum', run, hc', wrote₃, room, determined⟩ := storeChecksum_run b F
    (output.seek (F.certTableOffset + 8)) (by simp) wrote₂.data
  refine ⟨r, t, checksum', ?_, hc', (wrote₁.trans wrote₂).trans wrote₃, ?_, ?_⟩
  · rw [writeSignedPeTo, cso, cto]
    exact ((run₁ _).trans (run₂ _)).trans run
  · intro small
    apply room
    rw [seek_path, wrote₂.data, F.signed_length (by simp)]
    rwa [F.signed_length hc'] at small
  · intro inside whole
    exact determined (by rwa [same, reads₁ inside])

theorem writeUnsignedPeTo_run (b : Build) (F : Frame) {input output : File} {pe : PeInfo}
    {checksum entry body : Bytes} {s : Store} (hc : checksum.length = 4)
    (he : entry.length = 8) (apart : input.path ≠ output.path)
    (empty : s.data output.path = []) (hasSignature : 0 < pe.sigpos)
    (cso : pe.checksumOffset = F.checksumOffset) (cto : pe.certTableOffset = F.certTableOffset)
    (h : (s.data input.path).take pe.sigpos = F.file checksum entry body) :
    ∃ r t checksum, (writeUnsignedPeTo b input output pe).run s = (r, t) ∧
      checksum.length = 4 ∧ Wrote s output.path (F.file checksum (zeros 8) body) t ∧
      ((F.file checksum (zeros 8) body).length < 2 ^ 32 - 2 ^ 16 → r = .ok ()) ∧
      (pe.sigpos ≤ (s.data input.path).length →
        WholePairs (afterCopy s.reads pe.sigpos) (F.file (zeros 4) (zeros 8) body).length →
        (r, checksum) = storedChecksum (checksumOf b F.checksumOffset
          (F.file (zeros 4) (zeros 8) body))) := by
  obtain ⟨t₁, run₁, wrote₁, reads₁⟩ := copyAndZero_run F hc he apart empty h
  obtain ⟨r, t, checksum', run, hc', wrote₂, room, determined⟩ := storeChecksum_run b F
    (output.seek (F.certTableOffset + 8)) (by simp) wrote₁.data
  have passes : ¬ pe.sigpos = 0 := by omega
  refine ⟨r, t, checksum', ?_, hc', wrote₁.trans wrote₂, ?_,
    fun inside whole => determined (by rwa [reads₁ inside])⟩
  · have checked : (Prog.rejectIf (pe.sigpos = 0) (Fault.error .noSignature)).run s =
        (.ok (), s) := Prog.rejectIf_eq_ok.mpr ⟨passes, rfl⟩
    rw [writeUnsignedPeTo, cso, cto, Prog.bind_ok checked]
    exact (run₁ _).trans run
  · intro small
    apply room
    rw [seek_path, wrote₁.data, F.file_length (by simp) (by simp)]
    rwa [F.file_length hc' (by simp)] at small

end Rsigncode
