import Rsigncode.PeRuns

/-! The two writers as the command line calls them, by path. Both empty the file at the
output path before anything else, whatever it is and whatever comes of the call. -/
namespace Rsigncode

open FileStore Window Number

section Release

theorem add_ok_release {b : Build} {x y z : Nat} (h : b.add x y = .ok z) :
    Build.release.add x y = .ok z := by
  rw [add_release, add_eq_ok h]

theorem checksumLoop_release (cso rounds : Nat) (f : File) (state : Nat × Nat) (s : Store) :
    ∃ last t, (checksumLoop .release cso rounds f state).run s = (.ok last, t) := by
  induction rounds generalizing f state s with
  | zero => exact ⟨state, s, rfl⟩
  | succ rounds ih =>
    obtain ⟨buf, t, run, -⟩ := read_run (ε := Fault) f s (n := bufferSize) (by decide)
    simp only [checksumLoop, Prog.bind_ok run]
    by_cases empty : buf = []
    · exact ⟨state, t, by simp [empty]⟩
    · obtain ⟨next, pairs⟩ := checksumPairs_release cso state buf
      obtain ⟨last, u, rest⟩ := ih (f.seek (f.pos + buf.length)) next t
      refine ⟨last, u, ?_⟩
      rw [if_neg empty, Prog.bind_ok (t := t) (a := next) (by rw [pairs]; rfl), rest]

theorem storeChecksum_release (f : File) (cso : Nat) (s : Store) :
    ∃ v t, (storeChecksum .release f cso).run s = (.ok (), t) ∧
      Wrote s f.path (overwrite (s.data f.path) cso (le 4 v)) t := by
  obtain ⟨⟨checksum, offset⟩, t, run⟩ :=
    checksumLoop_release cso ((s.data f.path).length + 1) (f.seek 0) (0, 0) s
  have same := (checksumLoop_sameFiles .release cso _ _ _).of_run run
  let v := asU32 (asU32 ((checksum &&& 0xFFFF) + (checksum >>> 16)) +
    asU32 (s.data f.path).length)
  have sum : (peCalcChecksum .release f cso).run s = (.ok v, t) := by
    rw [peCalcChecksum, Prog.bind_ok (seekEnd_eq_ok.mpr ⟨rfl, rfl⟩)]
    refine (Prog.bind_ok run).trans ?_
    dsimp only
    rw [Prog.bind_ok (t := t) (by rw [add_release]; rfl), add_release]
    rfl
  refine ⟨v, t.setData f.path (overwrite (t.data f.path) cso (le 4 v)), ?_, ?_⟩
  · rw [storeChecksum, Prog.bind_ok sum]
    rfl
  · rw [data_congr same]
    exact (wrote_sameFiles same f.path).trans (wrote_setData t f.path _)

/-- What a signing call has left to copy once the output has been emptied. -/
def copiedData (s : Store) (input : File) (outputPath : Path) (pe : PeInfo) : Bytes :=
  if outputPath = input.path then [] else (s.data input.path).take pe.dataEnd

theorem copyRange_emptied (input : File) (outputPath : Path) (pe : PeInfo) (s : Store) :
    ∃ t, (copyRange input ⟨outputPath, 0⟩ 0 pe.dataEnd).run (s.setData outputPath []) =
        (.ok (), t) ∧ Wrote s outputPath (copiedData s input outputPath pe) t := by
  have emptied := wrote_setData s outputPath []
  by_cases path : outputPath = input.path
  · obtain ⟨t, run, wrote⟩ := copyRange_self input ⟨outputPath, 0⟩ 0 pe.dataEnd
      (s.setData outputPath []) path.symm
    rw [data_setData] at wrote
    refine ⟨t, run, ?_⟩
    rw [copiedData, if_pos path]
    exact emptied.trans wrote
  · obtain ⟨t, run, wrote⟩ := copyRange_run input ⟨outputPath, 0⟩ 0 pe.dataEnd
      (s.setData outputPath []) (fun same => path same.symm)
    rw [data_setData, data_setData_ne _ (fun same => path same.symm), slice_zero,
      overwrite_nil] at wrote
    refine ⟨t, run, ?_⟩
    rw [copiedData, if_neg path]
    exact emptied.trans wrote

/-- A release build signs whatever it is given: it returns `Ok`, with an output made of
what it could copy. -/
theorem writeSignedPe_release (input : File) (outputPath : Path) (pe : PeInfo) (d : Bytes)
    (s : Store) : ∃ v t, (writeSignedPe .release input outputPath pe d).run s = (.ok (), t) ∧
      Wrote s outputPath (overwrite (certified pe.certTableOffset
        (zeroFields pe.checksumOffset pe.certTableOffset (copiedData s input outputPath pe)) d)
        pe.checksumOffset (le 4 v)) t := by
  let output : File := ⟨outputPath, 0⟩
  obtain ⟨t₁, run₁, wrote₁⟩ := copyRange_emptied input outputPath pe s
  obtain ⟨t₂, run₂, wrote₂, -⟩ :=
    zeroFields_run output pe.checksumOffset pe.certTableOffset t₁
  obtain ⟨t₃, run₃, wrote₃, -⟩ := appendCertificate_run
    (output.seek (pe.certTableOffset + 8)) pe.certTableOffset d t₂
  obtain ⟨v, t₄, run₄, wrote₄⟩ := storeChecksum_release
    (output.seek (pe.certTableOffset + 8)) pe.checksumOffset t₃
  have path : output.path = outputPath := rfl
  rw [path, wrote₁.data] at wrote₂
  rw [seek_path, path, wrote₂.data] at wrote₃
  rw [seek_path, path, wrote₃.data] at wrote₄
  refine ⟨v, t₄, ?_, ((wrote₁.trans wrote₂).trans wrote₃).trans wrote₄⟩
  rw [writeSignedPe, Prog.bind_ok (createTruncate_run outputPath s), writeSignedPeTo]
  exact (Prog.bind_ok run₁).trans ((run₂ _).trans ((run₃ _).trans run₄))

theorem certified_head {cto : Nat} {z : Bytes} {a : UInt8} (d : Bytes) (past : 0 < cto)
    (head : z[0]? = some a) : (certified cto z d)[0]? = some a := by
  have some : 0 < z.length := (List.getElem?_eq_some_iff.mp head).1
  rw [certified, overwrite_before _ past (by simp only [List.length_append]; omega),
    List.append_assoc, List.getElem?_append_left some, head]

theorem signed_nothing_head {cso cto : Nat} (hcso : 0 < cso) (hcto : 0 < cto) (d : Bytes)
    (v : Nat) : (overwrite (certified cto (zeroFields cso cto []) d) cso (le 4 v))[0]? =
      some 0 := by
  have first : (overwrite [] cso (zeros 4) : Bytes)[0]? = some 0 :=
    overwrite_gap (by decide) (Nat.le_refl 0) hcso
  have fields : (zeroFields cso cto [])[0]? = some 0 := by
    rw [zeroFields, overwrite_before _ hcto (List.getElem?_eq_some_iff.mp first).1, first]
  have whole := certified_head d hcto fields
  rw [overwrite_before _ hcso (List.getElem?_eq_some_iff.mp whole).1, whole]

theorem signed_length_le {cso cto : Nat} (order : cso + 4 ≤ cto) (z d : Bytes) (v : Nat) :
    (overwrite (certified cto (zeroFields cso cto z) d) cso (le 4 v)).length ≤
      max z.length (cto + 8) + 7 + certLength d := by
  have first := overwrite_length_max z (zeros 4) cso
  have second := overwrite_length_max (overwrite z cso (zeros 4)) (zeros 8) cto
  have third := overwrite_length_max (zeroFields cso cto z ++
    zeros (pad8 (zeroFields cso cto z).length) ++ certificate d)
    (directoryEntry ((zeroFields cso cto z).length + pad8 (zeroFields cso cto z).length)
      (certLength d)) cto
  have fourth := overwrite_length_max (certified cto (zeroFields cso cto z) d) (le 4 v) cso
  have pad := pad8_lt (zeroFields cso cto z).length
  rw [← zeroFields] at second
  rw [← certified] at third
  simp only [List.length_append, zeros_length, directoryEntry_length, certificate_length,
    le_length] at first second third fourth
  omega

end Release

structure KeepsInput (f : Bytes) (pe : PeInfo) (outputPath : Path) (s t : Store) : Prop where
  long : f.length ≤ (t.data outputPath).length
  begins : ∀ i, i < f.length → ¬ pe.skips i → (t.data outputPath)[i]? = f[i]?
  others : ∀ q, q ≠ outputPath → t.files q = s.files q

/-- Every signing call from this input to this path that returns `Ok`, in any build, with
any blob and any reads, keeps the input. -/
def SignsContents (s : Store) (input : File) (outputPath : Path) : Prop :=
  ∀ b pe d reads t, parseBytes b (s.data input.path) = .ok pe → pe.sigpos = 0 →
    (writeSignedPe b input outputPath pe d).run { s with reads := reads } = (.ok (), t) →
    KeepsInput (s.data input.path) pe outputPath s t

theorem Accepts.release {b : Build} {d : Bytes} {pe : PeInfo} (h : Accepts b d pe) :
    Accepts .release d pe where
  fileend := h.fileend
  long := h.long
  mz := h.mz
  lfanew := h.lfanew
  header_ge := h.header_ge
  header_le := h.header_le
  needed := by
    obtain ⟨n, add, fits⟩ := h.needed
    exact ⟨n, add_ok_release add, fits⟩
  signature := h.signature
  magic := h.magic
  nrvas := h.nrvas
  checksumOffset := h.checksumOffset
  certTableOffset := h.certTableOffset
  room := h.room
  entry := by
    have entry := h.entry
    unfold signatureDirectory at entry ⊢
    by_cases quick : u32At d pe.certTableOffset = 0 ∨ u32At d (pe.certTableOffset + 4) = 0 ∨
        u32At d pe.certTableOffset ≥ pe.fileend
    · simpa only [quick, if_true] using entry
    · simp only [quick, if_false] at entry ⊢
      cases sum : b.add (u32At d pe.certTableOffset) (u32At d (pe.certTableOffset + 4)) with
      | error e => simp [sum, bind, Except.bind] at entry
      | ok stop => simpa only [sum, add_ok_release sum] using entry

theorem Accepts.head {b : Build} {d : Bytes} {pe : PeInfo} (h : Accepts b d pe) :
    d[0]? ≠ some 0 := by
  intro zero
  have mz := h.mz
  rcases d with _ | ⟨x, _ | ⟨y, rest⟩⟩
  · cases zero
  · cases zero
    cases mz
  · cases zero
    have value : u16At (0 :: y :: rest) 0 = 256 * y.toNat := by
      simp [u16At, slice, ofLe]
    rw [value, dosMagic] at mz
    omega

section Signs
variable {s : Store} {input : File} {outputPath : Path} {b : Build} {pe : PeInfo}

theorem not_signsContents_self (accepted : parseBytes b (s.data input.path) = .ok pe)
    (unsigned : pe.sigpos = 0) : ¬ SignsContents s input input.path := by
  intro signs
  have accepts := (parseBytes_eq_ok.mp accepted).release
  have cso := accepts.checksumOffset
  have cto := accepts.certTableOffset
  have long := accepts.dataEnd_le
  have minimum := accepts.long
  obtain ⟨v, t, run, wrote⟩ := writeSignedPe_release input input.path pe [] s
  have keeps := signs .release pe [] s.reads t (parseBytes_eq_ok.mpr accepts) unsigned run
  have head := keeps.begins 0 (by omega) (by simp only [PeInfo.skips]; omega)
  rw [wrote.data, copiedData, if_pos rfl,
    signed_nothing_head (by omega) (by omega)] at head
  exact accepts.head head.symm

theorem not_signsContents_large (accepted : parseBytes b (s.data input.path) = .ok pe)
    (unsigned : pe.sigpos = 0) (large : 2 ^ 32 ≤ (s.data input.path).length) :
    ¬ SignsContents s input outputPath := by
  intro signs
  have accepts := (parseBytes_eq_ok.mp accepted).release
  have cso := accepts.checksumOffset
  have cto := accepts.certTableOffset
  have plus := pe32plusOffset_le pe.pe32plus
  have header := accepts.header_le
  have fileend := accepts.fileend
  have stop := PeInfo.dataEnd_unsigned unsigned
  obtain ⟨v, t, run, wrote⟩ := writeSignedPe_release input outputPath pe [] s
  have keeps := signs .release pe [] s.reads t (parseBytes_eq_ok.mpr accepts) unsigned run
  have long := keeps.long
  have order : pe.checksumOffset + 4 ≤ pe.certTableOffset := by omega
  have size := signed_length_le order (copiedData s input outputPath pe) [] v
  have copied : (copiedData s input outputPath pe).length ≤ pe.fileend := by
    rw [copiedData]
    split
    · exact Nat.zero_le _
    · rw [List.length_take, stop]
      exact Nat.min_le_left _ _
  have empty : certLength [] = 8 := rfl
  rw [wrote.data] at long
  simp only [asU32] at fileend
  omega

theorem signsContents_of_small (apart : outputPath ≠ input.path)
    (small : (s.data input.path).length < 2 ^ 32) : SignsContents s input outputPath := by
  intro b pe d reads t accepted unsigned run
  have accepts := parseBytes_eq_ok.mp accepted
  have fileend := accepts.fileend
  have room := accepts.room
  have stop := PeInfo.dataEnd_unsigned unsigned
  rw [asU32_of_lt small] at fileend
  obtain ⟨F, checksum, entry, body, framed⟩ := accepts.framed (by omega)
  let output : File := ⟨outputPath, 0⟩
  let opening : Store := ({ s with reads := reads } : Store).setData outputPath []
  have other : input.path ≠ output.path := fun same => apart same.symm
  have contents : opening.data input.path = s.data input.path := data_setData_ne _ other
  have empty : opening.data output.path = [] := data_setData _ _ _
  obtain ⟨r, u, stored, run', len, wrote, -⟩ := writeSignedPeTo_run b F d framed.checksum_length
    framed.entry_length other empty framed.checksumOffset framed.certTableOffset
    (by rw [contents]; exact framed.data)
  rw [writeSignedPe, Prog.bind_ok (createTruncate_run _ _), run'] at run
  cases run
  have whole : s.data input.path = F.file checksum entry body := by
    rw [← framed.data, stop, fileend, List.take_length]
  have size : (F.signed stored body d).length = _ := F.signed_length len
  have old : (F.file checksum entry body).length = _ :=
    F.file_length framed.checksum_length framed.entry_length
  rw [← whole] at old
  refine ⟨by rw [wrote.data, size]; omega, fun i inside kept => ?_, fun q away => ?_⟩
  · rw [framed.info] at kept
    rw [wrote.data, whole, Frame.signed, List.append_assoc, ← F.file_append,
      List.getElem?_append_left (by rw [F.file_length len (by simp)]; omega)]
    exact Frame.file_getElem? len (by simp) framed.checksum_length framed.entry_length kept
  · rw [wrote.others q away]
    exact if_neg away

/-- Signing is a function of the input's contents exactly where the output is another file
and the input is below 4 GiB. -/
theorem signsContents_iff (accepted : parseBytes b (s.data input.path) = .ok pe)
    (unsigned : pe.sigpos = 0) : SignsContents s input outputPath ↔
      outputPath ≠ input.path ∧ (s.data input.path).length < 2 ^ 32 := by
  constructor
  · intro signs
    refine ⟨?_, ?_⟩
    · rintro rfl
      exact not_signsContents_self accepted unsigned signs
    · exact Nat.not_le.mp fun large => not_signsContents_large accepted unsigned large signs
  · rintro ⟨apart, small⟩
    exact signsContents_of_small apart small

end Signs

theorem workspace_accepted : parseBytes .release
    ((workspace (smallPe 0 0) uncut).data input.path) = .ok (smallFrame.info 0 0 240) := by
  rw [workspace_input]
  exact smallPe_unsigned .release

theorem signsContents_iff_small :
    SignsContents (workspace (smallPe 0 0) uncut) input "out" ↔
      "out" ≠ input.path ∧ ((workspace (smallPe 0 0) uncut).data input.path).length < 2 ^ 32 :=
  signsContents_iff workspace_accepted rfl

theorem signing_in_place_zeros : ¬ ∀ (s : Store) (input : File) (outputPath : Path) (b : Build)
    (pe : PeInfo), parseBytes b (s.data input.path) = .ok pe → pe.sigpos = 0 →
    SignsContents s input outputPath := by
  intro claim
  have signs := claim _ input input.path .release _ workspace_accepted rfl
  exact not_signsContents_self workspace_accepted rfl signs

section Refusal

theorem checksumWord_ne_error (b : Build) (cso checksum offset : Nat) (lo hi : UInt8)
    (e : Error) : checksumWord b cso checksum offset lo hi ≠ .error (.error e) := by
  have add := add_ne_error (e := .error e) nofun b
  have pure_ne : ∀ a : Nat × Nat, (pure a : Res _) ≠ .error (.error e) := fun _ h => nomatch h
  have folded := fun x y a => Res.bind_ne_error (add x y) fun checksum =>
    Res.bind_ne_error (add (checksum &&& 0xFFFF) (checksum >>> 16)) fun checksum =>
    Res.bind_ne_error (add offset a) fun offset => pure_ne (checksum, offset)
  unfold checksumWord
  split
  · exact folded _ _ _
  · exact Res.bind_ne_error (add _ _) fun _ => folded _ _ _

theorem checksumPairs_ne_error (b : Build) (cso : Nat) (state : Nat × Nat) (buf : Bytes)
    (e : Error) : checksumPairs b cso state buf ≠ .error (.error e) := by
  induction state, buf using checksumPairs.induct with
  | case1 checksum offset lo hi rest ih =>
    rw [checksumPairs]
    exact Res.bind_ne_error (checksumWord_ne_error b cso checksum offset lo hi e) ih
  | case2 buf state short =>
    intro failed
    rcases buf with _ | ⟨lo, _ | ⟨hi, rest⟩⟩
    · cases failed
    · cases failed
    · exact absurd rfl (short _ _ lo hi rest rfl)

theorem copyLoop_never (rounds : Nat) (src dst : File) (remaining : Nat) (e : Fault) :
    Prog.Never e (copyLoop rounds src dst remaining) := by
  induction rounds generalizing src dst remaining with
  | zero => exact Prog.never_pure ()
  | succ rounds ih =>
    rw [copyLoop]
    split
    · exact Prog.never_pure ()
    · refine (read_never src _ e).bind ?_
      rintro ⟨buf, src⟩
      dsimp only
      split
      · exact Prog.never_pure ()
      · exact (writeAll_never dst buf e).bind fun dst => ih src dst _

theorem copyRange_never (src dst : File) (start stop : Nat) (e : Fault) :
    Prog.Never e (copyRange src dst start stop) := by
  rw [copyRange]
  split
  · exact Prog.never_pure ()
  · exact copyLoop_never _ _ _ _ e

theorem checksumLoop_never (b : Build) (cso rounds : Nat) (f : File) (state : Nat × Nat)
    (e : Error) : Prog.Never (.error e) (checksumLoop b cso rounds f state) := by
  induction rounds generalizing f state with
  | zero => exact Prog.never_pure state
  | succ rounds ih =>
    rw [checksumLoop]
    refine (read_never f _ _).bind ?_
    rintro ⟨buf, f⟩
    dsimp only
    split
    · exact Prog.never_pure state
    · exact (Prog.never_ofExcept (checksumPairs_ne_error b cso state buf e)).bind
        fun state => ih f state

theorem peCalcChecksum_never (b : Build) (f : File) (cso : Nat) (e : Error) :
    Prog.Never (.error e) (peCalcChecksum b f cso) := by
  have add := fun x y => Prog.never_ofExcept (σ := Store) (add_ne_error (e := .error e) nofun b x y)
  refine (seekEnd_never f _).bind fun f => (checksumLoop_never b cso _ _ _ e).bind ?_
  rintro ⟨checksum, offset⟩
  exact (add _ _).bind fun _ => add _ _

theorem writeUnsignedPeTo_never (b : Build) (input output : File) {pe : PeInfo} (e : Error)
    (present : pe.sigpos ≠ 0) : Prog.Never (.error e) (writeUnsignedPeTo b input output pe) := by
  unfold writeUnsignedPeTo
  rw [Prog.rejectIf, if_neg present]
  exact (Prog.never_pure ()).bind fun _ => (copyRange_never _ _ _ _ _).bind fun _ =>
    (writeAll_never _ _ _).bind fun _ => (writeAll_never _ _ _).bind fun _ =>
    (peCalcChecksum_never _ _ _ e).bind fun _ => (writeAll_never _ _ _).bind fun _ =>
    Prog.never_pure ()

end Refusal

def RefusalLeaves (b : Build) (s : Store) (input : File) (outputPath : Path) (pe : PeInfo) :
    Prop :=
  ∀ t, (writeUnsignedPe b input outputPath pe).run s = (.error (.error .noSignature), t) →
    t.files = s.files

section RefusalLeaves
variable {s : Store} {input : File} {outputPath : Path} {b : Build} {pe : PeInfo}

theorem writeUnsignedPe_refused (unsigned : pe.sigpos = 0) :
    (writeUnsignedPe b input outputPath pe).run s =
      (.error (.error .noSignature), s.setData outputPath []) := by
  rw [writeUnsignedPe, Prog.bind_ok (createTruncate_run _ _), writeUnsignedPeTo, Prog.rejectIf,
    if_pos unsigned]
  rfl

theorem setData_files_eq (s : Store) (p : Path) (d : Bytes) :
    (s.setData p d).files = s.files ↔ s.files p = some d := by
  constructor
  · intro same
    have here := congrFun same p
    simpa only [Store.setData, if_true] using here.symm
  · intro held
    funext q
    simp only [Store.setData]
    split
    · next here => rw [here, held]
    · rfl

/-- The refusal comes after the output has been opened, so it is harmless only where an
empty file was there to be emptied. -/
theorem refusalLeaves_iff : RefusalLeaves b s input outputPath pe ↔
    pe.sigpos ≠ 0 ∨ s.files outputPath = some [] := by
  by_cases unsigned : pe.sigpos = 0
  · have refused : (writeUnsignedPe b input outputPath pe).run s =
        (.error (.error .noSignature), s.setData outputPath []) := writeUnsignedPe_refused unsigned
    rw [← setData_files_eq s outputPath []]
    constructor
    · exact fun leaves => .inr (leaves _ refused)
    · rintro (present | same) t run
      · exact absurd unsigned present
      · rw [refused] at run
        cases run
        exact same
  · refine ⟨fun _ => .inl unsigned, fun _ t run => ?_⟩
    rw [writeUnsignedPe, Prog.bind_ok (createTruncate_run _ _)] at run
    exact absurd run (writeUnsignedPeTo_never b input _ _ unsigned).run_ne

end RefusalLeaves

/-- Refusing to remove a signature from an unsigned file empties the file it was to write. -/
theorem refusal_empties_output : ¬ ∀ (b : Build) (s : Store) (input : File) (outputPath : Path)
    (pe : PeInfo), parseBytes b (s.data input.path) = .ok pe →
    RefusalLeaves b s input outputPath pe := by
  intro claim
  let s := (workspace (smallPe 0 0) uncut).setData "out" [1]
  have kept : s.data input.path = smallPe 0 0 :=
    (data_setData_ne _ (by decide)).trans (workspace_input _ _)
  have leaves := claim .release s input "out" (smallFrame.info 0 0 240)
    (by rw [kept]; exact smallPe_unsigned .release) _ (writeUnsignedPe_refused rfl)
  have full := (setData_files_eq s "out" []).mp leaves
  exact absurd full (by decide)

end Rsigncode
