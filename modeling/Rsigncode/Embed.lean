import Rsigncode.PeRuns
import Rsigncode.CertTable
import Rsigncode.RewriteSpec

/-! A signature embedded in a PE. The table entry is padded, so what is read back is
the blob and some zeros; the envelope check and the wrapping do not see them. -/
namespace Rsigncode

open FileStore Window Number Tlv

/-- The entry that signing writes. Its length counts the padding of the blob. -/
def signatureEntry (d : Bytes) : CertEntry where
  revision := winCertRevision20
  certType := winCertTypePkcsSignedData
  body := d ++ zeros (pad8 d.length)
  revision_lt := by decide
  certType_lt := by decide

theorem certificate_eq_table {d : Bytes} (small : certLength d < 2 ^ 32) :
    certificate d = CertEntry.table [signatureEntry d] := by
  have length : 8 + (signatureEntry d).body.length = certLength d := by
    simp only [signatureEntry, certLength, List.length_append, zeros_length]
    omega
  have aligned : certLength d % 8 = 0 := by
    have sum := add_pad8 d.length
    rw [certLength]
    omega
  rw [CertEntry.table_cons, CertEntry.bytes, length, pad8_of_mod aligned, certificate,
    asU32_of_lt small]
  simp only [CertEntry.table, List.flatMap_nil, signatureEntry, zeros_zero, List.append_nil,
    List.append_assoc]

/-- A table of the entry that signing writes gives back the blob with its padding. -/
theorem extractSignature_run {b : Build} {f : File} {pe : PeInfo} {s : Store} {d : Bytes}
    (rounds : Nat) (h : At (s.data f.path) pe.sigpos (certificate d)) (signed : 0 < pe.sigpos)
    (siglen : pe.siglen = certLength d) (small : (s.data f.path).length < 2 ^ 32) :
    (extractSignature b (rounds + 1) f pe).run s =
      (.ok (some (d ++ zeros (pad8 d.length))), s) := by
  have inside := h.le
  rw [certificate_length] at inside
  have entry := certificate_eq_table (d := d) (by omega)
  have present : ¬ (pe.sigpos = 0 ∨ pe.siglen = 0) := by
    rw [siglen, certLength]
    omega
  rw [extractSignature, if_neg present]
  have stand : At (s.data f.path) (pe.sigpos + 0) (CertEntry.table [signatureEntry d]) :=
    entry ▸ h
  refine extractLoop_table stand ?_ small (Nat.succ_le_succ (Nat.zero_le rounds))
  rw [← entry, certificate_length, siglen, Nat.zero_add]

theorem content_of_emitTlv {tag : UInt8} {x r : Bytes} {t : Tlv}
    (small : (emitTlv tag x).length < 2 ^ 32) (h : emitTlv tag x = t.bytes ++ r) :
    t.content = x ∧ r = [] := by
  have inside := length_le_emitTlv tag x
  obtain ⟨fits, rfl, rest⟩ := emitTlv_eq_bytes (by omega) h
  exact ⟨rfl, rest⟩

theorem content_of_around {k tag : UInt8} {f : Focus k} {x : Bytes}
    (small : (flat f.elems).length < 2 ^ 32) (h : f.around (emitTlv tag x) = flat f.elems) :
    f.hit.content = x := by
  rw [f.flat_elems] at h
  have same := f.around_injective h
  have inside := f.hit_length_le
  rw [← List.append_nil f.hit.bytes] at same
  exact (content_of_emitTlv (by rw [same, List.append_nil]; omega) same).1

theorem Envelope.done_of_rebuilt_eq {e : Envelope} {r : Bytes}
    (small : e.info.bytes.length + r.length < 2 ^ 32)
    (h : e.rebuilt (targetVersion false) (e.newContent false) = e.info.bytes ++ r) :
    e.Done false := by
  have whole := e.info.bytes_length
  have size1 := congrArg List.length e.fillsInfo
  have size2 := congrArg List.length e.fillsContent
  have size3 := congrArg List.length e.fillsSigned
  have size4 := congrArg List.length e.fillsEncap
  rw [flat_cons, List.length_append] at size3
  have hit1 := e.inInfo.hit_length_le
  have hit2 := e.inContent.hit_length_le
  have hit3 := e.inSigned.hit_length_le
  rw [Tlv.bytes_length] at hit1 hit2 hit3
  have len := congrArg List.length h
  rw [List.length_append] at len
  have level0 := (content_of_emitTlv (len ▸ small) h).1
  rw [e.fillsInfo] at level0
  have level1 := content_of_around (by omega) level0.symm
  rw [e.fillsContent] at level1
  have level2 := content_of_around (by omega) level1.symm
  rw [e.fillsSigned, flat_cons, ← versionTlv_bytes] at level2
  obtain ⟨version, rest⟩ := Tlv.bytes_append_inj level2
  have level3 := content_of_around (by omega) rest.symm
  rw [e.fillsEncap] at level3
  have level4 := content_of_around (by omega) level3.symm
  refine ⟨?_, by rw [version, versionTlv_bytes]⟩
  by_contra wrapped
  have tag : (e.inner.tag == 0x04) = true := by simpa using wrapped
  have longer := congrArg List.length level4
  have header := e.inner.header_length_ge
  simp only [Levels.newContent, tag, e.fillsEContent, flat_cons, List.length_append,
    Tlv.bytes_length] at longer
  omega

/-- The check accepts a buffer exactly when the envelope it starts with is in the
wanted form, whatever follows it. -/
theorem Envelope.check_eq_ok_iff {e : Envelope} {der : Bytes} (h : At der 0 e.info.bytes)
    (small : der.length < 2 ^ 32) :
    checkAuthenticodeEnvelope der = .ok () ↔ e.Done false := by
  have normalized : normalizeAuthenticodeSignature der = _ := Envelope.rewrite_eq h false
  rw [Rsigncode.check_eq_ok_iff, normalized, Except.ok.injEq]
  constructor
  · intro same
    by_contra todo
    rw [if_neg todo] at same
    obtain ⟨l, r, rfl, empty⟩ := h
    rw [List.length_eq_zero_iff.mp empty, List.nil_append] at same small
    rw [List.length_append] at small
    exact todo (Envelope.done_of_rebuilt_eq small same)
  · intro done
    rw [if_pos done]

theorem Envelope.wrap_eq {e : Envelope} {der : Bytes} (h : At der 0 e.info.bytes)
    (native : e.Done false) :
    wrapAuthenticodeContent der = .ok (e.rebuilt (targetVersion true) (e.newContent true)) := by
  have todo : ¬ e.Done true := fun done => by
    have tag := native.1.trans done.1.symm
    cases tag
  refine (Envelope.rewrite_eq h true).trans ?_
  rw [if_neg todo]

theorem Held.reads_back {b : Build} {F : Frame} {core cur checksum : Bytes} {pf : PeInfo}
    (h : Held b F core cur pf) (len : checksum.length = 4) (d : Bytes)
    (small : (F.signed checksum core d).length < 2 ^ 32) (rounds : Nat) :
    ∃ pe, Held b F core (F.signed checksum core d) pe ∧
      extractBytes b (rounds + 1) (F.signed checksum core d) pe =
        .ok (some (d ++ zeros (pad8 d.length))) := by
  have aligned := h.core_aligned
  have entry : At (F.signed checksum core d) (F.certTableOffset + 8 + core.length)
      (certificate d) := by
    rw [F.signed_aligned aligned]
    exact (at_append.mp (F.at_body len (directoryEntry_length _ _))).2
  refine ⟨_, held_signed b len d aligned h.room small, ?_⟩
  rw [extractBytes, extractSignature_run (d := d) rounds (by rwa [workspace_input])]
  · simp only [Frame.info]
    omega
  · rfl
  · rwa [workspace_input]

/-- A signature embedded in a PE is checked and wrapped as it would be by itself. -/
theorem embedded_signature_transparent {b : Build} {f x : Bytes} {pf : PeInfo} {s : Spine}
    (accepted : parseBytes b f = .ok pf) (unsigned : pf.sigpos = 0)
    (walk : walkSpine x = .ok s) (nested : s.WellNested)
    (checked : checkAuthenticodeEnvelope x = .ok ()) (small : f.length + x.length < 2 ^ 31)
    (reads : Reads) (rounds : Nat) :
    ∃ out pe blob, (Op.sign x).apply b reads f = (.ok (), out) ∧ parseBytes b out = .ok pe ∧
      extractBytes b (rounds + 1) out pe = .ok (some blob) ∧
      checkAuthenticodeEnvelope blob = .ok () ∧
      wrapAuthenticodeContent blob = wrapAuthenticodeContent x := by
  have first := parseBytes_eq_ok.mp accepted
  have bound := first.dataEnd_le
  have stop := PeInfo.dataEnd_unsigned unsigned
  obtain ⟨F, core, start⟩ := first.held unsigned (first.room_of_small (by omega))
  have aligned := start.core_aligned
  obtain ⟨r, checksum, run, len, room, -⟩ := start.sign x reads
  have size : (F.signed checksum core x).length = _ := F.signed_length len
  have ends := start.core_end
  have pad := pad8_lt pf.dataEnd
  have pad' := pad8_lt x.length
  rw [pad8_of_mod aligned, certLength] at size
  obtain ⟨pe, held, extracted⟩ := start.reads_back len x (by omega) rounds
  obtain ⟨e, here, -⟩ := exists_envelope walk nested
  have done := (Envelope.check_eq_ok_iff here (by omega)).mp checked
  have there := here.append_right (zeros (pad8 x.length))
  refine ⟨F.signed checksum core x, pe, x ++ zeros (pad8 x.length), ?_,
    parseBytes_eq_ok.mpr held.accepted, extracted, ?_, ?_⟩
  · rw [run, room (by omega)]
  · refine (Envelope.check_eq_ok_iff there ?_).mpr done
    rw [List.length_append, zeros_length]
    omega
  · rw [Envelope.wrap_eq there done, Envelope.wrap_eq here done]

theorem embedded_signature_transparent_sample :
    ∃ out pe blob, (Op.sign sampleDer).apply .release uncut (smallPe 0 0) = (.ok (), out) ∧
      parseBytes .release out = .ok pe ∧ extractBytes .release 1 out pe = .ok (some blob) ∧
      checkAuthenticodeEnvelope blob = .ok () ∧
      wrapAuthenticodeContent blob = wrapAuthenticodeContent sampleDer :=
  embedded_signature_transparent (smallPe_unsigned .release) rfl sampleDer_walk
    sampleSpine_wellNested (by decide +kernel) (by rw [smallPe_length]; decide) uncut 0

end Rsigncode
