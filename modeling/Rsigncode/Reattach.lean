import Rsigncode.Embed

/-! Taking a signature out of a PE and putting it back. The reader hands out the padding
with the blob and the normalizer keeps it; the writer then has nothing left to pad, so
the table entry and with it the file are the same. -/
namespace Rsigncode

open FileStore Window Number Tlv

def padded (d : Bytes) : Bytes := d ++ zeros (pad8 d.length)

theorem padded_length (d : Bytes) : (padded d).length = d.length + pad8 d.length := by
  rw [padded, List.length_append, zeros_length]

theorem pad8_padded (d : Bytes) : pad8 (padded d).length = 0 := by
  rw [padded_length, pad8_of_mod (add_pad8 d.length)]

theorem certLength_padded (d : Bytes) : certLength (padded d) = certLength d := by
  rw [certLength, pad8_padded, padded_length, certLength]
  omega

/-- Padding is absorbed once: a padded blob has the entry of the blob. -/
theorem certificate_padded (d : Bytes) : certificate (padded d) = certificate d := by
  rw [certificate, certLength_padded, pad8_padded, zeros_zero, List.append_nil, padded,
    ← List.append_assoc, certificate]

theorem Frame.signed_congr (F : Frame) {d d' : Bytes} (entry : certificate d = certificate d')
    (checksum body : Bytes) : F.signed checksum body d = F.signed checksum body d' := by
  have size := congrArg List.length entry
  rw [certificate_length, certificate_length] at size
  rw [Frame.signed, entry, size]
  rfl

theorem normalize_padded {d : Bytes} {s : Spine} (small : d.length < 2 ^ 32)
    (walk : walkSpine d = .ok s) (nested : s.WellNested)
    (checked : checkAuthenticodeEnvelope d = .ok ()) :
    normalizeAuthenticodeSignature (padded d) = .ok (padded d) := by
  obtain ⟨e, here, -⟩ := exists_envelope walk nested
  have done := (Envelope.check_eq_ok_iff here small).mp checked
  refine (Envelope.rewrite_eq (here.append_right _) false).trans ?_
  rw [if_pos done]
  rfl

theorem checksumOf_release (cso : Nat) (d : Bytes) : ∃ v, checksumOf .release cso d = .ok v := by
  obtain ⟨last, pairs⟩ := checksumPairs_release cso (0, 0) d
  rw [checksumOf, Res.bind_ok pairs]
  simp only [add_release]
  exact ⟨_, rfl⟩

/-- A signature that was extracted and is attached again leaves the file as it was, up to
the checksum; where no pair is torn, whole. -/
theorem reattach_same {b : Build} {f d out : Bytes} {pf : PeInfo} {reads : Reads} {r : Res Unit}
    (accepted : parseBytes b f = .ok pf) (unsigned : pf.sigpos = 0)
    (small : f.length + d.length < 2 ^ 32 - 2 ^ 16)
    (signs : (Op.sign d).apply b reads f = (r, out)) (rounds : Nat) :
    (out.length < 2 ^ 32 - 2 ^ 16 → r = .ok ()) ∧
    ∃ pe, parseBytes b out = .ok pe ∧
      extractBytes b (rounds + 1) out pe = .ok (some (d ++ zeros (pad8 d.length))) ∧
      ((Op.sign d).KeepsPairs b reads f → b = .release → r = .ok ()) ∧
      ∀ s, walkSpine d = .ok s → s.WellNested → checkAuthenticodeEnvelope d = .ok () →
        ∃ blob, normalizeAuthenticodeSignature (d ++ zeros (pad8 d.length)) = .ok blob ∧
          ∀ cur, cur = f ∨ cur = out → ∀ reads',
            SameButChecksum pf.checksumOffset ((Op.sign blob).apply b reads' cur).2 out ∧
            ((Op.sign d).KeepsPairs b reads f → (Op.sign blob).KeepsPairs b reads' cur →
              (Op.sign blob).apply b reads' cur = (r, out)) := by
  have first := parseBytes_eq_ok.mp accepted
  have bound := first.dataEnd_le
  have stop := PeInfo.dataEnd_unsigned unsigned
  obtain ⟨F, core, start⟩ := first.held unsigned (first.room_of_small (by omega))
  have aligned := start.core_aligned
  obtain ⟨-, -, cso, -⟩ := start.layout
  obtain ⟨r', checksum, run, len, room, determined⟩ := start.sign d reads
  cases signs.symm.trans run
  have size : (F.signed checksum core d).length = _ := F.signed_length len
  have ends := start.core_end
  have pad := pad8_lt pf.dataEnd
  have pad' := pad8_lt d.length
  rw [pad8_of_mod aligned, certLength] at size
  obtain ⟨pe, held, extracted⟩ := start.reads_back len d (by omega) rounds
  have absorbed := F.signed_congr (certificate_padded d)
  have again : ∀ cur, cur = f ∨ cur = F.signed checksum core d → ∃ now, Held b F core cur now := by
    rintro cur (rfl | rfl)
    · exact ⟨pf, start⟩
    · exact ⟨pe, held⟩
  refine ⟨room, pe, parseBytes_eq_ok.mpr held.accepted, extracted, fun pairs release => ?_, ?_⟩
  · subst release
    obtain ⟨v, sum⟩ := checksumOf_release F.checksumOffset (F.signed (zeros 4) core d)
    exact (storedChecksum_ok (determined pairs) sum).1
  · intro s walk nested checked
    refine ⟨padded d, normalize_padded (by omega) walk nested checked, fun cur which reads' => ?_⟩
    obtain ⟨now, here⟩ := again cur which
    have same := here.sign_same start (fun checksum => absorbed checksum core) reads' reads
    rw [run, ← cso] at same
    refine ⟨same, fun pairs pairs' => ?_⟩
    rw [← run]
    exact here.sign_eq start (fun checksum => absorbed checksum core) pairs' pairs

theorem reattach_same_sample :
    ∃ r out blob, (Op.sign sampleDer).apply .release uncut (smallPe 0 0) = (r, out) ∧
      (Op.sign blob).apply .release pairReads (smallPe 0 0) = (r, out) ∧
      (Op.sign blob).apply .release uncut out = (r, out) := by
  rcases signs : (Op.sign sampleDer).apply .release uncut (smallPe 0 0) with ⟨r, out⟩
  obtain ⟨-, pe, -, -, -, again⟩ := reattach_same (smallPe_unsigned .release) rfl
    (by rw [smallPe_length]; decide) signs 0
  obtain ⟨blob, normalized, same⟩ :=
    again sampleSpine sampleDer_walk sampleSpine_wellNested (by decide +kernel)
  have done := (normalize_padded (by decide) sampleDer_walk sampleSpine_wellNested
    (by decide +kernel)).symm.trans normalized
  cases done
  have full := keepsPairs_uncut .release (.sign sampleDer) (smallPe 0 0)
  have pairs : (Op.sign (padded sampleDer)).KeepsPairs .release pairReads (smallPe 0 0) := by
    intro pe accepted
    cases (smallPe_unsigned .release).symm.trans accepted
    decide +kernel
  exact ⟨r, out, padded sampleDer, rfl, (same _ (.inl rfl) pairReads).2 full pairs,
    (same _ (.inr rfl) uncut).2 full (keepsPairs_uncut _ _ _)⟩

/-- A signature that was extracted, and is attached to the same file while the checksum's
first read returns one byte, gives another file. -/
theorem reattach_torn : ¬ ∀ (b : Build) (f d out x blob : Bytes) (pf pe : PeInfo) (s : Spine)
    (reads reads' : Reads) (r : Res Unit), parseBytes b f = .ok pf → pf.sigpos = 0 →
    f.length + d.length < 2 ^ 32 - 2 ^ 16 → walkSpine d = .ok s → s.WellNested →
    checkAuthenticodeEnvelope d = .ok () → (Op.sign d).apply b reads f = (r, out) →
    parseBytes b out = .ok pe → extractBytes b 1 out pe = .ok (some x) →
    normalizeAuthenticodeSignature x = .ok blob → ((Op.sign blob).apply b reads' f).2 = out := by
  intro claim
  have checked : checkAuthenticodeEnvelope sampleDer = .ok () := by decide +kernel
  obtain ⟨r, checksum, run, len, -⟩ := smallPe_held.sign sampleDer uncut
  have size : (smallFrame.signed checksum (zeros 16) sampleDer).length = _ :=
    smallFrame.signed_length len
  obtain ⟨pe, held, extracted⟩ := smallPe_held.reads_back len sampleDer (by rw [size]; decide) 0
  have same := claim .release (smallPe 0 0) sampleDer _ _ _ _ pe sampleSpine uncut tornReads r
    (smallPe_unsigned .release) rfl (by rw [smallPe_length]; decide) sampleDer_walk
    sampleSpine_wellNested checked run (parseBytes_eq_ok.mpr held.accepted) extracted
    (normalize_padded (by decide) sampleDer_walk sampleSpine_wellNested checked)
  rw [← (Prod.mk.inj run).2] at same
  exact absurd same (by decide +kernel)

end Rsigncode
