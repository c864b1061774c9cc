import Rsigncode.Embed

/-! What the envelope check decides. It rewrites the blob and compares: on a well-nested
one that is a test of two fields, and on any other it is worked out level by level. -/
namespace Rsigncode

open FileStore Window Number Tlv

/-- The form Windows accepts: the first child of SignedData is version 1, in these three
octets, and that of eContent is no OCTET STRING. -/
structure WindowsForm (der : Bytes) (s : Spine) : Prop where
  version : ∃ first, s.l2Children.head? = some first ∧
    slice der first.fullStart first.contentEnd = [0x02, 0x01, 0x01]
  native : ∃ first, s.l4Children.head? = some first ∧ first.tag ≠ 0x04

theorem Levels.Stands.windowsForm_iff {L : Levels} {der : Bytes} (h : L.Stands der) :
    WindowsForm der L.spine ↔ L.Done false := by
  have version : slice der L.startSigned (L.startSigned + L.version.bytes.length) =
      L.version.bytes := h.versionAt.slice_eq rfl
  constructor
  · rintro ⟨⟨first, here, bytes⟩, inner, here', native⟩
    cases here
    cases here'
    exact ⟨(beq_eq_false_iff_ne.mpr native).symm, version.symm.trans bytes⟩
  · rintro ⟨native, bytes⟩
    exact ⟨⟨_, rfl, version.trans bytes⟩, _, rfl, beq_eq_false_iff_ne.mp native.symm⟩

/-- On well-nested input the check is a test of two fields: where one of them is off, the
rewritten blob is another one. -/
theorem checkAuthenticodeEnvelope_iff {der : Bytes} (small : der.length < 2 ^ 31)
    (nested : ∀ s, walkSpine der = .ok s → s.WellNested) :
    (checkAuthenticodeEnvelope der = .ok () ↔ ∃ s, walkSpine der = .ok s ∧ WindowsForm der s) ∧
      ∀ s out, walkSpine der = .ok s → ¬ WindowsForm der s → rebuild der s false = .ok out →
        out ≠ der := by
  have small' : der.length < 2 ^ 32 := by omega
  constructor
  · constructor
    · intro checked
      obtain ⟨normalized, run, -⟩ := Res.bind_eq_ok.mp checked
      obtain ⟨s, walk, -⟩ := Res.bind_eq_ok.mp run
      obtain ⟨e, here, rfl⟩ := exists_envelope walk (nested s walk)
      exact ⟨_, walk, (e.stands here).windowsForm_iff.mpr
        ((Envelope.check_eq_ok_iff here small').mp checked)⟩
    · rintro ⟨s, walk, form⟩
      obtain ⟨e, here, rfl⟩ := exists_envelope walk (nested s walk)
      exact (Envelope.check_eq_ok_iff here small').mpr ((e.stands here).windowsForm_iff.mp form)
  · intro s out walk off built same
    obtain ⟨e, here, rfl⟩ := exists_envelope walk (nested s walk)
    rw [(e.stands here).windowsForm_iff] at off
    cases (Envelope.rebuild_eq here false).symm.trans built
    have normalized : normalizeAuthenticodeSignature der = .ok der := by
      refine (Envelope.rewrite_eq here false).trans ?_
      rw [if_neg off, same]
    exact off ((Envelope.check_eq_ok_iff here small').mp ((check_eq_ok_iff der).mpr normalized))

theorem checkAuthenticodeEnvelope_iff_sample :
    ∃ s, walkSpine sampleDer = .ok s ∧ WindowsForm sampleDer s := by
  refine (checkAuthenticodeEnvelope_iff (by decide) fun s walk => ?_).1.mp (by decide +kernel)
  cases sampleDer_walk.symm.trans walk
  exact sampleSpine_wellNested

end Rsigncode
