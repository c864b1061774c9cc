import Rsigncode.Content
import Rsigncode.Renormalize
import Rsigncode.Verdict

/-! What a CMS builder emits: the envelope of RFC 5652, with the content in an OCTET
STRING. Normalizing it gives what the verifier reads back as it was. -/
namespace Rsigncode

open FileStore Window Number Tlv

structure CmsParts where
  contentType : Tlv
  algorithms : Tlv
  eContentType : Tlv
  after : List Tlv
  typed : contentType.tag = 0x06
  set : algorithms.tag = 0x31
  eTyped : eContentType.tag = 0x06

namespace CmsParts
variable (p : CmsParts) (content : Bytes)

def inEncap : Bytes := p.eContentType.bytes ++ emitTlv 0xA0 (emitTlv 0x04 content)

def inSigned : Bytes :=
  cmsSignedDataVersion ++
    (p.algorithms.bytes ++ emitTlv 0x30 (p.inEncap content) ++ flat p.after)

def inInfo : Bytes := p.contentType.bytes ++ emitTlv 0xA0 (emitTlv 0x30 (p.inSigned content))

/-- `ContentInfo` around SignedData version 3, every container in its shortest form. -/
def der : Bytes := emitTlv 0x30 (p.inInfo content)

variable {p content}

theorem lengths : content.length ≤ (p.inEncap content).length ∧
    (p.inEncap content).length ≤ (p.inSigned content).length ∧
    (p.inSigned content).length ≤ (p.inInfo content).length ∧
    (p.inInfo content).length ≤ (p.der content).length := by
  have l5 := length_le_emitTlv 0x04 content
  have l4 := length_le_emitTlv 0xA0 (emitTlv 0x04 content)
  have l3 := length_le_emitTlv 0x30 (p.inEncap content)
  have l2 := length_le_emitTlv 0x30 (p.inSigned content)
  have l1 := length_le_emitTlv 0xA0 (emitTlv 0x30 (p.inSigned content))
  have encap : (p.inEncap content).length = _ := List.length_append
  have signed : (p.inSigned content).length = _ := List.length_append
  have info : (p.inInfo content).length = _ := List.length_append
  simp only [List.length_append] at signed
  exact ⟨by omega, by omega, by omega, length_le_emitTlv 0x30 _⟩

theorem exists_envelope (small : (p.inInfo content).length < 2 ^ 32) :
    ∃ e : Envelope, e.info.bytes = p.der content ∧ e.Minimal ∧
      e.version.bytes = targetVersion true ∧ e.inner.tag = 0x04 ∧ e.inner.content = content ∧
      e.inner.bytes = emitTlv 0x04 content ∧ e.rest = [] ∧
      e.inInfo.elems.head?.map Tlv.tag = some 0x06 := by
  obtain ⟨inEncap, inSigned, inInfo, -⟩ : content.length ≤ _ ∧ _ := p.lengths
  have fit5 : content.length < 2 ^ 32 := by omega
  let t5 := Tlv.emit 0x04 content fit5
  have e5 : emitTlv 0x04 content = t5.bytes := emitTlv_eq 0x04 fit5
  have fit4 : t5.bytes.length < 2 ^ 32 := by
    have inside := length_le_emitTlv 0xA0 (emitTlv 0x04 content)
    have whole : (p.inEncap content).length = _ := List.length_append
    rw [e5] at inside whole
    omega
  let t4 := Tlv.emit 0xA0 t5.bytes fit4
  have e4 : emitTlv 0xA0 (emitTlv 0x04 content) = t4.bytes := by rw [e5, emitTlv_eq 0xA0 fit4]
  let f3 : Focus 0xA0 := ⟨[p.eContentType], t4, [], rfl, by simp [p.eTyped]⟩
  have encap : p.inEncap content = flat f3.elems := by
    rw [CmsParts.inEncap, e4]
    simp [f3, Focus.elems]
  have fit3 : (flat f3.elems).length < 2 ^ 32 := by
    rw [← encap]
    omega
  let t3 := Tlv.emit 0x30 (flat f3.elems) fit3
  have e3 : emitTlv 0x30 (p.inEncap content) = t3.bytes := by rw [encap, emitTlv_eq 0x30 fit3]
  let f2 : Focus 0x30 := ⟨[p.algorithms], t3, p.after, rfl, by simp [p.set]⟩
  have signed : p.inSigned content = flat (versionTlv true :: f2.elems) := by
    rw [CmsParts.inSigned, e3, flat_cons, versionTlv_bytes]
    simp [f2, Focus.elems, targetVersion]
  have fit2 : (flat (versionTlv true :: f2.elems)).length < 2 ^ 32 := by
    rw [← signed]
    omega
  let t2 := Tlv.emit 0x30 (flat (versionTlv true :: f2.elems)) fit2
  have e2 : emitTlv 0x30 (p.inSigned content) = t2.bytes := by
    rw [signed, emitTlv_eq 0x30 fit2]
  let f1 : Focus 0x30 := ⟨[], t2, [], rfl, by simp⟩
  have fit1 : (flat f1.elems).length < 2 ^ 32 := by
    have inside := length_le_emitTlv 0xA0 (emitTlv 0x30 (p.inSigned content))
    have whole : (p.inInfo content).length = _ := List.length_append
    have same : flat f1.elems = emitTlv 0x30 (p.inSigned content) := by
      rw [e2]
      exact flat_singleton t2
    rw [same]
    omega
  let t1 := Tlv.emit 0xA0 (flat f1.elems) fit1
  have e1 : emitTlv 0xA0 (emitTlv 0x30 (p.inSigned content)) = t1.bytes := by
    rw [e2, ← emitTlv_eq 0xA0 fit1]
    exact congrArg _ (flat_singleton t2).symm
  let f0 : Focus 0xA0 := ⟨[p.contentType], t1, [], rfl, by simp [p.typed]⟩
  have info : p.inInfo content = flat f0.elems := by
    rw [CmsParts.inInfo, e1]
    simp [f0, Focus.elems]
  have fit0 : (flat f0.elems).length < 2 ^ 32 := info ▸ small
  refine ⟨{
    info := Tlv.emit 0x30 (flat f0.elems) fit0
    inInfo := f0
    inContent := f1
    version := versionTlv true
    inSigned := f2
    inEncap := f3
    inner := t5
    rest := []
    isSequence := rfl
    isInteger := rfl
    fillsInfo := rfl
    fillsContent := rfl
    fillsSigned := rfl
    fillsEncap := rfl
    fillsEContent := (flat_singleton t5).symm }, ?_, ⟨rfl, rfl, rfl, rfl, rfl⟩,
    versionTlv_bytes true, rfl, rfl, e5.symm, rfl, congrArg some p.typed⟩
  rw [CmsParts.der, info, emitTlv_eq 0x30 fit0]

end CmsParts

section Lengths

theorem emitTlv_length_le (tag tag' : UInt8) {x y : Bytes} {k : Nat}
    (shorter : x.length ≤ y.length + k) :
    (emitTlv tag x).length ≤ (emitTlv tag' y).length + (k + 10) := by
  have long := emitLength_le x.length
  have inside := length_le_emitTlv tag' y
  rw [emitTlv_length]
  omega

theorem around_length_le {k : UInt8} (f : Focus k) {x y : Bytes} {n : Nat}
    (shorter : x.length ≤ y.length + n) : (f.around x).length ≤ (f.around y).length + n := by
  have left := f.around_length x
  have right := f.around_length y
  omega

theorem Levels.rebuilt_length_le (L : Levels) {v w x y : Bytes} {k : Nat}
    (versions : v.length = w.length) (shorter : x.length ≤ y.length + k) :
    (L.rebuilt v x).length ≤ (L.rebuilt w y).length + (k + 50) := by
  have level4 := around_length_le L.inEncap (emitTlv_length_le 0xA0 0xA0 shorter)
  have level3 := around_length_le L.inSigned (emitTlv_length_le 0x30 0x30 level4)
  have inner : (v ++ L.inSigned.around (emitTlv 0x30 (L.inEncap.around (emitTlv 0xA0 x)))).length ≤
      (w ++ L.inSigned.around (emitTlv 0x30 (L.inEncap.around (emitTlv 0xA0 y)))).length +
        (k + 20) := by
    rw [List.length_append, List.length_append]
    omega
  have level2 := around_length_le L.inContent (emitTlv_length_le 0x30 0x30 inner)
  have level1 := around_length_le L.inInfo (emitTlv_length_le 0xA0 0xA0 level2)
  exact emitTlv_length_le 0x30 0x30 level1

end Lengths

theorem CmsParts.extract {p : CmsParts} {content : Bytes}
    (small : (p.der content).length < 2 ^ 32) :
    extractSpcContent (p.der content) = .ok content := by
  obtain ⟨-, -, -, inside⟩ : content.length ≤ _ ∧ _ := p.lengths
  have fits : (p.inInfo content).length < 2 ^ 32 := by omega
  obtain ⟨e, bytes, -, -, octets, inner, -, -, oid⟩ := p.exists_envelope fits
  rw [Envelope.extract_eq (bytes ▸ at_zero_self e.info.bytes) oid, Levels.nativeContent,
    if_pos octets, inner]

/-- A normalized CMS blob is what the verifier wants: it passes the check, the padding
behind it does not show, and wrapping it gives back the blob of the builder. -/
theorem CmsParts.normalized {p : CmsParts} {c : Tlv} {x : Bytes}
    (memory : (p.inInfo c.bytes).length < 2 ^ 64) (sequence : c.tag = 0x30)
    (run : normalizeAuthenticodeSignature (p.der c.bytes) = .ok x)
    (small : x.length + 64 ≤ 2 ^ 31) :
    (∃ s, Transparent x s) ∧ checkAuthenticodeEnvelope x = .ok () ∧
      wrapAuthenticodeContent x = .ok (p.der c.bytes) ∧ extractSpcContent x = .ok c.bytes := by
  obtain ⟨L, stands, -, -⟩ := exists_levels run
  obtain ⟨r, whole⟩ := (tail_zero _).at_iff.mp stands.info
  obtain ⟨fits, -, -⟩ := emitTlv_eq_bytes memory whole.symm
  obtain ⟨e, bytes, minimal, version, octets, inner, element, sole, oid⟩ := exists_envelope fits
  have here : At (p.der c.bytes) 0 e.info.bytes := bytes ▸ at_zero_self e.info.bytes
  have fills := e.fillsEContent
  rw [sole, flat_cons, flat_nil, List.append_nil, element] at fills
  -- both blobs are rebuilt from one envelope, so their lengths are close
  have outer : p.der c.bytes = e.rebuilt (targetVersion true) (emitTlv 0x04 c.bytes) := by
    rw [← bytes, ← version, ← fills, Envelope.rebuilt_self minimal]
  have plain : x = e.rebuilt (targetVersion false) c.bytes := by
    have other := Envelope.rewrite_other here false (by simp [octets])
    rw [if_neg (by decide), inner] at other
    exact Except.ok.inj (run.symm.trans other)
  have close : (p.der c.bytes).length ≤ x.length + 60 := by
    rw [outer, plain]
    refine e.rebuilt_length_le (by rw [targetVersion_length, targetVersion_length]) ?_
    rw [emitTlv_length]
    exact emitLength_le _
  have native : ¬ c.tag = 0x04 := by
    rw [sequence]
    decide
  obtain ⟨out, e', run', there, beside, version', rest', carries⟩ :=
    e.rewrite_envelope here (by omega) sole (fun _ => ⟨c, inner⟩) false
  cases run'.symm.trans run
  rw [Levels.nativeContent, if_pos octets, inner] at carries
  have same : e'.inner = c := Tlv.bytes_injective carries
  have done : e'.Done false := ⟨by rw [same, sequence]; rfl, version'⟩
  have checked := (Envelope.check_eq_ok_iff there (by omega)).mpr done
  have oid' : e'.inInfo.elems.head?.map Tlv.tag = some 0x06 := by
    rw [head_tag_elems] at oid ⊢
    rw [beside.inInfo.1, oid]
  refine ⟨⟨e'.spine, .of_checked (Envelope.walkSpine_eq there) e'.wellNested checked (by omega)⟩,
    checked, ?_, ?_⟩
  · refine (Envelope.rewrite_other there true (by simp [same, sequence])).trans ?_
    rw [if_pos rfl, same, beside.rebuilt_eq, outer]
  · rw [Envelope.extract_eq there oid', Levels.nativeContent, same, if_neg native]

end Rsigncode
