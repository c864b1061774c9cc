import Rsigncode.RewriteSpec

/-! The content that a signer commits to. The read-only walk and the rewriting walk go
down the same spine, so every envelope of a content yields that content. -/
namespace Rsigncode

open FileStore Window Number Tlv

theorem childWithTag_at {k : UInt8} {f : Focus k} {der : Bytes} {p stop : Nat} (what : String)
    (h : At der p (flat f.elems)) (ends : stop = p + (flat f.elems).length) :
    childWithTag der p stop k what = .ok (childAt (p + f.offset) f.hit) := by
  rw [childWithTag, Res.bind_ok (children_at h ends), firstWithTag_elems]
  rfl

theorem Envelope.spcContent_eq {e : Envelope} {der : Bytes} (h : At der 0 e.info.bytes) :
    spcContentFromPkcs7 der = .ok e.nativeContent := by
  have stands := e.stands h
  have walk : ∃ l1, childWithTag der e.startInfo e.spine.ce0 0xA0 "missing [0] content" = .ok l1 ∧
      ∃ l2, childWithTag der l1.contentStart l1.contentEnd 0x30 "missing SignedData SEQUENCE" =
        .ok l2 ∧
      ∃ l3, childWithTag der l2.contentStart l2.contentEnd 0x30 "missing encapContentInfo" =
        .ok l3 ∧
      ∃ l4, childWithTag der l3.contentStart l3.contentEnd 0xA0 "missing eContent [0]" = .ok l4 ∧
      ∃ cs, l4.children der = .ok cs ∧ cs.head? = some e.spine.l5 :=
    ⟨_, childWithTag_at _ stands.inInfo (content_end e.fillsInfo),
      _, childWithTag_at _ stands.inContent (content_end e.fillsContent),
      _, Res.bind_eq_ok.mpr ⟨_, children_of_content stands.signedAt e.fillsSigned,
        okOr_eq_ok.mpr e.encap_found⟩,
      _, childWithTag_at _ stands.inEncap (content_end e.fillsEncap),
      _, children_of_content stands.eContentAt e.fillsEContent, rfl⟩
  obtain ⟨l1, found1, l2, found2, l3, found3, l4, found4, cs, listed, first⟩ := walk
  have inner := stands.innerAt
  rw [spcContentFromPkcs7, Res.bind_ok (readHeader_at h)]
  dsimp only
  rw [if_neg (not_not.mpr e.isSequence)]
  refine (Res.bind_ok found1 _).trans ?_
  rw [Res.bind_ok found2, Res.bind_ok found3, Res.bind_ok found4, Res.bind_ok listed, first]
  refine (Res.bind_ok (okOr_eq_ok.mpr rfl) _).trans ?_
  rw [Levels.nativeContent]
  have sameTag : e.spine.l5.tag = e.inner.tag := rfl
  by_cases tag : e.inner.tag = 0x04
  · rw [if_pos tag, if_pos (sameTag.trans tag)]
    exact subslice_at (at_content inner) (e.inner.bytes_end _)
  · rw [if_neg tag, if_neg (sameTag ▸ tag)]
    exact subslice_at inner rfl

theorem childrenAt_head_tag (ts : List Tlv) (p : Nat) :
    (childrenAt p ts).head?.map Child.tag = ts.head?.map Tlv.tag := by
  cases ts <;> rfl

theorem Envelope.extract_eq {e : Envelope} {der : Bytes} (h : At der 0 e.info.bytes)
    (oid : e.inInfo.elems.head?.map Tlv.tag = some 0x06) :
    extractSpcContent der = .ok e.nativeContent := by
  have listed : children der e.startInfo e.spine.ce0 =
      .ok (childrenAt e.startInfo e.inInfo.elems) :=
    children_of_content h e.fillsInfo
  rw [extractSpcContent, Res.bind_ok (readHeader_at h)]
  dsimp only
  rw [if_neg (not_not.mpr e.isSequence)]
  refine (Res.bind_ok listed _).trans ?_
  rw [childrenAt_head_tag, oid]
  exact Envelope.spcContent_eq h

theorem extract_bare {c t : Tlv} {ts : List Tlv} (sequence : c.tag = 0x30)
    (content : c.content = flat (t :: ts)) (first : t.tag = 0x30) :
    extractSpcContent c.bytes = .ok c.bytes := by
  have here := at_zero_self c.bytes
  have listed := children_of_content here content
  rw [extractSpcContent, Res.bind_ok (readHeader_at here)]
  dsimp only
  rw [if_neg (not_not.mpr sequence)]
  refine (Res.bind_ok listed _).trans ?_
  rw [childrenAt_head_tag, List.head?_cons, Option.map_some, first]
  rfl

theorem derSequenceContent_eq {c : Tlv} (sequence : c.tag = 0x30) :
    derSequenceContent c.bytes = .ok c.content := by
  have here := at_zero_self c.bytes
  rw [derSequenceContent, Res.bind_ok (readHeader_at here)]
  dsimp only
  rw [if_neg (not_not.mpr sequence)]
  exact subslice_at (at_content here) (c.bytes_end 0)

theorem head_tag_elems {k : UInt8} (f : Focus k) :
    f.elems.head?.map Tlv.tag = some ((f.before.head?.map Tlv.tag).getD k) := by
  rw [Focus.elems]
  cases f.before with
  | nil => exact congrArg some f.tag
  | cons u before => rfl

theorem nativeContent_of_carries {L : Levels} {c : Tlv} {wrap : Bool} (sequence : c.tag = 0x30)
    (h : Carries wrap L.inner c.bytes) : L.nativeContent = c.bytes := by
  cases wrap with
  | true => exact (if_pos h.1).trans h.2
  | false =>
    have same : L.inner = c := Tlv.bytes_injective h
    have native : ¬ L.inner.tag = 0x04 := by simp [same, sequence]
    rw [Levels.nativeContent, if_neg native, same]

theorem Envelope.extract_rewritten {e : Envelope} {der : Bytes} {c : Tlv}
    (h : At der 0 e.info.bytes) (small : der.length < 2 ^ 31) (sole : e.rest = [])
    (oid : e.inInfo.elems.head?.map Tlv.tag = some 0x06) (sequence : c.tag = 0x30) {form : Bool}
    (holds : Carries form e.inner c.bytes) (wrap : Bool) :
    ∃ out, rewriteAuthenticodeContent der wrap = .ok out ∧ extractSpcContent out = .ok c.bytes := by
  have native := nativeContent_of_carries sequence holds
  have octets : e.inner.tag = 0x04 → ∃ c : Tlv, e.inner.content = c.bytes := by
    intro tag
    rw [Levels.nativeContent, if_pos tag] at native
    exact ⟨c, native⟩
  obtain ⟨out, e', run, there, beside, -, -, carries⟩ :=
    e.rewrite_envelope h small sole octets wrap
  rw [native] at carries
  refine ⟨out, run, ?_⟩
  rw [Envelope.extract_eq there, nativeContent_of_carries sequence carries]
  rw [head_tag_elems] at oid ⊢
  rw [beside.inInfo.1, oid]

/-- Every envelope of a content, and the content itself, yield the same content, the same
decoded data and the same committed octets. -/
theorem every_envelope_same_content {Oid : Type}
    (fromDer : Bytes → Except String (SpcIndirectDataContent Oid)) {der : Bytes} {s : Spine}
    {c t : Tlv} {ts : List Tlv} (sequence : c.tag = 0x30) (content : c.content = flat (t :: ts))
    (first : t.tag = 0x30) (small : der.length < 2 ^ 31) (walk : walkSpine der = .ok s)
    (nested : s.WellNested) (oid : s.l0Children.head?.map Child.tag = some 0x06)
    (sole : s.l4Children = [s.l5])
    (holds : childBytes der s.l5 = c.bytes ∨
      s.l5.tag = 0x04 ∧ childContent der s.l5 = c.bytes) :
    ∃ normalized wrapped, normalizeAuthenticodeSignature der = .ok normalized ∧
      wrapAuthenticodeContent der = .ok wrapped ∧
      ∀ blob ∈ [der, normalized, wrapped, c.bytes],
        extractSpcContent blob = .ok c.bytes ∧
        parseSpcIndirectData fromDer blob = parseSpcIndirectData fromDer c.bytes ∧
        (extractSpcContent blob >>= derSequenceContent) = .ok c.content ∧
        ∀ parsed, parseSpcIndirectData fromDer blob = .ok parsed →
          parsed.contentDer = c.bytes := by
  obtain ⟨e, here, rfl⟩ := exists_envelope walk nested
  have inner := (e.stands here).innerAt
  have oid' : e.inInfo.elems.head?.map Tlv.tag = some 0x06 :=
    (childrenAt_head_tag _ _).symm.trans oid
  have carried : ∃ form, Carries form e.inner c.bytes := by
    rcases holds with bare | ⟨tag, octets⟩
    · exact ⟨false, (childBytes_childAt inner).symm.trans bare⟩
    · exact ⟨true, tag, (childContent_childAt inner).symm.trans octets⟩
  obtain ⟨form, carries⟩ := carried
  have rewritten := Envelope.extract_rewritten here small (rest_eq_nil sole) oid' sequence carries
  obtain ⟨normalized, run, fromNormalized⟩ := rewritten false
  obtain ⟨wrapped, run', fromWrapped⟩ := rewritten true
  have fromDer' : extractSpcContent der = .ok c.bytes := by
    rw [Envelope.extract_eq here oid', nativeContent_of_carries sequence carries]
  have bare := extract_bare sequence content first
  refine ⟨normalized, wrapped, run, run', fun blob listed => ?_⟩
  have same : extractSpcContent blob = .ok c.bytes := by
    simp only [List.mem_cons, List.not_mem_nil, or_false] at listed
    rcases listed with rfl | rfl | rfl | rfl
    · exact fromDer'
    · exact fromNormalized
    · exact fromWrapped
    · exact bare
  refine ⟨same, ?_, ?_, fun parsed ok => ?_⟩
  · rw [parseSpcIndirectData, parseSpcIndirectData, same, bare]
  · rw [Res.bind_ok same, derSequenceContent_eq sequence]
  · rw [parseSpcIndirectData, Res.bind_ok same] at ok
    cases decoded : fromDer c.bytes with
    | error e =>
      rw [decoded] at ok
      cases ok
    | ok spc =>
      rw [decoded] at ok
      cases ok
      rfl

def sampleContent : Tlv := ⟨0x30, [0x02], [0x30, 0x00], .short (by decide)⟩

theorem every_envelope_same_content_sample :
    ∃ normalized wrapped, normalizeAuthenticodeSignature sampleDer = .ok normalized ∧
      wrapAuthenticodeContent sampleDer = .ok wrapped ∧
      extractSpcContent normalized = .ok [0x30, 0x02, 0x30, 0x00] ∧
      extractSpcContent wrapped = .ok [0x30, 0x02, 0x30, 0x00] := by
  have content : sampleContent.content = flat [⟨0x30, [0x00], [], .short (by decide)⟩] := rfl
  have fromDer : Bytes → Except String (SpcIndirectDataContent Unit) := fun _ => .error ""
  obtain ⟨normalized, wrapped, run, run', same⟩ := every_envelope_same_content fromDer rfl content
    rfl (by decide) sampleDer_walk sampleSpine_wellNested rfl rfl (.inl (by decide))
  exact ⟨normalized, wrapped, run, run', (same normalized (by simp)).1, (same wrapped (by simp)).1⟩

end Rsigncode
