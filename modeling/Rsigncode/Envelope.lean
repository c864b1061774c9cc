import Rsigncode.DerSpine

/-! Well-nested blobs. An envelope is the elements of a blob with every level exactly
filled; the rewrite takes an envelope to another one with the same elements beside the
spine. -/
namespace Rsigncode

open FileStore Window Number Tlv

structure Envelope extends Levels where
  fillsInfo : info.content = flat inInfo.elems
  fillsContent : inInfo.hit.content = flat inContent.elems
  fillsSigned : inContent.hit.content = flat (version :: inSigned.elems)
  fillsEncap : inSigned.hit.content = flat inEncap.elems
  fillsEContent : inEncap.hit.content = flat (inner :: rest)

def Fills (cs : List Child) (start stop : Nat) : Prop :=
  (cs.getLast?.map Child.contentEnd).getD start = stop

structure Spine.WellNested (s : Spine) : Prop where
  l0 : Fills s.l0Children s.cs0 s.ce0
  l1 : Fills s.l1Children s.l1.contentStart s.l1.contentEnd
  l2 : Fills s.l2Children s.l2.contentStart s.l2.contentEnd
  l3 : Fills s.l3Children s.l3.contentStart s.l3.contentEnd
  l4 : Fills s.l4Children s.l4.contentStart s.l4.contentEnd

theorem fills_childrenAt (ts : List Tlv) (p stop : Nat) :
    Fills (childrenAt p ts) p stop ↔ stop = p + (flat ts).length := by
  induction ts generalizing p with
  | nil => simp [Fills, childrenAt, eq_comm]
  | cons t ts ih =>
    have next := ih (p + t.bytes.length)
    rw [flat_cons, List.length_append, ← Nat.add_assoc, ← next, childrenAt, Fills, Fills,
      List.getLast?_cons]
    cases (childrenAt (p + t.bytes.length) ts).getLast? <;> rfl

theorem content_eq_flat {b : Bytes} {p : Nat} {t : Tlv} {ts : List Tlv} (here : At b p t.bytes)
    (stand : At b (p + t.header.length) (flat ts))
    (fills : Fills (childrenAt (p + t.header.length) ts) (p + t.header.length)
      (p + t.bytes.length)) : t.content = flat ts := by
  have ends := (fills_childrenAt ts _ _).mp fills
  rw [t.bytes_length] at ends
  exact (at_content here).unique stand (by omega)

theorem fills_content {p : Nat} {t : Tlv} {ts : List Tlv} (h : t.content = flat ts) :
    Fills (childrenAt (p + t.header.length) ts) (p + t.header.length) (p + t.bytes.length) := by
  rw [fills_childrenAt, t.bytes_length, h, Nat.add_assoc]

theorem exists_envelope {der : Bytes} {s : Spine} (walk : walkSpine der = .ok s)
    (nested : s.WellNested) : ∃ e : Envelope, At der 0 e.info.bytes ∧ s = e.spine := by
  obtain ⟨L, stands, -, rfl⟩ := walkSpine_eq_ok.mp walk
  refine ⟨⟨L, ?_, ?_, ?_, ?_, ?_⟩, stands.info, rfl⟩
  · exact content_eq_flat stands.info stands.inInfo nested.l0
  · exact content_eq_flat stands.contentAt stands.inContent nested.l1
  · exact content_eq_flat stands.signedAt stands.inSigned nested.l2
  · exact content_eq_flat stands.encapAt stands.inEncap nested.l3
  · exact content_eq_flat stands.eContentAt stands.inEContent nested.l4

namespace Envelope
variable (e : Envelope)

theorem wellNested : e.spine.WellNested where
  l0 := fills_content e.fillsInfo
  l1 := fills_content e.fillsContent
  l2 := fills_content e.fillsSigned
  l3 := fills_content e.fillsEncap
  l4 := fills_content e.fillsEContent

variable {e} {der : Bytes}

theorem stands (h : At der 0 e.info.bytes) : e.Stands der := by
  have inInfo : At der e.startInfo (flat e.inInfo.elems) := e.fillsInfo ▸ at_content h
  have inContent : At der e.startContent (flat e.inContent.elems) :=
    e.fillsContent ▸ at_content (at_focus inInfo)
  have inSigned : At der e.startSigned (flat (e.version :: e.inSigned.elems)) :=
    e.fillsSigned ▸ at_content (at_focus inContent)
  have inEncap : At der e.startEncap (flat e.inEncap.elems) :=
    e.fillsEncap ▸ at_content (at_focus (at_append.mp inSigned).2)
  exact ⟨h, inInfo, inContent, inSigned, inEncap,
    e.fillsEContent ▸ at_content (at_focus inEncap)⟩

end Envelope

theorem content_end {p : Nat} {t : Tlv} {ts : List Tlv} (fills : t.content = flat ts) :
    p + t.bytes.length = p + t.header.length + (flat ts).length := by
  rw [t.bytes_end, fills]

theorem covers_content {t : Tlv} {ts : List Tlv} (fills : t.content = flat ts) :
    Covers ts t.content.length := fills ▸ covers_flat ts

theorem children_of_content {b : Bytes} {p : Nat} {t : Tlv} {ts : List Tlv}
    (here : At b p t.bytes) (fills : t.content = flat ts) :
    (childAt p t).children b = .ok (childrenAt (p + t.header.length) ts) :=
  (listed_eq_ok here).mpr ⟨ts, fills ▸ at_content here, covers_content fills, rfl⟩

theorem Envelope.covered (e : Envelope) : e.Covered :=
  ⟨covers_content e.fillsInfo, covers_content e.fillsContent, covers_content e.fillsSigned,
    covers_content e.fillsEncap, covers_content e.fillsEContent⟩

theorem Envelope.walkSpine_eq {e : Envelope} {der : Bytes} (h : At der 0 e.info.bytes) :
    walkSpine der = .ok e.spine := (e.stands h).walkSpine_eq e.covered

theorem splice_focus {k : UInt8} {f : Focus k} {der : Bytes} {p stop : Nat}
    (h : At der p (flat f.elems)) (ends : stop = p + (flat f.elems).length) (new : Bytes) :
    splice der p (childAt (p + f.offset) f.hit) stop new = .ok (f.around new) := by
  rw [f.flat_elems, Focus.around, List.append_assoc] at h ends
  obtain ⟨before, rest⟩ := at_append.mp h
  obtain ⟨hit, after⟩ := at_append.mp rest
  simp only [List.length_append] at ends
  have cutBefore : subslice der p (childAt (p + f.offset) f.hit).fullStart = .ok (flat f.before) :=
    subslice_at before rfl
  have cutAfter : subslice der (childAt (p + f.offset) f.hit).contentEnd stop =
      .ok (flat f.after) := subslice_at after (by simp only [childAt, Focus.offset]; omega)
  rw [splice, Res.bind_ok cutBefore, Res.bind_ok cutAfter]
  rfl

def Levels.rebuilt (L : Levels) (version content : Bytes) : Bytes :=
  emitTlv 0x30 (L.inInfo.around (emitTlv 0xA0 (L.inContent.around (emitTlv 0x30
    (version ++ L.inSigned.around (emitTlv 0x30 (L.inEncap.around (emitTlv 0xA0 content))))))))

theorem Envelope.rebuild_eq {e : Envelope} {der : Bytes} (h : At der 0 e.info.bytes)
    (wrap : Bool) :
    rebuild der e.spine wrap = .ok (e.rebuilt (targetVersion wrap) (e.newContent wrap)) := by
  have stands := e.stands h
  have cut4 : ∀ new, splice der e.startEncap e.spine.l4 e.spine.l3.contentEnd new = _ :=
    splice_focus stands.inEncap (content_end e.fillsEncap)
  have cut3 : ∀ new, splice der e.afterVersion e.spine.l3 e.spine.l2.contentEnd new =
      .ok (e.inSigned.around new) := by
    refine splice_focus stands.behindVersion ((content_end e.fillsSigned).trans ?_)
    rw [flat_cons, List.length_append, ← Nat.add_assoc]
    rfl
  have cut2 : ∀ new, splice der e.startContent e.spine.l2 e.spine.l1.contentEnd new = _ :=
    splice_focus stands.inContent (content_end e.fillsContent)
  have cut1 : ∀ new, splice der e.startInfo e.spine.l1 e.spine.ce0 new = _ :=
    splice_focus stands.inInfo (content_end e.fillsInfo)
  rw [rebuild, Res.bind_ok (stands.newContent_eq wrap)]
  dsimp only
  rw [e.spine_l3_start, e.spine_version_end, e.spine_l1_start, e.spine_cs0,
    Res.bind_ok (cut4 _), Res.bind_ok (cut3 _), Res.bind_ok (cut2 _), Res.bind_ok (cut1 _)]
  rfl

def Levels.Done (L : Levels) (wrap : Bool) : Prop :=
  wrap = (L.inner.tag == 0x04) ∧ L.version.bytes = targetVersion wrap

instance (L : Levels) (wrap : Bool) : Decidable (L.Done wrap) :=
  inferInstanceAs (Decidable (_ ∧ _))

theorem Levels.Stands.inForm_iff {L : Levels} {der : Bytes} (h : L.Stands der) (wrap : Bool) :
    InForm der L.spine wrap ↔ L.Done wrap := by
  have version : slice der L.spine.version.fullStart L.spine.version.contentEnd =
      L.version.bytes := h.versionAt.slice_eq rfl
  rw [InForm, version]
  rfl

theorem Envelope.rewrite_eq {e : Envelope} {der : Bytes} (h : At der 0 e.info.bytes)
    (wrap : Bool) : rewriteAuthenticodeContent der wrap =
      .ok (if e.Done wrap then der else e.rebuilt (targetVersion wrap) (e.newContent wrap)) := by
  rw [(e.stands h).rewrite_eq e.covered, Envelope.rebuild_eq h]
  simp only [(e.stands h).inForm_iff]
  split <;> rfl

end Rsigncode
