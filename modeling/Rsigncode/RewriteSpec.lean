import Rsigncode.Rewrite

/-! The rewrite in the terms of the walk: which children it keeps, and that its two
directions undo each other. -/
namespace Rsigncode

open FileStore Window Number Tlv

def childBytes (der : Bytes) (c : Child) : Bytes := slice der c.fullStart c.contentEnd

def childContent (der : Bytes) (c : Child) : Bytes := slice der c.contentStart c.contentEnd

def tagIndex (cs : List Child) (tag : UInt8) : Nat := cs.findIdx (·.tag == tag)

theorem childBytes_childAt {der : Bytes} {p : Nat} {t : Tlv} (h : At der p t.bytes) :
    childBytes der (childAt p t) = t.bytes := h.slice_eq rfl

theorem childContent_childAt {der : Bytes} {p : Nat} {t : Tlv} (h : At der p t.bytes) :
    childContent der (childAt p t) = t.content :=
  (at_content h).slice_eq (t.bytes_end p)

theorem childrenAt_bytes {der : Bytes} {ts : List Tlv} {p : Nat} (h : At der p (flat ts)) :
    (childrenAt p ts).map (childBytes der) = ts.map Tlv.bytes := by
  induction ts generalizing p with
  | nil => rfl
  | cons t ts ih =>
    obtain ⟨here, rest⟩ := at_append.mp h
    rw [childrenAt, List.map_cons, List.map_cons, childBytes_childAt here, ih rest]

theorem childrenAt_length (ts : List Tlv) (p : Nat) : (childrenAt p ts).length = ts.length := by
  induction ts generalizing p with
  | nil => rfl
  | cons t ts ih => rw [childrenAt, List.length_cons, List.length_cons, ih]

theorem tagIndex_elems {k : UInt8} (f : Focus k) (p : Nat) :
    tagIndex (childrenAt p f.elems) k = f.before.length := by
  rcases f with ⟨before, hit, after, tag, first⟩
  induction before generalizing p with
  | nil => simp [Focus.elems, childrenAt, tagIndex, List.findIdx_cons, childAt, tag]
  | cons u before ih =>
    have other : (u.tag == k) = false := by simpa using first u (by simp)
    have rest := ih (p + u.bytes.length) fun v hv => first v (by simp [hv])
    simp only [Focus.elems, List.cons_append, childrenAt, tagIndex, List.findIdx_cons, childAt,
      other, List.length_cons] at rest ⊢
    rw [cond_false, rest]

/-- Two lists of children open at the same index, and agree byte for byte beside it. -/
structure SameExcept (tag : UInt8) (der : Bytes) (cs : List Child) (out : Bytes)
    (cs' : List Child) : Prop where
  index : tagIndex cs' tag = tagIndex cs tag
  inside : tagIndex cs tag < cs.length
  others : (cs'.map (childBytes out)).eraseIdx (tagIndex cs tag) =
    (cs.map (childBytes der)).eraseIdx (tagIndex cs tag)

theorem sameExcept_focus {k : UInt8} {f g : Focus k} {der out : Bytes} {p q : Nat}
    (h : At der p (flat f.elems)) (h' : At out q (flat g.elems))
    (same : g.before = f.before ∧ g.after = f.after) :
    SameExcept k der (childrenAt p f.elems) out (childrenAt q g.elems) := by
  have beside : ∀ f : Focus k, (f.elems.map Tlv.bytes).eraseIdx f.before.length =
      f.before.map Tlv.bytes ++ f.after.map Tlv.bytes := by
    intro f
    rw [Focus.elems, List.map_append, List.map_cons,
      List.eraseIdx_append_of_length_le (Nat.le_of_eq (List.length_map _)), List.length_map,
      Nat.sub_self, List.eraseIdx_cons_zero]
  refine ⟨by rw [tagIndex_elems, tagIndex_elems, same.1], ?_, ?_⟩
  · rw [tagIndex_elems, childrenAt_length, Focus.elems, List.length_append, List.length_cons]
    omega
  · rw [tagIndex_elems, childrenAt_bytes h, childrenAt_bytes h', beside f, ← same.1, beside g,
      same.1, same.2]

/-- The content TLV under eContent, without its OCTET STRING where it has one. -/
def contentTlv (der : Bytes) (s : Spine) : Bytes :=
  if s.l5.tag = 0x04 then childContent der s.l5 else childBytes der s.l5

theorem contentTlv_envelope {e : Envelope} {der : Bytes} (h : At der 0 e.info.bytes) :
    contentTlv der e.spine = e.nativeContent := by
  have inner := (e.stands h).innerAt
  simp only [contentTlv, Levels.nativeContent, Levels.spine, childContent_childAt inner,
    childBytes_childAt inner]
  rfl

theorem rest_eq_nil {L : Levels} (sole : L.spine.l4Children = [L.spine.l5]) : L.rest = [] := by
  have len := congrArg List.length sole
  rw [Levels.spine, childrenAt_length, List.length_cons, List.length_singleton] at len
  exact List.length_eq_zero_iff.mp (by omega)

theorem exists_octets {der : Bytes} {p : Nat} {t : Tlv} (here : At der p t.bytes) {c : Child}
    (listed : (childAt p t).children der = .ok [c])
    (fills : Fills [c] (childAt p t).contentStart (childAt p t).contentEnd) :
    ∃ u : Tlv, t.content = u.bytes ∧ c.tag = u.tag := by
  obtain ⟨ts, stand, -, list⟩ := (children_eq_ok (header_le here)).mp listed
  have whole := content_eq_flat here stand (list ▸ fills)
  have len := congrArg List.length list
  rw [childrenAt_length, List.length_singleton] at len
  obtain ⟨u, rfl⟩ := List.length_eq_one_iff.mp len.symm
  cases list
  exact ⟨u, by rw [whole, flat_cons, flat_nil, List.append_nil], rfl⟩

def Holds (wrap : Bool) (out : Bytes) (s : Spine) (content : Bytes) : Prop :=
  if wrap then s.l5.tag = 0x04 ∧ childContent out s.l5 = content else childBytes out s.l5 = content

/-- The rewrite keeps every child beside the spine, sets the version, and carries the
same content TLV. -/
theorem rewrite_touches_spine {der : Bytes} {s : Spine} (small : der.length < 2 ^ 31)
    (walk : walkSpine der = .ok s) (nested : s.WellNested) (sole : s.l4Children = [s.l5])
    (octets : s.l5.tag = 0x04 → ∃ c, s.l5.children der = .ok [c] ∧
      Fills [c] s.l5.contentStart s.l5.contentEnd) (wrap : Bool) :
    ∃ out s', rewriteAuthenticodeContent der wrap = .ok out ∧ walkSpine out = .ok s' ∧
      s'.WellNested ∧
      SameExcept 0xA0 der s.l0Children out s'.l0Children ∧
      SameExcept 0x30 der s.l1Children out s'.l1Children ∧
      SameExcept 0x30 der s.l2Children.tail out s'.l2Children.tail ∧
      SameExcept 0xA0 der s.l3Children out s'.l3Children ∧
      s'.l2Children.head? = some s'.version ∧ childBytes out s'.version = targetVersion wrap ∧
      s'.l4Children = [s'.l5] ∧ Holds wrap out s' (contentTlv der s) := by
  obtain ⟨e, here, rfl⟩ := exists_envelope walk nested
  have stands := e.stands here
  obtain ⟨out, e', run, there, beside, version, rest, carries⟩ := e.rewrite_envelope here small
    (rest_eq_nil sole) (fun tag => by
      obtain ⟨c, listed, fills⟩ := octets tag
      obtain ⟨u, content, -⟩ := exists_octets stands.innerAt listed fills
      exact ⟨u, content⟩) wrap
  have stands' := e'.stands there
  refine ⟨out, e'.spine, run, Envelope.walkSpine_eq there, e'.wellNested,
    sameExcept_focus stands.inInfo stands'.inInfo beside.inInfo,
    sameExcept_focus stands.inContent stands'.inContent beside.inContent,
    sameExcept_focus stands.behindVersion stands'.behindVersion beside.inSigned,
    sameExcept_focus stands.inEncap stands'.inEncap beside.inEncap, rfl,
    (childBytes_childAt stands'.versionAt).trans version, ?_, ?_⟩
  · rw [Levels.spine, rest]
    rfl
  · rw [contentTlv_envelope here]
    cases wrap with
    | true => exact ⟨carries.1, (childContent_childAt stands'.innerAt).trans carries.2⟩
    | false => exact (childBytes_childAt stands'.innerAt).trans carries

/-- A native signature of version 1, with a content type, one digest algorithm set and
an empty SEQUENCE in the content. -/
def sampleDer : Bytes :=
  [0x30, 0x17, 0x06, 0x01, 0x2A, 0xA0, 0x12, 0x30, 0x10, 0x02, 0x01, 0x01, 0x31, 0x00, 0x30, 0x09,
   0x06, 0x01, 0x2A, 0xA0, 0x04, 0x30, 0x02, 0x30, 0x00]

def sampleSpine : Spine where
  cs0 := 2
  ce0 := 25
  l0Children := [⟨0x06, 2, 4, 5⟩, ⟨0xA0, 5, 7, 25⟩]
  l1 := ⟨0xA0, 5, 7, 25⟩
  l1Children := [⟨0x30, 7, 9, 25⟩]
  l2 := ⟨0x30, 7, 9, 25⟩
  l2Children := [⟨0x02, 9, 11, 12⟩, ⟨0x31, 12, 14, 14⟩, ⟨0x30, 14, 16, 25⟩]
  version := ⟨0x02, 9, 11, 12⟩
  l3 := ⟨0x30, 14, 16, 25⟩
  l3Children := [⟨0x06, 16, 18, 19⟩, ⟨0xA0, 19, 21, 25⟩]
  l4 := ⟨0xA0, 19, 21, 25⟩
  l4Children := [⟨0x30, 21, 23, 25⟩]
  l5 := ⟨0x30, 21, 23, 25⟩

theorem sampleDer_walk : walkSpine sampleDer = .ok sampleSpine := by decide +kernel

theorem sampleSpine_wellNested : sampleSpine.WellNested := ⟨rfl, rfl, rfl, rfl, rfl⟩

theorem rewrite_touches_spine_sample :
    ∃ out s', rewriteAuthenticodeContent sampleDer true = .ok out ∧ walkSpine out = .ok s' ∧
      childBytes out s'.version = cmsSignedDataVersion := by
  obtain ⟨out, s', run, walk, -, -, -, -, -, -, version, -⟩ := rewrite_touches_spine (by decide)
    sampleDer_walk sampleSpine_wellNested rfl (fun tag => absurd tag (by decide)) true
  exact ⟨out, s', run, walk, version⟩

def ShortHeader (der : Bytes) (c : Child) : Prop :=
  emitTlv c.tag (childContent der c) = childBytes der c

/-- The blob is one well-nested ContentInfo and nothing else, with shortest spine headers. -/
structure Canonical (x : Bytes) (s : Spine) : Prop where
  walk : walkSpine x = .ok s
  nested : s.WellNested
  whole : s.ce0 = x.length
  header0 : emitTlv 0x30 (slice x s.cs0 s.ce0) = x
  header1 : ShortHeader x s.l1
  header2 : ShortHeader x s.l2
  header3 : ShortHeader x s.l3
  header4 : ShortHeader x s.l4

theorem minimal_of_emitTlv {t : Tlv} (h : emitTlv t.tag t.content = t.bytes) : t.Minimal := by
  rw [emitTlv_eq t.tag t.form.lt] at h
  exact (congrArg Tlv.len (Tlv.bytes_injective h)).symm

theorem minimal_of_shortHeader {der : Bytes} {p : Nat} {t : Tlv} (here : At der p t.bytes)
    (h : ShortHeader der (childAt p t)) : t.Minimal := by
  rw [ShortHeader, childContent_childAt here, childBytes_childAt here] at h
  exact minimal_of_emitTlv h

theorem Canonical.exists_envelope {x : Bytes} {s : Spine} (h : Canonical x s) :
    ∃ e : Envelope, e.info.bytes = x ∧ e.Minimal ∧ s = e.spine := by
  obtain ⟨e, here, rfl⟩ := Rsigncode.exists_envelope h.walk h.nested
  have stands := e.stands here
  have whole : e.info.bytes = x := by
    have len : 0 + e.info.bytes.length = x.length := h.whole
    exact here.unique (at_zero_self x) (by omega)
  have info : slice x e.spine.cs0 e.spine.ce0 = e.info.content := childContent_childAt here
  have header0 := h.header0
  rw [info] at header0
  refine ⟨e, whole, ⟨?_, minimal_of_shortHeader stands.contentAt h.header1,
    minimal_of_shortHeader stands.signedAt h.header2,
    minimal_of_shortHeader stands.encapAt h.header3,
    minimal_of_shortHeader stands.eContentAt h.header4⟩, rfl⟩
  exact minimal_of_emitTlv (by rw [e.isSequence, header0, whole])

theorem Envelope.rewrite_other {e : Envelope} {der : Bytes} (h : At der 0 e.info.bytes)
    (wrap : Bool) (other : (e.inner.tag == 0x04) ≠ wrap) :
    rewriteAuthenticodeContent der wrap = .ok (e.rebuilt (targetVersion wrap)
      (if wrap then emitTlv 0x04 e.inner.bytes else e.inner.content)) := by
  have todo : ¬ e.Done wrap := fun done => other done.1.symm
  rw [Envelope.rewrite_eq h, if_neg todo]
  cases wrap with
  | true =>
    have tag : (e.inner.tag == 0x04) = false := by simpa using other
    simp only [Levels.newContent, tag, if_true]
  | false =>
    have tag : (e.inner.tag == 0x04) = true := by simpa using other
    simp only [Levels.newContent, tag, Bool.false_eq_true, if_false]

theorem normalize_wrap {x : Bytes} {s : Spine} (small : x.length < 2 ^ 31) (h : Canonical x s)
    (version : childBytes x s.version = authenticodeSignedDataVersion)
    (sole : s.l4Children = [s.l5]) (native : s.l5.tag ≠ 0x04) :
    ∃ y, wrapAuthenticodeContent x = .ok y ∧ normalizeAuthenticodeSignature y = .ok x := by
  obtain ⟨e, rfl, shortest, rfl⟩ := h.exists_envelope
  have here := at_zero_self e.info.bytes
  have tag : e.inner.tag ≠ 0x04 := native
  have fills := e.fillsEContent
  rw [rest_eq_nil sole, flat_cons, flat_nil, List.append_nil] at fills
  obtain ⟨out, e', run, there, beside, -, -, octets, content⟩ :=
    e.rewrite_envelope here small (rest_eq_nil sole) (fun wrapped => absurd wrapped tag) true
  rw [Levels.nativeContent, if_neg tag, ← fills] at content
  have stored : e.version.bytes = targetVersion false :=
    (childBytes_childAt (e.stands here).versionAt).symm.trans version
  refine ⟨out, run, (Envelope.rewrite_other there false (by simp [octets])).trans ?_⟩
  rw [if_neg (by decide), content, beside.rebuilt_eq, ← stored, Envelope.rebuilt_self shortest]

theorem wrap_normalize {y : Bytes} {s : Spine} (small : y.length < 2 ^ 31) (h : Canonical y s)
    (version : childBytes y s.version = cmsSignedDataVersion) (sole : s.l4Children = [s.l5])
    (wrapped : s.l5.tag = 0x04) (shortest : ShortHeader y s.l5) {c : Child}
    (listed : s.l5.children y = .ok [c]) (fills : Fills [c] s.l5.contentStart s.l5.contentEnd)
    (native : c.tag ≠ 0x04) :
    ∃ x, normalizeAuthenticodeSignature y = .ok x ∧ wrapAuthenticodeContent x = .ok y := by
  obtain ⟨e, rfl, minimal, rfl⟩ := h.exists_envelope
  have here := at_zero_self e.info.bytes
  have innerAt := (e.stands here).innerAt
  have tag : e.inner.tag = 0x04 := wrapped
  have whole := e.fillsEContent
  rw [rest_eq_nil sole, flat_cons, flat_nil, List.append_nil] at whole
  obtain ⟨u, octets, same⟩ := exists_octets innerAt listed fills
  obtain ⟨out, e', run, there, beside, -, -, content⟩ :=
    e.rewrite_envelope here small (rest_eq_nil sole) (fun _ => ⟨u, octets⟩) false
  have inner : e'.inner = u := by
    refine Tlv.bytes_injective (Eq.trans content ?_)
    rw [Levels.nativeContent, if_pos tag, octets]
  have other : e'.inner.tag ≠ 0x04 := by rwa [inner, ← same]
  have stored : e.version.bytes = targetVersion true :=
    (childBytes_childAt (e.stands here).versionAt).symm.trans version
  have again : emitTlv 0x04 u.bytes = e.inner.bytes := by
    rw [← octets]
    exact emitTlv_minimal (minimal_of_shortHeader innerAt shortest) tag rfl
  refine ⟨out, run, (Envelope.rewrite_other there true (by simpa using other)).trans ?_⟩
  rw [if_pos rfl, inner, again, beside.rebuilt_eq, ← stored, ← whole, Envelope.rebuilt_self minimal]

/-- On canonical blobs wrapping and normalizing undo each other, byte for byte. -/
theorem wrap_normalize_inverse :
    (∀ x s, x.length < 2 ^ 31 → Canonical x s →
      childBytes x s.version = authenticodeSignedDataVersion → s.l4Children = [s.l5] →
      s.l5.tag ≠ 0x04 →
      ∃ y, wrapAuthenticodeContent x = .ok y ∧ normalizeAuthenticodeSignature y = .ok x) ∧
    (∀ y s, y.length < 2 ^ 31 → Canonical y s →
      childBytes y s.version = cmsSignedDataVersion → s.l4Children = [s.l5] →
      s.l5.tag = 0x04 → ShortHeader y s.l5 →
      (∃ c, s.l5.children y = .ok [c] ∧ Fills [c] s.l5.contentStart s.l5.contentEnd ∧
        c.tag ≠ 0x04) →
      ∃ x, normalizeAuthenticodeSignature y = .ok x ∧ wrapAuthenticodeContent x = .ok y) :=
  ⟨fun _ _ small h version sole native => normalize_wrap small h version sole native,
    fun _ _ small h version sole wrapped shortest ⟨_, listed, fills, native⟩ =>
      wrap_normalize small h version sole wrapped shortest listed fills native⟩

theorem sampleDer_canonical : Canonical sampleDer sampleSpine where
  walk := sampleDer_walk
  nested := sampleSpine_wellNested
  whole := rfl
  header0 := by decide
  header1 := by unfold ShortHeader; decide
  header2 := by unfold ShortHeader; decide
  header3 := by unfold ShortHeader; decide
  header4 := by unfold ShortHeader; decide

def wrappedDer : Bytes :=
  [0x30, 0x19, 0x06, 0x01, 0x2A, 0xA0, 0x14, 0x30, 0x12, 0x02, 0x01, 0x03, 0x31, 0x00, 0x30, 0x0B,
   0x06, 0x01, 0x2A, 0xA0, 0x06, 0x04, 0x04, 0x30, 0x02, 0x30, 0x00]

def wrappedSpine : Spine where
  cs0 := 2
  ce0 := 27
  l0Children := [⟨0x06, 2, 4, 5⟩, ⟨0xA0, 5, 7, 27⟩]
  l1 := ⟨0xA0, 5, 7, 27⟩
  l1Children := [⟨0x30, 7, 9, 27⟩]
  l2 := ⟨0x30, 7, 9, 27⟩
  l2Children := [⟨0x02, 9, 11, 12⟩, ⟨0x31, 12, 14, 14⟩, ⟨0x30, 14, 16, 27⟩]
  version := ⟨0x02, 9, 11, 12⟩
  l3 := ⟨0x30, 14, 16, 27⟩
  l3Children := [⟨0x06, 16, 18, 19⟩, ⟨0xA0, 19, 21, 27⟩]
  l4 := ⟨0xA0, 19, 21, 27⟩
  l4Children := [⟨0x04, 21, 23, 27⟩]
  l5 := ⟨0x04, 21, 23, 27⟩

theorem wrappedDer_canonical : Canonical wrappedDer wrappedSpine where
  walk := by decide +kernel
  nested := ⟨rfl, rfl, rfl, rfl, rfl⟩
  whole := rfl
  header0 := by decide
  header1 := by unfold ShortHeader; decide
  header2 := by unfold ShortHeader; decide
  header3 := by unfold ShortHeader; decide
  header4 := by unfold ShortHeader; decide

theorem wrap_normalize_inverse_sample :
    (∃ y, wrapAuthenticodeContent sampleDer = .ok y ∧
      normalizeAuthenticodeSignature y = .ok sampleDer) ∧
    ∃ x, normalizeAuthenticodeSignature wrappedDer = .ok x ∧
      wrapAuthenticodeContent x = .ok wrappedDer :=
  ⟨wrap_normalize_inverse.1 sampleDer sampleSpine (by decide) sampleDer_canonical (by decide) rfl
      (by decide),
    wrap_normalize_inverse.2 wrappedDer wrappedSpine (by decide) wrappedDer_canonical (by decide)
      rfl rfl (by unfold ShortHeader; decide)
      ⟨⟨0x30, 23, 25, 27⟩, by decide +kernel, rfl, by decide⟩⟩

end Rsigncode
