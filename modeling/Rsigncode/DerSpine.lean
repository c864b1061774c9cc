import Rsigncode.DerRead

/-! What the walk of `rewriteAuthenticodeContent` finds, and when its second half can
panic. Every child starts inside its parent, but the last one may end after it. -/
namespace Rsigncode

open FileStore Window Number Tlv

/-- The elements a walk has met, each level opened at the element it goes into. -/
structure Levels where
  info : Tlv
  inInfo : Focus 0xA0
  inContent : Focus 0x30
  version : Tlv
  inSigned : Focus 0x30
  inEncap : Focus 0xA0
  inner : Tlv
  rest : List Tlv
  isSequence : info.tag = 0x30
  isInteger : version.tag = 0x02

namespace Levels
variable (L : Levels)

def startInfo : Nat := 0 + L.info.header.length
def contentPos : Nat := L.startInfo + L.inInfo.offset
def startContent : Nat := L.contentPos + L.inInfo.hit.header.length
def signedPos : Nat := L.startContent + L.inContent.offset
def startSigned : Nat := L.signedPos + L.inContent.hit.header.length
def afterVersion : Nat := L.startSigned + L.version.bytes.length
def encapPos : Nat := L.afterVersion + L.inSigned.offset
def startEncap : Nat := L.encapPos + L.inSigned.hit.header.length
def eContentPos : Nat := L.startEncap + L.inEncap.offset
def startEContent : Nat := L.eContentPos + L.inEncap.hit.header.length

def spine : Spine where
  cs0 := L.startInfo
  ce0 := 0 + L.info.bytes.length
  l0Children := childrenAt L.startInfo L.inInfo.elems
  l1 := childAt L.contentPos L.inInfo.hit
  l1Children := childrenAt L.startContent L.inContent.elems
  l2 := childAt L.signedPos L.inContent.hit
  l2Children := childrenAt L.startSigned (L.version :: L.inSigned.elems)
  version := childAt L.startSigned L.version
  l3 := childAt L.encapPos L.inSigned.hit
  l3Children := childrenAt L.startEncap L.inEncap.elems
  l4 := childAt L.eContentPos L.inEncap.hit
  l4Children := childrenAt L.startEContent (L.inner :: L.rest)
  l5 := childAt L.startEContent L.inner

theorem spine_cs0 : L.spine.cs0 = L.startInfo := rfl
theorem spine_l1_start : L.spine.l1.contentStart = L.startContent := rfl
theorem spine_version_end : L.spine.version.contentEnd = L.afterVersion := rfl
theorem spine_l3_start : L.spine.l3.contentStart = L.startEncap := rfl

/-- The elements stand in the buffer; whether they fit into each other is left open. -/
structure Stands (der : Bytes) : Prop where
  info : At der 0 L.info.bytes
  inInfo : At der L.startInfo (flat L.inInfo.elems)
  inContent : At der L.startContent (flat L.inContent.elems)
  inSigned : At der L.startSigned (flat (L.version :: L.inSigned.elems))
  inEncap : At der L.startEncap (flat L.inEncap.elems)
  inEContent : At der L.startEContent (flat (L.inner :: L.rest))

structure Covered : Prop where
  inInfo : Covers L.inInfo.elems L.info.content.length
  inContent : Covers L.inContent.elems L.inInfo.hit.content.length
  inSigned : Covers (L.version :: L.inSigned.elems) L.inContent.hit.content.length
  inEncap : Covers L.inEncap.elems L.inSigned.hit.content.length
  inEContent : Covers (L.inner :: L.rest) L.inEncap.hit.content.length

end Levels

theorem at_focus {k : UInt8} {f : Focus k} {b : Bytes} {p : Nat} (h : At b p (flat f.elems)) :
    At b (p + f.offset) f.hit.bytes := by
  rw [f.flat_elems, Focus.around, List.append_assoc, at_append, at_append] at h
  exact h.2.1

theorem header_le {b : Bytes} {p : Nat} {t : Tlv} (h : At b p t.bytes) :
    p + t.header.length ≤ b.length := by
  have inside := h.le
  rw [t.bytes_length] at inside
  omega

theorem listed_eq_ok {der : Bytes} {p : Nat} {t : Tlv} {cs : List Child} (here : At der p t.bytes) :
    (childAt p t).children der = .ok cs ↔ ∃ ts, At der (p + t.header.length) (flat ts) ∧
      Covers ts t.content.length ∧ cs = childrenAt (p + t.header.length) ts := by
  have size : p + t.bytes.length - (p + t.header.length) = t.content.length := by
    rw [t.bytes_end, Nat.add_sub_cancel_left]
  rw [← size]
  exact children_eq_ok (header_le here)

theorem level_eq_ok {k : UInt8} {der : Bytes} {p : Nat} {t : Tlv} {cs : List Child} {c : Child}
    (here : At der p t.bytes) (listed : (childAt p t).children der = .ok cs)
    (found : firstWithTag cs k = some c) :
    ∃ f : Focus k, At der (p + t.header.length) (flat f.elems) ∧
      Covers f.elems t.content.length ∧ cs = childrenAt (p + t.header.length) f.elems ∧
      c = childAt (p + t.header.length + f.offset) f.hit := by
  obtain ⟨ts, stand, covers, rfl⟩ := (listed_eq_ok here).mp listed
  obtain ⟨f, rfl, rfl⟩ := exists_focus found
  exact ⟨f, stand, covers, rfl, rfl⟩

theorem signed_eq_ok {der : Bytes} {p : Nat} {t : Tlv} {cs : List Child} {v c : Child}
    (here : At der p t.bytes) (listed : (childAt p t).children der = .ok cs)
    (first : cs.head?.filter (·.tag == 0x02) = some v) (found : firstWithTag cs 0x30 = some c) :
    ∃ (u : Tlv) (f : Focus 0x30), u.tag = 0x02 ∧
      At der (p + t.header.length) (flat (u :: f.elems)) ∧
      Covers (u :: f.elems) t.content.length ∧
      cs = childrenAt (p + t.header.length) (u :: f.elems) ∧
      v = childAt (p + t.header.length) u ∧
      c = childAt (p + t.header.length + u.bytes.length + f.offset) f.hit := by
  obtain ⟨ts, stand, covers, rfl⟩ := (listed_eq_ok here).mp listed
  cases ts with
  | nil => cases first
  | cons u ts =>
    rw [childrenAt, List.head?_cons, Option.filter_eq_some_iff] at first
    obtain ⟨same, integer⟩ := first
    cases same
    have tag : u.tag = 0x02 := by simpa [childAt] using integer
    have other : ¬ ((childAt (p + t.header.length) u).tag == 0x30) = true := by
      simp [childAt, tag]
    have rest := (List.find?_cons_of_neg (p := fun c : Child => c.tag == 0x30) other).symm.trans
      found
    obtain ⟨f, rfl, rfl⟩ := exists_focus rest
    exact ⟨u, f, tag, stand, covers, rfl, rfl, rfl⟩

theorem Levels.encap_found (L : Levels) :
    firstWithTag (childrenAt L.startSigned (L.version :: L.inSigned.elems)) 0x30 =
      some (childAt L.encapPos L.inSigned.hit) :=
  (List.find?_cons_of_neg (p := fun c : Child => c.tag == 0x30)
    (by simp [childAt, L.isInteger])).trans (firstWithTag_elems L.inSigned L.afterVersion)

namespace Levels.Stands
variable {L : Levels} {der : Bytes}

theorem contentAt (h : L.Stands der) : At der L.contentPos L.inInfo.hit.bytes := at_focus h.inInfo

theorem signedAt (h : L.Stands der) : At der L.signedPos L.inContent.hit.bytes :=
  at_focus h.inContent

theorem versionAt (h : L.Stands der) : At der L.startSigned L.version.bytes :=
  (at_append.mp h.inSigned).1

theorem behindVersion (h : L.Stands der) : At der L.afterVersion (flat L.inSigned.elems) :=
  (at_append.mp h.inSigned).2

theorem encapAt (h : L.Stands der) : At der L.encapPos L.inSigned.hit.bytes :=
  at_focus h.behindVersion

theorem eContentAt (h : L.Stands der) : At der L.eContentPos L.inEncap.hit.bytes :=
  at_focus h.inEncap

theorem innerAt (h : L.Stands der) : At der L.startEContent L.inner.bytes :=
  (at_append.mp h.inEContent).1

theorem walkSpine_eq (h : L.Stands der) (covered : L.Covered) : walkSpine der = .ok L.spine := by
  have info : children der L.startInfo L.spine.ce0 = .ok (childrenAt L.startInfo L.inInfo.elems) :=
    (listed_eq_ok h.info).mpr ⟨_, h.inInfo, covered.inInfo, rfl⟩
  have version : ((childrenAt L.startSigned (L.version :: L.inSigned.elems)).head?.filter
      (·.tag == 0x02)) = some (childAt L.startSigned L.version) := by
    rw [childrenAt, List.head?_cons, Option.filter_some, if_pos (by simp [childAt, L.isInteger])]
  rw [walkSpine, Res.bind_ok (readHeader_at h.info)]
  dsimp only
  rw [if_neg (not_not.mpr L.isSequence)]
  simp only [Res.bind_eq_ok, okOr_eq_ok]
  exact ⟨_, info, _, firstWithTag_elems L.inInfo _,
    _, (listed_eq_ok h.contentAt).mpr ⟨_, h.inContent, covered.inContent, rfl⟩,
    _, firstWithTag_elems L.inContent _,
    _, (listed_eq_ok h.signedAt).mpr ⟨_, h.inSigned, covered.inSigned, rfl⟩,
    _, version, _, L.encap_found,
    _, (listed_eq_ok h.encapAt).mpr ⟨_, h.inEncap, covered.inEncap, rfl⟩,
    _, firstWithTag_elems L.inEncap _,
    _, (listed_eq_ok h.eContentAt).mpr ⟨_, h.inEContent, covered.inEContent, rfl⟩, _, rfl, rfl⟩

end Levels.Stands

theorem walkSpine_eq_ok {der : Bytes} {s : Spine} :
    walkSpine der = .ok s ↔ ∃ L : Levels, L.Stands der ∧ L.Covered ∧ s = L.spine := by
  constructor
  · intro h
    rw [walkSpine] at h
    obtain ⟨⟨t0, cs0, ce0⟩, header, h⟩ := Res.bind_eq_ok.mp h
    dsimp only at h
    split at h
    · cases h
    · rename_i sequence
      simp only [Res.bind_eq_ok, okOr_eq_ok] at h
      obtain ⟨l0Children, listed0, l1, found1, l1Children, listed1, l2, found2, l2Children, listed2,
        version, first, l3, found3, l3Children, listed3, l4, found4, l4Children, listed4, l5,
        found5, built⟩ := h
      cases built
      obtain ⟨info, infoAt, rfl, rfl, rfl⟩ := readHeader_eq_ok.mp header
      obtain ⟨inInfo, stand0, covers0, rfl, rfl⟩ := level_eq_ok infoAt listed0 found1
      obtain ⟨inContent, stand1, covers1, rfl, rfl⟩ := level_eq_ok (at_focus stand0) listed1 found2
      obtain ⟨version, inSigned, integer, stand2, covers2, rfl, rfl, rfl⟩ :=
        signed_eq_ok (at_focus stand1) listed2 first found3
      obtain ⟨inEncap, stand3, covers3, rfl, rfl⟩ :=
        level_eq_ok (at_focus (at_append.mp stand2).2) listed3 found4
      obtain ⟨ts, stand4, covers4, rfl⟩ := (listed_eq_ok (at_focus stand3)).mp listed4
      cases ts with
      | nil => cases found5
      | cons inner rest =>
        cases found5
        exact ⟨⟨info, inInfo, inContent, version, inSigned, inEncap, inner, rest,
          not_not.mp sequence, integer⟩, ⟨infoAt, stand0, stand1, stand2, stand3, stand4⟩,
          ⟨covers0, covers1, covers2, covers3, covers4⟩, rfl⟩
  · rintro ⟨L, stands, covered, rfl⟩
    exact stands.walkSpine_eq covered

theorem walkSpine_returns (der : Bytes) : (walkSpine der).Returns := by
  refine (readHeader_returns der 0).bind fun ⟨t0, cs0, ce0⟩ _ => ?_
  dsimp only
  split
  · exact Res.returns_error _
  · refine (children_returns der cs0 ce0).bind fun l0Children _ => ?_
    refine (okOr_returns _ _).bind fun l1 _ => (children_returns der _ _).bind fun _ _ => ?_
    refine (okOr_returns _ _).bind fun l2 _ => (children_returns der _ _).bind fun _ _ => ?_
    refine (okOr_returns _ _).bind fun version _ => (okOr_returns _ _).bind fun l3 _ => ?_
    refine (children_returns der _ _).bind fun l3Children _ => ?_
    refine (okOr_returns _ _).bind fun l4 _ => (children_returns der _ _).bind fun _ _ => ?_
    exact (okOr_returns _ _).bind fun l5 _ => Res.returns_ok _

def Spine.Contained (s : Spine) : Prop :=
  s.l4.contentEnd ≤ s.l3.contentEnd ∧ s.l3.contentEnd ≤ s.l2.contentEnd ∧
    s.l2.contentEnd ≤ s.l1.contentEnd ∧ s.l1.contentEnd ≤ s.ce0

instance (s : Spine) : Decidable s.Contained := inferInstanceAs (Decidable (_ ∧ _))

def InForm (der : Bytes) (s : Spine) (wrap : Bool) : Prop :=
  wrap = (s.l5.tag == 0x04) ∧
    slice der s.version.fullStart s.version.contentEnd = targetVersion wrap

instance (der : Bytes) (s : Spine) (wrap : Bool) : Decidable (InForm der s wrap) :=
  inferInstanceAs (Decidable (_ ∧ _))

/-- A splice panics exactly when the replaced element ends after its parent. -/
theorem splice_eq {der new : Bytes} {start stop : Nat} {c : Child} (order : start ≤ c.fullStart)
    (inside : c.fullStart ≤ der.length) (ends : stop ≤ der.length) :
    splice der start c stop new =
      if c.contentEnd ≤ stop then
        .ok (slice der start c.fullStart ++ new ++ slice der c.contentEnd stop)
      else .error .panic := by
  rw [splice, Res.bind_ok (subslice_of_le order inside)]
  by_cases contained : c.contentEnd ≤ stop
  · rw [Res.bind_ok (subslice_of_le contained ends), if_pos contained]
    rfl
  · rw [subslice, if_neg fun h => contained h.1, if_neg contained]
    rfl

theorem newContent_at {der x y : Bytes} {s : Spine} (wrap : Bool) (native : At der s.l5.fullStart x)
    (ends : s.l5.contentEnd = s.l5.fullStart + x.length)
    (octets : At der s.l5.contentStart y) (ends' : s.l5.contentEnd = s.l5.contentStart + y.length)
    {z : Bytes} (whole : At der s.l4.contentStart z)
    (ends'' : s.l4.contentEnd = s.l4.contentStart + z.length) :
    newContent der s wrap = .ok (match wrap, s.l5.tag == 0x04 with
      | true, false => emitTlv 0x04 x
      | false, true => y
      | _, _ => z) := by
  unfold newContent
  cases wrap <;> cases s.l5.tag == 0x04
  · exact subslice_at whole ends''
  · exact subslice_at octets ends'
  · exact Res.bind_ok (subslice_at native ends) _
  · exact subslice_at whole ends''

theorem at_content {b : Bytes} {p : Nat} {t : Tlv} (h : At b p t.bytes) :
    At b (p + t.header.length) t.content := (at_append.mp h).2

def Levels.newContent (L : Levels) (wrap : Bool) : Bytes :=
  match wrap, L.inner.tag == 0x04 with
  | true, false => emitTlv 0x04 L.inner.bytes
  | false, true => L.inner.content
  | _, _ => L.inEncap.hit.content

theorem Levels.Stands.newContent_eq {L : Levels} {der : Bytes} (h : L.Stands der) (wrap : Bool) :
    Rsigncode.newContent der L.spine wrap = .ok (L.newContent wrap) :=
  newContent_at wrap h.innerAt rfl (at_content h.innerAt) (L.inner.bytes_end _)
    (at_content h.eContentAt) (L.inEncap.hit.bytes_end _)

theorem Levels.Stands.rebuild_returns_iff {L : Levels} {der : Bytes} (h : L.Stands der)
    (wrap : Bool) : (rebuild der L.spine wrap).Returns ↔ L.spine.Contained := by
  have starts : ∀ p q : Nat, p ≤ p + q := Nat.le_add_right
  have start : ∀ {p : Nat} {t : Tlv}, At der p t.bytes → p ≤ der.length :=
    fun here => Nat.le_of_add_right_le here.le
  have infoEnd : L.spine.ce0 ≤ der.length := h.info.le
  have cut4 : ∀ new, splice der L.startEncap L.spine.l4 L.spine.l3.contentEnd new = _ :=
    fun new => splice_eq (starts _ _) (start h.eContentAt) h.encapAt.le
  have cut3 : ∀ new, splice der L.afterVersion L.spine.l3 L.spine.l2.contentEnd new = _ :=
    fun new => splice_eq (starts _ _) (start h.encapAt) h.signedAt.le
  have cut2 : ∀ new, splice der L.startContent L.spine.l2 L.spine.l1.contentEnd new = _ :=
    fun new => splice_eq (starts _ _) (start h.signedAt) h.contentAt.le
  have cut1 : ∀ new, splice der L.startInfo L.spine.l1 L.spine.ce0 new = _ :=
    fun new => splice_eq (starts _ _) (start h.contentAt) infoEnd
  rw [rebuild, Res.bind_ok (h.newContent_eq wrap)]
  dsimp only
  simp only [L.spine_l3_start, L.spine_version_end, L.spine_l1_start, L.spine_cs0, cut4, cut3,
    cut2, cut1, Res.returns_ite_bind, Res.returns_pure, and_true, Spine.Contained]

theorem Levels.Stands.rewrite_eq {L : Levels} {der : Bytes} (h : L.Stands der)
    (covered : L.Covered) (wrap : Bool) : rewriteAuthenticodeContent der wrap =
      if InForm der L.spine wrap then .ok der else rebuild der L.spine wrap := by
  have version : slice der L.spine.version.fullStart L.spine.version.contentEnd =
      L.version.bytes := h.versionAt.slice_eq rfl
  have cut : subslice der L.spine.version.fullStart L.spine.version.contentEnd =
      .ok L.version.bytes := subslice_at h.versionAt rfl
  have inForm : (wrap == (L.spine.l5.tag == 0x04) && L.version.bytes == targetVersion wrap) =
      true ↔ InForm der L.spine wrap := by
    rw [InForm, version, Bool.and_eq_true, beq_iff_eq, beq_iff_eq]
  rw [rewriteAuthenticodeContent, Res.bind_ok (h.walkSpine_eq covered), Res.bind_ok cut]
  simp only [inForm]
  rfl

theorem rewrite_returns_iff (der : Bytes) (wrap : Bool) :
    (rewriteAuthenticodeContent der wrap).Returns ↔
      ∀ s, walkSpine der = .ok s → InForm der s wrap ∨ s.Contained := by
  rcases walkSpine_returns der with ⟨s, walk⟩ | ⟨e, walk⟩
  · obtain ⟨L, stands, covered, rfl⟩ := walkSpine_eq_ok.mp walk
    simp only [stands.rewrite_eq covered, walk, Except.ok.injEq, forall_eq']
    by_cases done : InForm der L.spine wrap
    · rw [if_pos done]
      exact iff_of_true (Res.returns_ok der) (.inl done)
    · rw [if_neg done, stands.rebuild_returns_iff wrap]
      exact (or_iff_right done).symm
  · rw [rewriteAuthenticodeContent, walk]
    refine iff_of_true (Res.returns_error e) fun s ok => ?_
    cases ok

def Safe (der : Bytes) : Bool → Prop
  | true => (rewriteAuthenticodeContent der true).Returns ∧ (wrapAuthenticodeContent der).Returns
  | false => (rewriteAuthenticodeContent der false).Returns ∧
      (normalizeAuthenticodeSignature der).Returns ∧ (checkAuthenticodeEnvelope der).Returns

theorem check_eq_ok_iff (der : Bytes) : checkAuthenticodeEnvelope der = .ok () ↔
    normalizeAuthenticodeSignature der = .ok der := by
  rw [checkAuthenticodeEnvelope]
  constructor
  · intro checked
    obtain ⟨normalized, run, same⟩ := Res.bind_eq_ok.mp checked
    split at same
    · rename_i unchanged
      rw [run, unchanged]
    · cases same
  · intro run
    rw [Res.bind_ok run, if_pos rfl]
    rfl

theorem check_returns_iff (der : Bytes) :
    (checkAuthenticodeEnvelope der).Returns ↔ (normalizeAuthenticodeSignature der).Returns := by
  constructor
  · intro h
    rw [checkAuthenticodeEnvelope] at h
    cases run : normalizeAuthenticodeSignature der with
    | ok out => exact Res.returns_ok out
    | error fault =>
      rw [run] at h
      rcases h with ⟨a, ok⟩ | ⟨e, err⟩
      · cases ok
      · cases err
        exact Res.returns_error e
  · refine fun h => h.bind fun out _ => ?_
    split
    · exact Res.returns_pure ()
    · exact Res.returns_error _

/-- No call panics exactly when the walk fails, there is nothing to rewrite, or every
spine element ends inside its parent. -/
theorem safe_iff (der : Bytes) (wrap : Bool) :
    Safe der wrap ↔ ∀ s, walkSpine der = .ok s → InForm der s wrap ∨ s.Contained := by
  rw [← rewrite_returns_iff]
  cases wrap with
  | true => exact and_self_iff
  | false =>
    rw [Safe, check_returns_iff]
    exact ⟨And.left, fun h => ⟨h, h, h⟩⟩

/-- A SignedData whose eContent ends two bytes after the encapContentInfo around it. -/
def overrunDer : Bytes :=
  [0x30, 0x0D, 0xA0, 0x0B, 0x30, 0x09, 0x02, 0x01, 0x01, 0x30, 0x02, 0xA0, 0x02, 0x04, 0x00]

theorem rewrite_panics : ¬ ∀ (der : Bytes) (wrap : Bool), Safe der wrap := by
  intro claim
  have safe := claim overrunDer false
  have panics : rewriteAuthenticodeContent overrunDer false = .error .panic := by decide +kernel
  rcases safe.1 with ⟨a, ok⟩ | ⟨e, err⟩
  · rw [panics] at ok
    cases ok
  · rw [panics] at err
    cases err

end Rsigncode
