import Rsigncode.Envelope

/-! The rewritten envelope: emitted headers are the shortest ones, the elements beside
the spine are the same, and undoing a rewrite gives back the bytes. -/
namespace Rsigncode

open FileStore Window Number Tlv

theorem trim_eq_drop {x : Bytes} (some : trim x ≠ []) :
    x.drop ((x.findIdx? (· != 0)).getD (x.length - 1)) = trim x := by
  have skip : trim x = x.drop (x.findIdx (· != 0)) := List.dropWhile_eq_drop_findIdx_not
  rw [skip]
  cases found : x.findIdx? (· != 0) with
  | some i => rw [List.findIdx_eq_getD_findIdx?, found, Option.getD_some, Option.getD_some]
  | none =>
    rw [skip, List.findIdx_eq_getD_findIdx?, found, Option.getD_none, List.drop_length] at some
    exact absurd rfl some

theorem trim_be_length (n : Nat) : (trim (be 8 n)).length ≤ 8 := by
  have part := (List.dropWhile_suffix (fun x : UInt8 => x == 0) (l := be 8 n)).length_le
  rwa [be, List.length_reverse, le_length] at part

theorem encodeLen_eq {n : Nat} (tag : UInt8) (fits : n < 2 ^ 64) :
    encodeLen n [tag] = tag :: lengthOctets n := by
  rw [encodeLen, lengthOctets]
  by_cases short : n < 128
  · rw [if_pos short, if_pos short]
    rfl
  · have some : trim (be 8 n) ≠ [] := trim_ne_nil (by rw [ofBe_be (by omega)]; omega)
    have bit : ∀ k < 9, (0x80 : UInt8) ||| UInt8.ofNat k = UInt8.ofNat (128 + k) := by decide
    rw [if_neg short, if_neg short]
    simp only [trim_eq_drop some, bit _ (Nat.lt_succ_of_le (trim_be_length n))]
    rfl

theorem emitTlv_eq {content : Bytes} (tag : UInt8) (small : content.length < 2 ^ 32) :
    emitTlv tag content = (Tlv.emit tag content small).bytes := by
  rw [emitTlv, encodeLen_eq tag (by omega)]
  rfl

/-- Lengths that need more than four octets are written but never read. -/
theorem not_lengthForm_of_large {n m : Nat} {len y z : Bytes} (large : 2 ^ 32 ≤ n)
    (fits : n < 2 ^ 64) (form : LengthForm len m) : lengthOctets n ++ y ≠ len ++ z := by
  intro same
  have value : ofBe (trim (be 8 n)) = n := (ofBe_trim _).trans (ofBe_be (by omega))
  have room := ofBe_lt (trim (be 8 n))
  have few := trim_be_length n
  have many : 4 < (trim (be 8 n)).length := by
    by_contra short
    have pow : 256 ^ (trim (be 8 n)).length ≤ 256 ^ 4 :=
      Nat.pow_le_pow_right (by decide) (by omega)
    omega
  rw [lengthOctets, if_neg (by omega)] at same
  cases form with
  | short small =>
    have first := ofNat_inj_of_lt (by omega) (by omega) (List.cons.inj same).1
    omega
  | long some few' =>
    have first := ofNat_inj_of_lt (by omega) (by omega) (List.cons.inj same).1
    omega

theorem emitTlv_eq_bytes {tag : UInt8} {x r : Bytes} {t : Tlv} (fits : x.length < 2 ^ 64)
    (h : emitTlv tag x = t.bytes ++ r) :
    ∃ small : x.length < 2 ^ 32, t = Tlv.emit tag x small ∧ r = [] := by
  by_cases small : x.length < 2 ^ 32
  · rw [emitTlv_eq tag small, ← List.append_nil (Tlv.bytes _)] at h
    obtain ⟨same, rest⟩ := Tlv.bytes_append_inj h
    exact ⟨small, same.symm, rest.symm⟩
  · rw [emitTlv, encodeLen_eq tag fits, Tlv.bytes, Tlv.header] at h
    simp only [List.cons_append, List.append_assoc] at h
    exact absurd (List.cons.inj h).2
      (not_lengthForm_of_large (Nat.le_of_not_lt small) fits t.form)

theorem emitTlv_injective {tag : UInt8} {x y : Bytes} (small : x.length < 2 ^ 32)
    (h : emitTlv tag x = emitTlv tag y) : x = y := by
  have size := congrArg List.length h
  rw [emitTlv_eq tag small] at h size
  have long := Tlv.emit_length_le tag small
  have inside : y.length ≤ (emitTlv tag y).length := by
    rw [emitTlv, List.length_append]
    exact Nat.le_add_left _ _
  rw [← List.append_nil (Tlv.bytes _)] at h
  obtain ⟨small', same, -⟩ := emitTlv_eq_bytes (by omega) h.symm
  exact congrArg Tlv.content same

theorem length_le_emitTlv (tag : UInt8) (x : Bytes) : x.length ≤ (emitTlv tag x).length := by
  rw [emitTlv, List.length_append]
  exact Nat.le_add_left _ _

def emitLength (n : Nat) : Nat := (encodeLen n [0]).length + n

theorem emitTlv_length (tag : UInt8) (x : Bytes) :
    (emitTlv tag x).length = emitLength x.length := by
  rw [emitTlv, List.length_append, emitLength, encodeLen, encodeLen]
  split <;> simp

theorem emitLength_le (n : Nat) : emitLength n ≤ n + 10 := by
  rw [emitLength, encodeLen]
  split
  · simp
    omega
  · simp [be]
    omega

theorem emitTlv_minimal {t : Tlv} {tag : UInt8} {x : Bytes} (h : t.Minimal) (same : t.tag = tag)
    (content : t.content = x) : emitTlv tag x = t.bytes := by
  subst same content
  rw [emitTlv_eq t.tag t.form.lt, ← h.eq_emit]

structure Levels.Beside (L M : Levels) : Prop where
  inInfo : M.inInfo.before = L.inInfo.before ∧ M.inInfo.after = L.inInfo.after
  inContent : M.inContent.before = L.inContent.before ∧ M.inContent.after = L.inContent.after
  inSigned : M.inSigned.before = L.inSigned.before ∧ M.inSigned.after = L.inSigned.after
  inEncap : M.inEncap.before = L.inEncap.before ∧ M.inEncap.after = L.inEncap.after

theorem Levels.Beside.refl (L : Levels) : L.Beside L :=
  ⟨⟨rfl, rfl⟩, ⟨rfl, rfl⟩, ⟨rfl, rfl⟩, ⟨rfl, rfl⟩⟩

theorem Levels.Beside.rebuilt_eq {L M : Levels} (h : L.Beside M) (version content : Bytes) :
    M.rebuilt version content = L.rebuilt version content := by
  simp only [Levels.rebuilt, Focus.around, h.inInfo.1, h.inInfo.2, h.inContent.1, h.inContent.2,
    h.inSigned.1, h.inSigned.2, h.inEncap.1, h.inEncap.2]

structure Levels.Minimal (L : Levels) : Prop where
  info : L.info.Minimal
  content : L.inInfo.hit.Minimal
  signed : L.inContent.hit.Minimal
  encap : L.inSigned.hit.Minimal
  eContent : L.inEncap.hit.Minimal

theorem Envelope.rebuilt_self {e : Envelope} (h : e.Minimal) :
    e.rebuilt e.version.bytes e.inEncap.hit.content = e.info.bytes := by
  rw [Levels.rebuilt, emitTlv_minimal h.eContent e.inEncap.tag rfl,
    emitTlv_minimal h.encap e.inSigned.tag (e.fillsEncap.trans e.inEncap.flat_elems),
    ← e.inSigned.flat_elems, ← flat_cons,
    emitTlv_minimal h.signed e.inContent.tag e.fillsSigned,
    emitTlv_minimal h.content e.inInfo.tag (e.fillsContent.trans e.inContent.flat_elems),
    emitTlv_minimal h.info e.isSequence (e.fillsInfo.trans e.inInfo.flat_elems)]

theorem Envelope.exists_rebuilt (e : Envelope) (small : e.info.bytes.length < 2 ^ 31) (v : Tlv)
    (integer : v.tag = 0x02) (three : v.bytes.length = 3) (inner : Tlv) (rest : List Tlv)
    (room : (flat (inner :: rest)).length ≤ e.inEncap.hit.content.length + 6) :
    ∃ e' : Envelope, e'.info.bytes = e.rebuilt v.bytes (flat (inner :: rest)) ∧
      e.Beside e'.toLevels ∧ e'.version = v ∧ e'.inner = inner ∧ e'.rest = rest ∧
      e'.Minimal := by
  have whole := e.info.bytes_length
  have inside1 := e.fillsInfo ▸ e.inInfo.content_length_le
  have inside2 := e.fillsContent ▸ e.inContent.content_length_le
  have signed := congrArg List.length e.fillsSigned
  have inside3 := e.inSigned.content_length_le
  have inside4 := e.fillsEncap ▸ e.inEncap.content_length_le
  have two := e.version.bytes_length_ge
  rw [flat_cons, List.length_append] at signed
  -- from the inside out: each new container has grown by at most four octets more
  have small4 : (flat (inner :: rest)).length < 2 ^ 32 := by omega
  let t4 := Tlv.emit 0xA0 (flat (inner :: rest)) small4
  have grown4 : (e.inEncap.around t4.bytes).length ≤ e.inSigned.hit.content.length + 10 := by
    rw [e.fillsEncap]
    exact e.inEncap.around_emit_length 0xA0 small4 room
  have small3 : (e.inEncap.around t4.bytes).length < 2 ^ 32 := by omega
  let t3 := Tlv.emit 0x30 (e.inEncap.around t4.bytes) small3
  have grown3 : (v.bytes ++ e.inSigned.around t3.bytes).length ≤
      e.inContent.hit.content.length + 15 := by
    have long : (e.inSigned.around t3.bytes).length ≤ _ :=
      e.inSigned.around_emit_length 0x30 small3 grown4
    rw [List.length_append]
    omega
  have small2 : (v.bytes ++ e.inSigned.around t3.bytes).length < 2 ^ 32 := by omega
  let t2 := Tlv.emit 0x30 (v.bytes ++ e.inSigned.around t3.bytes) small2
  have grown2 : (e.inContent.around t2.bytes).length ≤ e.inInfo.hit.content.length + 19 := by
    rw [e.fillsContent]
    exact e.inContent.around_emit_length 0x30 small2 grown3
  have small1 : (e.inContent.around t2.bytes).length < 2 ^ 32 := by omega
  let t1 := Tlv.emit 0xA0 (e.inContent.around t2.bytes) small1
  have grown1 : (e.inInfo.around t1.bytes).length ≤ e.info.content.length + 23 := by
    rw [e.fillsInfo]
    exact e.inInfo.around_emit_length 0xA0 small1 grown2
  have small0 : (e.inInfo.around t1.bytes).length < 2 ^ 32 := by omega
  refine ⟨{
    info := Tlv.emit 0x30 (e.inInfo.around t1.bytes) small0
    inInfo := e.inInfo.replace t1 rfl
    inContent := e.inContent.replace t2 rfl
    version := v
    inSigned := e.inSigned.replace t3 rfl
    inEncap := e.inEncap.replace t4 rfl
    inner := inner
    rest := rest
    isSequence := rfl
    isInteger := integer
    fillsInfo := ((e.inInfo.replace t1 rfl).flat_elems).symm
    fillsContent := ((e.inContent.replace t2 rfl).flat_elems).symm
    fillsSigned := congrArg (v.bytes ++ ·) (e.inSigned.replace t3 rfl).flat_elems.symm
    fillsEncap := ((e.inEncap.replace t4 rfl).flat_elems).symm
    fillsEContent := rfl }, ?_,
    ⟨⟨rfl, rfl⟩, ⟨rfl, rfl⟩, ⟨rfl, rfl⟩, ⟨rfl, rfl⟩⟩, rfl, rfl, rfl, ⟨rfl, rfl, rfl, rfl, rfl⟩⟩
  rw [Levels.rebuilt, emitTlv_eq 0xA0 small4, emitTlv_eq 0x30 small3, emitTlv_eq 0x30 small2,
    emitTlv_eq 0xA0 small1, emitTlv_eq 0x30 small0]

def Levels.nativeContent (L : Levels) : Bytes :=
  if L.inner.tag = 0x04 then L.inner.content else L.inner.bytes

def versionTlv (wrap : Bool) : Tlv where
  tag := 0x02
  len := [1]
  content := if wrap then [0x03] else [0x01]
  form := by cases wrap <;> exact .short (by decide)

theorem versionTlv_bytes (wrap : Bool) : (versionTlv wrap).bytes = targetVersion wrap := by
  cases wrap <;> rfl

theorem targetVersion_length (wrap : Bool) : (targetVersion wrap).length = 3 := by
  cases wrap <;> rfl

/-- The element under eContent carries this content in the form of this direction. -/
def Carries (wrap : Bool) (t : Tlv) (content : Bytes) : Prop :=
  if wrap then t.tag = 0x04 ∧ t.content = content else t.bytes = content

theorem Levels.carries_of_done {L : Levels} {wrap : Bool} (done : L.Done wrap) :
    Carries wrap L.inner L.nativeContent := by
  cases wrap with
  | true =>
    have tag : L.inner.tag = 0x04 := by simpa using done.1.symm
    exact ⟨tag, (if_pos tag).symm⟩
  | false =>
    have tag : L.inner.tag ≠ 0x04 := by simpa using done.1.symm
    exact (if_neg tag).symm

/-- What is put under eContent is one element, which carries the content it had before. -/
theorem Levels.exists_newContent {L : Levels} (fills : L.inEncap.hit.content = L.inner.bytes)
    (fits : L.inner.bytes.length < 2 ^ 32)
    (octets : L.inner.tag = 0x04 → ∃ c : Tlv, L.inner.content = c.bytes) (wrap : Bool) :
    ∃ inner : Tlv, L.newContent wrap = inner.bytes ∧
      inner.bytes.length ≤ L.inner.bytes.length + 6 ∧ Carries wrap inner L.nativeContent := by
  by_cases tag : L.inner.tag = 0x04
  · cases wrap with
    | true =>
      refine ⟨L.inner, ?_, by omega, tag, (if_pos tag).symm⟩
      simp only [Levels.newContent, tag, fills, beq_self_eq_true]
    | false =>
      obtain ⟨c, content⟩ := octets tag
      have shorter := L.inner.bytes_length
      refine ⟨c, ?_, ?_, (if_pos tag).trans content |>.symm⟩
      · simp only [Levels.newContent, tag, content, beq_self_eq_true]
      · rw [← content]
        omega
  · have other : (L.inner.tag == 0x04) = false := by simpa using tag
    cases wrap with
    | true =>
      refine ⟨Tlv.emit 0x04 L.inner.bytes fits, ?_, Tlv.emit_length_le 0x04 fits, rfl,
        (if_neg tag).symm⟩
      simp only [Levels.newContent, other, emitTlv_eq 0x04 fits]
    | false =>
      refine ⟨L.inner, ?_, by omega, (if_neg tag).symm⟩
      simp only [Levels.newContent, other, fills]

/-- An envelope around one content element is rewritten to an envelope that differs only
in the version and in how it carries that content. -/
theorem Envelope.rewrite_envelope {e : Envelope} {der : Bytes} (h : At der 0 e.info.bytes)
    (small : der.length < 2 ^ 31) (sole : e.rest = [])
    (octets : e.inner.tag = 0x04 → ∃ c : Tlv, e.inner.content = c.bytes) (wrap : Bool) :
    ∃ (out : Bytes) (e' : Envelope), rewriteAuthenticodeContent der wrap = .ok out ∧
      At out 0 e'.info.bytes ∧ e.Beside e'.toLevels ∧ e'.version.bytes = targetVersion wrap ∧
      e'.rest = [] ∧ Carries wrap e'.inner e.nativeContent := by
  have room := h.le
  have inside := (e.stands h).innerAt.le
  have fills := e.fillsEContent
  rw [sole, flat_cons, flat_nil, List.append_nil] at fills
  by_cases done : e.Done wrap
  · exact ⟨der, e, by rw [Envelope.rewrite_eq h, if_pos done], h, Levels.Beside.refl _, done.2,
      sole, Levels.carries_of_done done⟩
  · obtain ⟨inner, new, size, carries⟩ :=
      Levels.exists_newContent fills (by omega) octets wrap
    obtain ⟨e', bytes, beside, version, inner', rest, -⟩ := e.exists_rebuilt (by omega)
      (versionTlv wrap) rfl (by rw [versionTlv_bytes, targetVersion_length]) inner []
      (by rwa [flat_cons, flat_nil, List.append_nil, fills])
    refine ⟨e'.info.bytes, e', ?_, at_zero_self _, beside, ?_, rest, inner' ▸ carries⟩
    · rw [Envelope.rewrite_eq h, if_neg done, bytes, versionTlv_bytes, flat_cons, flat_nil,
        List.append_nil, new]
    · rw [version, versionTlv_bytes]

end Rsigncode
