import Rsigncode.Rewrite

/-! The rebuilt blob, whatever the original was like. The spine is encoded anew, and what
follows each of its elements is cut from the buffer; a second walk therefore meets the
elements of the first one, as long as they end inside the ContentInfo. -/
namespace Rsigncode

open FileStore Window Number Tlv

namespace Levels
variable (L : Levels) (der version content : Bytes)

/-- The contents of the containers that are built again, around a new eContent content;
what follows each spine element is cut from the buffer. -/
def newL3Content : Bytes :=
  flat L.inEncap.before ++ emitTlv 0xA0 content ++
    slice der L.spine.l4.contentEnd L.spine.l3.contentEnd

def newL2Content : Bytes :=
  version ++ (flat L.inSigned.before ++ emitTlv 0x30 (L.newL3Content der content) ++
    slice der L.spine.l3.contentEnd L.spine.l2.contentEnd)

def newL1Content : Bytes :=
  flat L.inContent.before ++ emitTlv 0x30 (L.newL2Content der version content) ++
    slice der L.spine.l2.contentEnd L.spine.l1.contentEnd

def newL0Content : Bytes :=
  flat L.inInfo.before ++ emitTlv 0xA0 (L.newL1Content der version content) ++
    slice der L.spine.l1.contentEnd L.spine.ce0

end Levels

theorem splice_level {k : UInt8} {f : Focus k} {der : Bytes} {p stop : Nat}
    (h : At der p (flat f.elems)) (inside : (childAt (p + f.offset) f.hit).contentEnd ≤ stop)
    (ends : stop ≤ der.length) (new : Bytes) :
    splice der p (childAt (p + f.offset) f.hit) stop new = .ok (flat f.before ++ new ++
      slice der (childAt (p + f.offset) f.hit).contentEnd stop) := by
  have start : p + f.offset ≤ der.length := Nat.le_of_add_right_le (at_focus h).le
  have before : slice der p (p + f.offset) = flat f.before := by
    rw [f.flat_elems, Focus.around, List.append_assoc] at h
    exact (at_append.mp h).1.slice_eq rfl
  rw [splice_eq (Nat.le_add_right p _) start ends, if_pos inside, ← before]
  rfl

theorem Levels.Stands.rebuild_eq {L : Levels} {der : Bytes} (h : L.Stands der)
    (inside : L.spine.Contained) (wrap : Bool) : rebuild der L.spine wrap =
      .ok (emitTlv 0x30 (L.newL0Content der (targetVersion wrap) (L.newContent wrap))) := by
  have cut4 : ∀ new, splice der L.startEncap L.spine.l4 L.spine.l3.contentEnd new = _ :=
    splice_level h.inEncap inside.1 h.encapAt.le
  have cut3 : ∀ new, splice der L.afterVersion L.spine.l3 L.spine.l2.contentEnd new = _ :=
    splice_level h.behindVersion inside.2.1 h.signedAt.le
  have cut2 : ∀ new, splice der L.startContent L.spine.l2 L.spine.l1.contentEnd new = _ :=
    splice_level h.inContent inside.2.2.1 h.contentAt.le
  have cut1 : ∀ new, splice der L.startInfo L.spine.l1 L.spine.ce0 new = _ :=
    splice_level h.inInfo inside.2.2.2 h.info.le
  rw [rebuild, Res.bind_ok (h.newContent_eq wrap)]
  dsimp only
  rw [L.spine_l3_start, L.spine_version_end, L.spine_l1_start, L.spine_cs0,
    Res.bind_ok (cut4 _), Res.bind_ok (cut3 _), Res.bind_ok (cut2 _), Res.bind_ok (cut1 _)]
  rfl

theorem content_eq_open {k : UInt8} {f : Focus k} {b v : Bytes} {p q : Nat} {t : Tlv}
    (here : At b p t.bytes) (h : At b (p + t.header.length) (v ++ flat f.elems))
    (start : q = p + t.header.length + v.length)
    (inside : (childAt (q + f.offset) f.hit).contentEnd ≤ (childAt p t).contentEnd) :
    t.content = v ++ (flat f.before ++ f.hit.bytes ++
      slice b (childAt (q + f.offset) f.hit).contentEnd (childAt p t).contentEnd) := by
  have stop : (childAt (q + f.offset) f.hit).contentEnd =
      p + t.header.length + (v ++ (flat f.before ++ f.hit.bytes)).length := by
    simp only [childAt, Focus.offset, start, List.length_append]
    omega
  have ends : (childAt p t).contentEnd = p + t.header.length + t.content.length := t.bytes_end p
  rw [f.flat_elems, Focus.around, ← List.append_assoc] at h
  have opened := (at_append.mp h).1
  rw [stop, ends] at inside ⊢
  calc t.content = slice b (p + t.header.length) (p + t.header.length + t.content.length) :=
        ((at_content here).slice_eq rfl).symm
    _ = _ := (slice_append (Nat.le_add_right _ _) inside).symm
    _ = _ := by rw [opened.slice_eq rfl, List.append_assoc]

/-- Putting the parts together again around the content that is there gives the envelope. -/
theorem Levels.Stands.reassemble {M : Levels} {out : Bytes} (h : M.Stands out)
    (inside : M.spine.Contained) (minimal : M.Minimal) :
    emitTlv 0x30 (M.newL0Content out M.version.bytes M.inEncap.hit.content) = M.info.bytes := by
  have l4 := emitTlv_minimal minimal.eContent M.inEncap.tag rfl
  have l3 : emitTlv 0x30 (M.newL3Content out M.inEncap.hit.content) = M.inSigned.hit.bytes := by
    refine emitTlv_minimal minimal.encap M.inSigned.tag ?_
    rw [newL3Content, l4]
    exact content_eq_open (v := []) h.encapAt h.inEncap rfl inside.1
  have l2 : emitTlv 0x30 (M.newL2Content out M.version.bytes M.inEncap.hit.content) =
      M.inContent.hit.bytes := by
    refine emitTlv_minimal minimal.signed M.inContent.tag ?_
    rw [newL2Content, l3]
    exact content_eq_open h.signedAt h.inSigned rfl inside.2.1
  have l1 : emitTlv 0xA0 (M.newL1Content out M.version.bytes M.inEncap.hit.content) =
      M.inInfo.hit.bytes := by
    refine emitTlv_minimal minimal.content M.inInfo.tag ?_
    rw [newL1Content, l2]
    exact content_eq_open (v := []) h.contentAt h.inContent rfl inside.2.2.1
  refine emitTlv_minimal minimal.info M.isSequence ?_
  rw [newL0Content, l1]
  exact content_eq_open (v := []) h.info h.inInfo rfl inside.2.2.2

theorem flat_open (ts bs : List Tlv) (y : Tlv) :
    flat (ts ++ (bs ++ [y])) = flat ts ++ (flat bs ++ y.bytes) := by
  rw [flat_append, flat_append, flat_cons, flat_nil, List.append_nil]

theorem level_whole {der x : Bytes} {v bs : List Tlv} {new : Tlv} {e m stop : Nat}
    (content : x = flat v ++ (flat bs ++ new.bytes ++ slice der e m))
    (inside : e ≤ m) (order : m ≤ stop) :
    x ++ slice der m stop = flat (v ++ (bs ++ [new])) ++ slice der e stop := by
  rw [content, flat_open, ← slice_append inside order]
  simp only [List.append_assoc]

theorem level_tail {k : UInt8} {f : Focus k} {der out : Bytes} {v : List Tlv} {new : Tlv}
    {q e stop : Nat} (tail : Tail out q (flat (v ++ (f.before ++ [new])) ++ slice der e stop)) :
    Tail out (q + (flat v).length + f.offset + new.header.length)
      (new.content ++ slice der e stop) := by
  rw [flat_open, Tlv.bytes, ← List.append_assoc, ← List.append_assoc, List.append_assoc] at tail
  have next := tail.behind
  simpa only [List.length_append, Focus.offset, Nat.add_assoc] using next

/-- One level of the rebuilt blob. Its container holds `v`, the same elements up to the
renewed one, and what followed that one before; the octets go on as they did up to `stop`. -/
theorem level_iff {k : UInt8} {f g : Focus k} {der out x y : Bytes} {p q e i stop : Nat}
    {t new : Tlv} {u v w : List Tlv} (stand : At der (p + t.header.length) (flat (u ++ f.elems)))
    (covers : Covers (u ++ f.elems) t.content.length)
    (skipped : (flat u).length = i) (written : flat v = y)
    (hitEnd : e = p + t.header.length + i + f.offset + f.hit.bytes.length)
    (inside : e ≤ p + t.bytes.length) (order : p + t.bytes.length ≤ stop)
    (ends : stop ≤ der.length)
    (content : x = y ++ (flat f.before ++ new.bytes ++ slice der e (p + t.bytes.length)))
    (tail : Tail out q (x ++ slice der (p + t.bytes.length) stop)) (tag : new.tag = k)
    (lead : w.length = v.length) :
    (At out q (flat (w ++ g.elems)) ∧ Covers (w ++ g.elems) x.length ↔
      p + t.header.length + (flat (u ++ f.elems)).length ≤ stop ∧ w = v ∧
        g = f.replace new tag) ∧
    Tail out (q + y.length + f.offset + new.header.length)
      (new.content ++ slice der e stop) := by
  subst skipped written
  have elems : u ++ f.elems = u ++ (f.before ++ [f.hit]) ++ f.after := by
    simp only [Focus.elems, List.append_assoc, List.singleton_append]
  have size := t.bytes_end p
  have past : (flat (u ++ (f.before ++ [f.hit]))).length =
      (flat u).length + f.offset + f.hit.bytes.length := by
    simp only [flat_open, List.length_append, Focus.offset, Nat.add_assoc]
  rw [elems] at stand covers ⊢
  rw [flat_append, at_append, past] at stand
  rw [covers_append (by omega), past] at covers
  have behind : At der e (flat f.after) := by
    rw [hitEnd]
    simpa only [Nat.add_assoc] using stand.2
  have len : x.length = (flat (v ++ (f.before ++ [new]))).length +
      (t.content.length - ((flat u).length + f.offset + f.hit.bytes.length)) := by
    rw [content, flat_open]
    simp only [List.length_append, slice_length]
    omega
  rw [level_whole content inside order] at tail
  constructor
  · rw [len, covers.carry_over behind (by omega) ends tail, flat_append, List.length_append, past]
    refine and_congr (by omega) ⟨fun same => ?_, ?_⟩
    · rw [List.append_assoc] at same
      obtain ⟨rfl, rest⟩ := List.append_inj same lead
      refine ⟨rfl, Focus.elems_injective ?_⟩
      rw [rest, List.append_assoc, List.singleton_append]
      rfl
    · rintro ⟨rfl, rfl⟩
      simp only [Focus.elems, Focus.replace, List.append_assoc, List.singleton_append]
  · exact level_tail tail

section Renewed
variable (L : Levels) (der : Bytes) (v : Tlv) (content : Bytes)

def Levels.Fits : Prop := (L.newL0Content der v.bytes content).length < 2 ^ 32

variable {L der v content}

theorem Levels.Fits.l1 (h : L.Fits der v content) :
    (L.newL1Content der v.bytes content).length < 2 ^ 32 := by
  have inside := length_le_emitTlv 0xA0 (L.newL1Content der v.bytes content)
  simp only [Levels.Fits, Levels.newL0Content, List.length_append] at h
  omega

theorem Levels.Fits.l2 (h : L.Fits der v content) :
    (L.newL2Content der v.bytes content).length < 2 ^ 32 := by
  have outside := h.l1
  have inside := length_le_emitTlv 0x30 (L.newL2Content der v.bytes content)
  simp only [Levels.newL1Content, List.length_append] at outside
  omega

theorem Levels.Fits.l3 (h : L.Fits der v content) :
    (L.newL3Content der content).length < 2 ^ 32 := by
  have outside := h.l2
  have inside := length_le_emitTlv 0x30 (L.newL3Content der content)
  simp only [Levels.newL2Content, List.length_append] at outside
  omega

theorem Levels.Fits.l4 (h : L.Fits der v content) : content.length < 2 ^ 32 := by
  have outside := h.l3
  have inside := length_le_emitTlv 0xA0 content
  simp only [Levels.newL3Content, List.length_append] at outside
  omega

def Levels.renewed (h : L.Fits der v content) (integer : v.tag = 0x02) (inner : Tlv)
    (rest : List Tlv) : Levels where
  info := Tlv.emit 0x30 (L.newL0Content der v.bytes content) h
  inInfo := L.inInfo.replace (Tlv.emit 0xA0 (L.newL1Content der v.bytes content) h.l1) rfl
  inContent := L.inContent.replace (Tlv.emit 0x30 (L.newL2Content der v.bytes content) h.l2) rfl
  version := v
  inSigned := L.inSigned.replace (Tlv.emit 0x30 (L.newL3Content der content) h.l3) rfl
  inEncap := L.inEncap.replace (Tlv.emit 0xA0 content h.l4) rfl
  inner := inner
  rest := rest
  isSequence := rfl
  isInteger := integer

structure Levels.Within (L : Levels) : Prop where
  inInfo : L.startInfo + (flat L.inInfo.elems).length ≤ L.spine.ce0
  inContent : L.startContent + (flat L.inContent.elems).length ≤ L.spine.ce0
  inSigned : L.startSigned + (flat (L.version :: L.inSigned.elems)).length ≤ L.spine.ce0
  inEncap : L.startEncap + (flat L.inEncap.elems).length ≤ L.spine.ce0

theorem Levels.Stands.renewed_iff {M : Levels} (h : L.Stands der) (covered : L.Covered)
    (inside : L.spine.Contained) (fits : L.Fits der v content) (integer : v.tag = 0x02) :
    M.Stands (emitTlv 0x30 (L.newL0Content der v.bytes content)) ∧ M.Covered ↔
      L.Within ∧ M = L.renewed fits integer M.inner M.rest ∧
        Covers (M.inner :: M.rest) content.length ∧
        flat (M.inner :: M.rest) <+: content ++ slice der L.spine.l4.contentEnd L.spine.ce0 := by
  obtain ⟨in4, in3, in2, in1⟩ := inside
  have ends : L.spine.ce0 ≤ der.length := h.info.le
  have tail0 : Tail (emitTlv 0x30 (L.newL0Content der v.bytes content))
      (0 + (Tlv.emit 0x30 (L.newL0Content der v.bytes content) fits).header.length)
      (L.newL0Content der v.bytes content ++ slice der L.spine.ce0 L.spine.ce0) := by
    rw [slice_empty (Nat.le_refl _), List.append_nil, emitTlv_eq 0x30 fits]
    exact (tail_zero _).behind
  obtain ⟨level0, tail1⟩ := level_iff (g := M.inInfo) (u := []) (v := []) (w := []) h.inInfo
    covered.inInfo rfl rfl rfl in1 (Nat.le_refl _) ends
    (by rw [Levels.newL0Content, emitTlv_eq 0xA0 fits.l1]; rfl) tail0 rfl rfl
  obtain ⟨level1, tail2⟩ := level_iff (x := L.newL1Content der v.bytes content)
    (g := M.inContent) (u := []) (v := []) (w := []) h.inContent covered.inContent rfl rfl rfl in2
    in1 ends (by rw [Levels.newL1Content, emitTlv_eq 0x30 fits.l2]; rfl) tail1 rfl rfl
  obtain ⟨level2, tail3⟩ := level_iff (x := L.newL2Content der v.bytes content)
    (g := M.inSigned) (u := [L.version]) (v := [v]) (w := [M.version]) h.inSigned covered.inSigned
    (congrArg List.length (flat_singleton L.version)) (flat_singleton v) rfl in3 (in2.trans in1)
    ends (by rw [Levels.newL2Content, emitTlv_eq 0x30 fits.l3]; rfl) tail2 rfl rfl
  obtain ⟨level3, tail4⟩ := level_iff (x := L.newL3Content der content)
    (g := M.inEncap) (u := []) (v := []) (w := []) h.inEncap covered.inEncap rfl rfl rfl in4
    (in3.trans (in2.trans in1)) ends (by rw [Levels.newL3Content, emitTlv_eq 0xA0 fits.l4]; rfl)
    tail3 rfl rfl
  rcases M with ⟨info, inInfo, inContent, version, inSigned, inEncap, inner, rest, sequence, three⟩
  constructor
  · rintro ⟨stands, covered'⟩
    obtain ⟨r, same⟩ := (tail_zero _).at_iff.mp stands.info
    rw [emitTlv_eq 0x30 fits] at same
    obtain ⟨rfl, -⟩ := Tlv.bytes_append_inj (same.trans (List.append_nil _).symm)
    obtain ⟨within0, -, rfl⟩ := level0.mp ⟨stands.inInfo, covered'.inInfo⟩
    obtain ⟨within1, -, rfl⟩ := level1.mp ⟨stands.inContent, covered'.inContent⟩
    obtain ⟨within2, same2, rfl⟩ := level2.mp ⟨stands.inSigned, covered'.inSigned⟩
    obtain rfl : version = v := (List.cons.inj same2).1
    obtain ⟨within3, -, rfl⟩ := level3.mp ⟨stands.inEncap, covered'.inEncap⟩
    exact ⟨⟨within0, within1, within2, within3⟩, rfl, covered'.inEContent,
      tail4.at_iff.mp stands.inEContent⟩
  · rintro ⟨within, same, covers, inEContent⟩
    cases same
    obtain ⟨stand0, covers0⟩ := level0.mpr ⟨within.inInfo, rfl, rfl⟩
    obtain ⟨stand1, covers1⟩ := level1.mpr ⟨within.inContent, rfl, rfl⟩
    obtain ⟨stand2, covers2⟩ := level2.mpr ⟨within.inSigned, rfl, rfl⟩
    obtain ⟨stand3, covers3⟩ := level3.mpr ⟨within.inEncap, rfl, rfl⟩
    refine ⟨⟨?_, stand0, stand1, stand2, stand3, tail4.at_iff.mpr inEContent⟩,
      ⟨covers0, covers1, covers2, covers3, covers⟩⟩
    rw [emitTlv_eq 0x30 fits]
    exact at_zero_self _

theorem Levels.renewed_minimal (fits : L.Fits der v content) (integer : v.tag = 0x02) (inner : Tlv)
    (rest : List Tlv) : (L.renewed fits integer inner rest).Minimal := ⟨rfl, rfl, rfl, rfl, rfl⟩

theorem contained_level {p i : Nat} {t new : Tlv} (h : i + new.bytes.length ≤ t.content.length) :
    (childAt (p + t.header.length + i) new).contentEnd ≤ (childAt p t).contentEnd := by
  have size := t.bytes_end p
  simp only [childAt]
  omega

theorem length_emit_le (before : Bytes) (tag : UInt8) {x : Bytes} (small : x.length < 2 ^ 32)
    (after : Bytes) : before.length + (Tlv.emit tag x small).bytes.length ≤
      (before ++ emitTlv tag x ++ after).length := by
  rw [emitTlv_eq tag small, List.length_append, List.length_append]
  exact Nat.le_add_right _ _

theorem Levels.renewed_contained (fits : L.Fits der v content) (integer : v.tag = 0x02)
    (inner : Tlv) (rest : List Tlv) : (L.renewed fits integer inner rest).spine.Contained := by
  have encap : v.bytes.length + L.inSigned.offset +
      (Tlv.emit 0x30 (L.newL3Content der content) fits.l3).bytes.length ≤
        (L.newL2Content der v.bytes content).length := by
    rw [newL2Content, List.length_append, Nat.add_assoc]
    exact Nat.add_le_add_left (length_emit_le _ _ fits.l3 _) _
  have inside := contained_level (p := (L.renewed fits integer inner rest).signedPos)
    (t := Tlv.emit 0x30 (L.newL2Content der v.bytes content) fits.l2) encap
  rw [← Nat.add_assoc] at inside
  exact ⟨contained_level (length_emit_le _ _ fits.l4 _), inside,
    contained_level (length_emit_le _ _ fits.l2 _), contained_level (length_emit_le _ _ fits.l1 _)⟩

end Renewed

def spliceLength (start : Nat) (c : Child) (stop n : Nat) : Nat :=
  c.fullStart - start + emitLength n + (stop - c.contentEnd)

def Spine.newLength (s : Spine) (n : Nat) : Nat :=
  let n3 := spliceLength s.l3.contentStart s.l4 s.l3.contentEnd n
  let n2 := 3 + spliceLength s.version.contentEnd s.l3 s.l2.contentEnd n3
  let n1 := spliceLength s.l1.contentStart s.l2 s.l1.contentEnd n2
  spliceLength s.cs0 s.l1 s.ce0 n1

theorem spliceLength_le {p e n : Nat} {c : Child} (order : p ≤ c.fullStart)
    (whole : c.fullStart ≤ c.contentEnd) (inside : c.contentEnd ≤ e) (room : e < p + 2 ^ 32) :
    spliceLength p c e n ≤ n + (2 ^ 32 + 10) := by
  have grown := emitLength_le n
  rw [spliceLength]
  omega

theorem level_length {k : UInt8} {f : Focus k} {der : Bytes} {p stop : Nat}
    (ends : stop ≤ der.length) (tag : UInt8) (x : Bytes) :
    (flat f.before ++ emitTlv tag x ++
        slice der (childAt (p + f.offset) f.hit).contentEnd stop).length =
      spliceLength p (childAt (p + f.offset) f.hit) stop x.length := by
  have start : (childAt (p + f.offset) f.hit).fullStart = p + f.offset := rfl
  rw [List.length_append, List.length_append, emitTlv_length, slice_length, spliceLength, start,
    Nat.add_sub_cancel_left, Focus.offset]
  omega

theorem Levels.Stands.newL0Content_length {L : Levels} {der v : Bytes} (h : L.Stands der)
    (three : v.length = 3) (x : Bytes) :
    (L.newL0Content der v x).length = L.spine.newLength x.length := by
  have l3 : (L.newL3Content der x).length = _ := level_length (p := L.startEncap) h.encapAt.le _ _
  have l2 : (L.newL2Content der v x).length = _ + _ :=
    List.length_append.trans (congrArg _ (level_length (p := L.afterVersion) h.signedAt.le _ _))
  have l1 : (L.newL1Content der v x).length = _ :=
    level_length (p := L.startContent) h.contentAt.le _ _
  have l0 : (L.newL0Content der v x).length = _ :=
    level_length (p := L.startInfo) h.info.le _ _
  rw [l0, l1, l2, l3, three]
  rfl

theorem start_le_contentEnd (p : Nat) (t : Tlv) :
    p + t.header.length ≤ (childAt p t).contentEnd := by
  have ends : (childAt p t).contentEnd = _ := t.bytes_end p
  omega

theorem Levels.newLength_lt (L : Levels) (inside : L.spine.Contained) {n : Nat}
    (small : n < 2 ^ 32) : L.spine.newLength n < 2 ^ 64 := by
  obtain ⟨in4, in3, in2, in1⟩ := inside
  have room : ∀ (p : Nat) (t : Tlv), (childAt p t).contentEnd < p + t.header.length + 2 ^ 32 := by
    intro p t
    have size := t.form.lt
    have ends : (childAt p t).contentEnd = _ := t.bytes_end p
    omega
  have whole : ∀ (p : Nat) (t : Tlv), (childAt p t).fullStart ≤ (childAt p t).contentEnd :=
    fun p t => Nat.le_add_right _ _
  have after : ∀ p i, p ≤ p + i := Nat.le_add_right
  have n3 := fun n => spliceLength_le (n := n) (after L.startEncap _) (whole _ _) in4 (room _ _)
  have n2 := fun n => spliceLength_le (n := n) (p := L.afterVersion) (after _ _) (whole _ _) in3
    ((room L.signedPos _).trans_le (Nat.add_le_add_right (after L.startSigned _) _))
  have n1 := fun n => spliceLength_le (n := n) (after L.startContent _) (whole _ _) in2 (room _ _)
  have n0 := fun n => spliceLength_le (n := n) (after L.startInfo _) (whole _ _) in1 (room _ _)
  calc L.spine.newLength n ≤ _ := n0 _
    _ ≤ _ := Nat.add_le_add_right (n1 _) _
    _ ≤ _ := Nat.add_le_add_right (Nat.add_le_add_right (Nat.add_le_add_left (n2 _) 3) _) _
    _ ≤ 3 + (n + (2 ^ 32 + 10) + (2 ^ 32 + 10)) + (2 ^ 32 + 10) + (2 ^ 32 + 10) :=
      Nat.add_le_add_right (Nat.add_le_add_right
        (Nat.add_le_add_left (Nat.add_le_add_right (n3 n) _) 3) _) _
    _ < 2 ^ 64 := by omega

theorem Levels.newL0Content_injective {M : Levels} {out x y : Bytes} {v : Tlv}
    (fits : M.Fits out v x) (same : M.newL0Content out v.bytes x = M.newL0Content out v.bytes y) :
    x = y := by
  have l1 := emitTlv_injective fits.l1 (List.append_cancel_left (List.append_cancel_right same))
  have l2 := emitTlv_injective fits.l2 (List.append_cancel_left (List.append_cancel_right l1))
  have l3 := emitTlv_injective fits.l3
    (List.append_cancel_left (List.append_cancel_right (List.append_cancel_left l2)))
  exact emitTlv_injective fits.l4 (List.append_cancel_left (List.append_cancel_right l3))

end Rsigncode
