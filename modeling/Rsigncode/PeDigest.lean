import Rsigncode.PeCalls

/-! What the Authenticode digest covers. The offsets of the skipped fields are
read from the hashed file itself; the first range holds the bytes they come from,
so equal streams have equal offsets. -/
namespace Rsigncode

open FileStore Window Number

def PeInfo.skips (pe : PeInfo) (i : Nat) : Prop :=
  (pe.checksumOffset ≤ i ∧ i < pe.checksumOffset + 4) ∨
    (pe.certTableOffset ≤ i ∧ i < pe.certTableOffset + 8)

instance (pe : PeInfo) (i : Nat) : Decidable (pe.skips i) :=
  inferInstanceAs (Decidable (_ ∨ _))

def paddedData (d : Bytes) (pe : PeInfo) : Bytes := d.take pe.dataEnd ++ zeros (pad8 pe.dataEnd)

namespace Frame

variable {F G : Frame}

theorem headerSize_of_stream {x y : Bytes} (h : F.head ++ x = G.head ++ y) :
    F.headerSize = G.headerSize := by
  have read : ∀ (H : Frame) (z : Bytes), u32At (H.head ++ z) 0x3C = H.headerSize := by
    intro H z
    have header := H.header_ge
    rw [u32At_append_left (by rw [H.head_length]; omega), H.lfanew]
  rw [← read F x, h, read G y]

theorem pe32plus_of_head (h : F.head = G.head) (size : F.headerSize = G.headerSize) :
    F.pe32plus = G.pe32plus := by
  have magic := F.magic
  rw [h, size, G.magic] at magic
  revert magic
  cases F.pe32plus <;> cases G.pe32plus <;> decide

theorem eq_of_stream {x y : Bytes} (h : F.head ++ F.mid ++ x = G.head ++ G.mid ++ y) :
    F.headerSize = G.headerSize ∧ F.pe32plus = G.pe32plus ∧ F.head = G.head ∧ F.mid = G.mid ∧
      x = y := by
  rw [List.append_assoc, List.append_assoc] at h
  have size := headerSize_of_stream h
  obtain ⟨head, rest⟩ := List.append_inj h (by rw [F.head_length, G.head_length, size])
  have plus := pe32plus_of_head head size
  obtain ⟨mid, tail⟩ := List.append_inj rest (by rw [F.mid_length, G.mid_length, plus])
  exact ⟨size, plus, head, mid, tail⟩

theorem file_getElem? {checksum entry checksum' entry' body : Bytes} {i : Nat}
    (hc : checksum.length = 4) (he : entry.length = 8) (hc' : checksum'.length = 4)
    (he' : entry'.length = 8) {sigpos siglen n : Nat}
    (kept : ¬ (F.info sigpos siglen n).skips i) :
    (F.file checksum entry body)[i]? = (F.file checksum' entry' body)[i]? := by
  have order := F.mid_start
  simp only [PeInfo.skips, info] at kept
  by_cases inHead : i < F.checksumOffset
  · have before : i < F.head.length := F.head_length' ▸ inHead
    simpa only [Nat.zero_add] using
      (F.at_head.getElem? before).trans (F.at_head.getElem? before).symm
  · by_cases inMid : i < F.certTableOffset
    · have past : F.checksumOffset + 4 ≤ i := by omega
      obtain ⟨j, rfl⟩ := Nat.exists_eq_add_of_le past
      have before : j < F.mid.length := by omega
      rw [(F.at_mid hc).getElem? before, (F.at_mid hc').getElem? before]
    · have past : F.certTableOffset + 8 ≤ i := by omega
      obtain ⟨j, rfl⟩ := Nat.exists_eq_add_of_le past
      by_cases before : j < body.length
      · rw [(F.at_body hc he).getElem? before, (F.at_body hc' he').getElem? before]
      · rw [List.getElem?_eq_none (by rw [F.file_length hc he]; omega),
          List.getElem?_eq_none (by rw [F.file_length hc' he']; omega)]

theorem eq_of_agree {cf ef bf cg eg bg : Bytes} (hcf : cf.length = 4) (hef : ef.length = 8)
    (hcg : cg.length = 4) (heg : eg.length = 8) (size : F.headerSize = G.headerSize)
    (plus : F.pe32plus = G.pe32plus) (len : bf.length = bg.length) {sigpos siglen n : Nat}
    (agree : ∀ i, i < F.certTableOffset + 8 + bf.length → ¬ (F.info sigpos siglen n).skips i →
      (F.file cf ef bf)[i]? = (G.file cg eg bg)[i]?) :
    F.head = G.head ∧ F.mid = G.mid ∧ bf = bg := by
  have checksumAt : F.checksumOffset = G.checksumOffset := by simp only [checksumOffset, size]
  have tableAt : F.certTableOffset = G.certTableOffset := by
    simp only [certTableOffset, size, plus]
  have order := F.mid_start
  have keeps : ∀ i, (i < F.checksumOffset ∨
      (F.checksumOffset + 4 ≤ i ∧ i < F.certTableOffset) ∨ F.certTableOffset + 8 ≤ i) →
      ¬ (F.info sigpos siglen n).skips i := by
    intro i outside
    simp only [PeInfo.skips, info]
    omega
  refine ⟨?_, ?_, ?_⟩
  · refine F.at_head.eq_of_agree G.at_head (by rw [F.head_length, G.head_length, size])
      fun i hi => agree (0 + i) (by rw [F.head_length'] at hi; omega) (keeps _ ?_)
    rw [F.head_length'] at hi
    omega
  · refine (F.at_mid hcf).eq_of_agree (checksumAt ▸ G.at_mid hcg)
      (by rw [F.mid_length, G.mid_length, plus]) fun i hi => agree _ ?_ (keeps _ ?_) <;> omega
  · refine (F.at_body hcf hef).eq_of_agree (tableAt ▸ G.at_body hcg heg) len
      fun i hi => agree _ ?_ (keeps _ ?_) <;> omega

end Frame

theorem Framed.paddedData_eq {F : Frame} {d : Bytes} {pe : PeInfo} {checksum entry body : Bytes}
    (h : Framed F d pe checksum entry body) :
    paddedData d pe = F.file checksum entry (body ++ zeros (pad8 pe.dataEnd)) := by
  rw [paddedData, h.data, F.file_append]

theorem Framed.digestStream_eq_iff {F G : Frame} {f g : Bytes} {pf pg : PeInfo}
    {cf ef bf cg eg bg : Bytes} (hf : Framed F f pf cf ef bf) (hg : Framed G g pg cg eg bg) :
    digestStream f pf = digestStream g pg ↔
      pf.headerSize = pg.headerSize ∧ pf.pe32plus = pg.pe32plus ∧
      (paddedData f pf).length = (paddedData g pg).length ∧
      ∀ i, i < (paddedData f pf).length → ¬ pf.skips i →
        (paddedData f pf)[i]? = (paddedData g pg)[i]? := by
  have sizeF : pf.headerSize = F.headerSize := congrArg PeInfo.headerSize hf.info
  have sizeG : pg.headerSize = G.headerSize := congrArg PeInfo.headerSize hg.info
  have plusF : pf.pe32plus = F.pe32plus := congrArg PeInfo.pe32plus hf.info
  have plusG : pg.pe32plus = G.pe32plus := congrArg PeInfo.pe32plus hg.info
  have lenF : (F.file cf ef (bf ++ zeros (pad8 pf.dataEnd))).length = _ :=
    F.file_length hf.checksum_length hf.entry_length
  have lenG : (G.file cg eg (bg ++ zeros (pad8 pg.dataEnd))).length = _ :=
    G.file_length hg.checksum_length hg.entry_length
  rw [hf.digestStream_eq, hg.digestStream_eq, hf.paddedData_eq, hg.paddedData_eq, sizeF, sizeG,
    plusF, plusG, lenF, lenG]
  constructor
  · intro same
    obtain ⟨size, plus, head, mid, body⟩ := Frame.eq_of_stream same
    have offset : F.certTableOffset = G.certTableOffset := by
      simp only [Frame.certTableOffset, size, plus]
    refine ⟨size, plus, by rw [offset, body], fun i _ kept => ?_⟩
    rw [hf.info] at kept
    rw [← body, Frame.file_getElem? hf.checksum_length hf.entry_length hg.checksum_length
      hg.entry_length kept]
    simp only [Frame.file, head, mid]
  · rintro ⟨size, plus, len, agree⟩
    have tableAt : F.certTableOffset = G.certTableOffset := by
      simp only [Frame.certTableOffset, size, plus]
    obtain ⟨head, mid, body⟩ := Frame.eq_of_agree hf.checksum_length hf.entry_length
      hg.checksum_length hg.entry_length size plus (by omega)
      fun i inside kept => agree i inside (by rw [hf.info]; exact kept)
    rw [head, mid, body]

theorem Accepts.dataEnd_past {b : Build} {d : Bytes} {pe : PeInfo} (h : Accepts b d pe)
    (small : d.length < 2 ^ 32) (past : pe.sigpos = 0 ∨ pe.certTableOffset + 8 ≤ pe.sigpos) :
    pe.certTableOffset + 8 ≤ pe.dataEnd := by
  have room := h.room
  have fileend := h.fileend
  rw [asU32_of_lt small] at fileend
  simp only [PeInfo.dataEnd]
  split <;> omega

/-- Equal streams mean equal images, outside the two fields. -/
theorem digest_eq_iff (b : Build) (readsF readsG : Reads) {f g : Bytes} {pf pg : PeInfo}
    (smallF : f.length < 2 ^ 32 - 2 ^ 16) (smallG : g.length < 2 ^ 32 - 2 ^ 16)
    (acceptedF : parseBytes b f = .ok pf) (acceptedG : parseBytes b g = .ok pg)
    (pastF : pf.sigpos = 0 ∨ pf.certTableOffset + 8 ≤ pf.sigpos)
    (pastG : pg.sigpos = 0 ∨ pg.certTableOffset + 8 ≤ pg.sigpos) :
    ∃ streamF streamG, digestBytes readsF f pf = .ok streamF ∧
      digestBytes readsG g pg = .ok streamG ∧
      (streamF = streamG ↔
        pf.headerSize = pg.headerSize ∧ pf.pe32plus = pg.pe32plus ∧
        (paddedData f pf).length = (paddedData g pg).length ∧
        ∀ i, i < (paddedData f pf).length → ¬ pf.skips i →
          (paddedData f pf)[i]? = (paddedData g pg)[i]?) := by
  have accF := parseBytes_eq_ok.mp acceptedF
  have accG := parseBytes_eq_ok.mp acceptedG
  obtain ⟨F, cf, ef, bf, framedF⟩ := accF.framed (accF.dataEnd_past (by omega) pastF)
  obtain ⟨G, cg, eg, bg, framedG⟩ := accG.framed (accG.dataEnd_past (by omega) pastG)
  exact ⟨_, _, digestBytes_eq readsF f pf, digestBytes_eq readsG g pg,
    framedF.digestStream_eq_iff framedG⟩

def smallFrame : Frame where
  pe32plus := false
  headerSize := 64
  head := le 2 dosMagic ++ zeros 58 ++ le 4 64 ++ le 4 peSignature ++ zeros 20 ++ le 2 pe32Magic ++
    zeros 62
  mid := zeros 24 ++ le 4 5 ++ zeros 32
  head_length := by simp
  mid_length := by simp [pe32plusOffset]
  header_ge := by decide
  mz := by decide
  lfanew := by decide
  signature := by decide
  magic := by decide
  nrvas := by decide

/-- A file of 240 bytes with this directory entry. -/
def smallPe (sigpos siglen : Nat) : Bytes :=
  smallFrame.file (zeros 4) (directoryEntry sigpos siglen) (zeros 16)

theorem smallPe_length (p l : Nat) : (smallPe p l).length = 240 :=
  smallFrame.file_length (by decide) (directoryEntry_length p l)

theorem smallPe_unsigned (b : Build) : parseBytes b (smallPe 0 0) = .ok (smallFrame.info 0 0 240) :=
  parseBytes_eq_ok.mpr (smallFrame.accepts b (by decide) (by decide) (smallPe_length 0 0)
    (by decide) (by decide) (signatureDirectory_none b 240))

def smallTwin (checksum : UInt8) (last : UInt8) : Bytes :=
  smallFrame.file (checksum :: zeros 3) (directoryEntry 0 0) (zeros 15 ++ [last])

theorem smallTwin_length (checksum last : UInt8) : (smallTwin checksum last).length = 240 :=
  smallFrame.file_length (by simp) (directoryEntry_length 0 0)

theorem smallTwin_unsigned (b : Build) (checksum last : UInt8) :
    parseBytes b (smallTwin checksum last) = .ok (smallFrame.info 0 0 240) :=
  parseBytes_eq_ok.mpr (smallFrame.accepts b (by simp) (by decide) (smallTwin_length checksum last)
    (by decide) (by decide) (signatureDirectory_none b 240))

/-- Another checksum does not show in the stream, another last byte does. -/
theorem digest_eq_iff_small :
    ∃ stream other, stream ≠ other ∧
      digestBytes uncut (smallPe 0 0) (smallFrame.info 0 0 240) = .ok stream ∧
      digestBytes uncut (smallTwin 1 0) (smallFrame.info 0 0 240) = .ok stream ∧
      digestBytes uncut (smallTwin 0 1) (smallFrame.info 0 0 240) = .ok other := by
  have small : (smallPe 0 0).length < 2 ^ 32 - 2 ^ 16 := by rw [smallPe_length]; decide
  have twin : ∀ checksum last, (smallTwin checksum last).length < 2 ^ 32 - 2 ^ 16 :=
    fun checksum last => by rw [smallTwin_length]; decide
  obtain ⟨x, y, left, right, same⟩ := digest_eq_iff .release uncut uncut small (twin 1 0)
    (smallPe_unsigned .release) (smallTwin_unsigned .release 1 0) (.inl rfl) (.inl rfl)
  obtain ⟨x', z, left', other, apart⟩ := digest_eq_iff .release uncut uncut small (twin 0 1)
    (smallPe_unsigned .release) (smallTwin_unsigned .release 0 1) (.inl rfl) (.inl rfl)
  cases left.symm.trans left'
  cases same.mpr ⟨rfl, rfl, by decide +kernel, by decide +kernel⟩
  refine ⟨x, z, fun equal => ?_, left, right, other⟩
  obtain ⟨-, -, -, all⟩ := apart.mp equal
  exact absurd (all 239 (by decide +kernel) (by decide +kernel)) (by decide +kernel)

def shown (d : Bytes) (pe : PeInfo) (i : Nat) : Option UInt8 := if pe.skips i then none else d[i]?

def coveredBytes (d : Bytes) (pe : PeInfo) : Bytes :=
  (List.range pe.sigpos).filterMap (shown d pe)

theorem shown_window {d x : Bytes} {pe : PeInfo} {p : Nat} (h : At d p x)
    (kept : ∀ i, p ≤ i → i < p + x.length → ¬ pe.skips i) :
    (List.range' p x.length).filterMap (shown d pe) = x := by
  induction x generalizing p with
  | nil => rfl
  | cons a x ih =>
    obtain ⟨first, rest⟩ := at_cons.mp h
    rw [List.length_cons] at kept
    have here : shown d pe p = some a := by
      rw [shown, if_neg (kept p (by omega) (by omega)), at_singleton.mp first]
    rw [List.length_cons, List.range'_succ, List.filterMap_cons_some here,
      ih rest fun i low high => kept i (by omega) (by omega)]

theorem shown_gap {d : Bytes} {pe : PeInfo} {p n : Nat}
    (skipped : ∀ i, p ≤ i → i < p + n → pe.skips i) :
    (List.range' p n).filterMap (shown d pe) = [] := by
  rw [List.filterMap_eq_nil_iff]
  intro i inside
  obtain ⟨low, high⟩ := List.mem_range'_1.mp inside
  rw [shown, if_pos (skipped i low high)]

theorem Framed.coveredBytes_eq {F : Frame} {d : Bytes} {pe : PeInfo} {checksum entry body : Bytes}
    (h : Framed F d pe checksum entry body) (signed : 0 < pe.sigpos) :
    coveredBytes d pe = F.head ++ F.mid ++ body := by
  have order := F.mid_start
  have dataEnd := h.dataEnd
  have stop : pe.dataEnd = pe.sigpos := by simp only [PeInfo.dataEnd, if_pos signed]
  have whole : d = F.file checksum entry body ++ d.drop pe.dataEnd := by
    rw [← h.data, List.take_append_drop]
  have head : At d 0 F.head := whole ▸ F.at_head.append_right _
  have mid : At d (F.checksumOffset + 4) F.mid :=
    whole ▸ (F.at_mid h.checksum_length).append_right _
  have rest : At d (F.certTableOffset + 8) body :=
    whole ▸ (F.at_body h.checksum_length h.entry_length).append_right _
  have split : List.range pe.sigpos = List.range' 0 F.head.length ++
      (List.range' F.checksumOffset 4 ++ (List.range' (F.checksumOffset + 4) F.mid.length ++
        (List.range' F.certTableOffset 8 ++
          List.range' (F.certTableOffset + 8) body.length))) := by
    have total : pe.sigpos =
        F.head.length + (4 + (F.mid.length + (8 + body.length))) := by
      rw [F.head_length']
      omega
    rw [total, List.range_eq_range', ← List.range'_append_1, Nat.zero_add, F.head_length',
      ← List.range'_append_1, ← List.range'_append_1, order, ← List.range'_append_1]
  rw [coveredBytes, split]
  simp only [List.filterMap_append]
  rw [shown_window head, shown_gap, shown_window mid, shown_gap, shown_window rest,
    List.nil_append, List.nil_append, List.append_assoc]
  all_goals
    intro i low high
    rw [h.info]
    simp only [PeInfo.skips, Frame.info]
    have := F.head_length'
    omega

theorem Framed.apply_keeps {b : Build} {F : Frame} {d : Bytes} {pe : PeInfo}
    {checksum entry body : Bytes} (accepted : Accepts b d pe)
    (h : Framed F d pe checksum entry body) (signed : 0 < pe.sigpos) (op : Op) (reads : Reads)
    {i : Nat} (below : i < pe.sigpos) (kept : ¬ pe.skips i) :
    (op.apply b reads d).2[i]? = d[i]? := by
  have dataEnd := h.dataEnd
  have stop : pe.dataEnd = pe.sigpos := by simp only [PeInfo.dataEnd, if_pos signed]
  have here : d[i]? = (F.file checksum entry body)[i]? := by
    rw [← h.data, List.getElem?_take_of_lt (by omega)]
  rw [h.info] at kept
  cases op with
  | sign x =>
    obtain ⟨r, checksum', run, len, -⟩ := sign_apply accepted h x reads
    rw [run, here, Frame.signed, List.append_assoc, ← F.file_append,
      List.getElem?_append_left (by rw [F.file_length len (by simp)]; omega)]
    exact Frame.file_getElem? len (by simp) h.checksum_length h.entry_length kept
  | remove =>
    obtain ⟨r, checksum', run, len, -⟩ := remove_apply accepted h signed reads
    rw [run, here]
    exact Frame.file_getElem? len (by simp) h.checksum_length h.entry_length kept

def entryOffset (d : Bytes) : Nat :=
  u32At d 0x3C + 152 + pe32plusOffset (u16At d (u32At d 0x3C + 24) == pe32plusMagic)

theorem Accepts.entryOffset_eq {b : Build} {d : Bytes} {pe : PeInfo} (h : Accepts b d pe) :
    entryOffset d = pe.certTableOffset := by
  have kind : (u16At d (pe.headerSize + 24) == pe32plusMagic) = pe.pe32plus := by
    rw [h.magic]
    cases pe.pe32plus <;> rfl
  rw [entryOffset, h.lfanew, kind, h.certTableOffset]

/-- The reported signature is past the headers, the digest is fed exactly the bytes
below it outside the two fields, and both writers keep the header bytes. -/
structure ClearOfHeaders (b : Build) (d : Bytes) (pe : PeInfo) : Prop where
  past : pe.certTableOffset + 8 ≤ pe.sigpos
  digest : ∀ reads, digestBytes reads d pe = .ok (coveredBytes d pe ++ zeros (pad8 pe.sigpos))
  keeps : ∀ (op : Op) (reads : Reads) (i : Nat), i < pe.certTableOffset + 8 → ¬ pe.skips i →
    (op.apply b reads d).2[i]? = d[i]?

/-- A reported signature is clear of the headers exactly when the directory entry
points past its own end. -/
theorem clearOfHeaders_iff (b : Build) {d : Bytes} {pe : PeInfo} (small : d.length < 2 ^ 32)
    (accepted : parseBytes b d = .ok pe) (signed : 0 < pe.sigpos) :
    ClearOfHeaders b d pe ↔ entryOffset d + 8 ≤ u32At d (entryOffset d) := by
  have acc := parseBytes_eq_ok.mp accepted
  have sigpos : u32At d pe.certTableOffset = pe.sigpos := by
    have dir := signatureDirectory_eq_ok (u32At_lt _ _) (u32At_lt _ _) acc.entry
    omega
  rw [acc.entryOffset_eq, sigpos]
  constructor
  · exact ClearOfHeaders.past
  · intro past
    obtain ⟨F, checksum, entry, body, framed⟩ := acc.framed (acc.dataEnd_past small (.inr past))
    refine ⟨past, fun reads => ?_, fun op reads i below kept => ?_⟩
    · rw [digestBytes_eq, framed.digestStream_eq, framed.coveredBytes_eq signed, PeInfo.dataEnd,
        if_pos signed, List.append_assoc (F.head ++ F.mid)]
    · exact framed.apply_keeps acc signed op reads (by omega) kept

theorem smallPe_signed (b : Build) {p l : Nat} (hp : 0 < p) (hl : 0 < l) (ends : p + l = 240) :
    parseBytes b (smallPe p l) = .ok (smallFrame.info p l 240) := by
  refine parseBytes_eq_ok.mpr (smallFrame.accepts b (by decide) (directoryEntry_length p l)
    (smallPe_length p l) (by decide) (by decide) ?_)
  rw [directoryEntry_low l (by omega), directoryEntry_high p (by omega)]
  exact signatureDirectory_trailing b hp hl ends (by decide)

theorem clearOfHeaders_iff_small :
    ClearOfHeaders .release (smallPe 232 8) (smallFrame.info 232 8 240) ↔
      entryOffset (smallPe 232 8) + 8 ≤ u32At (smallPe 232 8) (entryOffset (smallPe 232 8)) :=
  clearOfHeaders_iff .release (by rw [smallPe_length]; decide)
    (smallPe_signed .release (by decide) (by decide) (by decide)) (by decide)

/-- A directory entry that points at byte 100, inside the headers, is reported as a signature. -/
theorem signature_overlaps_headers :
    ¬ ∀ (b : Build) (d : Bytes) (pe : PeInfo), d.length < 2 ^ 32 → parseBytes b d = .ok pe →
      0 < pe.sigpos → ClearOfHeaders b d pe := by
  intro claim
  have clear := claim .release (smallPe 100 140) (smallFrame.info 100 140 240)
    (by rw [smallPe_length]; decide)
    (smallPe_signed .release (by decide) (by decide) (by decide)) (by decide)
  exact absurd clear.past (by decide)

end Rsigncode
