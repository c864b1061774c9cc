import Rsigncode.PeDigest

/-! Runs of signing and removing calls on one image. Every file of a run holds the
same frame and the same padded body, the core; each call replaces the rest. -/
namespace Rsigncode

open FileStore Window Number

def Op.Allowed (b : Build) (op : Op) (cur : Bytes) : Prop :=
  op = .remove → ∃ pe, parseBytes b cur = .ok pe ∧ 0 < pe.sigpos

/-- The operations so far and the current file. Each call is given the output of the
one before it, however that one ended. -/
inductive Run (b : Build) (served : Reads → Prop) (f : Bytes) : List Op → Bytes → Prop where
  | start : Run b served f [] f
  | step {ops : List Op} {cur : Bytes} (op : Op) (reads : Reads) (run : Run b served f ops cur)
      (serves : served reads) (allowed : op.Allowed b cur)
      (small : (op.apply b reads cur).2.length < 2 ^ 32 - 2 ^ 16) :
      Run b served f (ops ++ [op]) (op.apply b reads cur).2

/-- The file `cur` is a file in the frame `F` whose padded body is `core`. -/
structure Held (b : Build) (F : Frame) (core cur : Bytes) (pe : PeInfo) : Prop where
  accepted : Accepts b cur pe
  framed : ∃ checksum entry body, Framed F cur pe checksum entry body ∧
    core = body ++ zeros (pad8 pe.dataEnd)
  aligned : 0 < pe.sigpos → pad8 pe.dataEnd = 0
  room : F.headerSize + 176 ≤ F.certTableOffset + 8 + core.length

namespace Frame

variable (F : Frame) {checksum core d : Bytes}

theorem signed_aligned (aligned : (F.certTableOffset + 8 + core.length) % 8 = 0) :
    F.signed checksum core d = F.file checksum
      (directoryEntry (F.certTableOffset + 8 + core.length) (certLength d))
      (core ++ certificate d) := by
  rw [signed, pad8_of_mod aligned, zeros_zero, List.append_nil]

theorem signed_padded (body : Bytes) :
    F.signed checksum body d =
      F.signed checksum (body ++ zeros (pad8 (F.certTableOffset + 8 + body.length))) d := by
  have sum := add_pad8 (F.certTableOffset + 8 + body.length)
  conv_rhs => rw [F.signed_aligned (by rw [List.length_append, zeros_length]; omega)]
  rw [signed]

end Frame

section Held
variable {b : Build} {F : Frame} {core cur checksum : Bytes} {pe : PeInfo}

theorem Held.stream (h : Held b F core cur pe) : digestStream cur pe = F.head ++ F.mid ++ core := by
  obtain ⟨checksum, entry, body, framed, rfl⟩ := h.framed
  exact framed.digestStream_eq

theorem Held.core_end (h : Held b F core cur pe) :
    F.certTableOffset + 8 + core.length = pe.dataEnd + pad8 pe.dataEnd := by
  obtain ⟨checksum, entry, body, framed, rfl⟩ := h.framed
  have dataEnd := framed.dataEnd
  rw [List.length_append, zeros_length]
  omega

theorem Held.core_aligned (h : Held b F core cur pe) :
    (F.certTableOffset + 8 + core.length) % 8 = 0 := by
  rw [h.core_end, add_pad8]

theorem held_signed (b : Build) (hc : checksum.length = 4) (d : Bytes)
    (aligned : (F.certTableOffset + 8 + core.length) % 8 = 0)
    (room : F.headerSize + 176 ≤ F.certTableOffset + 8 + core.length)
    (small : (F.signed checksum core d).length < 2 ^ 32) :
    Held b F core (F.signed checksum core d)
      (F.info (F.certTableOffset + 8 + core.length) (certLength d)
        (F.signed checksum core d).length) := by
  have len : (F.signed checksum core d).length = _ := F.signed_length hc
  rw [pad8_of_mod aligned] at len
  have some : 0 < certLength d := by
    simp only [certLength]
    omega
  have sigpos : 0 < F.certTableOffset + 8 + core.length := by omega
  have stop : (F.info (F.certTableOffset + 8 + core.length) (certLength d)
      (F.signed checksum core d).length).dataEnd = F.certTableOffset + 8 + core.length := by
    rw [PeInfo.dataEnd]
    exact if_pos sigpos
  refine ⟨?_, ⟨checksum, directoryEntry (F.certTableOffset + 8 + core.length) (certLength d), core,
    ⟨?_, hc, by simp, rfl, stop⟩, ?_⟩, fun _ => by rw [stop, pad8_of_mod aligned], room⟩
  · rw [F.signed_aligned aligned] at len small ⊢
    refine F.accepts b hc (by simp) rfl small (by omega) ?_
    rw [directoryEntry_low _ (by omega), directoryEntry_high _ (by omega)]
    exact signatureDirectory_trailing b sigpos some (by omega) small
  · rw [stop, F.signed_aligned aligned, F.file_take hc (by simp), List.take_left]
  · rw [stop, pad8_of_mod aligned, zeros_zero, List.append_nil]

theorem held_unsigned (b : Build) (hc : checksum.length = 4)
    (aligned : (F.certTableOffset + 8 + core.length) % 8 = 0)
    (room : F.headerSize + 176 ≤ F.certTableOffset + 8 + core.length)
    (small : (F.file checksum (zeros 8) core).length < 2 ^ 32) :
    Held b F core (F.file checksum (zeros 8) core)
      (F.info 0 0 (F.file checksum (zeros 8) core).length) := by
  have len : (F.file checksum (zeros 8) core).length = _ := F.file_length hc (zeros_length 8)
  refine ⟨F.accepts b hc (by simp) rfl small (by omega) (signatureDirectory_none b _),
    ⟨checksum, zeros 8, core, ⟨?_, hc, by simp, rfl, len⟩, ?_⟩, fun signed => absurd signed (by
      simp only [Frame.info]; omega), room⟩
  · exact List.take_length
  · have dataEnd : (F.info 0 0 (F.file checksum (zeros 8) core).length).dataEnd =
        F.certTableOffset + 8 + core.length := len
    rw [dataEnd, pad8_of_mod aligned, zeros_zero, List.append_nil]

theorem Held.sign (h : Held b F core cur pe) (d : Bytes) (reads : Reads) :
    ∃ r checksum, (Op.sign d).apply b reads cur = (r, F.signed checksum core d) ∧
      checksum.length = 4 ∧
      ((F.signed checksum core d).length < 2 ^ 32 - 2 ^ 16 → r = .ok ()) ∧
      ((Op.sign d).KeepsPairs b reads cur →
        (r, checksum) = storedChecksum (checksumOf b F.checksumOffset
          (F.signed (zeros 4) core d))) := by
  obtain ⟨checksum, entry, body, framed, rfl⟩ := h.framed
  have core : ∀ c, F.signed c body d = F.signed c (body ++ zeros (pad8 pe.dataEnd)) d := by
    intro c
    rw [framed.dataEnd]
    exact F.signed_padded body
  have applied := sign_apply h.accepted framed d reads
  simp only [core] at applied
  exact applied

theorem Held.remove (h : Held b F core cur pe) (signed : 0 < pe.sigpos) (reads : Reads) :
    ∃ r checksum, Op.remove.apply b reads cur = (r, F.file checksum (zeros 8) core) ∧
      checksum.length = 4 ∧
      ((F.file checksum (zeros 8) core).length < 2 ^ 32 - 2 ^ 16 → r = .ok ()) ∧
      (Op.remove.KeepsPairs b reads cur →
        (r, checksum) = storedChecksum (checksumOf b F.checksumOffset
          (F.file (zeros 4) (zeros 8) core))) := by
  obtain ⟨checksum, entry, body, framed, rfl⟩ := h.framed
  rw [h.aligned signed, zeros_zero, List.append_nil]
  exact remove_apply h.accepted framed signed reads

end Held

def Op.Reports (n : Nat) (pe : PeInfo) : Op → Prop
  | .sign _ => 0 < pe.sigpos ∧ pe.sigpos + pe.siglen = n
  | .remove => pe.sigpos = 0 ∧ pe.siglen = 0

theorem Held.step {b : Build} {F : Frame} {core cur : Bytes} {pe : PeInfo}
    (h : Held b F core cur pe) {op : Op} {reads : Reads} (allowed : op.Allowed b cur)
    (small : (op.apply b reads cur).2.length < 2 ^ 32 - 2 ^ 16) :
    (op.apply b reads cur).1 = .ok () ∧
      ∃ pe', Held b F core (op.apply b reads cur).2 pe' ∧
        op.Reports (op.apply b reads cur).2.length pe' := by
  have aligned := h.core_aligned
  cases op with
  | sign d =>
    obtain ⟨r, checksum, run, len, room, -⟩ := h.sign d reads
    rw [run] at small ⊢
    dsimp only at small ⊢
    have total : (F.signed checksum core d).length = _ := F.signed_length len
    rw [pad8_of_mod aligned] at total
    refine ⟨room small, _, held_signed b len d aligned h.room (by omega), ?_⟩
    simp only [Op.Reports, Frame.info, total]
    omega
  | remove =>
    obtain ⟨pe', accepted, signed⟩ := allowed rfl
    have same := (parseBytes_eq_ok.mpr h.accepted).symm.trans accepted
    cases same
    obtain ⟨r, checksum, run, len, room, -⟩ := h.remove signed reads
    rw [run] at small ⊢
    dsimp only at small ⊢
    exact ⟨room small, _, held_unsigned b len aligned h.room (by omega), rfl, rfl⟩

theorem Accepts.held {b : Build} {f : Bytes} {pf : PeInfo} (h : Accepts b f pf)
    (unsigned : pf.sigpos = 0) (room : pf.headerSize + 176 ≤ pf.fileend) :
    ∃ F core, Held b F core f pf := by
  have plus := pe32plusOffset_le pf.pe32plus
  have table := h.certTableOffset
  have stop := PeInfo.dataEnd_unsigned unsigned
  obtain ⟨F, checksum, entry, body, framed⟩ := h.framed (by omega)
  have size : pf.headerSize = F.headerSize := congrArg PeInfo.headerSize framed.info
  refine ⟨F, _, h, ⟨checksum, entry, body, framed, rfl⟩, by omega, ?_⟩
  rw [List.length_append, zeros_length, ← size]
  have dataEnd := framed.dataEnd
  omega

theorem Accepts.room_of_small {b : Build} {f : Bytes} {pf : PeInfo} (h : Accepts b f pf)
    (small : pf.fileend < 2 ^ 32 - 2 ^ 16) : pf.headerSize + 176 ≤ pf.fileend := by
  obtain ⟨n, add, fits⟩ := h.needed
  have bound := h.header_le
  rw [add_of_lt (by omega)] at add
  cases add
  exact fits

/-- A file that signing leaves small has room for its headers, however long it was itself. -/
theorem room_of_call {b : Build} {f : Bytes} {pf : PeInfo} (h : Accepts b f pf)
    (unsigned : pf.sigpos = 0) {op : Op} {reads : Reads} (allowed : op.Allowed b f)
    (small : (op.apply b reads f).2.length < 2 ^ 32 - 2 ^ 16) :
    pf.headerSize + 176 ≤ pf.fileend := by
  cases op with
  | remove =>
    obtain ⟨pe, accepted, signed⟩ := allowed rfl
    cases (parseBytes_eq_ok.mpr h).symm.trans accepted
    omega
  | sign d =>
    have grows := writeSignedPeTo_grows b input output pf d (s := workspace f reads)
      input_ne_output (workspace_output f reads)
    have copied := h.dataEnd_le
    have stop := PeInfo.dataEnd_unsigned unsigned
    rw [workspace_input, List.length_take, stop] at grows
    rw [Op.apply, Op.program, Prog.bind_ok (parse_workspace reads h)] at small
    exact h.room_of_small (by dsimp only at small; omega)

namespace Run

variable {b : Build} {served : Reads → Prop} {f cur : Bytes} {pf : PeInfo} {ops : List Op}

theorem room (run : Run b served f ops cur) (accepted : Accepts b f pf)
    (unsigned : pf.sigpos = 0) {op : Op} {reads : Reads} (allowed : op.Allowed b cur)
    (small : (op.apply b reads cur).2.length < 2 ^ 32 - 2 ^ 16) :
    pf.headerSize + 176 ≤ pf.fileend := by
  induction run generalizing op reads with
  | start => exact room_of_call accepted unsigned allowed small
  | step op' reads' run serves allowed' small' ih => exact ih allowed' small'

theorem held {F : Frame} {core : Bytes} (run : Run b served f ops cur) (h : Held b F core f pf) :
    ∃ pe, Held b F core cur pe := by
  induction run with
  | start => exact ⟨pf, h⟩
  | step op reads run serves allowed small ih =>
    obtain ⟨pe, now⟩ := ih
    obtain ⟨-, pe', next, -⟩ := now.step allowed small
    exact ⟨pe', next⟩

end Run

theorem Held.layout {b : Build} {F : Frame} {core cur : Bytes} {pe : PeInfo}
    (h : Held b F core cur pe) :
    pe.pe32plus = F.pe32plus ∧ pe.headerSize = F.headerSize ∧
      pe.checksumOffset = F.checksumOffset ∧ pe.certTableOffset = F.certTableOffset := by
  obtain ⟨checksum, entry, body, framed, -⟩ := h.framed
  rw [framed.info]
  exact ⟨rfl, rfl, rfl, rfl⟩

/-- Every call of a run succeeds, and keeps the layout and the digest stream of the
first file; the directory entry reports the last operation. -/
theorem run_keeps_image {b : Build} {served : Reads → Prop} {f cur : Bytes} {pf : PeInfo}
    {ops : List Op} {op : Op} {reads : Reads} (accepted : parseBytes b f = .ok pf)
    (unsigned : pf.sigpos = 0) (run : Run b served f ops cur) (allowed : op.Allowed b cur)
    (small : (op.apply b reads cur).2.length < 2 ^ 32 - 2 ^ 16) :
    (op.apply b reads cur).1 = .ok () ∧
      ∃ pe stream, parseBytes b (op.apply b reads cur).2 = .ok pe ∧
        pe.pe32plus = pf.pe32plus ∧ pe.headerSize = pf.headerSize ∧
        pe.checksumOffset = pf.checksumOffset ∧ pe.certTableOffset = pf.certTableOffset ∧
        op.Reports (op.apply b reads cur).2.length pe ∧
        (∀ reads', digestBytes reads' f pf = .ok stream) ∧
        (∀ reads', digestBytes reads' (op.apply b reads cur).2 pe = .ok stream) := by
  have first := parseBytes_eq_ok.mp accepted
  obtain ⟨F, core, start⟩ := first.held unsigned (run.room first unsigned allowed small)
  obtain ⟨now, held⟩ := run.held start
  obtain ⟨done, pe, next, reports⟩ := held.step allowed small
  obtain ⟨plus, size, cso, cto⟩ := next.layout
  obtain ⟨plus', size', cso', cto'⟩ := start.layout
  refine ⟨done, pe, digestStream f pf, parseBytes_eq_ok.mpr next.accepted, plus.trans plus'.symm,
    size.trans size'.symm, cso.trans cso'.symm, cto.trans cto'.symm, reports,
    fun reads' => digestBytes_eq reads' f pf, fun reads' => ?_⟩
  rw [digestBytes_eq, next.stream, start.stream]

theorem smallPe_held :
    Held .release smallFrame (zeros 16) (smallPe 0 0) (smallFrame.info 0 0 240) := by
  have len : (smallFrame.file (zeros 4) (zeros 8) (zeros 16)).length = 240 := smallPe_length 0 0
  have held : Held .release smallFrame (zeros 16)
      (smallFrame.file (zeros 4) (zeros 8) (zeros 16)) _ :=
    held_unsigned .release (by decide) (by decide) (by decide) (by rw [len]; decide)
  rwa [len] at held

theorem Held.sign_length {b : Build} {F : Frame} {core cur : Bytes} {pe : PeInfo}
    (h : Held b F core cur pe) (d : Bytes) (reads : Reads) :
    ((Op.sign d).apply b reads cur).2.length =
      F.certTableOffset + 8 + core.length + certLength d := by
  obtain ⟨r, checksum, run, len, -⟩ := h.sign d reads
  rw [run]
  dsimp only
  rw [F.signed_length len, pad8_of_mod h.core_aligned]
  omega

theorem run_keeps_image_small :
    (Op.remove.apply .release uncut ((Op.sign []).apply .release uncut (smallPe 0 0)).2).1 =
      .ok () := by
  have unsigned := smallPe_unsigned .release
  have short : ((Op.sign []).apply .release uncut (smallPe 0 0)).2.length < 2 ^ 32 - 2 ^ 16 := by
    rw [smallPe_held.sign_length]
    decide
  have signs : (Op.sign []).Allowed .release (smallPe 0 0) := fun h => nomatch h
  have run : Run .release (· = uncut) (smallPe 0 0) [.sign []] _ :=
    .step (.sign []) uncut .start rfl signs short
  obtain ⟨-, pe, held, reports⟩ := smallPe_held.step signs short
  have removes : Op.remove.Allowed .release ((Op.sign []).apply .release uncut (smallPe 0 0)).2 :=
    fun _ => ⟨pe, parseBytes_eq_ok.mpr held.accepted, reports.1⟩
  have removed : (Op.remove.apply .release uncut
      ((Op.sign []).apply .release uncut (smallPe 0 0)).2).2.length < 2 ^ 32 - 2 ^ 16 := by
    obtain ⟨r, checksum, out, len, -⟩ := held.remove reports.1 uncut
    rw [out]
    dsimp only
    rw [smallFrame.file_length len (by simp)]
    decide
  exact (run_keeps_image unsigned rfl run removes removed).1

theorem Frame.checksumOf_ok (F : Frame) (b : Build) {checksum entry body : Bytes}
    (hc : checksum.length = 4) (he : entry.length = 8)
    (small : (F.file checksum entry body).length < 2 ^ 32 - 2 ^ 16) :
    ∃ v, checksumOf b F.checksumOffset (F.file checksum entry body) = .ok v := by
  have low := asU32_le F.checksumOffset
  have len : (F.file checksum entry body).length = _ := F.file_length hc he
  refine Rsigncode.checksumOf_ok b ?_ small
  simp only [Frame.certTableOffset, Frame.checksumOffset] at *
  omega

def SameButChecksum (cso : Nat) (x y : Bytes) : Prop :=
  overwrite x cso (zeros 4) = overwrite y cso (zeros 4)

theorem Frame.sameButChecksum (F : Frame) {checksum checksum' : Bytes} (entry body : Bytes)
    (hc : checksum.length = 4) (hc' : checksum'.length = 4) :
    SameButChecksum F.checksumOffset (F.file checksum entry body)
      (F.file checksum' entry body) := by
  rw [SameButChecksum, F.overwrite_checksum hc (zeros_length 4),
    F.overwrite_checksum hc' (zeros_length 4)]

section Held
variable {b : Build} {F : Frame} {core cur cur' : Bytes} {pe pe' : PeInfo}

theorem Held.remove_pairs (h : Held b F core cur pe) (signed : 0 < pe.sigpos) {reads : Reads}
    (pairs : Op.remove.KeepsPairs b reads cur)
    (small : (Op.remove.apply b reads cur).2.length < 2 ^ 32 - 2 ^ 16) :
    ∃ v, checksumOf b F.checksumOffset (F.file (zeros 4) (zeros 8) core) = .ok v ∧
      (Op.remove.apply b reads cur).2 = F.file (le 4 v) (zeros 8) core := by
  obtain ⟨r, checksum, run, len, -, determined⟩ := h.remove signed reads
  rw [run] at small ⊢
  dsimp only at small ⊢
  rw [F.file_length len (by simp)] at small
  have len₀ : (zeros 4 : Bytes).length = 4 := by simp
  have lenE : (zeros 8 : Bytes).length = 8 := by simp
  rw [← F.file_length len₀ lenE] at small
  obtain ⟨v, hv⟩ := F.checksumOf_ok b len₀ lenE small
  exact ⟨v, hv, by rw [(storedChecksum_ok (determined pairs) hv).2]⟩

theorem Held.sign_eq (h : Held b F core cur pe) (h' : Held b F core cur' pe') {d d' : Bytes}
    (same : ∀ checksum, F.signed checksum core d = F.signed checksum core d')
    {reads reads' : Reads} (pairs : (Op.sign d).KeepsPairs b reads cur)
    (pairs' : (Op.sign d').KeepsPairs b reads' cur') :
    (Op.sign d).apply b reads cur = (Op.sign d').apply b reads' cur' := by
  obtain ⟨r, checksum, run, -, -, determined⟩ := h.sign d reads
  obtain ⟨r', checksum', run', -, -, determined'⟩ := h'.sign d' reads'
  have stored := (determined pairs).trans (same (zeros 4) ▸ (determined' pairs').symm)
  cases stored
  rw [run, run', same]

theorem Held.remove_eq (h : Held b F core cur pe) (h' : Held b F core cur' pe')
    (signed : 0 < pe.sigpos) (signed' : 0 < pe'.sigpos) {reads reads' : Reads}
    (pairs : Op.remove.KeepsPairs b reads cur) (pairs' : Op.remove.KeepsPairs b reads' cur') :
    Op.remove.apply b reads cur = Op.remove.apply b reads' cur' := by
  obtain ⟨r, checksum, run, -, -, determined⟩ := h.remove signed reads
  obtain ⟨r', checksum', run', -, -, determined'⟩ := h'.remove signed' reads'
  have stored := (determined pairs).trans (determined' pairs').symm
  cases stored
  rw [run, run']

theorem Held.sign_same (h : Held b F core cur pe) (h' : Held b F core cur' pe') {d d' : Bytes}
    (same : ∀ checksum, F.signed checksum core d = F.signed checksum core d')
    (reads reads' : Reads) : SameButChecksum F.checksumOffset
      ((Op.sign d).apply b reads cur).2 ((Op.sign d').apply b reads' cur').2 := by
  obtain ⟨r, checksum, run, len, -⟩ := h.sign d reads
  obtain ⟨r', checksum', run', len', -⟩ := h'.sign d' reads'
  rw [run, run', same]
  exact F.sameButChecksum _ _ len len'

theorem Held.remove_same (h : Held b F core cur pe) (h' : Held b F core cur' pe')
    (signed : 0 < pe.sigpos) (signed' : 0 < pe'.sigpos) (reads reads' : Reads) :
    SameButChecksum F.checksumOffset
      (Op.remove.apply b reads cur).2 (Op.remove.apply b reads' cur').2 := by
  obtain ⟨r, checksum, run, len, -⟩ := h.remove signed reads
  obtain ⟨r', checksum', run', len', -⟩ := h'.remove signed' reads'
  rw [run, run']
  exact F.sameButChecksum _ _ len len'

end Held

def unsignedChecksum (b : Build) (reads : Reads) (f : Bytes) (pe : PeInfo) : Res Nat :=
  ((peCalcChecksum b input pe.checksumOffset).run (workspace
    (overwrite (overwrite f pe.checksumOffset (zeros 4)) pe.certTableOffset (zeros 8)) reads)).1

theorem Held.unsigned_file {b : Build} {F : Frame} {core f : Bytes} {pf : PeInfo}
    (h : Held b F core f pf) (unsigned : pf.sigpos = 0) (small : f.length < 2 ^ 32)
    (whole : f.length % 8 = 0)
    (noEntry : slice f pf.certTableOffset (pf.certTableOffset + 8) = zeros 8) :
    ∃ checksum, checksum.length = 4 ∧ f = F.file checksum (zeros 8) core := by
  obtain ⟨checksum, entry, body, framed, rfl⟩ := h.framed
  have stop : pf.dataEnd = f.length := by
    rw [PeInfo.dataEnd, if_neg (by omega), h.accepted.fileend, asU32_of_lt small]
  have data := framed.data
  rw [stop, List.take_length] at data
  have entryAt : At f F.certTableOffset entry := data ▸ F.at_entry framed.checksum_length
  rw [framed.certTableOffset, entryAt.slice_eq (by rw [framed.entry_length])] at noEntry
  refine ⟨checksum, framed.checksum_length, ?_⟩
  rw [stop, pad8_of_mod whole, zeros_zero, List.append_nil, ← noEntry, ← data]

theorem Held.unsigned_eq {b : Build} {F : Frame} {core f : Bytes} {pf : PeInfo} {v : Nat}
    {reads : Reads} {checksum : Bytes} (h : Held b F core f pf) (len : checksum.length = 4)
    (file : f = F.file checksum (zeros 8) core) (pairs : WholePairs reads f.length)
    (stored : unsignedChecksum b reads f pf = .ok (u32At f pf.checksumOffset))
    (hv : checksumOf b F.checksumOffset (F.file (zeros 4) (zeros 8) core) = .ok v) :
    F.file (le 4 v) (zeros 8) core = f := by
  obtain ⟨-, -, cso, cto⟩ := h.layout
  have cleared : overwrite (overwrite f F.checksumOffset (zeros 4)) F.certTableOffset (zeros 8) =
      F.file (zeros 4) (zeros 8) core := by
    rw [file, F.overwrite_checksum len (by simp), F.overwrite_entry (by simp) (by simp) (by simp)]
  have size : (F.file (zeros 4) (zeros 8) core).length = f.length := by
    rw [file, F.file_length (by simp) (by simp), F.file_length len (by simp)]
  have sum := peCalcChecksum_pairs b input F.checksumOffset
    (workspace (F.file (zeros 4) (zeros 8) core) reads) (by rw [workspace_input, size]; exact pairs)
  have checksumAt : At f F.checksumOffset checksum := file ▸ F.at_checksum
  rw [unsignedChecksum, cso, cto, cleared, sum, workspace_input, hv, u32At,
    checksumAt.slice_eq (by rw [len])] at stored
  cases stored
  rw [← len, le_ofLe, file]

/-- The last operation decides the file, up to the checksum; where no pair is torn, whole.
A removed signature leaves no trace of itself. -/
theorem last_operation_wins {b : Build} {served : Reads → Prop} {f cur : Bytes} {pf : PeInfo}
    {ops : List Op} {op : Op} {reads : Reads} (accepted : parseBytes b f = .ok pf)
    (unsigned : pf.sigpos = 0) (small : f.length < 2 ^ 32 - 2 ^ 16) (run : Run b served f ops cur)
    (allowed : op.Allowed b cur) (short : (op.apply b reads cur).2.length < 2 ^ 32 - 2 ^ 16) :
    (∀ d reads', op = .sign d →
      SameButChecksum pf.checksumOffset (op.apply b reads cur).2 (op.apply b reads' f).2 ∧
      (op.KeepsPairs b reads cur → op.KeepsPairs b reads' f →
        (op.apply b reads cur).2 = (op.apply b reads' f).2)) ∧
    (op = .remove →
      (∀ d once reads' reads'', once = ((Op.sign d).apply b reads' f).2 →
        once.length < 2 ^ 32 - 2 ^ 16 →
        SameButChecksum pf.checksumOffset (op.apply b reads cur).2 (op.apply b reads'' once).2 ∧
        (op.KeepsPairs b reads cur → op.KeepsPairs b reads'' once →
          (op.apply b reads cur).2 = (op.apply b reads'' once).2)) ∧
      (f.length % 8 = 0 → slice f pf.certTableOffset (pf.certTableOffset + 8) = zeros 8 →
        SameButChecksum pf.checksumOffset (op.apply b reads cur).2 f ∧
        ∀ reads', op.KeepsPairs b reads cur → WholePairs reads' f.length →
          unsignedChecksum b reads' f pf = .ok (u32At f pf.checksumOffset) →
          (op.apply b reads cur).2 = f)) := by
  have first := parseBytes_eq_ok.mp accepted
  have bound := first.dataEnd_le
  obtain ⟨F, core, start⟩ := first.held unsigned (first.room_of_small (by omega))
  obtain ⟨now, held⟩ := run.held start
  obtain ⟨-, -, cso, -⟩ := start.layout
  rw [cso]
  constructor
  · rintro d reads' rfl
    exact ⟨held.sign_same start (fun _ => rfl) reads reads', fun pairs pairs' =>
      congrArg Prod.snd (held.sign_eq start (fun _ => rfl) pairs pairs')⟩
  · rintro rfl
    obtain ⟨pe, accepted', signed⟩ := allowed rfl
    cases (parseBytes_eq_ok.mpr held.accepted).symm.trans accepted'
    refine ⟨?_, fun whole noEntry => ?_⟩
    · rintro d once reads' reads'' rfl fits
      have signs : (Op.sign d).Allowed b f := by
        intro same
        cases same
      obtain ⟨-, pe, next, reports⟩ := start.step signs fits
      exact ⟨held.remove_same next signed reports.1 reads reads'', fun pairs pairs' =>
        congrArg Prod.snd (held.remove_eq next signed reports.1 pairs pairs')⟩
    · obtain ⟨checksum, len, file⟩ := start.unsigned_file unsigned (by omega) whole noEntry
      constructor
      · obtain ⟨r, checksum', out, len', -⟩ := held.remove signed reads
        rw [out, file]
        exact F.sameButChecksum _ _ len' len
      · intro reads' pairs pairs' stored
        obtain ⟨v, hv, out⟩ := held.remove_pairs signed pairs short
        rw [out, start.unsigned_eq len file pairs' (cso ▸ stored) hv]

def tornReads : Reads := fun i => if i = 1 then some 0 else none

def pairReads : Reads := fun i => if i = 1 then some 1 else none

/-- A history read in torn pairs does not show once the last reads keep theirs. -/
theorem last_operation_wins_small :
    ((Op.sign []).apply .release pairReads
        ((Op.sign [1]).apply .release tornReads (smallPe 0 0)).2).2 =
      ((Op.sign []).apply .release uncut (smallPe 0 0)).2 := by
  have unsigned := smallPe_unsigned .release
  have short : ((Op.sign [1]).apply .release tornReads (smallPe 0 0)).2.length <
      2 ^ 32 - 2 ^ 16 := by
    rw [smallPe_held.sign_length]
    decide
  have signs : ∀ d cur, (Op.sign d).Allowed .release cur := by
    intro d cur same
    cases same
  obtain ⟨-, pe, held, reports⟩ := smallPe_held.step (signs [1] _) short
  have run : Run .release (fun _ => True) (smallPe 0 0) [.sign [1]] _ :=
    .step (.sign [1]) tornReads .start trivial (signs _ _) short
  have stop : pe.dataEnd = 240 := by
    have ends := held.core_end
    rw [held.aligned reports.1] at ends
    exact ends.symm
  have pairs : (Op.sign []).KeepsPairs .release pairReads
      ((Op.sign [1]).apply .release tornReads (smallPe 0 0)).2 := by
    intro now accepted
    cases (parseBytes_eq_ok.mpr held.accepted).symm.trans accepted
    rw [Op.written, stop]
    decide +kernel
  exact ((last_operation_wins unsigned rfl (by rw [smallPe_length]; decide) run (signs [] _)
    (by rw [held.sign_length]; decide)).1 [] uncut rfl).2 pairs (keepsPairs_uncut _ _ _)

/-- One file, signed once with one blob under two ways of reading, comes out in two ways. -/
theorem torn_pair_shows : ¬ ∀ (b : Build) (f cur : Bytes) (pf : PeInfo) (ops : List Op) (d : Bytes)
    (reads : Reads), parseBytes b f = .ok pf → pf.sigpos = 0 → f.length < 2 ^ 32 - 2 ^ 16 →
    Run b (fun _ => True) f ops cur → ops.getLast? = some (.sign d) →
    cur = ((Op.sign d).apply b reads f).2 := by
  intro claim
  have short : ((Op.sign []).apply .release tornReads (smallPe 0 0)).2.length <
      2 ^ 32 - 2 ^ 16 := by
    rw [smallPe_held.sign_length]
    decide
  have signs : (Op.sign []).Allowed .release (smallPe 0 0) := by
    intro same
    cases same
  have same := claim .release (smallPe 0 0) _ _ [.sign []] [] uncut (smallPe_unsigned .release) rfl
    (by rw [smallPe_length]; decide) (.step (.sign []) tornReads .start trivial signs short) rfl
  exact absurd same (by decide +kernel)

end Rsigncode
