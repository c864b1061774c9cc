import Rsigncode.PeWrite

/-! The PE operations as the command line calls them: one input with given
contents, one empty output, and the bytes that come out. -/
namespace Rsigncode

open FileStore Window Number

def input : File := ⟨"in", 0⟩
def output : File := ⟨"out", 0⟩

theorem input_ne_output : input.path ≠ output.path := by decide

def workspace (cur : Bytes) (reads : Reads) : Store where
  files p := if p = input.path then some cur else if p = output.path then some [] else none
  reads := reads

theorem workspace_input (cur : Bytes) (reads : Reads) :
    (workspace cur reads).data input.path = cur := by
  simp [workspace, Store.data]

theorem workspace_output (cur : Bytes) (reads : Reads) :
    (workspace cur reads).data output.path = [] := by
  simp [workspace, Store.data, input_ne_output.symm]

def parseBytes (b : Build) (cur : Bytes) : Res PeInfo :=
  ((parsePe b input).run (workspace cur uncut)).1

def digestBytes (reads : Reads) (cur : Bytes) (pe : PeInfo) : Res Bytes :=
  ((authenticodeDigest input pe []).run (workspace cur reads)).1

def extractBytes (b : Build) (rounds : Nat) (cur : Bytes) (pe : PeInfo) : Res (Option Bytes) :=
  ((extractSignature b rounds input pe).run (workspace cur uncut)).1

inductive Op where
  | sign (pkcs7Der : Bytes)
  | remove

def Op.program (b : Build) (op : Op) : Proc Unit := do
  let pe ← parsePe b input
  match op with
  | .sign pkcs7Der => writeSignedPeTo b input output pe pkcs7Der
  | .remove => writeUnsignedPeTo b input output pe

def Op.apply (b : Build) (op : Op) (reads : Reads) (cur : Bytes) : Res Unit × Bytes :=
  let r := (op.program b).run (workspace cur reads)
  (r.1, r.2.data output.path)

theorem parse_workspace {b : Build} {cur : Bytes} {pe : PeInfo} (reads : Reads)
    (h : Accepts b cur pe) :
    (parsePe b input).run (workspace cur reads) = (.ok pe, workspace cur reads) :=
  parsePe_eq_ok.mpr ⟨rfl, by rwa [workspace_input]⟩

theorem parseBytes_eq_ok {b : Build} {cur : Bytes} {pe : PeInfo} :
    parseBytes b cur = .ok pe ↔ Accepts b cur pe := by
  constructor
  · intro h
    have run : (parsePe b input).run (workspace cur uncut) =
        (.ok pe, ((parsePe b input).run (workspace cur uncut)).2) := Prod.ext h rfl
    simpa only [workspace_input] using (parsePe_eq_ok.mp run).2
  · intro h
    rw [parseBytes, parse_workspace uncut h]

def digestStream (d : Bytes) (pe : PeInfo) : Bytes :=
  slice d 0 pe.checksumOffset ++ slice d (pe.checksumOffset + 4) pe.certTableOffset ++
    slice d (pe.certTableOffset + 8) pe.dataEnd ++ zeros (pad8 pe.dataEnd)

theorem authenticodeDigest_run (f : File) (pe : PeInfo) (hasher : Hasher) (s : Store) :
    ∃ t, (authenticodeDigest f pe hasher).run s =
        (.ok (hasher ++ digestStream (s.data f.path) pe), t) ∧ SameFiles s t := by
  obtain ⟨t₁, run₁, same₁⟩ := hashRange_run f hasher 0 pe.checksumOffset s
  obtain ⟨t₂, run₂, same₂⟩ := hashRange_run f
    (hasher ++ slice (s.data f.path) 0 pe.checksumOffset) (pe.checksumOffset + 4)
    pe.certTableOffset t₁
  rw [data_congr same₁] at run₂
  obtain ⟨t₃, run₃, same₃⟩ := hashRange_run f
    (hasher ++ slice (s.data f.path) 0 pe.checksumOffset ++
      slice (s.data f.path) (pe.checksumOffset + 4) pe.certTableOffset)
    (pe.certTableOffset + 8) pe.dataEnd t₂
  have same := SameFiles.trans s t₁ t₂ same₁ same₂
  rw [data_congr same] at run₃
  refine ⟨t₃, ?_, SameFiles.trans s t₂ t₃ same same₃⟩
  rw [authenticodeDigest, Prog.bind_ok run₁, Prog.bind_ok run₂]
  refine (Prog.bind_ok run₃).trans ?_
  have padded : ∀ h : Hasher, (if (8 - pe.dataEnd % 8) % 8 > 0 then
      h.update (zeros ((8 - pe.dataEnd % 8) % 8)) else h) = h ++ zeros (pad8 pe.dataEnd) := by
    intro h
    by_cases some : (8 - pe.dataEnd % 8) % 8 > 0
    · rw [if_pos some]
      rfl
    · have none : pad8 pe.dataEnd = 0 := Nat.eq_zero_of_not_pos some
      rw [if_neg some, none, zeros_zero, List.append_nil]
  rw [Prog.pure_run, digestStream]
  simp only [← List.append_assoc]
  rw [← padded]
  rfl

theorem digestBytes_eq (reads : Reads) (d : Bytes) (pe : PeInfo) :
    digestBytes reads d pe = .ok (digestStream d pe) := by
  obtain ⟨t, run, _⟩ := authenticodeDigest_run input pe [] (workspace d reads)
  rw [digestBytes, run, workspace_input, List.nil_append]

theorem Accepts.dataEnd_le {b : Build} {d : Bytes} {pe : PeInfo} (h : Accepts b d pe) :
    pe.dataEnd ≤ pe.fileend ∧ pe.fileend ≤ d.length := by
  have low := asU32_le d.length
  have dir := signatureDirectory_eq_ok (u32At_lt _ _) (u32At_lt _ _) h.entry
  have fileend := h.fileend
  simp only [PeInfo.dataEnd]
  split <;> omega

/-- The data of a file, cut at its signature, lies in the frame `F` with these parts. -/
structure Framed (F : Frame) (d : Bytes) (pe : PeInfo) (checksum entry body : Bytes) : Prop where
  data : d.take pe.dataEnd = F.file checksum entry body
  checksum_length : checksum.length = 4
  entry_length : entry.length = 8
  info : pe = F.info pe.sigpos pe.siglen pe.fileend
  dataEnd : pe.dataEnd = F.certTableOffset + 8 + body.length

theorem Accepts.framed {b : Build} {d : Bytes} {pe : PeInfo} (h : Accepts b d pe)
    (past : pe.certTableOffset + 8 ≤ pe.dataEnd) :
    ∃ (F : Frame) (checksum entry body : Bytes), Framed F d pe checksum entry body := by
  obtain ⟨F, checksum, entry, body, hd, hc, he, info⟩ := h.frame
  have cto : pe.certTableOffset = F.certTableOffset := congrArg PeInfo.certTableOffset info
  have bound := h.dataEnd_le
  have len : d.length = F.certTableOffset + 8 + body.length := by
    rw [hd, F.file_length hc he]
  have split : pe.dataEnd = F.certTableOffset + 8 + (pe.dataEnd - (F.certTableOffset + 8)) := by
    omega
  refine ⟨F, checksum, entry, body.take (pe.dataEnd - (F.certTableOffset + 8)), ?_, hc, he, info,
    ?_⟩
  · rw [split, hd, F.file_take hc he, Nat.add_sub_cancel_left]
  · rw [List.length_take]
    omega

namespace Framed

variable {F : Frame} {d : Bytes} {pe : PeInfo} {checksum entry body : Bytes}

theorem checksumOffset (h : Framed F d pe checksum entry body) :
    pe.checksumOffset = F.checksumOffset := congrArg PeInfo.checksumOffset h.info

theorem certTableOffset (h : Framed F d pe checksum entry body) :
    pe.certTableOffset = F.certTableOffset := congrArg PeInfo.certTableOffset h.info

theorem digestStream_eq (h : Framed F d pe checksum entry body) :
    digestStream d pe = F.head ++ F.mid ++ (body ++ zeros (pad8 pe.dataEnd)) := by
  have order := F.mid_start
  have dataEnd := h.dataEnd
  have head : At (d.take pe.dataEnd) 0 F.head := h.data ▸ F.at_head
  have mid : At (d.take pe.dataEnd) (F.checksumOffset + 4) F.mid :=
    h.data ▸ F.at_mid h.checksum_length
  have rest : At (d.take pe.dataEnd) (F.certTableOffset + 8) body :=
    h.data ▸ F.at_body h.checksum_length h.entry_length
  rw [digestStream, h.checksumOffset, h.certTableOffset, ← slice_take (n := pe.dataEnd) (by omega),
    head.slice_eq (by rw [F.head_length', Nat.zero_add]),
    ← slice_take (n := pe.dataEnd) (by omega), mid.slice_eq order.symm,
    ← slice_take (n := pe.dataEnd) (Nat.le_refl _), rest.slice_eq dataEnd, List.append_assoc]

end Framed

def Op.written (pe : PeInfo) : Op → Nat
  | .sign d => pe.dataEnd + pad8 pe.dataEnd + certLength d
  | .remove => pe.dataEnd

/-- When the call sums up its output, only the last read may return an odd number of bytes. -/
def Op.KeepsPairs (b : Build) (op : Op) (reads : Reads) (cur : Bytes) : Prop :=
  ∀ pe, parseBytes b cur = .ok pe → WholePairs (afterCopy reads pe.dataEnd) (op.written pe)

theorem keepsPairs_uncut (b : Build) (op : Op) (cur : Bytes) : op.KeepsPairs b uncut cur :=
  fun pe _ => wholePairs_uncut (op.written pe)

theorem sign_apply {b : Build} {F : Frame} {cur : Bytes} {pe : PeInfo}
    {checksum entry body : Bytes} (accepted : Accepts b cur pe)
    (framed : Framed F cur pe checksum entry body) (d : Bytes) (reads : Reads) :
    ∃ r checksum, (Op.sign d).apply b reads cur = (r, F.signed checksum body d) ∧
      checksum.length = 4 ∧
      ((F.signed checksum body d).length < 2 ^ 32 - 2 ^ 16 → r = .ok ()) ∧
      ((Op.sign d).KeepsPairs b reads cur →
        (r, checksum) = storedChecksum (checksumOf b F.checksumOffset
          (F.signed (zeros 4) body d))) := by
  obtain ⟨r, t, checksum', run, len, wrote, room, determined⟩ := writeSignedPeTo_run b F
    (s := workspace cur reads) d framed.checksum_length
    framed.entry_length input_ne_output (workspace_output cur reads) framed.checksumOffset
    framed.certTableOffset (by rw [workspace_input, framed.data])
  refine ⟨r, checksum', ?_, len, room, fun pairs => determined ?_ ?_⟩
  rotate_left
  · rw [workspace_input]
    exact Nat.le_trans accepted.dataEnd_le.1 accepted.dataEnd_le.2
  · have size : (F.signed (zeros 4) body d).length = (Op.sign d).written pe := by
      rw [F.signed_length (zeros_length 4), Op.written, framed.dataEnd]
      omega
    rw [size]
    exact pairs pe (parseBytes_eq_ok.mpr accepted)
  have whole : ((Op.sign d).program b).run (workspace cur reads) = (r, t) := by
    rw [Op.program, Prog.bind_ok (parse_workspace reads accepted)]
    exact run
  simp only [Op.apply, whole, wrote.data]

theorem remove_apply {b : Build} {F : Frame} {cur : Bytes} {pe : PeInfo}
    {checksum entry body : Bytes} (accepted : Accepts b cur pe)
    (framed : Framed F cur pe checksum entry body) (signed : 0 < pe.sigpos) (reads : Reads) :
    ∃ r checksum, Op.remove.apply b reads cur = (r, F.file checksum (zeros 8) body) ∧
      checksum.length = 4 ∧
      ((F.file checksum (zeros 8) body).length < 2 ^ 32 - 2 ^ 16 → r = .ok ()) ∧
      (Op.remove.KeepsPairs b reads cur →
        (r, checksum) = storedChecksum (checksumOf b F.checksumOffset
          (F.file (zeros 4) (zeros 8) body))) := by
  have data := framed.data
  simp only [PeInfo.dataEnd, if_pos signed] at data
  obtain ⟨r, t, checksum', run, len, wrote, room, determined⟩ := writeUnsignedPeTo_run b F
    (s := workspace cur reads) framed.checksum_length
    framed.entry_length input_ne_output (workspace_output cur reads) signed framed.checksumOffset
    framed.certTableOffset (by rw [workspace_input, data])
  have stop : pe.sigpos = pe.dataEnd := by simp only [PeInfo.dataEnd, if_pos signed]
  refine ⟨r, checksum', ?_, len, room, fun pairs => determined ?_ ?_⟩
  rotate_left
  · rw [workspace_input, stop]
    exact Nat.le_trans accepted.dataEnd_le.1 accepted.dataEnd_le.2
  · have size : (F.file (zeros 4) (zeros 8) body).length = Op.remove.written pe := by
      rw [F.file_length (zeros_length 4) (zeros_length 8), Op.written, framed.dataEnd]
    rw [size, stop]
    exact pairs pe (parseBytes_eq_ok.mpr accepted)
  have whole : (Op.remove.program b).run (workspace cur reads) = (r, t) := by
    rw [Op.program, Prog.bind_ok (parse_workspace reads accepted)]
    exact run
  simp only [Op.apply, whole, wrote.data]

end Rsigncode
