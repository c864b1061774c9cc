import Rsigncode.PeParse

/-! The abstract image. A frame is the part of a file that the Authenticode code
reads, hashes and never rewrites: everything before the checksum, and what lies
between the checksum and the directory entry. A file is a frame with a checksum,
an entry and a body filled in. -/
namespace Rsigncode

open FileStore Window Number

structure Frame where
  pe32plus : Bool
  headerSize : Nat
  head : Bytes
  mid : Bytes
  head_length : head.length = headerSize + 88
  mid_length : mid.length = 60 + pe32plusOffset pe32plus
  header_ge : 44 ≤ headerSize
  mz : u16At head 0 = dosMagic
  lfanew : u32At head 0x3C = headerSize
  signature : u32At head headerSize = peSignature
  magic : u16At head (headerSize + 24) = if pe32plus then pe32plusMagic else pe32Magic
  nrvas : 5 ≤ u32At mid (24 + pe32plusOffset pe32plus)

namespace Frame

def checksumOffset (F : Frame) : Nat := F.headerSize + 88
def certTableOffset (F : Frame) : Nat := F.headerSize + 152 + pe32plusOffset F.pe32plus

def file (F : Frame) (checksum entry body : Bytes) : Bytes :=
  F.head ++ checksum ++ (F.mid ++ entry ++ body)

def info (F : Frame) (sigpos siglen n : Nat) : PeInfo where
  pe32plus := F.pe32plus
  headerSize := F.headerSize
  checksumOffset := F.checksumOffset
  certTableOffset := F.certTableOffset
  sigpos := sigpos
  siglen := siglen
  fileend := n

variable (F : Frame) {checksum entry body : Bytes}

theorem head_length' : F.head.length = F.checksumOffset := F.head_length

theorem mid_end (hc : checksum.length = 4) :
    (F.head ++ checksum ++ F.mid).length = F.certTableOffset := by
  simp only [List.length_append, F.head_length, hc, F.mid_length, certTableOffset]
  omega

theorem file_length (hc : checksum.length = 4) (he : entry.length = 8) :
    (F.file checksum entry body).length = F.certTableOffset + 8 + body.length := by
  simp only [file, List.length_append, F.head_length, hc, he, F.mid_length, certTableOffset]
  omega

theorem mid_start : F.checksumOffset + 4 + F.mid.length = F.certTableOffset := by
  simp only [F.mid_length, checksumOffset, certTableOffset]
  omega

theorem at_head : At (F.file checksum entry body) 0 F.head := by
  simpa only [file, List.append_assoc] using (at_zero_self F.head).append_right _

theorem at_checksum : At (F.file checksum entry body) F.checksumOffset checksum := by
  rw [file, ← F.head_length']
  exact at_middle F.head checksum _

theorem at_entry (hc : checksum.length = 4) :
    At (F.file checksum entry body) F.certTableOffset entry := by
  have window := at_middle (F.head ++ checksum ++ F.mid) entry body
  rw [F.mid_end hc] at window
  simpa only [file, List.append_assoc] using window

theorem at_mid (hc : checksum.length = 4) :
    At (F.file checksum entry body) (F.checksumOffset + 4) F.mid := by
  have window := at_middle (F.head ++ checksum) F.mid (entry ++ body)
  rwa [List.length_append, F.head_length', hc, List.append_assoc, ← List.append_assoc F.mid]
    at window

theorem at_body (hc : checksum.length = 4) (he : entry.length = 8) :
    At (F.file checksum entry body) (F.certTableOffset + 8) body := by
  have window := at_middle (F.head ++ checksum ++ F.mid ++ entry) body []
  rw [List.length_append, F.mid_end hc, he, List.append_nil] at window
  simpa only [file, List.append_assoc] using window

theorem file_append (more : Bytes) :
    F.file checksum entry body ++ more = F.file checksum entry (body ++ more) := by
  simp only [file, List.append_assoc]

theorem file_take (hc : checksum.length = 4) (he : entry.length = 8) (n : Nat) :
    (F.file checksum entry body).take (F.certTableOffset + 8 + n) =
      F.file checksum entry (body.take n) := by
  have start : (F.head ++ checksum ++ (F.mid ++ entry)).length = F.certTableOffset + 8 := by
    simp only [List.length_append, F.head_length, hc, he, F.mid_length, certTableOffset]
    omega
  have split : ∀ x, F.file checksum entry x = F.head ++ checksum ++ (F.mid ++ entry) ++ x := by
    intro x
    simp only [file, List.append_assoc]
  rw [split, split, ← start, List.take_length_add_append]

theorem overwrite_checksum {x : Bytes} (hc : checksum.length = 4) (hx : x.length = 4) :
    overwrite (F.file checksum entry body) F.checksumOffset x = F.file x entry body := by
  rw [file, ← F.head_length', overwrite_window _ _ (hx.trans hc.symm), file]

theorem overwrite_entry {x : Bytes} (hc : checksum.length = 4) (he : entry.length = 8)
    (hx : x.length = 8) :
    overwrite (F.file checksum entry body) F.certTableOffset x = F.file checksum x body := by
  have split : ∀ x, F.file checksum x body = F.head ++ checksum ++ F.mid ++ x ++ body := by
    intro x
    simp only [file, List.append_assoc]
  rw [split, ← F.mid_end hc, overwrite_window _ _ (hx.trans he.symm), split]

end Frame

theorem u16At_append_left {a b : Bytes} {p : Nat} (h : p + 2 ≤ a.length) :
    u16At (a ++ b) p = u16At a p := by
  rw [u16At, slice_append_left h, u16At]

theorem u32At_append_left {a b : Bytes} {p : Nat} (h : p + 4 ≤ a.length) :
    u32At (a ++ b) p = u32At a p := by
  rw [u32At, slice_append_left h, u32At]

theorem u32At_append_right {a b : Bytes} {p : Nat} (h : a.length ≤ p) :
    u32At (a ++ b) p = u32At b (p - a.length) := by
  have stop : p + 4 - a.length = p - a.length + 4 := by omega
  rw [u32At, slice_append_right h, stop, u32At]

theorem u16At_take {d : Bytes} {p n : Nat} (h : p + 2 ≤ n) : u16At (d.take n) p = u16At d p := by
  rw [u16At, slice_take h, u16At]

theorem u32At_take {d : Bytes} {p n : Nat} (h : p + 4 ≤ n) : u32At (d.take n) p = u32At d p := by
  rw [u32At, slice_take h, u32At]

theorem Frame.u32At_entry (F : Frame) {checksum entry body : Bytes} (hc : checksum.length = 4)
    (he : entry.length = 8) {i : Nat} (hi : i + 4 ≤ 8) :
    u32At (F.file checksum entry body) (F.certTableOffset + i) = u32At entry i := by
  have split : F.file checksum entry body = F.head ++ checksum ++ F.mid ++ (entry ++ body) := by
    simp only [file, List.append_assoc]
  rw [split, u32At_append_right (by rw [F.mid_end hc]; omega), F.mid_end hc,
    Nat.add_sub_cancel_left, u32At_append_left (by omega)]

theorem Frame.accepts (F : Frame) (b : Build) {checksum entry body : Bytes} {n : Nat}
    (hc : checksum.length = 4) (he : entry.length = 8)
    (hn : (F.file checksum entry body).length = n) (small : n < 2 ^ 32)
    (room : F.headerSize + 176 ≤ n) {sigpos siglen : Nat}
    (dir : signatureDirectory b (u32At entry 0) (u32At entry 4) n = .ok (sigpos, siglen)) :
    Accepts b (F.file checksum entry body) (F.info sigpos siglen n) := by
  have header := F.header_ge
  have plus := pe32plusOffset_le F.pe32plus
  have len : n = F.certTableOffset + 8 + body.length := hn ▸ F.file_length hc he
  have inHead16 : ∀ p, p + 2 ≤ F.headerSize + 88 →
      u16At (F.file checksum entry body) p = u16At F.head p := fun p hp => by
    rw [file, List.append_assoc, u16At_append_left (by rw [F.head_length]; exact hp)]
  have inHead32 : ∀ p, p + 4 ≤ F.headerSize + 88 →
      u32At (F.file checksum entry body) p = u32At F.head p := fun p hp => by
    rw [file, List.append_assoc, u32At_append_left (by rw [F.head_length]; exact hp)]
  have top : (F.head ++ checksum).length = F.headerSize + 92 := by
    simp only [List.length_append, F.head_length, hc]
  have count : u32At (F.file checksum entry body)
      (F.headerSize + 116 + pe32plusOffset F.pe32plus) =
      u32At F.mid (24 + pe32plusOffset F.pe32plus) := by
    have gap : F.headerSize + 116 + pe32plusOffset F.pe32plus - (F.headerSize + 92) =
        24 + pe32plusOffset F.pe32plus := by omega
    rw [file, u32At_append_right (by omega), top, gap, List.append_assoc,
      u32At_append_left (by rw [F.mid_length]; omega)]
  have low : u32At (F.file checksum entry body) F.certTableOffset = u32At entry 0 :=
    F.u32At_entry hc he (i := 0) (by omega)
  have high : u32At (F.file checksum entry body) (F.certTableOffset + 4) = u32At entry 4 :=
    F.u32At_entry hc he (by omega)
  exact {
    fileend := by rw [hn, asU32_of_lt small, info]
    long := show 64 ≤ n by omega
    mz := (inHead16 0 (by omega)).trans F.mz
    lfanew := (inHead32 0x3C (by omega)).trans F.lfanew
    header_ge := header
    header_le := Nat.le_of_add_right_le room
    needed := ⟨F.headerSize + 176, add_of_lt (Nat.lt_of_le_of_lt room small), room⟩
    signature := (inHead32 F.headerSize (by omega)).trans F.signature
    magic := (inHead16 (F.headerSize + 24) (by omega)).trans F.magic
    nrvas := Nat.le_trans F.nrvas (Nat.le_of_eq count.symm)
    checksumOffset := rfl
    certTableOffset := rfl
    room := show F.certTableOffset + 8 ≤ _ by omega
    entry := by simp only [info, low, high, dir] }

/-- An accepted file is a file in a frame, and the frame gives what is reported. -/
theorem Accepts.frame {b : Build} {d : Bytes} {pe : PeInfo} (h : Accepts b d pe) :
    ∃ (F : Frame) (checksum entry body : Bytes),
      d = F.file checksum entry body ∧ checksum.length = 4 ∧ entry.length = 8 ∧
      pe = F.info pe.sigpos pe.siglen pe.fileend := by
  have header := h.header_ge
  have plus := pe32plusOffset_le pe.pe32plus
  have room := h.room
  have cso := h.checksumOffset
  have cto := h.certTableOffset
  have whole : slice d 0 pe.checksumOffset ++
      slice d pe.checksumOffset (pe.checksumOffset + 4) ++
      (slice d (pe.checksumOffset + 4) pe.certTableOffset ++
        slice d pe.certTableOffset (pe.certTableOffset + 8) ++
        slice d (pe.certTableOffset + 8) d.length) = d := by
    rw [slice_append (by omega) (by omega), slice_append (by omega) (by omega),
      slice_append (by omega) (by omega), slice_append (by omega) (by omega), slice_zero,
      List.take_length]
  refine ⟨{
    pe32plus := pe.pe32plus
    headerSize := pe.headerSize
    head := slice d 0 pe.checksumOffset
    mid := slice d (pe.checksumOffset + 4) pe.certTableOffset
    head_length := by rw [slice_length]; omega
    mid_length := by rw [slice_length]; omega
    header_ge := header
    mz := by rw [slice_zero, u16At_take (by omega), h.mz]
    lfanew := by rw [slice_zero, u32At_take (by omega), h.lfanew]
    signature := by rw [slice_zero, u32At_take (by omega), h.signature]
    magic := by rw [slice_zero, u16At_take (by omega), h.magic]
    nrvas := ?_ }, _, _, _, whole.symm, ?_, ?_, ?_⟩
  · have start : pe.checksumOffset + 4 + (24 + pe32plusOffset pe.pe32plus) =
        pe.headerSize + 116 + pe32plusOffset pe.pe32plus := by omega
    have window : At d (pe.headerSize + 116 + pe32plusOffset pe.pe32plus)
        (slice (slice d (pe.checksumOffset + 4) pe.certTableOffset)
          (24 + pe32plusOffset pe.pe32plus) (24 + pe32plusOffset pe.pe32plus + 4)) := by
      rw [← start]
      exact (at_slice (by omega) (by omega)).trans
        (at_slice (by omega) (by rw [slice_length]; omega))
    have nrvas := h.nrvas
    rw [u32At, window.slice_eq (by rw [slice_length, slice_length]; omega)] at nrvas
    exact nrvas
  · rw [slice_length]
    omega
  · rw [slice_length]
    omega
  · obtain ⟨plus, headerSize, cso', cto', sigpos, siglen, fileend⟩ := pe
    simp only [Frame.info, Frame.checksumOffset, Frame.certTableOffset, PeInfo.mk.injEq]
    exact ⟨trivial, trivial, cso, cto, trivial, trivial, trivial⟩

end Rsigncode
