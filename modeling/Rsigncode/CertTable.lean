import Rsigncode.CertWalk

/-! The attribute certificate table as a list of entries, and what the walk finds in it. -/
namespace Rsigncode

open FileStore Window Number

/-- A WIN_CERTIFICATE of the table. -/
structure CertEntry where
  revision : Nat
  certType : Nat
  body : Bytes
  revision_lt : revision < 2 ^ 16
  certType_lt : certType < 2 ^ 16

namespace CertEntry

/-- The entry as it is written: its length, without the padding, before its contents. -/
def bytes (e : CertEntry) : Bytes :=
  le 4 (8 + e.body.length) ++ le 2 e.revision ++ le 2 e.certType ++ e.body ++
    zeros (pad8 (8 + e.body.length))

def isSignature (e : CertEntry) : Bool :=
  e.revision == winCertRevision20 && e.certType == winCertTypePkcsSignedData

def table (entries : List CertEntry) : Bytes := entries.flatMap bytes

theorem table_cons (e : CertEntry) (entries : List CertEntry) :
    table (e :: entries) = e.bytes ++ table entries := rfl

theorem bytes_length (e : CertEntry) :
    e.bytes.length = 8 + e.body.length + pad8 (8 + e.body.length) := by
  simp only [bytes, List.length_append, le_length, zeros_length, Nat.reduceAdd]

variable {e : CertEntry} {d : Bytes} {p : Nat}

theorem length_at (here : At d p e.bytes) (small : d.length < 2 ^ 32) :
    u32At d p = 8 + e.body.length := by
  have inside := here.le
  rw [bytes_length] at inside
  simp only [bytes, at_append] at here
  rw [u32At, here.1.1.1.1.slice_eq (by rw [le_length]), ofLe_le (by omega)]

theorem isSignature_at (here : At d p e.bytes) : IsSignature d p ↔ e.isSignature = true := by
  simp only [bytes, at_append, List.length_append, le_length] at here
  have revision : u16At d (p + 4) = e.revision := by
    rw [u16At, here.1.1.1.2.slice_eq (by rw [le_length]), ofLe_le e.revision_lt]
  have certType : u16At d (p + 6) = e.certType := by
    rw [u16At, here.1.1.2.slice_eq (by rw [le_length]), ofLe_le e.certType_lt]
  rw [IsSignature, revision, certType, isSignature, Bool.and_eq_true, beq_iff_eq, beq_iff_eq]

theorem body_at (here : At d p e.bytes) : At d (p + 8) e.body := by
  simp only [bytes, at_append, List.length_append, le_length] at here
  exact here.1.2

section
variable {b : Build} {f : File} {pe : PeInfo} {s : Store} {pos : Nat}
  (here : At (s.data f.path) (pe.sigpos + pos) e.bytes)
  (inside : pos + e.bytes.length ≤ pe.siglen) (room : pe.sigpos + pe.siglen < 2 ^ 32)
  (small : (s.data f.path).length < 2 ^ 32)
include here inside room small

theorem extractRound_found (kind : e.isSignature = true) :
    (extractRound b f pe pos).run s = (.ok (.done (some e.body)), s) := by
  have size := e.bytes_length
  have len := length_at here small
  have ends := here.le
  refine (extractRound_eq_ok room (by omega)).mpr ⟨rfl, by omega, by omega,
    .inl ⟨(isSignature_at here).mpr kind, by omega, ?_⟩⟩
  rw [(body_at here).slice_eq (by omega)]

theorem extractRound_next (kind : e.isSignature = false) :
    (extractRound b f pe pos).run s =
      (.ok (.next (f.seek (pe.sigpos + pos + 8)) (pos + e.bytes.length)), s) := by
  have size := e.bytes_length
  have len := length_at here small
  have ends := here.le
  have other : ¬ IsSignature (s.data f.path) (pe.sigpos + pos) := fun signature => by
    rw [(isSignature_at here).mp signature] at kind
    cases kind
  refine (extractRound_eq_ok room (by omega)).mpr ⟨rfl, by omega, by omega,
    .inr ⟨other, e.bytes.length, _, ?_, add_of_lt (by omega), rfl⟩⟩
  rw [len, size]
  exact add_of_lt (by omega)

end

end CertEntry

/-- The loop, standing at the first of the entries left, finds the first signature of them. -/
theorem extractLoop_table {b : Build} {f : File} {pe : PeInfo} {s : Store}
    {entries : List CertEntry} {rounds pos : Nat}
    (stand : At (s.data f.path) (pe.sigpos + pos) (CertEntry.table entries))
    (ends : pos + (CertEntry.table entries).length = pe.siglen)
    (small : (s.data f.path).length < 2 ^ 32) (enough : entries.length ≤ rounds) :
    (extractLoop b f pe rounds pos).run s =
      (.ok ((entries.find? CertEntry.isSignature).map CertEntry.body), s) := by
  induction entries generalizing f rounds pos with
  | nil =>
    have beyond : ¬ pos < pe.siglen := by simpa [CertEntry.table] using Nat.le_of_eq ends.symm
    cases rounds <;> rw [extractLoop, if_neg beyond] <;> rfl
  | cons e entries ih =>
    obtain ⟨m, rfl⟩ : ∃ m, rounds = m + 1 := ⟨rounds - 1, by simp at enough; omega⟩
    have inside := stand.le
    rw [CertEntry.table_cons, at_append] at stand
    obtain ⟨here, rest⟩ := stand
    rw [CertEntry.table_cons, List.length_append] at ends inside
    have size := e.bytes_length
    have room : pe.sigpos + pe.siglen < 2 ^ 32 := by omega
    rw [extractLoop_succ]
    cases kind : e.isSignature with
    | true =>
      have found := CertEntry.extractRound_found (b := b) here (by omega) room small kind
      rw [Prog.bind_ok found, List.find?_cons_of_pos kind]
      rfl
    | false =>
      have next := CertEntry.extractRound_next (b := b) here (by omega) room small kind
      rw [Prog.bind_ok next, List.find?_cons_of_neg (by rw [kind]; decide)]
      refine ih ?_ (by omega) small (Nat.le_of_succ_le_succ enough)
      rwa [seek_path, ← Nat.add_assoc]

/-- The walk reads the whole format: it finds the first signature of a table, whatever
entries stand before it. -/
theorem extractBytes_table {b : Build} {front d : Bytes} {pe : PeInfo} {entries : List CertEntry}
    {rounds : Nat} (file : d = front ++ CertEntry.table entries) (small : d.length < 2 ^ 32 - 8)
    (accepted : parseBytes b d = .ok pe) (sigpos : pe.sigpos = front.length)
    (siglen : pe.siglen = (CertEntry.table entries).length) (enough : entries.length ≤ rounds) :
    extractBytes b rounds d pe =
      .ok ((entries.find? CertEntry.isSignature).map CertEntry.body) := by
  rw [extractBytes, extractSignature]
  by_cases none : pe.sigpos = 0 ∨ pe.siglen = 0
  · have dir := (parseBytes_eq_ok.mp accepted).table
    have empty : entries = [] := by
      cases entries with
      | nil => rfl
      | cons e entries =>
        have size := e.bytes_length
        rw [CertEntry.table_cons, List.length_append] at siglen
        omega
    rw [if_pos none, empty]
    rfl
  · rw [if_neg none, extractLoop_table]
    · rw [workspace_input, file, sigpos]
      exact ⟨front, [], by simp, rfl⟩
    · rw [Nat.zero_add, siglen]
    · rw [workspace_input]
      omega
    · exact enough

def twoEntries : List CertEntry :=
  [⟨0x0100, 0x0002, [7], by decide, by decide⟩, ⟨0x0200, 0x0002, [8, 9], by decide, by decide⟩]

theorem extractBytes_table_two :
    extractBytes .release 2 (smallTable (CertEntry.table twoEntries))
      (smallFrame.info 224 32 256) = .ok (some [8, 9]) := by
  have file : smallTable (CertEntry.table twoEntries) =
      smallFrame.head ++ zeros 4 ++ smallFrame.mid ++ directoryEntry 224 32 ++
        CertEntry.table twoEntries := by
    rw [smallTable, Frame.file, List.append_assoc, List.append_assoc, List.append_assoc,
      List.append_assoc]
    rfl
  have front : 224 = (smallFrame.head ++ zeros 4 ++ smallFrame.mid ++
      directoryEntry 224 32).length := by
    rw [List.length_append, smallFrame.mid_end (by decide), directoryEntry_length]
    rfl
  exact extractBytes_table file (by rw [smallTable_length]; decide)
    (smallTable_parse .release (by decide) (by decide)) front rfl (by decide)

end Rsigncode
