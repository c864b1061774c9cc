import Rsigncode.PeWrite
import Rsigncode.Rebuilt
import Rsigncode.RewriteSpec

/-! Normalizing what was normalized before. Only one OCTET STRING is stripped, so whether
the outcome is accepted depends on what its octets begin with; everything beside the
spine has to end where the ContentInfo does. -/
namespace Rsigncode

open FileStore Window Number Tlv

theorem Levels.Stands.append_right {L : Levels} {der : Bytes} (h : L.Stands der) (r : Bytes) :
    L.Stands (der ++ r) :=
  ⟨h.info.append_right r, h.inInfo.append_right r, h.inContent.append_right r,
    h.inSigned.append_right r, h.inEncap.append_right r, h.inEContent.append_right r⟩

/-- A blob with the shortest headers on its spine and version 1 normalizes to itself exactly
where its content is native, or is the content of its own OCTET STRING and ends the blob. -/
theorem Levels.Stands.normalize_self_iff {M : Levels} {out r : Bytes} (h : M.Stands out)
    (covered : M.Covered) (inside : M.spine.Contained) (minimal : M.Minimal)
    (whole : out = M.info.bytes ++ r) (version : M.version.bytes = targetVersion false) :
    normalizeAuthenticodeSignature out = .ok out ↔
      M.inner.tag ≠ 0x04 ∨ M.inner.content = M.inEncap.hit.content ∧ r = [] := by
  have run : normalizeAuthenticodeSignature out = _ := h.rewrite_eq covered false
  rw [run]
  by_cases tag : M.inner.tag = 0x04
  · have todo : ¬ InForm out M.spine false := fun form => by
      simpa [tag] using ((h.inForm_iff false).mp form).1
    have native : M.newContent false = M.inner.content := by simp [Levels.newContent, tag]
    have same := h.reassemble inside minimal
    have room : ∀ t : Tlv, (M.newL0Content out M.version.bytes t.content).length < 2 ^ 64 := by
      intro t
      rw [h.newL0Content_length (by rw [version, targetVersion_length])]
      exact M.newLength_lt inside t.form.lt
    rw [if_neg todo, h.rebuild_eq inside, native, ← version, Except.ok.injEq,
      or_iff_right (not_not.mpr tag)]
    constructor
    · intro rebuilt
      obtain ⟨fits, info, rest⟩ := emitTlv_eq_bytes (room M.inner) (rebuilt.trans whole)
      have again := (emitTlv_eq 0x30 fits).trans (info ▸ same.symm)
      exact ⟨newL0Content_injective fits (emitTlv_injective fits again), rest⟩
    · rintro ⟨content, rfl⟩
      rw [content, same, whole, List.append_nil]
  · rw [if_pos ((h.inForm_iff false).mpr ⟨by simp [tag], version⟩)]
    exact iff_of_true rfl (.inl tag)

theorem childrenAt_within {ts : List Tlv} {p stop : Nat} (order : p ≤ stop) :
    (∀ c ∈ childrenAt p ts, c.contentEnd ≤ stop) ↔ p + (flat ts).length ≤ stop := by
  induction ts generalizing p with
  | nil => simpa [childrenAt] using order
  | cons t ts ih =>
    rw [childrenAt, List.forall_mem_cons, flat_cons, List.length_append, ← Nat.add_assoc]
    constructor
    · rintro ⟨first, others⟩
      exact (ih first).mp others
    · intro fits
      have first : p + t.bytes.length ≤ stop := by omega
      exact ⟨first, (ih first).mpr fits⟩

theorem Levels.within_iff (L : Levels) (inside : L.spine.Contained) :
    (∀ c ∈ L.spine.l0Children ++ L.spine.l1Children ++ L.spine.l2Children ++ L.spine.l3Children,
      c.contentEnd ≤ L.spine.ce0) ↔ L.Within := by
  obtain ⟨-, in3, in2, in1⟩ := inside
  have order0 : L.startInfo ≤ L.spine.ce0 := start_le_contentEnd 0 L.info
  have order1 : L.startContent ≤ L.spine.ce0 := (start_le_contentEnd _ _).trans in1
  have order2 : L.startSigned ≤ L.spine.ce0 := (start_le_contentEnd _ _).trans (in2.trans in1)
  have order3 : L.startEncap ≤ L.spine.ce0 :=
    (start_le_contentEnd _ _).trans (in3.trans (in2.trans in1))
  simp only [List.forall_mem_append]
  constructor
  · rintro ⟨⟨⟨all0, all1⟩, all2⟩, all3⟩
    exact ⟨(childrenAt_within order0).mp all0, (childrenAt_within order1).mp all1,
      (childrenAt_within order2).mp all2, (childrenAt_within order3).mp all3⟩
  · rintro ⟨within0, within1, within2, within3⟩
    exact ⟨⟨⟨(childrenAt_within order0).mpr within0, (childrenAt_within order1).mpr within1⟩,
      (childrenAt_within order2).mpr within2⟩, (childrenAt_within order3).mpr within3⟩

def stripped (der : Bytes) (s : Spine) : Bytes :=
  childContent der (if s.l5.tag = 0x04 then s.l5 else s.l4)

def underEContent (der : Bytes) (s : Spine) : Bytes :=
  stripped der s ++ slice der s.l4.contentEnd s.ce0

/-- The rebuilt blob is read as it was meant: its length can be encoded, no element beside
the spine ends after the ContentInfo, and eContent begins with an element of this form. -/
structure Rereads (der : Bytes) (s : Spine) (form : Child → Prop) : Prop where
  size : s.newLength (stripped der s).length < 2 ^ 32
  within : ∀ c ∈ s.l0Children ++ s.l1Children ++ s.l2Children ++ s.l3Children,
    c.contentEnd ≤ s.ce0
  first : ∃ first rest, children (underEContent der s) 0 (stripped der s).length =
    .ok (first :: rest) ∧ form first

theorem Rereads.mono {der : Bytes} {s : Spine} {form form' : Child → Prop}
    (h : Rereads der s form) (weaker : ∀ c, form c → form' c) : Rereads der s form' := by
  obtain ⟨first, rest, listed, formed⟩ := h.first
  exact ⟨h.size, h.within, first, rest, listed, weaker first formed⟩

theorem Levels.Stands.stripped_eq {L : Levels} {der : Bytes} (h : L.Stands der) :
    stripped der L.spine = L.newContent false := by
  have tag : L.spine.l5.tag = L.inner.tag := rfl
  rw [stripped, tag]
  by_cases wrapped : L.inner.tag = 0x04
  · simp only [newContent, wrapped]
    exact childContent_childAt h.innerAt
  · simp only [if_neg wrapped, newContent, beq_eq_false_iff_ne.mpr wrapped]
    exact childContent_childAt h.eContentAt

theorem Levels.newContent_length (L : Levels) : (L.newContent false).length < 2 ^ 32 := by
  by_cases wrapped : L.inner.tag = 0x04
  · simp only [newContent, wrapped]
    exact L.inner.form.lt
  · simp only [newContent, beq_eq_false_iff_ne.mpr wrapped]
    exact L.inEncap.hit.form.lt

theorem exists_levels {der out : Bytes} (run : normalizeAuthenticodeSignature der = .ok out) :
    ∃ L : Levels, L.Stands der ∧ L.Covered ∧ walkSpine der = .ok L.spine := by
  obtain ⟨s, walk, -⟩ := Res.bind_eq_ok.mp run
  obtain ⟨L, stands, covered, rfl⟩ := walkSpine_eq_ok.mp walk
  exact ⟨L, stands, covered, walk⟩

theorem children_cons_iff {y : Bytes} {n : Nat} {form : Child → Prop} {form' : Tlv → Prop}
    (same : ∀ t, At y 0 t.bytes → (form (childAt 0 t) ↔ form' t)) :
    (∃ first rest, children y 0 n = .ok (first :: rest) ∧ form first) ↔
      ∃ t ts, Covers (t :: ts) n ∧ flat (t :: ts) <+: y ∧ form' t := by
  constructor
  · rintro ⟨first, rest, listed, formed⟩
    obtain ⟨ts, stand, covers, list⟩ := (children_eq_ok (Nat.zero_le _)).mp listed
    cases ts with
    | nil => cases list
    | cons t ts =>
      cases list
      exact ⟨t, ts, covers, (tail_zero y).at_iff.mp stand,
        (same t (at_append.mp stand).1).mp formed⟩
  · rintro ⟨t, ts, covers, start, formed⟩
    have stand := (tail_zero y).at_iff.mpr start
    exact ⟨_, _, (children_eq_ok (Nat.zero_le _)).mpr ⟨t :: ts, stand, covers, rfl⟩,
      (same t (at_append.mp stand).1).mpr formed⟩

namespace Levels.Stands
variable {L M : Levels} {der out : Bytes}

theorem rebuilt_eq (h : L.Stands der) (inside : L.spine.Contained)
    (rebuilt : rebuild der L.spine false = .ok out) :
    out = emitTlv 0x30 (L.newL0Content der (versionTlv false).bytes (stripped der L.spine)) := by
  have bytes := (h.rebuild_eq inside false).symm.trans rebuilt
  rw [← versionTlv_bytes false, ← h.stripped_eq] at bytes
  cases bytes
  rfl

theorem size_eq (h : L.Stands der) :
    (L.newL0Content der (versionTlv false).bytes (stripped der L.spine)).length =
      L.spine.newLength (stripped der L.spine).length :=
  h.newL0Content_length (by rw [versionTlv_bytes, targetVersion_length]) _

theorem fits_of_walk (h : L.Stands der) (inside : L.spine.Contained)
    (rebuilt : rebuild der L.spine false = .ok out) (stands : M.Stands out) :
    L.Fits der (versionTlv false) (stripped der L.spine) := by
  have room : L.spine.newLength (stripped der L.spine).length < 2 ^ 64 :=
    L.newLength_lt inside (h.stripped_eq ▸ L.newContent_length)
  obtain ⟨r, same⟩ := (tail_zero out).at_iff.mp stands.info
  rw [h.rebuilt_eq inside rebuilt] at same
  exact (emitTlv_eq_bytes (h.size_eq ▸ room) same.symm).1

theorem rereads_iff (h : L.Stands der) (covered : L.Covered) (inside : L.spine.Contained)
    (rebuilt : rebuild der L.spine false = .ok out) {form : Child → Prop} {form' : Tlv → Prop}
    (same : ∀ t, At (underEContent der L.spine) 0 t.bytes → (form (childAt 0 t) ↔ form' t)) :
    (∃ M : Levels, M.Stands out ∧ M.Covered ∧ form' M.inner) ↔ Rereads der L.spine form := by
  constructor
  · rintro ⟨M, stands, covered', formed⟩
    have fits := h.fits_of_walk inside rebuilt stands
    rw [h.rebuilt_eq inside rebuilt] at stands
    obtain ⟨within, -, covers, start⟩ :=
      (h.renewed_iff covered inside fits rfl).mp ⟨stands, covered'⟩
    exact ⟨h.size_eq ▸ fits, (L.within_iff inside).mpr within,
      (children_cons_iff same).mpr ⟨_, _, covers, start, formed⟩⟩
  · rintro ⟨size, within, first⟩
    have fits : L.Fits der (versionTlv false) (stripped der L.spine) := h.size_eq.trans_lt size
    obtain ⟨t, ts, covers, start, formed⟩ := (children_cons_iff same).mp first
    rw [h.rebuilt_eq inside rebuilt]
    obtain ⟨stands, covered'⟩ := (h.renewed_iff (M := L.renewed fits rfl t ts) covered inside
      fits rfl).mpr ⟨(L.within_iff inside).mp within, rfl, covers, start⟩
    exact ⟨_, stands, covered', formed⟩

theorem normalize_again_iff (h : L.Stands der) (covered : L.Covered) (inside : L.spine.Contained)
    (rebuilt : rebuild der L.spine false = .ok out) (stands : M.Stands out)
    (covered' : M.Covered) (r : Bytes) :
    normalizeAuthenticodeSignature (out ++ r) = .ok (out ++ r) ↔
      M.inner.tag ≠ 0x04 ∨ M.inner.content = stripped der L.spine ∧ r = [] := by
  have fits := h.fits_of_walk inside rebuilt stands
  have bytes := h.rebuilt_eq inside rebuilt
  obtain ⟨-, renewed, -⟩ := (h.renewed_iff covered inside fits rfl).mp ⟨bytes ▸ stands, covered'⟩
  rw [bytes, emitTlv_eq 0x30 fits]
  rw [bytes, emitTlv_eq 0x30 fits, renewed] at stands
  rw [renewed] at covered'
  exact (stands.append_right r).normalize_self_iff covered' (renewed_contained fits rfl _ _)
    (renewed_minimal fits rfl _ _) rfl (versionTlv_bytes false)

theorem fixed_iff (h : L.Stands der) (covered : L.Covered) (inside : L.spine.Contained)
    (rebuilt : rebuild der L.spine false = .ok out) :
    normalizeAuthenticodeSignature out = .ok out ↔ Rereads der L.spine fun first =>
      first.tag ≠ 0x04 ∨
        childContent (underEContent der L.spine) first = stripped der L.spine := by
  have form : ∀ t, At (underEContent der L.spine) 0 t.bytes →
      ((childAt 0 t).tag ≠ 0x04 ∨ childContent (underEContent der L.spine) (childAt 0 t) =
        stripped der L.spine ↔ t.tag ≠ 0x04 ∨ t.content = stripped der L.spine) := by
    intro t here
    rw [childContent_childAt here]
    rfl
  have self := fun (M : Levels) (stands : M.Stands out) (covered' : M.Covered) =>
    h.normalize_again_iff covered inside rebuilt stands covered' []
  rw [← h.rereads_iff covered inside rebuilt form]
  simp only [List.append_nil, and_true] at self
  constructor
  · intro again
    obtain ⟨M, stands, covered', -⟩ := exists_levels again
    exact ⟨M, stands, covered', (self M stands covered').mp again⟩
  · rintro ⟨M, stands, covered', formed⟩
    exact (self M stands covered').mpr formed

/-- With zeros behind the blob a second OCTET STRING never holds all of it. -/
theorem padded_iff (h : L.Stands der) (covered : L.Covered) (inside : L.spine.Contained)
    (rebuilt : rebuild der L.spine false = .ok out) :
    (∀ n, normalizeAuthenticodeSignature (out ++ zeros n) = .ok (out ++ zeros n)) ↔
      Rereads der L.spine (·.tag ≠ 0x04) := by
  have self := fun (M : Levels) (stands : M.Stands out) (covered' : M.Covered) (n : Nat) =>
    h.normalize_again_iff covered inside rebuilt stands covered' (zeros n)
  rw [← h.rereads_iff covered inside rebuilt fun t _ => Iff.rfl]
  constructor
  · intro all
    have bare := all 0
    rw [zeros_zero, List.append_nil] at bare
    obtain ⟨M, stands, covered', -⟩ := exists_levels bare
    refine ⟨M, stands, covered', ((self M stands covered' 1).mp (all 1)).resolve_right ?_⟩
    rintro ⟨-, none⟩
    cases none
  · rintro ⟨M, stands, covered', formed⟩ n
    exact (self M stands covered' n).mpr (.inl formed)

/-- Without padding and with the writer's own: where that is none, a second OCTET STRING may
hold all of the blob. -/
theorem embedded_iff (h : L.Stands der) (covered : L.Covered) (inside : L.spine.Contained)
    (rebuilt : rebuild der L.spine false = .ok out) :
    (normalizeAuthenticodeSignature out = .ok out ∧
      normalizeAuthenticodeSignature (out ++ zeros (pad8 out.length)) =
        .ok (out ++ zeros (pad8 out.length))) ↔
      Rereads der L.spine fun first => first.tag ≠ 0x04 ∨
        childContent (underEContent der L.spine) first = stripped der L.spine ∧
          pad8 (emitLength (L.spine.newLength (stripped der L.spine).length)) = 0 := by
  have len : out.length = emitLength (L.spine.newLength (stripped der L.spine).length) := by
    rw [h.rebuilt_eq inside rebuilt, emitTlv_length, h.size_eq]
  have none : ∀ n, (zeros n : Bytes) = [] ↔ n = 0 := fun n => List.replicate_eq_nil_iff 0
  have form : ∀ t, At (underEContent der L.spine) 0 t.bytes →
      ((childAt 0 t).tag ≠ 0x04 ∨ childContent (underEContent der L.spine) (childAt 0 t) =
        stripped der L.spine ∧ pad8 out.length = 0 ↔
        t.tag ≠ 0x04 ∨ t.content = stripped der L.spine ∧ pad8 out.length = 0) := by
    intro t here
    rw [childContent_childAt here]
    rfl
  have self := fun (M : Levels) (stands : M.Stands out) (covered' : M.Covered) (n : Nat) =>
    h.normalize_again_iff covered inside rebuilt stands covered' (zeros n)
  simp only [none] at self
  rw [← len, ← h.rereads_iff covered inside rebuilt form]
  constructor
  · rintro ⟨again, behind⟩
    obtain ⟨M, stands, covered', -⟩ := exists_levels again
    exact ⟨M, stands, covered', (self M stands covered' _).mp behind⟩
  · rintro ⟨M, stands, covered', formed⟩
    have bare := (self M stands covered' 0).mpr (formed.imp_right fun h => ⟨h.1, rfl⟩)
    rw [zeros_zero, List.append_nil] at bare
    exact ⟨bare, (self M stands covered' _).mpr formed⟩

end Levels.Stands

/-- What normalizing puts out is accepted, and left alone by normalizing it again, exactly
when it is the input or is read as it was meant with no second OCTET STRING; the padding
that an embedded blob comes back with makes no difference where the content is native. The
last part is for the padding that the writer adds. -/
theorem normalized_accepted_iff {der out : Bytes}
    (normalized : normalizeAuthenticodeSignature der = .ok out) :
    (checkAuthenticodeEnvelope out = .ok () ∧ normalizeAuthenticodeSignature out = .ok out ↔
      ∀ s, walkSpine der = .ok s → InForm der s false ∨ Rereads der s fun first =>
        first.tag ≠ 0x04 ∨ childContent (underEContent der s) first = stripped der s) ∧
    ((∀ n, checkAuthenticodeEnvelope (out ++ zeros n) = .ok ()) ↔
      ∀ s, walkSpine der = .ok s → InForm der s false ∨ Rereads der s (·.tag ≠ 0x04)) ∧
    (checkAuthenticodeEnvelope out = .ok () ∧
      checkAuthenticodeEnvelope (out ++ zeros (pad8 out.length)) = .ok () ↔
      ∀ s, walkSpine der = .ok s → InForm der s false ∨ Rereads der s fun first =>
        first.tag ≠ 0x04 ∨ childContent (underEContent der s) first = stripped der s ∧
          pad8 (emitLength (s.newLength (stripped der s).length)) = 0) := by
  simp only [check_eq_ok_iff, and_self_iff]
  obtain ⟨L, stands, covered, walk⟩ := exists_levels normalized
  have run : rewriteAuthenticodeContent der false = .ok out := normalized
  rw [stands.rewrite_eq covered] at run
  simp only [walk, Except.ok.injEq, forall_eq']
  by_cases done : InForm der L.spine false
  · rw [if_pos done] at run
    cases run
    have behind : ∀ n, normalizeAuthenticodeSignature (der ++ zeros n) = .ok (der ++ zeros n) := by
      intro n
      have still := stands.append_right (zeros n)
      refine (still.rewrite_eq covered false).trans (if_pos ?_)
      exact (still.inForm_iff false).mpr ((stands.inForm_iff false).mp done)
    exact ⟨iff_of_true normalized (.inl done), iff_of_true behind (.inl done),
      iff_of_true ⟨normalized, behind _⟩ (.inl done)⟩
  · rw [if_neg done] at run
    have inside : L.spine.Contained := (stands.rebuild_returns_iff false).mp (.inl ⟨out, run⟩)
    rw [or_iff_right done, or_iff_right done, or_iff_right done]
    exact ⟨stands.fixed_iff covered inside run, stands.padded_iff covered inside run,
      stands.embedded_iff covered inside run⟩

theorem wrappedDer_rereads : Rereads wrappedDer wrappedSpine (·.tag ≠ 0x04) where
  size := by decide +kernel
  within := by decide
  first := ⟨⟨0x30, 0, 2, 4⟩, [], by decide +kernel, by decide⟩

theorem normalized_accepted_iff_wrapped : checkAuthenticodeEnvelope sampleDer = .ok () ∧
    checkAuthenticodeEnvelope (sampleDer ++ zeros (pad8 sampleDer.length)) = .ok () := by
  have normalized : normalizeAuthenticodeSignature wrappedDer = .ok sampleDer := by decide +kernel
  have walked : walkSpine wrappedDer = .ok wrappedSpine := by decide +kernel
  refine (normalized_accepted_iff normalized).2.2.mpr fun s walk => .inr ?_
  cases walked.symm.trans walk
  exact wrappedDer_rereads.mono fun _ => .inl

def nestedDer : Bytes :=
  [0x30, 0x19, 0x06, 0x01, 0x2A, 0xA0, 0x14, 0x30, 0x12, 0x02, 0x01, 0x03, 0x31, 0x00, 0x30, 0x0B,
   0x06, 0x01, 0x2A, 0xA0, 0x06, 0x04, 0x04, 0x04, 0x02, 0x30, 0x00]

theorem normalized_rejected : ¬ ∀ der out, normalizeAuthenticodeSignature der = .ok out →
    checkAuthenticodeEnvelope out = .ok () := by
  intro claim
  have normalized : normalizeAuthenticodeSignature nestedDer =
      .ok [0x30, 0x17, 0x06, 0x01, 0x2A, 0xA0, 0x12, 0x30, 0x10, 0x02, 0x01, 0x01, 0x31, 0x00, 0x30,
        0x09, 0x06, 0x01, 0x2A, 0xA0, 0x04, 0x04, 0x02, 0x30, 0x00] := by decide +kernel
  have rejected := claim _ _ normalized
  revert rejected
  decide +kernel

end Rsigncode
