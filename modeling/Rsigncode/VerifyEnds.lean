import Rsigncode.CertWalk
import Rsigncode.Verdict

/-! How a verification ends: with entries, with an error, with a panic or not at all. Which
of these it is lies in the table and in the blobs, and neither in the image nor in the
options. -/
namespace Rsigncode

open FileStore Window Tlv

theorem Res.bind_eq_error {α β : Type} {x : Res α} {f : α → Res β} {e : Fault} :
    x >>= f = .error e ↔ x = .error e ∨ ∃ a, x = .ok a ∧ f a = .error e := by
  cases x <;> simp [bind, Except.bind]

def Fault.Lost (e : Fault) : Prop := ∀ err, e ≠ .error err

theorem panic_lost : Fault.panic.Lost := fun _ => nofun

theorem fuel_lost : Fault.fuel.Lost := fun _ => nofun

theorem Res.Returns.ne_error {α : Type} {x : Res α} (h : x.Returns) {e : Fault} (lost : e.Lost) :
    x ≠ .error e := by
  rcases h with ⟨a, rfl⟩ | ⟨err, rfl⟩
  · exact fun same => nomatch same
  · exact fun same => lost err (Except.error.inj same).symm

section Rewriting

def Overruns (der : Bytes) (wrap : Bool) : Prop :=
  ∃ s, walkSpine der = .ok s ∧ ¬ InForm der s wrap ∧ ¬ s.Contained

theorem subslice_ne_fuel (b : Bytes) (start stop : Nat) : subslice b start stop ≠ .error .fuel := by
  unfold subslice
  split <;> exact fun same => nomatch same

theorem splice_ne_fuel (der : Bytes) (start : Nat) (c : Child) (stop : Nat) (new : Bytes) :
    splice der start c stop new ≠ .error .fuel :=
  Res.bind_ne_error (subslice_ne_fuel _ _ _) fun _ =>
    Res.bind_ne_error (subslice_ne_fuel _ _ _) fun _ same => nomatch same

theorem newContent_ne_fuel (der : Bytes) (s : Spine) (wrap : Bool) :
    newContent der s wrap ≠ .error .fuel := by
  unfold newContent
  split
  · exact Res.bind_ne_error (subslice_ne_fuel _ _ _) fun _ same => nomatch same
  · exact subslice_ne_fuel _ _ _
  · exact subslice_ne_fuel _ _ _

theorem rewrite_ne_fuel (der : Bytes) (wrap : Bool) :
    rewriteAuthenticodeContent der wrap ≠ .error .fuel := by
  refine Res.bind_ne_error ((walkSpine_returns der).ne_error fuel_lost) fun s =>
    Res.bind_ne_error (subslice_ne_fuel _ _ _) fun version => ?_
  split
  · exact fun same => nomatch same
  · exact Res.bind_ne_error (newContent_ne_fuel _ _ _) fun _ =>
      Res.bind_ne_error (splice_ne_fuel _ _ _ _ _) fun _ =>
      Res.bind_ne_error (splice_ne_fuel _ _ _ _ _) fun _ =>
      Res.bind_ne_error (splice_ne_fuel _ _ _ _ _) fun _ =>
      Res.bind_ne_error (splice_ne_fuel _ _ _ _ _) fun _ same => nomatch same

theorem rewrite_eq_panic {der : Bytes} {wrap : Bool} :
    rewriteAuthenticodeContent der wrap = .error .panic ↔ Overruns der wrap := by
  have comes := rewrite_returns_iff der wrap
  constructor
  · intro panics
    by_contra contained
    have returns := comes.mpr fun s walk => by
      by_contra neither
      exact contained ⟨s, walk, not_or.mp neither⟩
    exact returns.ne_error panic_lost panics
  · rintro ⟨s, walk, neither⟩
    have lost := fun h => not_or.mpr neither (comes.mp h s walk)
    rcases run : rewriteAuthenticodeContent der wrap with (e | _ | _) | out
    · exact absurd (run ▸ Res.returns_error e) lost
    · rfl
    · exact absurd run (rewrite_ne_fuel der wrap)
    · exact absurd (run ▸ Res.returns_ok out) lost

theorem check_eq_panic {der : Bytes} :
    checkAuthenticodeEnvelope der = .error .panic ↔ Overruns der false := by
  rw [checkAuthenticodeEnvelope, Res.bind_eq_error]
  refine Iff.trans (or_iff_left ?_) rewrite_eq_panic
  rintro ⟨out, -, failed⟩
  split at failed <;> cases failed

theorem cmsForm_eq_panic {der : Bytes} : cmsForm der = .error .panic ↔ Overruns der true := by
  refine Iff.trans ?_ rewrite_eq_panic
  rw [cmsForm, wrapAuthenticodeContent]
  rcases rewriteAuthenticodeContent der true with (_ | _ | _) | _ <;> simp [Res.mapErr]

theorem check_ne_fuel (der : Bytes) : checkAuthenticodeEnvelope der ≠ .error .fuel := by
  refine Res.bind_ne_error (rewrite_ne_fuel der false) fun out => ?_
  split <;> exact fun same => nomatch same

theorem cmsForm_ne_fuel (der : Bytes) : cmsForm der ≠ .error .fuel := by
  have never := rewrite_ne_fuel der true
  rw [cmsForm, wrapAuthenticodeContent]
  rcases run : rewriteAuthenticodeContent der true with (_ | _ | _) | _ <;> simp_all [Res.mapErr]

theorem derSequenceContent_returns (der : Bytes) : (derSequenceContent der).Returns := by
  refine (readHeader_returns der 0).bind ?_
  rintro ⟨tag, cs, ce⟩ read
  obtain ⟨t, here, -, rfl, rfl⟩ := readHeader_eq_ok.mp read
  dsimp only
  split
  · exact Res.returns_error _
  · rw [subslice_of_le (by have := t.bytes_length; omega) here.le]
    exact Res.returns_ok _

end Rewriting

section Never
variable {e : Fault}

theorem release_never (x y : Nat) :
    Prog.Never e (.ofExcept (Build.release.add x y) : Proc Nat) :=
  Prog.never_ofExcept (add_release x y ▸ fun same => nomatch same)

variable (lost : e.Lost)
include lost

theorem Fault.Lost.not_io : e ≠ OfIo.ofIo .unexpectedEof := lost _

theorem Fault.Lost.never_rejectIf {c : Prop} [Decidable c] {err : Error} :
    Prog.Never e (.rejectIf c (.error err) : Proc Unit) := Prog.never_rejectIf (lost err).symm

theorem parsePe_never (f : File) : Prog.Never e (parsePe .release f) := by
  have directory : ∀ p l n, signatureDirectory .release p l n ≠ .error e := by
    intro p l n
    unfold signatureDirectory
    split <;> simp [add_release, bind, Except.bind, pure, Except.pure]
  have read := lost.not_io
  refine (seekEnd_never f _).bind fun f => lost.never_rejectIf.bind fun _ =>
    (readU16_never read _).bind ?_
  rintro ⟨magic, f⟩
  refine lost.never_rejectIf.bind fun _ => (readU32_never read _).bind ?_
  rintro ⟨headerSize, f⟩
  refine lost.never_rejectIf.bind fun _ => (release_never _ _).bind fun needed =>
    lost.never_rejectIf.bind fun _ => (readU32_never read _).bind ?_
  rintro ⟨peSig, f⟩
  refine lost.never_rejectIf.bind fun _ => (readU16_never read _).bind ?_
  rintro ⟨optMagic, f⟩
  refine lost.never_rejectIf.bind fun _ => (readU32_never read _).bind ?_
  rintro ⟨nrvas, f⟩
  refine lost.never_rejectIf.bind fun _ => (readU32_never read _).bind ?_
  rintro ⟨sigpos, f⟩
  refine (readU32_never read _).bind ?_
  rintro ⟨siglen, f⟩
  exact (Prog.never_ofExcept (directory _ _ _)).bind fun _ => Prog.never_pure _

theorem parseBytes_ne_error (d : Bytes) : parseBytes .release d ≠ .error e :=
  parsePe_never lost input _

theorem extractLoop_never (other : e ≠ .fuel) (f : File) (pe : PeInfo) (rounds pos : Nat) :
    Prog.Never e (extractLoop .release f pe rounds pos) := by
  induction rounds generalizing f pos with
  | zero =>
    unfold extractLoop
    split
    · exact fun s same => other (Except.error.inj same).symm
    · exact Prog.never_pure _
  | succ rounds ih =>
    unfold extractLoop
    split
    · refine (release_never _ _).bind fun start => (readU32_never lost.not_io _).bind ?_
      rintro ⟨len, f⟩
      refine lost.never_rejectIf.bind fun _ => (readU16_never lost.not_io _).bind ?_
      rintro ⟨revision, f⟩
      refine (readU16_never lost.not_io _).bind ?_
      rintro ⟨certType, f⟩
      dsimp only
      split
      · exact (readExact_never _ _ lost.not_io).bind fun _ => Prog.never_pure _
      · exact (release_never _ _).bind fun _ => (release_never _ _).bind fun _ => ih _ _
    · exact Prog.never_pure _

theorem extractBytes_ne_error (other : e ≠ .fuel) (rounds : Nat) (d : Bytes) (pe : PeInfo) :
    extractBytes .release rounds d pe ≠ .error e := by
  rw [extractBytes, extractSignature]
  split
  · intro same
    cases same
  · exact extractLoop_never lost other _ _ _ _ _

end Never

section Blobs
variable {crates : Crates} {opts : VerifyOptions crates.Cert} {image : Bytes}

def Entered (crates : Crates) (blob : Bytes) : Prop :=
  checkAuthenticodeEnvelope blob = .ok () ∧
  ∃ cms signedData, wrapAuthenticodeContent blob = .ok cms ∧ crates.parseBer cms = .ok signedData

/-- Looking at the blob panics: in the first direction that it is rewritten in, or in the
second where the first finds nothing wrong. -/
def Breaks (blob : Bytes) : Prop :=
  Overruns blob false ∨ checkAuthenticodeEnvelope blob = .ok () ∧ Overruns blob true

variable (image) in
theorem digestMatches_returns (signedData : crates.SignedData) :
    (digestMatches crates image signedData).Returns := by
  refine (okOr_returns _ _).bind fun content _ => Res.Returns.bind ?_ fun spc _ =>
    Res.Returns.bind ?_ fun _ _ => Res.returns_pure _
  · cases crates.spcIndirectDataContent content with
    | ok spc => exact Res.returns_ok _
    | error e => exact Res.returns_error _
  · unfold imageDigest
    split
    · exact Res.returns_pure _
    · exact Res.returns_error _

theorem Res.Returns.unwrapOr {α : Type} {x : Res α} (h : x.Returns) (d : α) :
    ∃ a, x.unwrapOr d = .ok a := by
  rcases h with ⟨a, rfl⟩ | ⟨e, rfl⟩
  · exact ⟨a, rfl⟩
  · exact ⟨d, rfl⟩

theorem verifyCryptoSignature_ok (signedData : crates.SignedData) :
    ∃ ok, verifyCryptoSignature crates signedData = .ok ok := by
  unfold verifyCryptoSignature
  cases crates.signedContent signedData with
  | none => exact ⟨false, rfl⟩
  | some content =>
    dsimp only
    rcases derSequenceContent_returns content with ⟨value, read⟩ | ⟨e, read⟩ <;> rw [read] <;>
      exact ⟨_, rfl⟩

theorem decoded_ne_error {α : Type} {text : String} {x : Except String α} {e : Fault}
    (lost : e.Lost) : decoded text x ≠ .error e := by
  cases x with
  | ok a => exact fun same => nomatch same
  | error text => exact fun same => lost _ (Except.error.inj same).symm

variable (image) in
theorem verdict_rest (signedData : crates.SignedData) :
    ∃ digestOk signatureOk,
      (digestMatches crates image signedData).unwrapOr false = .ok digestOk ∧
      verifyCryptoSignature crates signedData = .ok signatureOk := by
  obtain ⟨digestOk, compared⟩ :=
    (digestMatches_returns image signedData).unwrapOr false
  obtain ⟨signatureOk, verified⟩ := verifyCryptoSignature_ok signedData
  exact ⟨digestOk, signatureOk, compared, verified⟩

variable (opts image) in
theorem exists_verdict_iff (index : Nat) {blob : Bytes} :
    (∃ entry, verdict crates opts image index blob = .ok entry) ↔ Entered crates blob := by
  simp only [verdict, Res.bind_eq_ok, cmsForm_eq_ok, decoded_eq_ok]
  constructor
  · rintro ⟨entry, _, check, cms, wrapped, signedData, read, -⟩
    exact ⟨check, cms, signedData, wrapped, read⟩
  · rintro ⟨check, cms, signedData, wrapped, read⟩
    obtain ⟨digestOk, signatureOk, compared, verified⟩ := verdict_rest image signedData
    exact ⟨_, (), check, cms, wrapped, signedData, read, digestOk, compared, signatureOk, verified,
      rfl⟩

theorem verdict_eq_error {index : Nat} {blob : Bytes} {e : Fault} (lost : e.Lost) :
    verdict crates opts image index blob = .error e ↔ checkAuthenticodeEnvelope blob = .error e ∨
      checkAuthenticodeEnvelope blob = .ok () ∧ cmsForm blob = .error e := by
  rw [verdict, Res.bind_eq_error]
  refine or_congr_right ⟨?_, fun h => ⟨(), h.1, Res.bind_eq_error.mpr (.inl h.2)⟩⟩
  rintro ⟨_, check, failed⟩
  rcases Res.bind_eq_error.mp failed with wrapped | ⟨cms, -, failed⟩
  · exact ⟨check, wrapped⟩
  · rcases Res.bind_eq_error.mp failed with read | ⟨signedData, -, failed⟩
    · exact absurd read (decoded_ne_error lost)
    · obtain ⟨_, _, compared, verified⟩ := verdict_rest image signedData
      rw [Res.bind_ok compared, Res.bind_ok verified] at failed
      cases failed

variable (opts image) in
theorem exists_verdicts_iff (index : Nat) {blobs : List Bytes} :
    (∃ entries, verdicts crates opts image index blobs = .ok entries) ↔
      ∀ blob ∈ blobs, Entered crates blob := by
  induction blobs generalizing index with
  | nil => exact iff_of_true ⟨[], rfl⟩ fun _ here => absurd here List.not_mem_nil
  | cons blob blobs ih =>
    rw [List.forall_mem_cons, ← exists_verdict_iff opts image index, ← ih (index + 1)]
    simp only [verdicts, Res.bind_eq_ok]
    constructor
    · rintro ⟨_, entry, first, entries, others, -⟩
      exact ⟨⟨entry, first⟩, entries, others⟩
    · rintro ⟨⟨entry, first⟩, entries, others⟩
      exact ⟨_, entry, first, entries, others, rfl⟩

theorem verdicts_eq_error {index : Nat} {blobs : List Bytes} {e : Fault} (lost : e.Lost) :
    verdicts crates opts image index blobs = .error e ↔
      ∃ before blob after, blobs = before ++ blob :: after ∧ (∀ b ∈ before, Entered crates b) ∧
        (checkAuthenticodeEnvelope blob = .error e ∨
          checkAuthenticodeEnvelope blob = .ok () ∧ cmsForm blob = .error e) := by
  induction blobs generalizing index with
  | nil =>
    refine iff_of_false (fun same => nomatch same) ?_
    rintro ⟨before, blob, after, split, -⟩
    cases before <;> cases split
  | cons blob blobs ih =>
    rw [verdicts, Res.bind_eq_error, verdict_eq_error lost]
    constructor
    · rintro (failed | ⟨entry, first, rest⟩)
      · exact ⟨[], blob, blobs, rfl, fun _ here => absurd here List.not_mem_nil, failed⟩
      · rcases Res.bind_eq_error.mp rest with others | ⟨_, -, ended⟩
        · obtain ⟨before, b, after, rfl, entered, failed⟩ := ih.mp others
          exact ⟨blob :: before, b, after, rfl,
            List.forall_mem_cons.mpr ⟨(exists_verdict_iff _ _ _).mp ⟨entry, first⟩, entered⟩,
            failed⟩
        · cases ended
    · rintro ⟨before, b, after, split, entered, failed⟩
      cases before with
      | nil =>
        cases split
        exact .inl failed
      | cons first before =>
        cases split
        rw [List.forall_mem_cons] at entered
        obtain ⟨entry, ok⟩ :=
          (exists_verdict_iff opts image index).mpr entered.1
        exact .inr ⟨entry, ok, Res.bind_eq_error.mpr (.inl
          (ih.mpr ⟨before, b, after, rfl, entered.2, failed⟩))⟩

variable (opts image) in
theorem exists_verifySignature_iff {x : Bytes} :
    (∃ result, verifySignature crates opts image x = .ok result) ↔
      ∃ blobs, collectSignatureBlobs crates x = .ok blobs ∧
        ∀ blob ∈ blobs, Entered crates blob := by
  simp only [verifySignature, Res.bind_eq_ok]
  constructor
  · rintro ⟨_, blobs, collected, entries, all, -⟩
    exact ⟨blobs, collected, (exists_verdicts_iff opts image 0).mp ⟨entries, all⟩⟩
  · rintro ⟨blobs, collected, all⟩
    obtain ⟨entries, run⟩ :=
      (exists_verdicts_iff opts image 0).mpr all
    exact ⟨_, blobs, collected, entries, run, rfl⟩

theorem collectSignatureBlobs_eq_error {x : Bytes} {e : Fault} (lost : e.Lost) :
    collectSignatureBlobs crates x = .error e ↔ cmsForm x = .error e := by
  rw [collectSignatureBlobs_eq, Res.bind_eq_error]
  refine or_iff_left ?_
  rintro ⟨cms, -, failed⟩
  rcases Res.bind_eq_error.mp failed with read | ⟨_, -, ended⟩
  · exact decoded_ne_error lost read
  · cases ended

theorem verifySignature_eq_error {x : Bytes} {e : Fault} (lost : e.Lost) :
    verifySignature crates opts image x = .error e ↔ cmsForm x = .error e ∨
      ∃ before blob after, collectSignatureBlobs crates x = .ok (before ++ blob :: after) ∧
        (∀ b ∈ before, Entered crates b) ∧ (checkAuthenticodeEnvelope blob = .error e ∨
          checkAuthenticodeEnvelope blob = .ok () ∧ cmsForm blob = .error e) := by
  rw [verifySignature, Res.bind_eq_error, collectSignatureBlobs_eq_error lost]
  refine or_congr_right ⟨?_, ?_⟩
  · rintro ⟨blobs, collected, failed⟩
    rcases Res.bind_eq_error.mp failed with run | ⟨_, -, ended⟩
    · obtain ⟨before, blob, after, rfl, entered, failed⟩ := (verdicts_eq_error lost).mp run
      exact ⟨before, blob, after, collected, entered, failed⟩
    · cases ended
  · rintro ⟨before, blob, after, collected, entered, failed⟩
    exact ⟨_, collected, Res.bind_eq_error.mpr (.inl
      ((verdicts_eq_error lost).mpr ⟨before, blob, after, rfl, entered, failed⟩))⟩

def Bears (rounds : Nat) (d x : Bytes) : Prop :=
  ∃ pe, parseBytes .release d = .ok pe ∧ extractBytes .release rounds d pe = .ok (some x)

theorem verifyBytes_eq_error {rounds : Nat} {reads : FileStore.Reads} {d : Bytes} {e : Fault}
    (lost : e.Lost) : verifyBytes crates opts .release rounds reads d = .error e ↔
      (∃ pe, parseBytes .release d = .ok pe ∧ extractBytes .release rounds d pe = .error e) ∨
      ∃ x pe, parseBytes .release d = .ok pe ∧ extractBytes .release rounds d pe = .ok (some x) ∧
        verifySignature crates opts (digestStream d pe) x = .error e := by
  have absent : ∀ found : Option Bytes, okOr found (.error .noSignature) ≠ .error e := fun found =>
    (okOr_returns found .noSignature).ne_error lost
  simp only [verifyBytes_eq, Res.bind_eq_error, parseBytes_ne_error lost, absent, false_or,
    okOr_eq_ok]
  constructor
  · rintro ⟨pe, accepted, failed | ⟨_, extracted, x, rfl, failed⟩⟩
    · exact .inl ⟨pe, accepted, failed⟩
    · exact .inr ⟨x, pe, accepted, extracted, failed⟩
  · rintro (⟨pe, accepted, failed⟩ | ⟨x, pe, accepted, extracted, failed⟩)
    · exact ⟨pe, accepted, .inl failed⟩
    · exact ⟨pe, accepted, .inr ⟨_, extracted, x, rfl, failed⟩⟩

variable (crates opts) in
/-- How verification ends, on any file: it comes to entries where every signature in the
file gets one, it panics where one overruns before another is refused, and it goes on for
ever in the table or nowhere. The image and the options have no part in that. -/
theorem verifyBytes_ends (rounds : Nat) (reads : FileStore.Reads) (d : Bytes) :
    ((∃ result, verifyBytes crates opts .release rounds reads d = .ok result) ↔
      ∃ x blobs, Bears rounds d x ∧ collectSignatureBlobs crates x = .ok blobs ∧
        ∀ blob ∈ blobs, Entered crates blob) ∧
    (verifyBytes crates opts .release rounds reads d = .error .panic ↔
      ∃ x, Bears rounds d x ∧ (Overruns x true ∨
        ∃ before blob after, collectSignatureBlobs crates x = .ok (before ++ blob :: after) ∧
          (∀ b ∈ before, Entered crates b) ∧ Breaks blob)) ∧
    (verifyBytes crates opts .release rounds reads d = .error .fuel ↔
      ∃ pe, parseBytes .release d = .ok pe ∧ extractBytes .release rounds d pe = .error .fuel) := by
  refine ⟨?_, (verifyBytes_eq_error panic_lost).trans ?_,
    (verifyBytes_eq_error fuel_lost).trans ?_⟩
  · simp only [verifyBytes_eq, Res.bind_eq_ok, okOr_eq_ok]
    constructor
    · rintro ⟨result, pe, accepted, _, extracted, x, rfl, run⟩
      obtain ⟨blobs, collected, entered⟩ := (exists_verifySignature_iff _ _).mp ⟨result, run⟩
      exact ⟨x, blobs, ⟨pe, accepted, extracted⟩, collected, entered⟩
    · rintro ⟨x, blobs, ⟨pe, accepted, extracted⟩, collected, entered⟩
      obtain ⟨result, run⟩ := (exists_verifySignature_iff opts (digestStream d pe)).mpr
        ⟨blobs, collected, entered⟩
      exact ⟨result, pe, accepted, _, extracted, x, rfl, run⟩
  · simp only [extractBytes_ne_error panic_lost nofun, and_false, exists_false, false_or,
      verifySignature_eq_error panic_lost, check_eq_panic, cmsForm_eq_panic]
    constructor
    · rintro ⟨x, pe, accepted, extracted, breaks⟩
      exact ⟨x, ⟨pe, accepted, extracted⟩, breaks⟩
    · rintro ⟨x, ⟨pe, accepted, extracted⟩, breaks⟩
      exact ⟨x, pe, accepted, extracted, breaks⟩
  · simp only [verifySignature_eq_error fuel_lost, check_ne_fuel, cmsForm_ne_fuel, and_false,
      or_self, exists_false, or_false]

end Blobs

end Rsigncode
