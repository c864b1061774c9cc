import Rsigncode.ChainTrust
import Rsigncode.Verdict

/-! When a file is accepted, exactly, and how that depends on what the options ask for. -/
namespace Rsigncode

open FileStore Window

variable {crates : Crates} {opts : VerifyOptions crates.Cert}

/-- What an accepted blob passes: its envelope, the digest it states for the image, every
signer, and the checks that the options ask for. -/
structure Passes (crates : Crates) (opts : VerifyOptions crates.Cert) (image blob cms : Bytes)
    (signedData : crates.SignedData) (content value : Bytes) (spc : SpcIndirectDataContent Oid)
    (finalize : Bytes → Bytes) : Prop where
  envelope : checkAuthenticodeEnvelope blob = .ok ()
  wrapped : wrapAuthenticodeContent blob = .ok cms
  read : crates.parseBer cms = .ok signedData
  present : crates.signedContent signedData = some content
  parsed : crates.spcIndirectDataContent content = .ok spc
  named : hasherFor crates spc.digestAlgorithm = some finalize
  digest : finalize image = spc.digest
  committed : derSequenceContent content = .ok value
  nonempty : crates.signers signedData ≠ []
  verified : ∀ signer ∈ crates.signers signedData,
    crates.verifyMessageDigestWithContent signer value = true ∧
    crates.verifySignatureWithSignedData signer signedData = true
  chain : opts.caCerts ≠ [] → verifyChain crates signedData opts.caCerts = true
  timestamp : opts.ignoreTimestamp = false → verifyTimestamp crates cms ≠ some false
  leafHash : ∀ spec, opts.requireLeafHash = some spec →
    verifyLeafHashForSigner crates signedData spec = true

def PassesBlob (crates : Crates) (opts : VerifyOptions crates.Cert) (image blob : Bytes) : Prop :=
  ∃ cms signedData content value spc finalize,
    Passes crates opts image blob cms signedData content value spc finalize

theorem Res.unwrapOr_false {x : Res Bool} : x.unwrapOr false = .ok true ↔ x = .ok true := by
  rcases x with (_ | _ | _) | _ <;> simp [unwrapOr]

theorem digestMatches_eq_true {image : Bytes} {signedData : crates.SignedData} :
    digestMatches crates image signedData = .ok true ↔ ∃ content spc finalize,
      crates.signedContent signedData = some content ∧
      crates.spcIndirectDataContent content = .ok spc ∧
      hasherFor crates spc.digestAlgorithm = some finalize ∧ finalize image = spc.digest := by
  simp only [digestMatches, Res.bind_eq_ok, okOr_eq_ok, decoded_eq_ok, imageDigest]
  constructor
  · rintro ⟨content, present, spc, parsed, actual, computed, same⟩
    split at computed
    · next finalize named =>
      cases computed
      exact ⟨content, spc, finalize, present, parsed, named,
        beq_iff_eq.mp (Except.ok.inj same)⟩
    · cases computed
  · rintro ⟨content, spc, finalize, present, parsed, named, same⟩
    refine ⟨content, present, spc, parsed, finalize image, by rw [named]; rfl, ?_⟩
    rw [same, beq_self_eq_true]
    rfl

theorem verifyCryptoSignature_eq_true {signedData : crates.SignedData} :
    verifyCryptoSignature crates signedData = .ok true ↔
      ∃ content value, crates.signedContent signedData = some content ∧
        derSequenceContent content = .ok value ∧ crates.signers signedData ≠ [] ∧
        ∀ signer ∈ crates.signers signedData,
          crates.verifyMessageDigestWithContent signer value = true ∧
          crates.verifySignatureWithSignedData signer signedData = true := by
  refine ⟨verifyCryptoSignature_eq_ok, ?_⟩
  rintro ⟨content, value, present, committed, nonempty, verified⟩
  simp only [verifyCryptoSignature, present, committed]
  exact congrArg Except.ok (checkSigners_eq_true.mpr ⟨.inl nonempty, verified⟩)

theorem extractSignatureInfo_open (signedData : crates.SignedData) (rawDer : Bytes)
    (index : Nat) : (extractSignatureInfo crates signedData rawDer index).chainOk = none ∧
      (extractSignatureInfo crates signedData rawDer index).timestampOk = none ∧
      (extractSignatureInfo crates signedData rawDer index).leafHashOk = none := by
  have opus : ∀ (attributes : List Attribute) (result : SignatureResult crates.Time),
      (withOpusInfo crates attributes result).chainOk = result.chainOk ∧
        (withOpusInfo crates attributes result).timestampOk = result.timestampOk ∧
        (withOpusInfo crates attributes result).leafHashOk = result.leafHashOk := by
    intro attributes result
    induction attributes generalizing result with
    | nil => exact ⟨rfl, rfl, rfl⟩
    | cons attr rest ih =>
      rw [withOpusInfo, List.foldl_cons]
      obtain ⟨chain, timestamp, leafHash⟩ := ih _
      refine ⟨chain.trans ?_, timestamp.trans ?_, leafHash.trans ?_⟩ <;>
      · split
        · split <;> rfl
        · rfl
  have signer : ∀ result : SignatureResult crates.Time,
      (withSignerInfo crates signedData result).chainOk = result.chainOk ∧
        (withSignerInfo crates signedData result).timestampOk = result.timestampOk ∧
        (withSignerInfo crates signedData result).leafHashOk = result.leafHashOk := by
    intro result
    unfold withSignerInfo
    cases crates.signers signedData with
    | nil => exact ⟨rfl, rfl, rfl⟩
    | cons signer rest =>
      cases attrs : crates.signedAttributes signer <;>
        cases cert : findSignerCert crates signedData signer <;> simp [attrs, cert, opus]
  simp only [extractSignatureInfo, signer]
  split <;> exact ⟨rfl, rfl, rfl⟩

theorem getD_true_iff {o : Option Bool} : o.getD true = true ↔ o ≠ some false := by
  rcases o with _ | _ | _ <;> simp

theorem verdict_passes_iff {image blob : Bytes} {index : Nat} :
    (∃ entry, verdict crates opts image index blob = .ok entry ∧ entry.passes = true) ↔
      PassesBlob crates opts image blob := by
  simp only [verdict, Res.bind_eq_ok, cmsForm_eq_ok, decoded_eq_ok]
  constructor
  · rintro ⟨_, ⟨_, envelope, cms, wrapped, signedData, read, digestOk, digestRun, signatureOk,
      signatureRun, last⟩, passes⟩
    cases last
    obtain ⟨chain, timestamp, leafHash⟩ := extractSignatureInfo_open signedData cms index
    simp only [SignatureResult.passes, Bool.and_eq_true, chain, timestamp, leafHash] at passes
    obtain ⟨⟨⟨⟨rfl, rfl⟩, chained⟩, stamped⟩, hashed⟩ := passes
    obtain ⟨content, spc, finalize, present, parsed, named, digest⟩ :=
      digestMatches_eq_true.mp (Res.unwrapOr_false.mp digestRun)
    obtain ⟨content', value, present', committed, nonempty, verified⟩ :=
      verifyCryptoSignature_eq_true.mp signatureRun
    cases present.symm.trans present'
    exact ⟨cms, signedData, content, value, spc, finalize, {
      envelope, wrapped, read, present, parsed, named, digest, committed, nonempty, verified
      chain := fun given => by
        rwa [if_neg (by simpa using given)] at chained
      timestamp := fun asked => by
        rw [if_neg (by simp [asked])] at stamped
        exact getD_true_iff.mp stamped
      leafHash := fun spec asked => by
        simpa only [asked, Option.getD_some] using hashed }⟩
  · rintro ⟨cms, signedData, content, value, spc, finalize, p⟩
    obtain ⟨chain, timestamp, leafHash⟩ := extractSignatureInfo_open signedData cms index
    have digestOk := digestMatches_eq_true.mpr
      ⟨content, spc, finalize, p.present, p.parsed, p.named, p.digest⟩
    have signatureOk := verifyCryptoSignature_eq_true.mpr
      ⟨content, value, p.present, p.committed, p.nonempty, p.verified⟩
    refine ⟨_, ⟨(), p.envelope, cms, p.wrapped, signedData, p.read, true,
      Res.unwrapOr_false.mpr digestOk, true, signatureOk, rfl⟩, ?_⟩
    simp only [SignatureResult.passes, Bool.and_eq_true, chain, timestamp, leafHash]
    refine ⟨⟨⟨⟨trivial, trivial⟩, ?_⟩, ?_⟩, ?_⟩
    · split
      · rfl
      · next given => exact p.chain (by simpa using given)
    · split
      · rfl
      · next asked => exact getD_true_iff.mpr (p.timestamp (by simpa using asked))
    · split
      · next spec asked => exact p.leafHash spec asked
      · rfl

theorem verdicts_pass_iff {image : Bytes} {blobs : List Bytes} {index : Nat} :
    (∃ entries, verdicts crates opts image index blobs = .ok entries ∧
      entries.all SignatureResult.passes = true) ↔
      ∀ blob ∈ blobs, PassesBlob crates opts image blob := by
  induction blobs generalizing index with
  | nil => simp [verdicts, pure, Except.pure]
  | cons blob blobs ih =>
    have first : (∃ entry, verdict crates opts image index blob = .ok entry ∧
        entry.passes = true) ↔ _ := verdict_passes_iff
    have rest : (∃ entries, verdicts crates opts image (index + 1) blobs = .ok entries ∧
        entries.all SignatureResult.passes = true) ↔ _ := ih
    rw [List.forall_mem_cons, ← first, ← rest]
    simp only [verdicts, Res.bind_eq_ok]
    constructor
    · rintro ⟨_, ⟨entry, first, entries, rest, last⟩, passes⟩
      cases last
      rw [List.all_cons, Bool.and_eq_true] at passes
      exact ⟨⟨entry, first, passes.1⟩, entries, rest, passes.2⟩
    · rintro ⟨⟨entry, first, here⟩, entries, rest, there⟩
      exact ⟨_, ⟨entry, first, entries, rest, rfl⟩, by rw [List.all_cons, here, there]; rfl⟩

theorem verdicts_length {image : Bytes} {blobs : List Bytes} {index : Nat}
    {entries : List (SignatureResult crates.Time)}
    (run : verdicts crates opts image index blobs = .ok entries) :
    entries.length = blobs.length := by
  induction blobs generalizing index entries with
  | nil =>
    cases run
    rfl
  | cons blob blobs ih =>
    simp only [verdicts, Res.bind_eq_ok] at run
    obtain ⟨entry, first, rest, others, same⟩ := run
    cases same
    rw [List.length_cons, ih others, List.length_cons]

/-- A signature is accepted on an image exactly when it and every signature nested in it
pass, each by itself. -/
theorem verifySignature_accepts_iff {image x : Bytes} :
    (∃ result, verifySignature crates opts image x = .ok result ∧ result.allOk = true) ↔
      ∃ cms lowLevel, wrapAuthenticodeContent x = .ok cms ∧ crates.decodeBer cms = .ok lowLevel ∧
        ∀ blob ∈ x :: nestedSignatures crates lowLevel, PassesBlob crates opts image blob := by
  simp only [verifySignature_eq, Res.bind_eq_ok, cmsForm_eq_ok, decoded_eq_ok]
  constructor
  · rintro ⟨_, ⟨cms, wrapped, lowLevel, read, entries, run, last⟩, ok⟩
    cases last
    simp only [VerifyResult.allOk, Bool.and_eq_true] at ok
    exact ⟨cms, lowLevel, wrapped, read, verdicts_pass_iff.mp ⟨entries, run, ok.2⟩⟩
  · rintro ⟨cms, lowLevel, wrapped, read, all⟩
    obtain ⟨entries, run, passes⟩ := verdicts_pass_iff.mpr all
    refine ⟨_, ⟨cms, wrapped, lowLevel, read, entries, run, rfl⟩, ?_⟩
    have size := verdicts_length run
    rw [VerifyResult.allOk, passes]
    cases entries with
    | nil => cases size
    | cons entry entries => rfl

theorem verifyBytes_accepts (b : Build) (rounds : Nat) (reads : Reads) (cur : Bytes) :
    (∃ result, verifyBytes crates opts b rounds reads cur = .ok result ∧ result.allOk = true) ↔
      ∃ pe x, parseBytes b cur = .ok pe ∧ extractBytes b rounds cur pe = .ok (some x) ∧
        ∃ result, verifySignature crates opts (digestStream cur pe) x = .ok result ∧
          result.allOk = true := by
  simp only [verifyBytes_eq, Res.bind_eq_ok, okOr_eq_ok]
  constructor
  · rintro ⟨result, ⟨pe, parsed, _, extracted, x, rfl, run⟩, ok⟩
    exact ⟨pe, x, parsed, extracted, result, run, ok⟩
  · rintro ⟨pe, x, parsed, extracted, result, run, ok⟩
    exact ⟨result, ⟨pe, parsed, _, extracted, x, rfl, run⟩, ok⟩

/-- A file is accepted exactly when its headers are, its table holds a signature and that
signature is accepted on its image; how it was read does not matter. -/
theorem verifyBytes_accepts_iff (b : Build) (rounds : Nat) (reads : Reads) (cur : Bytes) :
    (∃ result, verifyBytes crates opts b rounds reads cur = .ok result ∧ result.allOk = true) ↔
      ∃ pe x cms lowLevel, parseBytes b cur = .ok pe ∧
        extractBytes b rounds cur pe = .ok (some x) ∧
        wrapAuthenticodeContent x = .ok cms ∧ crates.decodeBer cms = .ok lowLevel ∧
        ∀ blob ∈ x :: nestedSignatures crates lowLevel,
          PassesBlob crates opts (digestStream cur pe) blob := by
  rw [verifyBytes_accepts]
  constructor
  · rintro ⟨pe, x, parsed, extracted, accepted⟩
    obtain ⟨cms, lowLevel, wrapped, read, all⟩ := verifySignature_accepts_iff.mp accepted
    exact ⟨pe, x, cms, lowLevel, parsed, extracted, wrapped, read, all⟩
  · rintro ⟨pe, x, cms, lowLevel, parsed, extracted, wrapped, read, all⟩
    exact ⟨pe, x, parsed, extracted,
      verifySignature_accepts_iff.mpr ⟨cms, lowLevel, wrapped, read, all⟩⟩

section Options

/-- `opts` asks for nothing that `opts'` does not ask for, and trusts at least as much. -/
structure AsksNoMore {Cert : Type} (opts opts' : VerifyOptions Cert) : Prop where
  chain : opts.caCerts ≠ [] → opts'.caCerts ≠ [] ∧ opts'.caCerts ⊆ opts.caCerts
  leafHash : ∀ spec, opts.requireLeafHash = some spec → opts'.requireLeafHash = some spec
  timestamp : opts.ignoreTimestamp = false → opts'.ignoreTimestamp = false

theorem verifyChain_mono {signedData : crates.SignedData} {caCerts caCerts' : List crates.Cert}
    (more : caCerts ⊆ caCerts') (accepted : verifyChain crates signedData caCerts = true) :
    verifyChain crates signedData caCerts' = true := by
  unfold verifyChain at accepted ⊢
  cases found : firstSignerCert crates signedData with
  | none =>
    rw [found] at accepted
    cases accepted
  | some cert =>
    rw [found] at accepted
    exact verifyChainToCa_subset more accepted

theorem PassesBlob.mono {opts' : VerifyOptions crates.Cert} (less : AsksNoMore opts opts')
    {image blob : Bytes} (h : PassesBlob crates opts' image blob) :
    PassesBlob crates opts image blob := by
  obtain ⟨cms, signedData, content, value, spc, finalize, p⟩ := h
  exact ⟨cms, signedData, content, value, spc, finalize, { p with
    chain := fun given => by
      obtain ⟨given', more⟩ := less.chain given
      exact verifyChain_mono more (p.chain given')
    timestamp := fun asked => p.timestamp (less.timestamp asked)
    leafHash := fun spec asked => p.leafHash spec (less.leafHash spec asked) }⟩

/-- Options that ask for no more, and trust no less, reject no file that was accepted. -/
theorem asking_less_accepts {opts' : VerifyOptions crates.Cert} (less : AsksNoMore opts opts')
    (b : Build) (rounds : Nat) (reads reads' : Reads) (cur : Bytes)
    (accepted : ∃ result, verifyBytes crates opts' b rounds reads' cur = .ok result ∧
      result.allOk = true) :
    ∃ result, verifyBytes crates opts b rounds reads cur = .ok result ∧ result.allOk = true := by
  rw [verifyBytes_accepts] at accepted ⊢
  obtain ⟨pe, x, parsed, extracted, accepted⟩ := accepted
  obtain ⟨cms, lowLevel, wrapped, read, all⟩ := verifySignature_accepts_iff.mp accepted
  exact ⟨pe, x, parsed, extracted, verifySignature_accepts_iff.mpr
    ⟨cms, lowLevel, wrapped, read, fun blob here => (all blob here).mono less⟩⟩

def sampleOptions : VerifyOptions sampleCrates.Cert := ⟨[[1]], none, false⟩

def laxOptions : VerifyOptions sampleCrates.Cert := ⟨[[2], [1]], none, true⟩

theorem laxOptions_asksNoMore : AsksNoMore laxOptions sampleOptions where
  chain _ := ⟨List.cons_ne_nil _ _, List.subset_cons_self [2] [[1]]⟩
  leafHash _ asked := by cases asked
  timestamp asked := by cases asked

theorem sampleFile_accepted : ∃ result,
    verifyBytes sampleCrates sampleOptions .release 1 uncut sampleFile = .ok result ∧
      result.allOk = true :=
  Res.exists_ok (by decide +kernel)

theorem asking_less_accepts_sample :
    ∃ result, verifyBytes sampleCrates laxOptions .release 1 uncut sampleFile = .ok result ∧
      result.allOk = true :=
  asking_less_accepts laxOptions_asksNoMore .release 1 uncut uncut sampleFile sampleFile_accepted

end Options

section VerifyPe
variable (crates)

def VerifyOptions.default (Cert : Type) : VerifyOptions Cert where
  caCerts := []
  requireLeafHash := none
  ignoreTimestamp := false

def verifyPe (b : Build) (rounds : Nat) (f : File) : Proc Unit := do
  let result ← verifyPeRich crates (.default crates.Cert) b rounds f
  if result.allOk then pure ()
  else .fail (.error (.verification "signature verification failed"))

variable {crates}

theorem verifyPe_accepts_iff (b : Build) (rounds : Nat) (reads : Reads) (cur : Bytes) :
    ((verifyPe crates b rounds input).run (workspace cur reads)).1 = .ok () ↔
      ∃ result, verifyBytes crates (.default crates.Cert) b rounds reads cur = .ok result ∧
        result.allOk = true := by
  rw [verifyBytes, verifyPe]
  rcases run : (verifyPeRich crates (.default crates.Cert) b rounds input).run
    (workspace cur reads) with ⟨e | result, t⟩
  · rw [Prog.bind_error run]
    simp
  · rw [Prog.bind_ok run]
    cases ok : result.allOk <;> simp [ok]

end VerifyPe

end Rsigncode
