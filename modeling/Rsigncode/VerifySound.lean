import Rsigncode.PeDigest
import Rsigncode.RewriteSpec
import Rsigncode.Verify

/-! What an accepted file is known to satisfy, whatever the crates answer. -/
namespace Rsigncode

open FileStore Window

theorem decoded_eq_ok {α : Type} {text : String} {x : Except String α} {a : α} :
    decoded text x = .ok a ↔ x = .ok a := by
  cases x <;> simp [decoded]

variable {crates : Crates} {opts : VerifyOptions crates.Cert}

theorem cmsForm_eq_ok {blob cms : Bytes} :
    cmsForm blob = .ok cms ↔ wrapAuthenticodeContent blob = .ok cms := Res.mapErr_eq_ok

variable (crates) in
def nestedSignatures (lowLevel : Rfc5652SignedData crates.DataFields crates.SignerFields) :
    List Bytes :=
  lowLevel.signerInfos.flatMap fun signerInfo =>
    (signerInfo.unsignedAttributes.getD []).flatMap fun attr =>
      if attr.typ = spcNestedSignature then attr.values else []

theorem foldl_push {α β : Type} {f : List β → α → List β} {g : α → List β}
    (push : ∀ acc a, f acc a = acc ++ g a) (l : List α) (acc : List β) :
    l.foldl f acc = acc ++ l.flatMap g := by
  induction l generalizing acc with
  | nil => simp
  | cons a l ih => rw [List.foldl_cons, push, ih, List.flatMap_cons, List.append_assoc]

theorem collectSignatureBlobs_eq_ok {pkcs7Der : Bytes} {blobs : List Bytes} :
    collectSignatureBlobs crates pkcs7Der = .ok blobs ↔
      ∃ cms lowLevel, wrapAuthenticodeContent pkcs7Der = .ok cms ∧
        crates.decodeBer cms = .ok lowLevel ∧
        blobs = pkcs7Der :: nestedSignatures crates lowLevel := by
  have values : ∀ (blobs : List Bytes) (attr : Attribute),
      (if attr.typ == spcNestedSignature then
        attr.values.foldl (fun blobs value => blobs ++ [value]) blobs else blobs) =
      blobs ++ if attr.typ = spcNestedSignature then attr.values else [] := by
    intro blobs attr
    rw [foldl_push fun acc value => rfl]
    by_cases nested : attr.typ = spcNestedSignature <;> simp [nested]
  have attributes := fun (blobs : List Bytes) (attrs : List Attribute) =>
    foldl_push values attrs blobs
  simp only [collectSignatureBlobs, Res.bind_eq_ok, cmsForm_eq_ok, decoded_eq_ok]
  constructor
  · rintro ⟨cms, wrapped, lowLevel, parsed, same⟩
    refine ⟨cms, lowLevel, wrapped, parsed, ?_⟩
    cases same
    refine foldl_push (fun blobs signerInfo => ?_) _ _
    cases signerInfo.unsignedAttributes with
    | none => simp
    | some attrs => exact attributes blobs attrs
  · rintro ⟨cms, lowLevel, wrapped, parsed, rfl⟩
    refine ⟨cms, wrapped, lowLevel, parsed, congrArg Except.ok ?_⟩
    refine foldl_push (fun blobs signerInfo => ?_) _ _
    cases signerInfo.unsignedAttributes with
    | none => simp
    | some attrs => exact attributes blobs attrs

theorem checkSigners_eq_true {signedData : crates.SignedData} {value : Bytes}
    {signers : List crates.Signer} {found : Bool} :
    checkSigners crates signedData value signers found = true ↔
      (signers ≠ [] ∨ found = true) ∧ ∀ signer ∈ signers,
        crates.verifyMessageDigestWithContent signer value = true ∧
        crates.verifySignatureWithSignedData signer signedData = true := by
  induction signers generalizing found with
  | nil => simp [checkSigners]
  | cons signer rest ih =>
    cases committed : crates.verifyMessageDigestWithContent signer value <;>
      cases signed : crates.verifySignatureWithSignedData signer signedData <;>
        simp [checkSigners, committed, signed, ih]

theorem verifyCryptoSignature_eq_ok {signedData : crates.SignedData}
    (accepted : verifyCryptoSignature crates signedData = .ok true) :
    ∃ content value, crates.signedContent signedData = some content ∧
      derSequenceContent content = .ok value ∧ crates.signers signedData ≠ [] ∧
      ∀ signer ∈ crates.signers signedData,
        crates.verifyMessageDigestWithContent signer value = true ∧
        crates.verifySignatureWithSignedData signer signedData = true := by
  unfold verifyCryptoSignature at accepted
  split at accepted
  · cases accepted
  · rename_i content present
    split at accepted
    · rename_i value sequence
      obtain ⟨nonempty, all⟩ := checkSigners_eq_true.mp (Except.ok.inj accepted)
      exact ⟨content, value, present, sequence, by simpa using nonempty, all⟩
    · cases accepted
    · cases accepted

theorem authenticodeDigest_sameFiles (f : File) (pe : PeInfo) (hasher : Hasher) :
    Prog.Within SameFiles (authenticodeDigest f pe hasher) := by
  intro s
  obtain ⟨t, run, same⟩ := authenticodeDigest_run f pe hasher s
  rwa [run]

theorem verifyDigest_sameFiles (f : File) (pe : PeInfo) (signedData : crates.SignedData) :
    Prog.Within SameFiles (verifyDigest crates f pe signedData) := by
  have result : ∀ algoOid, Prog.Within SameFiles (computePeDigest crates f pe algoOid) := by
    intro algoOid
    unfold computePeDigest
    split
    · exact (authenticodeDigest_sameFiles f pe []).bind SameFiles.trans
        fun _ => Prog.within_pure SameFiles.refl _
    · exact Prog.within_fail SameFiles.refl _
  exact (Prog.within_ofExcept SameFiles.refl _).bind SameFiles.trans fun _ =>
    (Prog.within_ofExcept SameFiles.refl _).bind SameFiles.trans fun spc =>
      (result spc.digestAlgorithm).bind SameFiles.trans fun _ =>
        Prog.within_pure SameFiles.refl _

theorem verifyDigest_eq_ok {f : File} {pe : PeInfo} {signedData : crates.SignedData}
    {s t : Store} (run : (verifyDigest crates f pe signedData).run s = (.ok true, t)) :
    ∃ content spc finalize, crates.signedContent signedData = some content ∧
      crates.spcIndirectDataContent content = .ok spc ∧
      hasherFor crates spc.digestAlgorithm = some finalize ∧
      finalize (digestStream (s.data f.path) pe) = spc.digest := by
  simp only [verifyDigest, Prog.bind_eq_ok, Prog.ofExcept_eq_ok, okOr_eq_ok, decoded_eq_ok] at run
  obtain ⟨content, _, ⟨present, rfl⟩, spc, s, ⟨parsed, rfl⟩, actual, u, computed, same⟩ := run
  have equal : actual = spc.digest := beq_iff_eq.mp (Prog.pure_eq_ok.mp same).1.symm
  unfold computePeDigest at computed
  split at computed
  · rename_i finalize named
    obtain ⟨v, fed, -⟩ := authenticodeDigest_run f pe [] s
    rw [Prog.bind_ok fed, List.nil_append] at computed
    exact ⟨content, spc, finalize, present, parsed, named,
      (Prog.pure_eq_ok.mp computed).1.symm.trans equal⟩
  · cases computed

theorem verifyChain_eq_true {signedData : crates.SignedData} {caCerts : List crates.Cert}
    (accepted : verifyChain crates signedData caCerts = true) :
    ∃ signer ∈ crates.signers signedData, ∃ cert,
      findSignerCert crates signedData signer = some cert ∧
      verifyChainToCa crates.x509 cert (crates.certificates signedData) caCerts = true := by
  unfold verifyChain at accepted
  split at accepted
  · rename_i cert found
    obtain ⟨signer, here, found⟩ := List.exists_of_findSome?_eq_some found
    exact ⟨signer, here, cert, found, accepted⟩
  · cases accepted

theorem withOpusInfo_keeps (attributes : List Attribute) (result : SignatureResult crates.Time) :
    (withOpusInfo crates attributes result).index = result.index ∧
      (withOpusInfo crates attributes result).messageDigest = result.messageDigest := by
  induction attributes generalizing result with
  | nil => exact ⟨rfl, rfl⟩
  | cons attr rest ih =>
    rw [withOpusInfo, List.foldl_cons]
    obtain ⟨index, digest⟩ := ih _
    refine ⟨index.trans ?_, digest.trans ?_⟩ <;>
    · split
      · split <;> rfl
      · rfl

theorem withSignerInfo_keeps (signedData : crates.SignedData)
    (result : SignatureResult crates.Time) :
    (withSignerInfo crates signedData result).index = result.index ∧
      (withSignerInfo crates signedData result).messageDigest = result.messageDigest := by
  unfold withSignerInfo
  cases crates.signers signedData with
  | nil => exact ⟨rfl, rfl⟩
  | cons signer rest =>
    cases attrs : crates.signedAttributes signer <;>
      cases cert : findSignerCert crates signedData signer <;>
        simp [attrs, cert, withOpusInfo_keeps]

theorem extractSignatureInfo_index (signedData : crates.SignedData) (rawDer : Bytes)
    (index : Nat) : (extractSignatureInfo crates signedData rawDer index).index = index := by
  simp only [extractSignatureInfo, withSignerInfo_keeps]
  split <;> rfl

theorem extractSignatureInfo_messageDigest {signedData : crates.SignedData} {content : Bytes}
    {spc : SpcIndirectDataContent Oid} (present : crates.signedContent signedData = some content)
    (parsed : crates.spcIndirectDataContent content = .ok spc) (rawDer : Bytes) (index : Nat) :
    (extractSignatureInfo crates signedData rawDer index).messageDigest = spc.digest := by
  simp only [extractSignatureInfo, present, parsed, Option.bind_some, Except.toOption,
    withSignerInfo_keeps]

variable (crates opts) in
/-- What stands behind the entry of a blob: its envelope, its content and the digest
it states, its signers, and the chain of one of them. -/
structure Vouched (cur : Bytes) (pe : PeInfo) (blob : Bytes) (entry : SignatureResult crates.Time)
    (signedData : crates.SignedData) (content value : Bytes) (spc : SpcIndirectDataContent Oid)
    (finalize : Bytes → Bytes) : Prop where
  envelope : checkAuthenticodeEnvelope blob = .ok ()
  read : ∃ cms, wrapAuthenticodeContent blob = .ok cms ∧ crates.parseBer cms = .ok signedData
  present : crates.signedContent signedData = some content
  parsed : crates.spcIndirectDataContent content = .ok spc
  reported : entry.messageDigest = spc.digest
  named : hasherFor crates spc.digestAlgorithm = some finalize
  digest : ∀ reads, ∃ stream, digestBytes reads cur pe = .ok stream ∧
    finalize stream = spc.digest
  committed : derSequenceContent content = .ok value
  nonempty : crates.signers signedData ≠ []
  verified : ∀ signer ∈ crates.signers signedData,
    crates.verifyMessageDigestWithContent signer value = true ∧
    crates.verifySignatureWithSignedData signer signedData = true
  chain : opts.caCerts ≠ [] → ∃ signer ∈ crates.signers signedData,
    ∃ cert ∈ crates.certificates signedData,
      findSignerCert crates signedData signer = some cert ∧
      verifyChainToCa crates.x509 cert (crates.certificates signedData) opts.caCerts = true ∧
      ChainsTo crates.x509 (crates.certificates signedData ++ opts.caCerts) opts.caCerts cert

variable (crates opts) in
def Accepted (cur : Bytes) (pe : PeInfo) (blob : Bytes)
    (entry : SignatureResult crates.Time) : Prop :=
  ∃ signedData content value spc finalize,
    Vouched crates opts cur pe blob entry signedData content value spc finalize

theorem verifyBlob_sound {f : File} {pe : PeInfo} {index : Nat} {blob : Bytes}
    {entry : SignatureResult crates.Time} {s t : Store}
    (run : (verifyBlob crates opts f pe index blob).run s = (.ok entry, t)) :
    SameFiles s t ∧ entry.index = index ∧
      (entry.passes = true → Accepted crates opts (s.data f.path) pe blob entry) := by
  simp only [verifyBlob, Prog.bind_eq_ok, Prog.ofExcept_eq_ok, decoded_eq_ok, cmsForm_eq_ok]
    at run
  obtain ⟨_, _, ⟨envelope, rfl⟩, cms, _, ⟨wrapped, rfl⟩, signedData, s, ⟨read, rfl⟩, digestOk, u,
    digestRun, signatureOk, _, ⟨signatureRun, rfl⟩, last⟩ := run
  obtain ⟨rfl, rfl⟩ := Prog.pure_eq_ok.mp last
  refine ⟨(Proc.within_unwrapOr (verifyDigest_sameFiles f pe signedData) false).of_run digestRun,
    extractSignatureInfo_index signedData cms index, fun passes => ?_⟩
  simp only [SignatureResult.passes, Bool.and_eq_true] at passes
  obtain ⟨⟨⟨⟨rfl, rfl⟩, chained⟩, -⟩, -⟩ := passes
  obtain digestRun | ⟨absent, -⟩ := Proc.unwrapOr_eq_ok.mp digestRun
  · obtain ⟨content, spc, finalize, present, parsed, named, equal⟩ := verifyDigest_eq_ok digestRun
    obtain ⟨content', value, present', committed, nonempty, verified⟩ :=
      verifyCryptoSignature_eq_ok signatureRun
    cases present.symm.trans present'
    exact ⟨signedData, content, value, spc, finalize, {
      envelope, read := ⟨cms, wrapped, read⟩, present, parsed, named, committed,
      nonempty, verified
      reported := extractSignatureInfo_messageDigest present parsed cms index
      digest := fun reads => ⟨_, digestBytes_eq reads _ _, equal⟩
      chain := fun given => by
        rw [if_neg (by simpa using given)] at chained
        obtain ⟨signer, here, cert, found, accepted⟩ := verifyChain_eq_true chained
        exact ⟨signer, here, cert, (findSignerCert_eq_some found).1, found, accepted,
          verifyChainToCa_sound accepted⟩ }⟩
  · cases absent

theorem verifyBlobs_sound {f : File} {pe : PeInfo} {index : Nat} {blobs : List Bytes}
    {entries : List (SignatureResult crates.Time)} {s t : Store}
    (run : (verifyBlobs crates opts f pe index blobs).run s = (.ok entries, t)) :
    entries.map (·.index) = List.range' index blobs.length ∧
      (entries.all SignatureResult.passes = true →
        List.Forall₂ (Accepted crates opts (s.data f.path) pe) blobs entries) := by
  induction blobs generalizing index entries s t with
  | nil =>
    obtain ⟨rfl, -⟩ := Prog.pure_eq_ok.mp run
    exact ⟨rfl, fun _ => .nil⟩
  | cons blob blobs ih =>
    simp only [verifyBlobs, Prog.bind_eq_ok] at run
    obtain ⟨entry, u, first, rest, v, others, last⟩ := run
    obtain ⟨rfl, -⟩ := Prog.pure_eq_ok.mp last
    obtain ⟨same, here, accepted⟩ := verifyBlob_sound first
    obtain ⟨indices, all⟩ := ih others
    refine ⟨?_, fun passes => ?_⟩
    · rw [List.map_cons, here, indices, List.length_cons, List.range'_succ]
    · simp only [List.all_cons, Bool.and_eq_true] at passes
      exact .cons (accepted passes.1) (data_congr same f.path ▸ all passes.2)

variable (crates opts) in
def verifyBytes (b : Build) (rounds : Nat) (reads : Reads) (cur : Bytes) :
    Res (VerifyResult crates.Time) :=
  ((verifyPeRich crates opts b rounds input).run (workspace cur reads)).1

/-- Every signature of an accepted file is accepted: the primary one and every nested one,
in order, each with its own entry. -/
theorem verified_signatures (b : Build) (rounds : Nat) (reads : Reads) {cur : Bytes}
    {result : VerifyResult crates.Time}
    (returned : verifyBytes crates opts b rounds reads cur = .ok result)
    (ok : result.allOk = true) :
    ∃ pe primary cms lowLevel, parseBytes b cur = .ok pe ∧
      extractBytes b rounds cur pe = .ok (some primary) ∧
      wrapAuthenticodeContent primary = .ok cms ∧ crates.decodeBer cms = .ok lowLevel ∧
      result.signatures.map (·.index) = List.range (nestedSignatures crates lowLevel).length.succ ∧
      List.Forall₂ (Accepted crates opts cur pe) (primary :: nestedSignatures crates lowLevel)
        result.signatures := by
  have run : (verifyPeRich crates opts b rounds input).run (workspace cur reads) =
      (.ok result, _) := Prod.ext returned rfl
  simp only [verifyPeRich, Prog.bind_eq_ok, Prog.ofExcept_eq_ok, okOr_eq_ok] at run
  obtain ⟨pe, _, parsed, found, s, extracted, primary, _, ⟨rfl, rfl⟩, blobs, _, ⟨collected, rfl⟩,
    entries, u, verified, last⟩ := run
  obtain ⟨rfl, -⟩ := Prog.pure_eq_ok.mp last
  obtain ⟨cms, lowLevel, wrapped, decoded, rfl⟩ := collectSignatureBlobs_eq_ok.mp collected
  obtain ⟨rfl, accepted⟩ := parsePe_eq_ok.mp parsed
  rw [workspace_input] at accepted
  have whole : SameFiles (workspace cur uncut) (workspace cur reads) := rfl
  rw [(extractSignature_inspects b rounds input pe).run_eq whole, Prod.mk.injEq] at extracted
  obtain ⟨extracted, rfl⟩ := extracted
  obtain ⟨indices, all⟩ := verifyBlobs_sound verified
  simp only [VerifyResult.allOk, Bool.and_eq_true] at ok
  refine ⟨pe, primary, cms, lowLevel, parseBytes_eq_ok.mpr accepted, extracted, wrapped, decoded,
    ?_, ?_⟩
  · rw [indices, List.length_cons, List.range_eq_range']
  · simpa only [workspace_input] using all ok.2

def sampleCrates : Crates where
  Cert := Bytes
  Name := Unit
  Signer := Unit
  SignedData := Bytes
  Time := Unit
  SignerFields := Unit
  DataFields := Unit
  nameEq := inferInstance
  x509 := ⟨id, fun cert issuer => cert == issuer⟩
  serialNumberAsn1 := id
  issuerName _ := ()
  subjectCommonName _ := none
  issuerCommonName _ := none
  validityNotBefore _ := ""
  validityNotAfter _ := ""
  parseBer := .ok
  decodeBer _ := .ok ⟨(), [⟨(), some [⟨spcNestedSignature, [sampleDer]⟩]⟩]⟩
  tryFrom _ := .error ""
  signedContent der := (spcContentFromPkcs7 der).toOption
  certificates _ := [[1]]
  signers _ := [()]
  certificateIssuerAndSerial _ := some ((), [1])
  signedAttributes _ := none
  digestAlgorithm _ := ""
  verifyMessageDigestWithContent _ value := value == [0x30, 0x00]
  verifySignatureWithSignedData _ _ := true
  verifyTimeStampToken _ := .ok none
  timeStampTokenSignedData _ := .ok none
  spcIndirectDataContent _ := .ok ⟨[228], idSha256⟩
  spcSpOpusInfo _ := .error ""
  sha1 x := [UInt8.ofNat x.length]
  sha256 x := [UInt8.ofNat x.length]
  sha384 x := [UInt8.ofNat x.length]
  sha512 x := [UInt8.ofNat x.length]
  hexEncode _ := ""
  hexDecode _ := none

def sampleFile : Bytes := smallFrame.signed (zeros 4) (zeros 16) sampleDer

theorem verified_signatures_sample :
    ∃ pe primary result, parseBytes .release sampleFile = .ok pe ∧
      extractBytes .release 1 sampleFile pe = .ok (some primary) ∧
      List.Forall₂ (Accepted sampleCrates ⟨[[1]], none, false⟩ sampleFile pe)
        [primary, sampleDer] result := by
  have passes : (verifyBytes sampleCrates ⟨[[1]], none, false⟩ .release 1 uncut
      sampleFile).toOption.any VerifyResult.allOk = true := by decide +kernel
  obtain ⟨result, returned, ok⟩ := Res.exists_ok passes
  obtain ⟨pe, primary, cms, lowLevel, parsed, extracted, -, decoded, -, all⟩ :=
    verified_signatures .release 1 uncut returned ok
  cases decoded
  exact ⟨pe, primary, _, parsed, extracted, all⟩

end Rsigncode
