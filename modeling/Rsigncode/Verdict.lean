import Rsigncode.Reattach
import Rsigncode.VerifySound

/-! Verification as a function of an image and a blob. What a file contributes to its
verdict is the stream its digest is taken of and the blob its table gives back. -/
namespace Rsigncode

open FileStore Window Tlv

section
variable (crates : Crates) (opts : VerifyOptions crates.Cert) (image : Bytes)

def imageDigest (algoOid : Oid) : Res Bytes :=
  match hasherFor crates algoOid with
  | some finalize => pure (finalize image)
  | none => .error (.error (.verification
      ("unsupported digest algorithm OID: " ++ algoOid.display)))

def digestMatches (signedData : crates.SignedData) : Res Bool := do
  let encapContent ← okOr (crates.signedContent signedData)
    (.error (.verification "no encapsulated content in signature"))
  let spc ← decoded "failed to decode SpcIndirectDataContent: "
    (crates.spcIndirectDataContent encapContent)
  let actualDigest ← imageDigest crates image spc.digestAlgorithm
  pure (actualDigest == spc.digest)

def Res.unwrapOr {α : Type} (x : Res α) (d : α) : Res α :=
  match x with
  | .error (.error _) => .ok d
  | r => r

def verdict (index : Nat) (blob : Bytes) : Res (SignatureResult crates.Time) := do
  checkAuthenticodeEnvelope blob
  let cmsBlob ← cmsForm blob
  let signedData ← decoded "failed to parse SignedData: " (crates.parseBer cmsBlob)
  let result := extractSignatureInfo crates signedData cmsBlob index
  let digestOk ← (digestMatches crates image signedData).unwrapOr false
  let signatureOk ← verifyCryptoSignature crates signedData
  pure { result with
    digestOk, signatureOk
    chainOk :=
      if opts.caCerts.isEmpty then result.chainOk
      else some (verifyChain crates signedData opts.caCerts)
    timestampOk :=
      if opts.ignoreTimestamp then result.timestampOk else verifyTimestamp crates cmsBlob
    leafHashOk :=
      match opts.requireLeafHash with
      | some spec => some (verifyLeafHashForSigner crates signedData spec)
      | none => result.leafHashOk }

def verdicts : Nat → List Bytes → Res (List (SignatureResult crates.Time))
  | _, [] => pure []
  | index, blob :: blobs => do
    let result ← verdict crates opts image index blob
    let results ← verdicts (index + 1) blobs
    pure (result :: results)

def verifySignature (pkcs7Der : Bytes) : Res (VerifyResult crates.Time) := do
  let blobs ← collectSignatureBlobs crates pkcs7Der
  let signatures ← verdicts crates opts image 0 blobs
  pure { signatures }

end

variable {crates : Crates} {opts : VerifyOptions crates.Cert}

theorem Proc.yields_unwrapOr {α : Type} {x : Proc α} {s : Store} {r : Res α} (h : Yields x s r)
    (d : α) : Yields (x.unwrapOr d) s (r.unwrapOr d) := by
  obtain ⟨t, run, same⟩ := h
  refine ⟨t, ?_, same⟩
  rcases r with (_ | _ | _) | _ <;> simp only [unwrapOr, run, Res.unwrapOr]

theorem computePeDigest_yields (f : File) (pe : PeInfo) (algoOid : Oid) (s : Store) :
    Yields (computePeDigest crates f pe algoOid) s
      (imageDigest crates (digestStream (s.data f.path) pe) algoOid) := by
  unfold computePeDigest imageDigest
  cases hasherFor crates algoOid with
  | none => exact yields_ofExcept _ s
  | some finalize =>
    obtain ⟨t, fed, same⟩ := authenticodeDigest_run f pe [] s
    exact ⟨t, Prog.bind_ok fed, same⟩

theorem verifyDigest_yields (f : File) (pe : PeInfo) (signedData : crates.SignedData)
    (s : Store) : Yields (verifyDigest crates f pe signedData) s
      (digestMatches crates (digestStream (s.data f.path) pe) signedData) := by
  unfold verifyDigest digestMatches
  refine (yields_ofExcept _ s).bind fun _ t _ same₁ => (yields_ofExcept _ t).bind
    fun spc u _ same₂ => ?_
  rw [← data_congr (SameFiles.trans s t u same₁ same₂)]
  exact (computePeDigest_yields f pe _ u).bind fun _ _ _ _ => yields_pure _ _

theorem verifyBlob_yields (f : File) (pe : PeInfo) (index : Nat) (blob : Bytes) (s : Store) :
    Yields (verifyBlob crates opts f pe index blob) s
      (verdict crates opts (digestStream (s.data f.path) pe) index blob) := by
  unfold verifyBlob verdict
  refine (yields_ofExcept _ s).bind fun _ t _ same₁ => (yields_ofExcept _ t).bind
    fun cmsBlob u _ same₂ => (yields_ofExcept _ u).bind fun signedData v _ same₃ => ?_
  rw [← data_congr (SameFiles.trans s u v (SameFiles.trans s t u same₁ same₂) same₃)]
  exact (Proc.yields_unwrapOr (verifyDigest_yields f pe signedData v) false).bind
    fun _ _ _ _ => (yields_ofExcept _ _).bind fun _ _ _ _ => yields_pure _ _

theorem verifyBlobs_yields (f : File) (pe : PeInfo) (index : Nat) (blobs : List Bytes)
    (s : Store) : Yields (verifyBlobs crates opts f pe index blobs) s
      (verdicts crates opts (digestStream (s.data f.path) pe) index blobs) := by
  induction blobs generalizing index s with
  | nil => exact yields_pure _ s
  | cons blob blobs ih =>
    refine (verifyBlob_yields f pe index blob s).bind fun result t _ same => ?_
    rw [← data_congr same]
    exact (ih (index + 1) t).bind fun _ _ _ _ => yields_pure _ _

theorem readU16_inspects (f : File) : Inspects (readU16 f) :=
  (readExact_inspects f 2).bind fun _ => inspects_pure _

theorem readU32_inspects (f : File) : Inspects (readU32 f) :=
  (readExact_inspects f 4).bind fun _ => inspects_pure _

theorem seekEnd_inspects (f : File) : Inspects (f.seekEnd : Proc File) :=
  ⟨fun files => .ok (f.seek ((files f.path).getD []).length), fun _ => rfl⟩

theorem parsePe_inspects (b : Build) (f : File) : Inspects (parsePe b f) := by
  refine (seekEnd_inspects f).bind fun f => (inspects_rejectIf _ _).bind fun _ =>
    (readU16_inspects _).bind fun _ => (inspects_rejectIf _ _).bind fun _ =>
    (readU32_inspects _).bind fun _ => (inspects_rejectIf _ _).bind fun _ =>
    (inspects_ofExcept _).bind fun _ => (inspects_rejectIf _ _).bind fun _ =>
    (readU32_inspects _).bind fun _ => (inspects_rejectIf _ _).bind fun _ =>
    (readU16_inspects _).bind fun _ => (inspects_rejectIf _ _).bind fun _ =>
    (readU32_inspects _).bind fun _ => (inspects_rejectIf _ _).bind fun _ =>
    (readU32_inspects _).bind fun _ => (readU32_inspects _).bind fun _ =>
    (inspects_ofExcept _).bind fun _ => inspects_pure _

theorem verifyBytes_eq (b : Build) (rounds : Nat) (reads : Reads) (cur : Bytes) :
    verifyBytes crates opts b rounds reads cur = (do
      let pe ← parseBytes b cur
      let found ← extractBytes b rounds cur pe
      let pkcs7Der ← okOr found (.error .noSignature)
      verifySignature crates opts (digestStream cur pe) pkcs7Der) := by
  have whole : SameFiles (workspace cur uncut) (workspace cur reads) := rfl
  refine Yields.outcome (((parsePe_inspects b input).yields whole).bind fun pe t _ same₁ => ?_)
  have here : SameFiles (workspace cur uncut) t := SameFiles.trans _ _ _ whole same₁
  refine ((extractSignature_inspects b rounds input pe).yields here).bind fun found u _ same₂ =>
    (yields_ofExcept _ u).bind fun pkcs7Der v _ same₃ => ?_
  refine Yields.bind (r := collectSignatureBlobs crates pkcs7Der) (yields_ofExcept _ v)
    fun blobs w _ same₄ => ?_
  have image : w.data input.path = cur := by
    rw [data_congr (SameFiles.trans _ _ _ (SameFiles.trans _ _ _ here same₂)
      (SameFiles.trans _ _ _ same₃ same₄)), workspace_input]
  exact (image ▸ verifyBlobs_yields input pe 0 blobs w).bind fun _ _ _ _ => yields_pure _ _

section Padding

theorem collectSignatureBlobs_eq (pkcs7Der : Bytes) :
    collectSignatureBlobs crates pkcs7Der = (do
      let cmsDer ← cmsForm pkcs7Der
      let lowLevel ← decoded "failed to parse SignedData: " (crates.decodeBer cmsDer)
      pure (pkcs7Der :: nestedSignatures crates lowLevel)) := by
  have values : ∀ (blobs : List Bytes) (attr : Attribute),
      (if attr.typ == spcNestedSignature then
        attr.values.foldl (fun blobs value => blobs ++ [value]) blobs else blobs) =
      blobs ++ if attr.typ = spcNestedSignature then attr.values else [] := by
    intro blobs attr
    rw [foldl_push fun acc value => rfl]
    by_cases nested : attr.typ = spcNestedSignature <;> simp [nested]
  unfold collectSignatureBlobs
  refine congrArg _ (funext fun cms => congrArg _ (funext fun lowLevel => congrArg Except.ok ?_))
  refine foldl_push (fun blobs signerInfo => ?_) _ _
  cases signerInfo.unsignedAttributes with
  | none => simp
  | some attrs => exact foldl_push values attrs blobs

/-- The envelope of a blob is all the verifier sees of it, and the blob is not in the form
of the CMS crate, which the wrapping leaves alone together with what follows it. -/
structure Transparent (x : Bytes) (s : Spine) : Prop where
  walk : walkSpine x = .ok s
  nested : s.WellNested
  rewritten : ¬ InForm x s true
  small : x.length + 8 ≤ 2 ^ 32

theorem checkAuthenticodeEnvelope_of_ne {der out : Bytes}
    (normalized : normalizeAuthenticodeSignature der = .ok out) (other : out ≠ der) :
    checkAuthenticodeEnvelope der = .error (.error (.verification
      ("signature is not in the form Windows accepts: SignedData must be version 1 " ++
        "with SpcIndirectDataContent not wrapped in an OCTET STRING"))) := by
  rw [checkAuthenticodeEnvelope, Res.bind_ok normalized]
  exact if_neg other

theorem Envelope.check_append {e : Envelope} {der r : Bytes} (h : At der 0 e.info.bytes)
    (small : der.length + r.length < 2 ^ 32) :
    checkAuthenticodeEnvelope (der ++ r) = checkAuthenticodeEnvelope der := by
  have there := h.append_right r
  have small' : (der ++ r).length < 2 ^ 32 := by rwa [List.length_append]
  by_cases done : e.Done false
  · rw [(Envelope.check_eq_ok_iff there small').mpr done,
      (Envelope.check_eq_ok_iff h (by omega)).mpr done]
  · have other : ∀ {d : Bytes}, At d 0 e.info.bytes → d.length < 2 ^ 32 →
        e.rebuilt (targetVersion false) (e.newContent false) ≠ d := by
      intro d here size same
      have normalized : normalizeAuthenticodeSignature d = _ := Envelope.rewrite_eq here false
      rw [if_neg done, same] at normalized
      have accepted := (Rsigncode.check_eq_ok_iff d).mpr normalized
      exact done ((Envelope.check_eq_ok_iff here size).mp accepted)
    rw [checkAuthenticodeEnvelope_of_ne ((Envelope.rewrite_eq there false).trans
        (by rw [if_neg done])) (other there small'),
      checkAuthenticodeEnvelope_of_ne ((Envelope.rewrite_eq h false).trans
        (by rw [if_neg done])) (other h (by omega))]

theorem Transparent.padded {x : Bytes} {s : Spine} (h : Transparent x s) :
    checkAuthenticodeEnvelope (padded x) = checkAuthenticodeEnvelope x ∧
      wrapAuthenticodeContent (padded x) = wrapAuthenticodeContent x := by
  obtain ⟨e, here, rfl⟩ := exists_envelope h.walk h.nested
  have small := h.small
  have pad := pad8_lt x.length
  have todo : ¬ e.Done true := fun done => h.rewritten (((e.stands here).inForm_iff true).mpr done)
  refine ⟨Envelope.check_append here (by rw [zeros_length]; omega), ?_⟩
  refine (Envelope.rewrite_eq (here.append_right _) true).trans ?_
  rw [if_neg todo]
  refine ((Envelope.rewrite_eq here true).trans ?_).symm
  rw [if_neg todo]

theorem Transparent.behind_padding {x : Bytes} {s : Spine} (h : Transparent x s) :
    Transparent (Rsigncode.padded x) s := by
  obtain ⟨e, here, rfl⟩ := exists_envelope h.walk h.nested
  have there : At (Rsigncode.padded x) 0 e.info.bytes := here.append_right _
  refine ⟨Envelope.walkSpine_eq there, h.nested, fun form => h.rewritten ?_, ?_⟩
  · exact ((e.stands here).inForm_iff true).mpr (((e.stands there).inForm_iff true).mp form)
  · have small := h.small
    have aligned := add_pad8 x.length
    have pad := pad8_lt x.length
    rw [padded_length]
    omega

theorem Transparent.of_checked {x : Bytes} {s : Spine} (walk : walkSpine x = .ok s)
    (nested : s.WellNested) (checked : checkAuthenticodeEnvelope x = .ok ())
    (small : x.length + 8 ≤ 2 ^ 32) : Transparent x s := by
  obtain ⟨e, here, rfl⟩ := exists_envelope walk nested
  have native := ((Envelope.check_eq_ok_iff here (by omega)).mp checked).1
  refine ⟨walk, nested, fun form => ?_, small⟩
  have wrapped := (((e.stands here).inForm_iff true).mp form).1
  cases native.trans wrapped.symm

theorem verdict_congr {image x y : Bytes} (index : Nat)
    (check : checkAuthenticodeEnvelope x = checkAuthenticodeEnvelope y)
    (wrap : wrapAuthenticodeContent x = wrapAuthenticodeContent y) :
    verdict crates opts image index x = verdict crates opts image index y := by
  simp only [verdict, check, cmsForm, wrap]

theorem verifySignature_eq (image x : Bytes) :
    verifySignature crates opts image x = (do
      let cmsDer ← cmsForm x
      let lowLevel ← decoded "failed to parse SignedData: " (crates.decodeBer cmsDer)
      let signatures ← verdicts crates opts image 0 (x :: nestedSignatures crates lowLevel)
      pure { signatures }) := by
  rw [verifySignature, collectSignatureBlobs_eq]
  cases cmsForm x with
  | error e => rfl
  | ok cms => exact bind_assoc (decoded _ (crates.decodeBer cms)) _ _

/-- The padding that a blob comes back with does not show in its verdict. -/
theorem verifySignature_padded {x : Bytes} {s : Spine} (h : Transparent x s) (image : Bytes) :
    verifySignature crates opts image (padded x) = verifySignature crates opts image x := by
  obtain ⟨check, wrap⟩ := h.padded
  have first : verdict crates opts image 0 _ = _ := verdict_congr 0 check wrap
  simp only [verifySignature_eq, cmsForm, wrap, verdicts, first]

end Padding

end Rsigncode
