import Rsigncode.Content
import Rsigncode.Spc
import Rsigncode.Verify

/-! The two structures a signature is built from, made and read back: the content that
commits to a digest, and the opus info with the program's name and URL. -/
namespace Rsigncode

open FileStore DerCodec DerCodec.Codec DerCodec.Fields

def spcPeImageData : Oid := [1, 3, 6, 1, 4, 1, 311, 2, 1, 15]

inductive HashAlgorithm where
  | sha1 | sha256 | sha384 | sha512
  deriving DecidableEq, Repr

def HashAlgorithm.digestAlgorithmOid : HashAlgorithm → Oid
  | sha1 => idSha1
  | sha256 => idSha256
  | sha384 => idSha384
  | sha512 => idSha512

structure SigningOptions where
  hashAlgo : HashAlgorithm
  programName : Option String
  programUrl : Option String

section
variable (crate : DerCrate)

/-- `map_err` with a text in front of the displayed refusal. -/
def orRefused {α : Type} (text : String) (call : DerCall) (given : Bytes) : Option α → Res α
  | some a => .ok a
  | none => .error (.error (.signing (text ++ crate.refused call given)))

def ia5StringNew (text : String) : Option Asn1.Ia5String :=
  (Asn1.Ia5String.ofText text).filter fun s => s.octets.length ≤ crate.limit.max

def bmpStringFromUtf8 (text : String) : Option Asn1.BmpString :=
  (Asn1.BmpString.ofText text).filter fun s => s.octets.length ≤ crate.limit.max

def bitStringFromBytes (bytes : Bytes) : Option Asn1.BitString :=
  if bytes.length ≤ crate.limit.max then Asn1.BitString.ofParts 0 bytes else none

def octetStringNew (bytes : Bytes) : Option Bytes :=
  if bytes.length ≤ crate.limit.max then some bytes else none

def utf8 (text : String) : Bytes := text.toUTF8.data.toList

open Asn1 in
def buildSpcIndirectData (digest : Bytes) (opts : SigningOptions) : Res Bytes := do
  let empty ← orRefused crate "BmpString error: " .bmpString (utf8 "") (bmpStringFromUtf8 crate "")
  let obsoleteLink := Asn1.SpcLink.file (.unicode empty)
  let flags ← orRefused crate "BitString error: " .bitString [] (bitStringFromBytes crate [])
  let peImageData : SpcPeImageData := { flags, file := some obsoleteLink }
  let peImageDataCodec := SpcPeImageData.codec crate.limit
  let peImageDataDer ← orRefused crate "DER encode SpcPeImageData: " (.toDer .peImageData)
    (peImageDataCodec.encode peImageData) (peImageDataCodec.toDer peImageData)
  let value ← orRefused crate "Any from DER: " .any peImageDataDer
    ((Any.codec crate).fromDer peImageDataDer)
  let parameters ← orRefused crate "NULL params: " .any [0x05, 0x00]
    ((Any.codec crate).fromDer [0x05, 0x00])
  let digest ← orRefused crate "OctetString error: " .octetString digest
    (octetStringNew crate digest)
  let spc : Asn1.SpcIndirectDataContent crate := {
    data := { objType := crate.newUnwrap spcPeImageData, value := some value }
    messageDigest := {
      digestAlgorithm := {
        oid := crate.newUnwrap opts.hashAlgo.digestAlgorithmOid, parameters := some parameters }
      digest } }
  let spcCodec := Asn1.SpcIndirectDataContent.codec crate
  orRefused crate "DER encode SpcIndirectDataContent: " (.toDer .indirectDataContent)
    (spcCodec.encode spc) (spcCodec.toDer spc)

def optionally {α β : Type} (x : Option α) (f : α → Res β) : Res (Option β) :=
  match x with
  | some a => do
    let b ← f a
    pure (some b)
  | none => pure none

def buildOpusInfo (opts : SigningOptions) : Res Bytes := do
  let programName ← optionally opts.programName fun name => do
    let s ← orRefused crate "program name not ASCII: " .ia5String (utf8 name)
      (ia5StringNew crate name)
    pure (Asn1.SpcString.ascii s)
  let moreInfo ← optionally opts.programUrl fun url => do
    let s ← orRefused crate "program URL not ASCII: " .ia5String (utf8 url)
      (ia5StringNew crate url)
    pure (Asn1.SpcLink.url s)
  let opus : Asn1.SpcSpOpusInfo := { programName, moreInfo }
  let opusCodec := Asn1.SpcSpOpusInfo.codec crate.limit
  orRefused crate "DER encode SpcSpOpusInfo: " (.toDer .spOpusInfo)
    (opusCodec.encode opus) (opusCodec.toDer opus)

def spcFromDer (b : Bytes) : Except String (SpcIndirectDataContent crate.Oid) :=
  match (Asn1.SpcIndirectDataContent.codec crate).fromDer b with
  | some spc => .ok {
      digest := spc.messageDigest.digest
      digestAlgorithm := spc.messageDigest.digestAlgorithm.oid }
  | none => .error (crate.refused (.fromDer .indirectDataContent) b)

def Asn1.SpcString.shown : Asn1.SpcString → Rsigncode.SpcString
  | .unicode s => .unicode s.text
  | .ascii s => .ascii s.text

def Asn1.SpcLink.shown : Asn1.SpcLink → Rsigncode.SpcLink
  | .url s => .url s.text
  | .moniker _ => .moniker
  | .file _ => .file

def opusFromDer (b : Bytes) : Except String SpcSpOpusInfo :=
  match (Asn1.SpcSpOpusInfo.codec crate.limit).fromDer b with
  | some opus => .ok {
      programName := opus.programName.map Asn1.SpcString.shown
      moreInfo := opus.moreInfo.map Asn1.SpcLink.shown }
  | none => .error (crate.refused (.fromDer .spOpusInfo) b)

variable {crate}

theorem orRefused_eq_ok {α : Type} {text : String} {call : DerCall} {given : Bytes}
    {x : Option α} {a : α} : orRefused crate text call given x = .ok a ↔ x = some a := by
  cases x <;> simp [orRefused]

theorem octetStringNew_eq_some {digest x : Bytes} :
    octetStringNew crate digest = some x ↔ digest.length ≤ crate.limit.max ∧ digest = x := by
  unfold octetStringNew
  split
  · next fits => simp [fits]
  · next large => simp [large]

theorem ia5StringNew_eq_some {text : String} {s : Asn1.Ia5String} :
    ia5StringNew crate text = some s ↔
      s.text = text ∧ s.octets.length ≤ crate.limit.max := by
  rw [ia5StringNew, Option.filter_eq_some_iff, decide_eq_true_eq]
  refine and_congr_left fun _ => ?_
  constructor
  · intro made
    rw [Asn1.Ia5String.ofText] at made
    split at made
    · cases made
      rfl
    · cases made
  · rintro rfl
    exact s.ofText_text

end

/-- Every value with an encoding is read back from it, and no other value has it. -/
def RoundTrips {limit : Limit} {α : Type} (c : Codec limit α) : Prop :=
  ∀ x, (c.encode x).length ≤ limit.max →
    ∃ der, c.toDer x = some der ∧ c.fromDer der = some x ∧ ∀ y, c.toDer y = some der → y = x

theorem roundTrips {limit : Limit} {α : Type} (c : Codec limit α) : RoundTrips c := by
  intro x fits
  have made := c.toDer_eq_some.mpr ⟨fits, rfl⟩
  exact ⟨_, made, c.fromDer_toDer made, fun y other => c.toDer_injective other made⟩

section Content
variable {crate : DerCrate}

def emptyFileLink : Asn1.SpcPeImageData where
  flags := ⟨0, [], by decide⟩
  file := some (.file (.unicode ⟨"", by decide⟩))

def emptyFileLinkContent : Bytes := [0x03, 0x01, 0x00, 0xA0, 0x04, 0xA2, 0x02, 0x80, 0x00]

theorem encode_emptyFileLink (limit : Limit) :
    (Asn1.SpcPeImageData.codec limit).encode emptyFileLink = tlv 0x30 emptyFileLinkContent := rfl

def spcContent (crate : DerCrate) (digest : Bytes) (hashAlgo : HashAlgorithm) :
    Asn1.SpcIndirectDataContent crate where
  data := {
    objType := crate.newUnwrap spcPeImageData
    value := some ⟨crate.sequence, emptyFileLinkContent⟩ }
  messageDigest := {
    digestAlgorithm := {
      oid := crate.newUnwrap hashAlgo.digestAlgorithmOid, parameters := some ⟨crate.null, []⟩ }
    digest := digest }

theorem encode_any (x : Asn1.Any crate) : (Asn1.Any.codec crate).encode x =
    crate.tags.encode x.tag ++ (Tlv.lengthOctets x.value.length ++ x.value) := rfl

theorem encode_anySequence : (Asn1.Any.codec crate).encode ⟨crate.sequence, emptyFileLinkContent⟩ =
    tlv 0x30 emptyFileLinkContent := by
  rw [encode_any, crate.tags_sequence]
  rfl

theorem encode_anyNull : (Asn1.Any.codec crate).encode ⟨crate.null, []⟩ = [0x05, 0x00] := by
  rw [encode_any, crate.tags_null]
  rfl

theorem encode_spcContent (crate : DerCrate) (digest : Bytes) (hashAlgo : HashAlgorithm) :
    ∃ type algorithm, (Asn1.SpcIndirectDataContent.codec crate).encode
        (spcContent crate digest hashAlgo) =
      tlv 0x30 (tlv 0x30 (type ++ tlv 0x30 emptyFileLinkContent) ++
        tlv 0x30 (algorithm ++ tlv 0x04 digest)) := by
  refine ⟨(Asn1.objectIdentifier crate).encode (crate.newUnwrap spcPeImageData),
    (Asn1.AlgorithmIdentifier.codec crate).encode
      ⟨crate.newUnwrap hashAlgo.digestAlgorithmOid, some ⟨crate.null, []⟩⟩, ?_⟩
  rw [← encode_anySequence]
  rfl

theorem spcContent_fits {digest : Bytes} {hashAlgo : HashAlgorithm}
    (fits : ((Asn1.SpcIndirectDataContent.codec crate).encode
      (spcContent crate digest hashAlgo)).length ≤ crate.limit.max) :
    11 ≤ crate.limit.max ∧ digest.length ≤ crate.limit.max := by
  obtain ⟨type, algorithm, encoded⟩ := encode_spcContent crate digest hashAlgo
  rw [encoded] at fits
  have whole := length_le_tlv 0x30 (tlv 0x30 (type ++ tlv 0x30 emptyFileLinkContent) ++
    tlv 0x30 (algorithm ++ tlv 0x04 digest))
  have data := length_le_tlv 0x30 (type ++ tlv 0x30 emptyFileLinkContent)
  have info := length_le_tlv 0x30 (algorithm ++ tlv 0x04 digest)
  have octets := length_le_tlv 0x04 digest
  have link : (tlv 0x30 emptyFileLinkContent).length = 11 := rfl
  simp only [List.length_append] at whole data info
  omega

section Steps

theorem bmpStringFromUtf8_empty : bmpStringFromUtf8 crate "" = some ⟨"", by decide⟩ := by
  have made := Asn1.BmpString.ofText_text ⟨"", by decide⟩
  simp [bmpStringFromUtf8, made, Asn1.BmpString.octets]

theorem bitStringFromBytes_empty :
    bitStringFromBytes crate [] = some ⟨0, [], by decide⟩ :=
  (if_pos (Nat.zero_le _)).trans rfl

theorem emptyFileLink_toDer (room : 11 ≤ crate.limit.max) :
    (Asn1.SpcPeImageData.codec crate.limit).toDer emptyFileLink =
      some (tlv 0x30 emptyFileLinkContent) :=
  (toDer_eq_some _).mpr ⟨room, encode_emptyFileLink crate.limit⟩

theorem anySequence_fromDer (room : 11 ≤ crate.limit.max) :
    (Asn1.Any.codec crate).fromDer (tlv 0x30 emptyFileLinkContent) =
      some ⟨crate.sequence, emptyFileLinkContent⟩ :=
  fromDer_toDer _ ((toDer_eq_some _).mpr ⟨by rwa [encode_anySequence], encode_anySequence⟩)

theorem anyNull_fromDer (room : 11 ≤ crate.limit.max) :
    (Asn1.Any.codec crate).fromDer [0x05, 0x00] = some ⟨crate.null, []⟩ := by
  have fits : ([0x05, 0x00] : Bytes).length ≤ crate.limit.max := Nat.le_trans (by decide) room
  exact fromDer_toDer _ ((toDer_eq_some _).mpr ⟨by rwa [encode_anyNull], encode_anyNull⟩)

end Steps

theorem buildSpcIndirectData_eq_ok {digest der : Bytes} {opts : SigningOptions} :
    buildSpcIndirectData crate digest opts = .ok der ↔
      (Asn1.SpcIndirectDataContent.codec crate).toDer (spcContent crate digest opts.hashAlgo) =
        some der := by
  simp only [buildSpcIndirectData, Res.bind_eq_ok, orRefused_eq_ok, bmpStringFromUtf8_empty,
    bitStringFromBytes_empty, Option.some.injEq, exists_eq_left', octetStringNew_eq_some]
  constructor
  · rintro ⟨peImageDataDer, made, value, read, parameters, null, _, ⟨fits, rfl⟩, built⟩
    have room : 11 ≤ crate.limit.max := ((toDer_eq_some _).mp made).1
    have same := made.symm.trans (emptyFileLink_toDer room)
    cases same
    cases read.symm.trans (anySequence_fromDer room)
    cases null.symm.trans (anyNull_fromDer room)
    exact built
  · intro built
    obtain ⟨room, fits⟩ := spcContent_fits ((toDer_eq_some _).mp built).1
    exact ⟨_, emptyFileLink_toDer room, _, anySequence_fromDer room, _, anyNull_fromDer room, _,
      ⟨fits, rfl⟩, built⟩

theorem parse_encoded {spc : Asn1.SpcIndirectDataContent crate} {der : Bytes}
    (made : (Asn1.SpcIndirectDataContent.codec crate).toDer spc = some der) :
    parseSpcIndirectData (spcFromDer crate) der = .ok {
      contentDer := der
      digest := spc.messageDigest.digest
      digestAlgorithm := spc.messageDigest.digestAlgorithm.oid } := by
  have read := fromDer_toDer _ made
  obtain ⟨fits, encoded⟩ := (toDer_eq_some _).mp made
  have small := crate.limit.lt
  obtain ⟨data, info, shape⟩ : ∃ data info, der = tlv 0x30 (tlv 0x30 data ++ tlv 0x30 info) :=
    ⟨_, _, encoded.symm⟩
  have whole := length_le_tlv 0x30 (tlv 0x30 data ++ tlv 0x30 info)
  have first := length_le_tlv 0x30 data
  have second := length_le_tlv 0x30 info
  rw [encoded, shape] at fits
  rw [List.length_append] at whole
  let t := Tlv.emit 0x30 data (by omega)
  let u := Tlv.emit 0x30 info (by omega)
  let c := Tlv.emit 0x30 (tlv 0x30 data ++ tlv 0x30 info) (by rw [List.length_append]; omega)
  have content : c.content = Tlv.flat [t, u] := by
    rw [Tlv.flat_cons, Tlv.flat_singleton]
    rfl
  have bare : extractSpcContent der = .ok der :=
    shape ▸ extract_bare (c := c) rfl content rfl
  rw [parseSpcIndirectData, Res.bind_ok bare, spcFromDer, read]
  rfl

end Content

section Opus
variable {crate : DerCrate}

theorem optionally_ia5String {β : Type} {text : String} {x : Option String}
    {g : Asn1.Ia5String → β} {y : Option β} :
    (optionally x fun t => do
      let s ← orRefused crate text .ia5String (utf8 t) (ia5StringNew crate t)
      pure (g s)) = .ok y ↔
    ∃ s : Option Asn1.Ia5String, s.map Asn1.Ia5String.text = x ∧
      (∀ a, s = some a → a.octets.length ≤ crate.limit.max) ∧ s.map g = y := by
  cases x with
  | none =>
    constructor
    · intro absent
      cases absent
      exact ⟨none, rfl, (fun _ h => nomatch h), rfl⟩
    · rintro ⟨s, absent, -, rfl⟩
      rw [Option.map_eq_none_iff.mp absent]
      rfl
  | some t =>
    simp only [optionally, Res.bind_eq_ok, orRefused_eq_ok, ia5StringNew_eq_some]
    constructor
    · rintro ⟨b, ⟨s, ⟨rfl, fits⟩, made⟩, done⟩
      cases made
      cases done
      exact ⟨some s, rfl, fun a same => Option.some.inj same ▸ fits, rfl⟩
    · rintro ⟨s, present, fits, rfl⟩
      obtain ⟨a, rfl, rfl⟩ := Option.map_eq_some_iff.mp present
      exact ⟨_, ⟨a, ⟨rfl, fits a rfl⟩, rfl⟩, rfl⟩

def opusInfo (name url : Option Asn1.Ia5String) : Asn1.SpcSpOpusInfo where
  programName := name.map .ascii
  moreInfo := url.map .url

theorem encode_opusInfo (limit : Limit) (name url : Option Asn1.Ia5String) :
    (Asn1.SpcSpOpusInfo.codec limit).encode (opusInfo name url) =
      tlv 0x30 ((name.elim [] fun s => tlv 0xA0 (tlv 0x81 s.octets)) ++
        url.elim [] fun s => tlv 0xA1 (tlv 0x80 s.octets)) := by
  cases name <;> cases url <;> rfl

theorem opusInfo_fits {limit : Limit} {name url : Option Asn1.Ia5String}
    (fits : ((Asn1.SpcSpOpusInfo.codec limit).encode (opusInfo name url)).length ≤ limit.max) :
    (∀ s, name = some s → s.octets.length ≤ limit.max) ∧
      ∀ s, url = some s → s.octets.length ≤ limit.max := by
  rw [encode_opusInfo] at fits
  have whole := Nat.le_trans (length_le_tlv _ _) fits
  rw [List.length_append] at whole
  constructor
  · rintro s rfl
    have inner := length_le_tlv 0x81 s.octets
    have outer := length_le_tlv 0xA0 (tlv 0x81 s.octets)
    rw [Option.elim_some] at whole
    omega
  · rintro s rfl
    have inner := length_le_tlv 0x80 s.octets
    have outer := length_le_tlv 0xA1 (tlv 0x80 s.octets)
    rw [Option.elim_some] at whole
    omega

theorem buildOpusInfo_eq_ok {opts : SigningOptions} {der : Bytes} :
    buildOpusInfo crate opts = .ok der ↔ ∃ name url : Option Asn1.Ia5String,
      name.map Asn1.Ia5String.text = opts.programName ∧
      url.map Asn1.Ia5String.text = opts.programUrl ∧
      (Asn1.SpcSpOpusInfo.codec crate.limit).toDer (opusInfo name url) = some der := by
  simp only [buildOpusInfo, Res.bind_eq_ok, optionally_ia5String, orRefused_eq_ok]
  constructor
  · rintro ⟨_, ⟨name, named, -, rfl⟩, _, ⟨url, linked, -, rfl⟩, made⟩
    exact ⟨name, url, named, linked, made⟩
  · rintro ⟨name, url, named, linked, made⟩
    obtain ⟨short, short'⟩ := opusInfo_fits ((toDer_eq_some _).mp made).1
    exact ⟨_, ⟨name, named, short, rfl⟩, _, ⟨url, linked, short', rfl⟩, made⟩

theorem opusFromDer_built {opts : SigningOptions} {der : Bytes}
    (built : buildOpusInfo crate opts = .ok der) :
    opusFromDer crate der = .ok {
      programName := opts.programName.map .ascii
      moreInfo := opts.programUrl.map .url } := by
  obtain ⟨name, url, named, linked, made⟩ := buildOpusInfo_eq_ok.mp built
  rw [opusFromDer, fromDer_toDer _ made, ← named, ← linked]
  cases name <;> cases url <;> rfl

theorem isElement_text (limit : Limit) {tag inside : UInt8} {s : Option Asn1.Ia5String}
    (fits : ∀ a, s = some a → (tlv tag (tlv inside a.octets)).length ≤ limit.max)
    (outer : IsIdentifier tag ∧ tag &&& 0x20 = 0x20)
    (inner : IsIdentifier inside ∧ inside &&& 0x20 = 0) :
    ∀ p ∈ (s.map fun a => tlv tag (tlv inside a.octets)).toList, IsElement p := by
  intro p here
  obtain ⟨a, rfl, rfl⟩ := Option.map_eq_some_iff.mp (Option.mem_toList.mp here)
  have small := limit.lt
  have whole := fits a rfl
  have first := length_le_tlv inside a.octets
  have second := length_le_tlv tag (tlv inside a.octets)
  have leaf : IsElement (tlv inside a.octets) := isElement_leaf (by omega) inner.1 inner.2
  exact isElement_around (by omega) outer.1 outer.2 leaf

theorem buildOpusInfo_element {opts : SigningOptions} {der : Bytes}
    (built : buildOpusInfo crate opts = .ok der) : IsElement der := by
  obtain ⟨name, url, -, -, made⟩ := buildOpusInfo_eq_ok.mp built
  obtain ⟨fits, rfl⟩ := (toDer_eq_some _).mp made
  have parts : (name.elim [] fun s => tlv 0xA0 (tlv 0x81 s.octets)) ++
      (url.elim [] fun s => tlv 0xA1 (tlv 0x80 s.octets)) =
        ((name.map fun s => tlv 0xA0 (tlv 0x81 s.octets)).toList ++
          (url.map fun s => tlv 0xA1 (tlv 0x80 s.octets)).toList).flatten := by
    cases name <;> cases url <;> simp
  have small := crate.limit.lt
  rw [encode_opusInfo] at fits ⊢
  have whole := Nat.le_trans (length_le_tlv _ _) fits
  rw [List.length_append] at whole
  rw [parts]
  refine isElement_inner ?_ (by decide) (by decide) fun p here => ?_
  · rw [← parts, List.length_append]
    omega
  · rcases List.mem_append.mp here with here | here
    · refine isElement_text crate.limit (fun a same => ?_) (by decide) (by decide) p here
      rw [same, Option.elim_some] at whole
      omega
    · refine isElement_text crate.limit (fun a same => ?_) (by decide) (by decide) p here
      rw [same, Option.elim_some] at whole
      omega

theorem withOpusInfo_built {crates : Crates} {opts : SigningOptions} {der : Bytes}
    (reads : crates.spcSpOpusInfo = opusFromDer crate)
    (built : buildOpusInfo crate opts = .ok der) (result : SignatureResult crates.Time) :
    withOpusInfo crates [{ typ := spcSpOpusInfo, values := [der] }] result =
      { result with programName := opts.programName, programUrl := opts.programUrl } := by
  have read := opusFromDer_built built
  obtain ⟨hashAlgo, name, url⟩ := opts
  cases name <;> cases url <;>
    simp [withOpusInfo, reads, read, Except.toOption, SpcString.text, SpcLink.text]

end Opus

/-- The declared structures decode to what was encoded; so do the content and the opus info
that are built, wherever they have an encoding. -/
theorem spc_structures_round_trip (crate : DerCrate) :
    RoundTrips (Asn1.SpcIndirectDataContent.codec crate) ∧
    RoundTrips (Asn1.SpcPeImageData.codec crate.limit) ∧
    RoundTrips (Asn1.SpcSpOpusInfo.codec crate.limit) ∧
    (∀ digest opts,
      ((Asn1.SpcIndirectDataContent.codec crate).encode
        (spcContent crate digest opts.hashAlgo)).length ≤ crate.limit.max →
      ∃ der, buildSpcIndirectData crate digest opts = .ok der) ∧
    (∀ digest opts der, buildSpcIndirectData crate digest opts = .ok der →
      parseSpcIndirectData (spcFromDer crate) der = .ok {
        contentDer := der
        digest := digest
        digestAlgorithm := crate.newUnwrap opts.hashAlgo.digestAlgorithmOid }) ∧
    (∀ hashAlgo (name url : Option Asn1.Ia5String),
      ((Asn1.SpcSpOpusInfo.codec crate.limit).encode (opusInfo name url)).length ≤
        crate.limit.max →
      ∃ der, buildOpusInfo crate ⟨hashAlgo, name.map (·.text), url.map (·.text)⟩ = .ok der) ∧
    ∀ opts der, buildOpusInfo crate opts = .ok der →
      opusFromDer crate der = .ok {
        programName := opts.programName.map .ascii
        moreInfo := opts.programUrl.map .url } := by
  refine ⟨roundTrips _, roundTrips _, roundTrips _, fun digest opts fits => ?_,
    fun digest opts der built => ?_, fun hashAlgo name url fits => ?_,
    fun opts der built => opusFromDer_built built⟩
  · exact ⟨_, buildSpcIndirectData_eq_ok.mpr ((toDer_eq_some _).mpr ⟨fits, rfl⟩)⟩
  · exact parse_encoded (buildSpcIndirectData_eq_ok.mp built)
  · exact ⟨_, buildOpusInfo_eq_ok.mpr ⟨name, url, rfl, rfl, (toDer_eq_some _).mpr ⟨fits, rfl⟩⟩⟩

def arcOctets (n : Nat) : Bytes :=
  if n < 0x80 then [UInt8.ofNat n]
  else if n < 0x4000 then [UInt8.ofNat (0x80 + n / 0x80), UInt8.ofNat (n % 0x80)]
  else [UInt8.ofNat (0x80 + n / 0x4000), UInt8.ofNat (0x80 + n / 0x80 % 0x80),
    UInt8.ofNat (n % 0x80)]

def oidOctets : Oid → Bytes
  | a :: b :: arcs => UInt8.ofNat (40 * a + b) :: arcs.flatMap arcOctets
  | _ => []

def octetCrate : DerCrate where
  limit := ⟨2 ^ 32 - 1, by decide⟩
  Oid := Bytes
  Tag := UInt8
  oids := Asn1.octetString _
  tags := {
    encode := fun tag => [tag]
    decode := fun
      | [] => none
      | tag :: b => some (tag, b)
    starts := fun _ => true
    encode_starts := fun tag => ⟨tag, [], rfl, rfl⟩
    decode_encode := fun _ _ _ => rfl }
  newUnwrap := oidOctets
  sequence := 0x30
  null := 0x05
  tags_sequence := rfl
  tags_null := rfl
  refused := fun _ _ => ""

theorem spc_structures_round_trip_octets :
    ∃ der, buildSpcIndirectData octetCrate [1, 2, 3] ⟨.sha256, none, none⟩ = .ok der ∧
      parseSpcIndirectData (spcFromDer octetCrate) der = .ok {
        contentDer := der
        digest := [1, 2, 3]
        digestAlgorithm := [0x60, 0x86, 0x48, 0x01, 0x65, 0x03, 0x04, 0x02, 0x01] } ∧
    ∃ opus, buildOpusInfo octetCrate ⟨.sha256, some "Tool", some "https://a.b"⟩ = .ok opus ∧
      opusFromDer octetCrate opus = .ok {
        programName := some (.ascii "Tool")
        moreInfo := some (.url "https://a.b") } := by
  obtain ⟨-, -, -, builds, parses, buildsOpus, readsOpus⟩ := spc_structures_round_trip octetCrate
  obtain ⟨der, built⟩ := builds [1, 2, 3] ⟨.sha256, none, none⟩ (by decide)
  obtain ⟨opus, made⟩ := buildsOpus .sha256 (some ⟨"Tool", by decide⟩)
    (some ⟨"https://a.b", by decide⟩) (by decide)
  exact ⟨der, built, parses _ _ der built, opus, made, readsOpus _ opus made⟩

end Rsigncode
