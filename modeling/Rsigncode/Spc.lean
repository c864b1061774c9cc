import Rsigncode.Crates
import Rsigncode.Lib.DerCodec

/-! The types of `asn1/spc.rs`, with the codecs that the derive macros give them. OBJECT
IDENTIFIER and the identifiers of ANY are the crates'. -/
namespace Rsigncode

open FileStore Number DerCodec DerCodec.Codec DerCodec.Fields

inductive SpcType where
  | peImageData | indirectDataContent | spOpusInfo

inductive DerCall where
  | bmpString | ia5String | bitString | octetString | any
  | toDer (type : SpcType)
  | fromDer (type : SpcType)

/-- The DER crates: the longest encoding, object identifiers and the identifiers of ANY
with their codecs, and the text that goes with a refusal of some octets. -/
structure DerCrate where
  limit : Limit
  Oid : Type
  Tag : Type
  oids : Value limit Oid
  tags : Codec limit Tag
  newUnwrap : Rsigncode.Oid → Oid
  sequence : Tag
  null : Tag
  tags_sequence : tags.encode sequence = [0x30]
  tags_null : tags.encode null = [0x05]
  refused : DerCall → Bytes → String

namespace Asn1

structure Ia5String where
  text : String
  ascii : text.toList.all (·.toNat < 0x80) = true

structure BmpString where
  text : String
  plane : text.toList.all (·.toNat < 0x10000) = true

structure BitString where
  unusedBits : Nat
  bytes : Bytes
  valid : unusedBits ≤ 7 ∧ (bytes = [] → unusedBits = 0)

def Ia5String.ofText (text : String) : Option Ia5String :=
  if ascii : text.toList.all (·.toNat < 0x80) = true then some ⟨text, ascii⟩ else none

def BmpString.ofText (text : String) : Option BmpString :=
  if plane : text.toList.all (·.toNat < 0x10000) = true then some ⟨text, plane⟩ else none

def BitString.ofParts (unusedBits : Nat) (bytes : Bytes) : Option BitString :=
  if valid : unusedBits ≤ 7 ∧ (bytes = [] → unusedBits = 0) then some ⟨unusedBits, bytes, valid⟩
  else none

def Ia5String.octets (s : Ia5String) : Bytes := s.text.toList.map fun c => UInt8.ofNat c.toNat

def BmpString.octets (s : BmpString) : Bytes := s.text.toList.flatMap fun c => be 2 c.toNat

def BitString.octets (s : BitString) : Bytes := UInt8.ofNat s.unusedBits :: s.bytes

def Ia5String.ofOctets (b : Bytes) : Option Ia5String :=
  ofText (String.ofList (b.map fun x => Char.ofNat x.toNat))

/-- Pairs of octets, none of which is a surrogate. -/
def bmpChars : Bytes → Option (List Char)
  | [] => some []
  | hi :: lo :: b =>
    if (ofBe [hi, lo]).isValidChar then (bmpChars b).map (Char.ofNat (ofBe [hi, lo]) :: ·)
    else none
  | [_] => none

def BmpString.ofOctets (b : Bytes) : Option BmpString := do
  let chars ← bmpChars b
  ofText (String.ofList chars)

def BitString.ofOctets : Bytes → Option BitString
  | [] => none
  | unused :: b => ofParts unused.toNat b

theorem Ia5String.ofText_text (s : Ia5String) : ofText s.text = some s := dif_pos s.ascii

theorem BmpString.ofText_text (s : BmpString) : ofText s.text = some s := dif_pos s.plane

theorem Ia5String.ofOctets_octets (s : Ia5String) : ofOctets s.octets = some s := by
  have same : s.octets.map (fun x => Char.ofNat x.toNat) = s.text.toList := by
    rw [octets, List.map_map]
    refine (List.map_congr_left fun c hc => ?_).trans (List.map_id _)
    have small := of_decide_eq_true (List.all_eq_true.mp s.ascii c hc)
    rw [Function.comp_apply, ofNat_toNat_mod, Nat.mod_eq_of_lt (by omega), Char.ofNat_toNat]
    rfl
  rw [ofOctets, same, String.ofList_toList, s.ofText_text]

theorem bmpChars_octets {chars : List Char} (plane : chars.all (·.toNat < 0x10000) = true) :
    bmpChars (chars.flatMap fun c => be 2 c.toNat) = some chars := by
  induction chars with
  | nil => rfl
  | cons c chars ih =>
    rw [List.all_cons, Bool.and_eq_true, decide_eq_true_eq] at plane
    have small := plane.1
    have value : ofBe (be 2 c.toNat) = c.toNat := ofBe_be (by omega)
    have valid : c.toNat.isValidChar := c.valid
    have rest := ih plane.2
    obtain ⟨hi, lo, two⟩ : ∃ hi lo, be 2 c.toNat = [hi, lo] := ⟨_, _, rfl⟩
    rw [two] at value
    rw [List.flatMap_cons, two, List.cons_append, List.singleton_append, bmpChars, value,
      if_pos valid, rest, Char.ofNat_toNat]
    rfl

theorem BmpString.ofOctets_octets (s : BmpString) : ofOctets s.octets = some s := by
  rw [ofOctets, octets, bmpChars_octets s.plane]
  simp only [bind, Option.bind, String.ofList_toList, s.ofText_text]

theorem BitString.ofOctets_octets (s : BitString) : ofOctets s.octets = some s := by
  have few := s.valid.1
  have value : (UInt8.ofNat s.unusedBits).toNat = s.unusedBits := by
    rw [ofNat_toNat_mod]
    omega
  rw [octets, ofOctets, value]
  exact dif_pos s.valid

section
variable (limit : Limit)

def octetString : Value limit Bytes := ⟨id, some, fun _ _ => rfl⟩

def Ia5String.value : Value limit Ia5String := ⟨octets, ofOctets, fun s _ => s.ofOctets_octets⟩

def BmpString.value : Value limit BmpString := ⟨octets, ofOctets, fun s _ => s.ofOctets_octets⟩

def BitString.value : Value limit BitString := ⟨octets, ofOctets, fun s _ => s.ofOctets_octets⟩

structure SpcSerializedObject where
  classId : Bytes
  serializedData : Bytes

inductive SpcString where
  | unicode (s : BmpString)
  | ascii (s : Ia5String)

inductive SpcLink where
  | url (s : Ia5String)
  | moniker (object : SpcSerializedObject)
  | file (s : SpcString)

structure SpcPeImageData where
  flags : BitString
  file : Option SpcLink

structure SpcSpOpusInfo where
  programName : Option SpcString
  moreInfo : Option SpcLink

def SpcSerializedObject.fields : Fields limit SpcSerializedObject :=
  (field (tagged 0x04 (octetString limit)) (required (tagged 0x04 (octetString limit)))).map
    (fun x => ⟨x.1, x.2⟩) (fun x => (x.classId, x.serializedData)) fun _ => rfl

def SpcString.codec : Codec limit SpcString :=
  (choice (implicitTag 0 false (BmpString.value limit))
    (implicitTag 1 false (Ia5String.value limit)) (apart_tag rfl)).map
    (fun | .inl s => .unicode s | .inr s => .ascii s)
    (fun | .unicode s => .inl s | .ascii s => .inr s) fun x => by cases x <;> rfl

def SpcLink.codec : Codec limit SpcLink :=
  (choice (implicitTag 0 false (Ia5String.value limit))
    (choice (implicitTag 1 true (.ofFields (SpcSerializedObject.fields limit)))
      (explicitTag 2 (SpcString.codec limit)) (apart_tag rfl))
    (apart_tag rfl)).map
    (fun | .inl s => .url s | .inr (.inl o) => .moniker o | .inr (.inr s) => .file s)
    (fun | .url s => .inl s | .moniker o => .inr (.inl o) | .file s => .inr (.inr s))
    fun x => by cases x <;> rfl

def SpcPeImageData.fields : Fields limit SpcPeImageData :=
  (field (tagged 0x03 (BitString.value limit)) (optional (explicitTag 0 (SpcLink.codec limit)))).map
    (fun x => ⟨x.1, x.2⟩) (fun x => (x.flags, x.file)) fun _ => rfl

def SpcPeImageData.codec : Codec limit SpcPeImageData := sequence (fields limit)

def SpcSpOpusInfo.codec : Codec limit SpcSpOpusInfo :=
  sequence ((pair (optional (explicitTag 0 (SpcString.codec limit)))
    (optional (explicitTag 1 (SpcLink.codec limit))) (apart_tag rfl)).map
    (fun x => ⟨x.1, x.2⟩) (fun x => (x.programName, x.moreInfo)) fun _ => rfl)

example (large : 4 ≤ limit.max) : (SpcLink.codec limit).toDer
    (.file (.unicode ⟨"", by decide⟩)) = some [0xa2, 0x02, 0x80, 0x00] :=
  (toDer_eq_some _).mpr ⟨large, rfl⟩

end

section
variable (crate : DerCrate)

structure Any where
  tag : crate.Tag
  value : Bytes

structure AlgorithmIdentifier where
  oid : crate.Oid
  parameters : Option (Any crate)

structure DigestInfo where
  digestAlgorithm : AlgorithmIdentifier crate
  digest : Bytes

structure SpcAttributeTypeAndOptionalValue where
  objType : crate.Oid
  value : Option (Any crate)

structure SpcIndirectDataContent where
  data : SpcAttributeTypeAndOptionalValue crate
  messageDigest : DigestInfo crate

def Any.codec : Codec crate.limit (Any crate) :=
  (any crate.tags).map (fun x => ⟨x.1, x.2⟩) (fun x => (x.tag, x.value)) fun _ => rfl

def objectIdentifier : Codec crate.limit crate.Oid := tagged 0x06 crate.oids

def AlgorithmIdentifier.codec : Codec crate.limit (AlgorithmIdentifier crate) :=
  sequence ((field (objectIdentifier crate) (optional (Any.codec crate))).map
    (fun x => ⟨x.1, x.2⟩) (fun x => (x.oid, x.parameters)) fun _ => rfl)

def DigestInfo.codec : Codec crate.limit (DigestInfo crate) :=
  sequence ((field (AlgorithmIdentifier.codec crate)
    (required (tagged 0x04 (octetString crate.limit)))).map
    (fun x => ⟨x.1, x.2⟩) (fun x => (x.digestAlgorithm, x.digest)) fun _ => rfl)

def SpcAttributeTypeAndOptionalValue.codec :
    Codec crate.limit (SpcAttributeTypeAndOptionalValue crate) :=
  sequence ((field (objectIdentifier crate) (optional (Any.codec crate))).map
    (fun x => ⟨x.1, x.2⟩) (fun x => (x.objType, x.value)) fun _ => rfl)

def SpcIndirectDataContent.codec : Codec crate.limit (SpcIndirectDataContent crate) :=
  sequence ((field (SpcAttributeTypeAndOptionalValue.codec crate)
    (required (DigestInfo.codec crate))).map
    (fun x => ⟨x.1, x.2⟩) (fun x => (x.data, x.messageDigest)) fun _ => rfl)

end

end Asn1

end Rsigncode
