import Rsigncode.Crates
import Rsigncode.Rewrite
import Rsigncode.Lib.Base64

/-! The answer of a legacy timestamp server: `request_authenticode`. The body is DER, or
DER in base64; which of the two is guessed from its first three octets. -/
namespace Rsigncode

open FileStore Number Tlv

def spcTimeStampRequest : Oid := [1, 3, 6, 1, 4, 1, 311, 3, 2, 1]
def pkcs7Data : Oid := [1, 2, 840, 113549, 1, 7, 1]

structure TimeStampRequestBlob where
  contentType : Oid
  signature : Bytes

structure TimeStampRequest where
  reqType : Oid
  blob : TimeStampRequestBlob

/-- `status` is the displayed status; the body may still fail to arrive. -/
structure HttpResponse where
  isSuccess : Bool
  status : String
  bytes : Except String Bytes

structure TsaCrates (SignedData : Type) where
  octetString : Bytes → Except String Bytes
  toDer : TimeStampRequest → Except String Bytes
  post : String → Bytes → Except String HttpResponse
  base64Decode : Bytes → Except String Bytes
  decodeBer : Bytes → Except String SignedData

def mapErr {α : Type} (kind : String → Error) (text : String) : Except String α → Res α
  | .ok a => .ok a
  | .error e => .error (.error (kind (text ++ e)))

/-- The three octets `MII`. -/
def looksLikeBase64 (body : Bytes) : Bool := [77, 73, 73].isPrefixOf body

def decodeResponse (base64Decode : Bytes → Except String Bytes) (body : Bytes) : Res Bytes :=
  if looksLikeBase64 body then
    mapErr .timestamp "failed to base64-decode timestamp response: " (base64Decode body)
  else pure body

def timeStampRequest (signature : Bytes) : TimeStampRequest where
  reqType := spcTimeStampRequest
  blob := { contentType := pkcs7Data, signature }

def requestAuthenticode {SignedData : Type} (crates : TsaCrates SignedData)
    (signatureBytes : Bytes) (url : String) : Res SignedData := do
  let signature ← mapErr .timestamp "OctetString error: " (crates.octetString signatureBytes)
  let derBytes ← mapErr .timestamp "failed to DER-encode timestamp request: "
    (crates.toDer (timeStampRequest signature))
  let b64Body := Base64.encode derBytes
  let response ← mapErr .http ("Authenticode timestamp request to " ++ url ++ " failed: ")
    (crates.post url b64Body)
  if !response.isSuccess then
    .error (.error (.http
      ("Authenticode timestamp server " ++ url ++ " returned HTTP " ++ response.status)))
  else do
    let responseBytes ← mapErr .http "failed to read response body: " response.bytes
    let pkcs7Der ← decodeResponse crates.base64Decode responseBytes
    mapErr .timestamp "failed to parse Authenticode timestamp PKCS#7: "
      (crates.decodeBer pkcs7Der)

/-- The guess goes by eighteen bits: the tag, the form of the length, and two bits of it. -/
theorem looksLikeBase64_encode (a b c : UInt8) (rest : Bytes) :
    looksLikeBase64 (Base64.encode (a :: b :: c :: rest)) = true ↔
      a = 0x30 ∧ b = 0x82 ∧ c.toNat < 64 := by
  have hb := b.toNat_lt
  have hc := c.toNat_lt
  have starts := Base64.encode_starts (i := 12) (j := 8) (k := 8) (by decide) (by decide)
    (by decide) a b c rest
  rw [looksLikeBase64, List.isPrefixOf_iff_prefix]
  refine starts.trans ?_
  rw [← UInt8.toNat_inj, ← UInt8.toNat_inj]
  simp only [UInt8.reduceToNat]
  omega

theorem emitTlv_head {content : Bytes} (memory : content.length < 2 ^ 64) (tag : UInt8) :
    emitTlv tag content = tag :: lengthOctets content.length ++ content := by
  rw [emitTlv, encodeLen_eq tag memory]

theorem lengthOctets_two {n : Nat} (large : 256 ≤ n) (small : n < 2 ^ 16) :
    lengthOctets n = [0x82, UInt8.ofNat (n / 256), UInt8.ofNat n] := by
  have value : ofBe [UInt8.ofNat (n / 256), UInt8.ofNat n] = n := by
    rw [ofBe_cons, ofBe_cons, ofNat_toNat_mod, ofNat_toNat_mod]
    simp only [List.length_cons, List.length_nil, ofBe, List.foldl_nil]
    omega
  have leading : [UInt8.ofNat (n / 256), UInt8.ofNat n].head? ≠ some 0 := by
    intro zero
    have first := congrArg UInt8.toNat (Option.some.inj zero)
    rw [ofNat_toNat_mod, UInt8.toNat_zero] at first
    omega
  have trimmed := trim_be_ofBe (w := 8) (by simp) leading
  rw [value] at trimmed
  rw [lengthOctets, if_neg (by omega), trimmed]
  rfl

theorem lengthOctets_more {n : Nat} (large : 2 ^ 16 ≤ n) (fits : n < 2 ^ 64) :
    ∃ k c x, lengthOctets n = UInt8.ofNat (128 + k) :: c :: x ∧ 2 < k ∧ k ≤ 8 := by
  have value : ofBe (trim (be 8 n)) = n := (ofBe_trim _).trans (ofBe_be (by omega))
  have room := ofBe_lt (trim (be 8 n))
  have few := trim_be_length n
  have many : 2 < (trim (be 8 n)).length := by
    by_contra short
    have pow : 256 ^ (trim (be 8 n)).length ≤ 256 ^ 2 :=
      Nat.pow_le_pow_right (by decide) (by omega)
    omega
  obtain ⟨c, x, cons⟩ := List.exists_cons_of_length_pos (Nat.zero_lt_of_lt many)
  exact ⟨_, c, x, by rw [lengthOctets, if_neg (by omega), cons], cons ▸ many, cons ▸ few⟩

theorem looksLikeBase64_sequence {content : Bytes} (large : 256 ≤ content.length)
    (memory : content.length < 2 ^ 64) :
    looksLikeBase64 (Base64.encode (emitTlv 0x30 content)) = true ↔
      content.length < 2 ^ 14 := by
  rw [emitTlv_head memory]
  by_cases small : content.length < 2 ^ 16
  · rw [lengthOctets_two large small]
    refine (looksLikeBase64_encode _ _ _ _).trans ?_
    rw [ofNat_toNat_mod]
    simp only [true_and]
    omega
  · obtain ⟨k, c, x, octets, many, few⟩ := lengthOctets_more (Nat.le_of_not_lt small) memory
    rw [octets]
    refine (looksLikeBase64_encode _ _ _ _).trans ?_
    have other : UInt8.ofNat (128 + k) ≠ 0x82 := fun same => by
      have two : 128 + k = 130 := ofNat_inj_of_lt (by omega) (by omega) same
      omega
    simp only [other, false_and, and_false, false_iff]
    omega

theorem not_looksLikeBase64_sequence {content : Bytes} (memory : content.length < 2 ^ 64) :
    looksLikeBase64 (emitTlv 0x30 content) = false := by
  rw [emitTlv_head memory]
  rfl

section Transports
variable {base64Decode : Bytes → Except String Bytes}

def ReadsBoth (base64Decode : Bytes → Except String Bytes) (p : Bytes) : Prop :=
  decodeResponse base64Decode (Base64.encode p) = .ok p ∧ decodeResponse base64Decode p = .ok p

theorem not_readsBoth {p : Bytes} (nonempty : p ≠ [])
    (raw : looksLikeBase64 (Base64.encode p) ≠ true) : ¬ ReadsBoth base64Decode p := by
  rintro ⟨encoded, -⟩
  rw [decodeResponse, if_neg raw] at encoded
  exact Base64.encode_ne_self nonempty (Except.ok.inj encoded)

theorem emitTlv_ne_nil {content : Bytes} (memory : content.length < 2 ^ 64) (tag : UInt8) :
    emitTlv tag content ≠ [] := by
  rw [emitTlv_head memory]
  exact List.cons_ne_nil _ _

/-- The decoding step reads both transports of a response exactly where its length fits
into fourteen bits. -/
theorem readsBoth_iff (decodes : ∀ p, base64Decode (Base64.encode p) = .ok p)
    {content : Bytes} (large : 256 ≤ content.length) (memory : content.length < 2 ^ 64) :
    ReadsBoth base64Decode (emitTlv 0x30 content) ↔ content.length < 2 ^ 14 := by
  rw [← looksLikeBase64_sequence large memory]
  constructor
  · intro both
    by_contra raw
    exact not_readsBoth (emitTlv_ne_nil memory _) raw both
  · intro guess
    refine ⟨?_, ?_⟩
    · rw [decodeResponse, if_pos guess, decodes]
      rfl
    · rw [decodeResponse, not_looksLikeBase64_sequence memory]
      rfl

end Transports

def strictDecode (body : Bytes) : Except String Bytes :=
  match Base64.decode body with
  | some x => .ok x
  | none => .error "Invalid input"

theorem strictDecode_encode (p : Bytes) : strictDecode (Base64.encode p) = .ok p := by
  rw [strictDecode, Base64.decode_encode]

theorem readsBoth_iff_zeros :
    ReadsBoth strictDecode (emitTlv 0x30 (Window.zeros 256)) ↔
      (Window.zeros 256 : Bytes).length < 2 ^ 14 :=
  readsBoth_iff strictDecode_encode (by simp) (by simp)

/-- A response of sixteen kibibytes in base64 is handed on undecoded. -/
theorem base64_response_undecoded : ¬ ∀ (base64Decode : Bytes → Except String Bytes),
    (∀ p, base64Decode (Base64.encode p) = .ok p) →
    ∀ content : Bytes, 256 ≤ content.length → content.length < 2 ^ 32 →
      ReadsBoth base64Decode (emitTlv 0x30 content) := by
  intro claim
  have length : (Window.zeros (2 ^ 14) : Bytes).length = 2 ^ 14 := Window.zeros_length _
  have both := claim strictDecode strictDecode_encode (Window.zeros (2 ^ 14)) (by omega) (by omega)
  refine not_readsBoth (emitTlv_ne_nil (by omega) _) ?_ both
  intro guess
  have short := (looksLikeBase64_sequence (by omega) (by omega)).mp guess
  omega

end Rsigncode
