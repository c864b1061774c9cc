import Rsigncode.SpcContent

/-! Signing through a PKCS#11 token: `crypto/pkcs11.rs`. The module and the card behind it
answer each call, and a call may change what the card is in. -/
namespace Rsigncode

open FileStore DerCodec

def sha256DigestInfoPrefix : Bytes :=
  [0x30, 0x31, 0x30, 0x0d, 0x06, 0x09, 0x60, 0x86, 0x48, 0x01, 0x65, 0x03, 0x04, 0x02, 0x01, 0x05,
    0x00, 0x04, 0x20]

inductive SigningMode where
  | sha256RsaPkcs | rawRsaPkcs
  deriving DecidableEq

inductive Mechanism where
  | sha256RsaPkcs | rsaPkcs
  | other (code : Nat)
  deriving DecidableEq

inductive ObjectClass where
  | privateKey
  | other (code : Nat)
  deriving DecidableEq

inductive KeyAttribute where
  | ofClass (c : ObjectClass)
  | id (b : Bytes)
  | label (b : Bytes)
  deriving DecidableEq

/-- The PKCS#11 crate on a card with states in `T`, and what else is used here. -/
structure Cryptoki (T : Type) where
  Ctx : Type
  Slot : Type
  Session : Type
  Handle : Type
  new : Path → Prog T String Ctx
  cInitialize : Ctx → Prog T String Unit
  getSlotsWithToken : Ctx → Prog T String (List Slot)
  slotDescription : Ctx → Slot → Prog T String String
  tokenLabel : Ctx → Slot → Prog T String String
  getMechanismList : Ctx → Slot → Prog T String (List Mechanism)
  openRoSession : Ctx → Slot → Prog T String Session
  login : Session → String → Prog T String Unit
  findObjects : Session → List KeyAttribute → Prog T String (List Handle)
  sign : Session → Mechanism → Handle → Bytes → Prog T String Bytes
  hexDecode : String → Option Bytes
  sha256 : Bytes → Bytes
  display : Path → String
  debug : String → String

structure Mutex (α : Type) where
  value : α
  poisoned : Bool := false

structure Pkcs11Signer {T : Type} (p : Cryptoki T) where
  session : Mutex p.Session
  privateKey : p.Handle
  mode : SigningMode
  publicKey : Bytes

structure ProbeReport where
  slotDescription : String
  tokenLabel : String
  supportsSha256RsaPkcs : Bool
  privateKeyCount : Nat

def signingError (text : String) : Fault := .error (.signing text)

section Calls
variable {T α : Type} (p : Cryptoki T)

def refusedAs (text : String) (x : Prog T String α) : Prog T Fault α :=
  x.zoom id (fun _ t => t) fun e => signingError (text ++ e)

namespace Cryptoki

def firstSlot (modulePath : Path) : Prog T Fault (p.Ctx × p.Slot) := do
  let ctx ← refusedAs ("failed to load PKCS#11 module " ++ p.display modulePath ++ ": ")
    (p.new modulePath)
  refusedAs "PKCS#11 C_Initialize failed: " (p.cInitialize ctx)
  let slots ← refusedAs "PKCS#11 C_GetSlotList failed: " (p.getSlotsWithToken ctx)
  match slots with
  | slot :: _ => pure (ctx, slot)
  | [] => .fail (signingError "no PKCS#11 slot with a token present")

/-- A list that cannot be had counts as an empty one. -/
def supportsSha256Rsa (ctx : p.Ctx) (slot : p.Slot) : Prog T Fault Bool := ⟨fun t =>
  match (p.getMechanismList ctx slot).run t with
  | (.ok list, t) => (.ok (list.contains .sha256RsaPkcs), t)
  | (.error _, t) => (.ok false, t)⟩

def openSession (ctx : p.Ctx) (slot : p.Slot) (pin : String) : Prog T Fault p.Session := do
  let session ← refusedAs "PKCS#11 C_OpenSession failed: " (p.openRoSession ctx slot)
  refusedAs "PKCS#11 C_Login failed: " (p.login session pin)
  pure session

/-- What the key is asked for: by its id where that is hex, else by its label. -/
def template (keyId : String) : List KeyAttribute :=
  .ofClass .privateKey ::
    if keyId.isEmpty then []
    else match p.hexDecode keyId with
      | some id => [.id id]
      | none => [.label (utf8 keyId)]

def findPrivateKey (session : p.Session) (keyId : String) : Prog T Fault p.Handle := do
  let handles ← refusedAs "PKCS#11 C_FindObjects failed: "
    (p.findObjects session (p.template keyId))
  match handles with
  | [] => .fail (signingError (if keyId.isEmpty then "token has no private key"
      else "no private key on the token matches id/label " ++ p.debug keyId))
  | [handle] => pure handle
  | _ => .fail (signingError (if keyId.isEmpty then
        "token has " ++ toString handles.length ++ " private keys; set a key id to choose one"
      else toString handles.length ++ " private keys match id/label " ++ p.debug keyId ++
        "; expected exactly one"))

def openSigner (modulePath : Path) (pin keyId : String) (publicKeyData : Bytes) :
    Prog T Fault (Pkcs11Signer p) := do
  let (ctx, slot) ← p.firstSlot modulePath
  let supports ← p.supportsSha256Rsa ctx slot
  let mode := if supports then SigningMode.sha256RsaPkcs else .rawRsaPkcs
  let session ← p.openSession ctx slot pin
  let privateKey ← p.findPrivateKey session keyId
  pure { session := { value := session }, privateKey, mode, publicKey := publicKeyData }

def probe (modulePath : Path) (pin : String) : Prog T Fault ProbeReport := do
  let (ctx, slot) ← p.firstSlot modulePath
  let slotDescription ← refusedAs "PKCS#11 C_GetSlotInfo failed: " (p.slotDescription ctx slot)
  let tokenLabel ← refusedAs "PKCS#11 C_GetTokenInfo failed: " (p.tokenLabel ctx slot)
  let supportsSha256RsaPkcs ← p.supportsSha256Rsa ctx slot
  let session ← p.openSession ctx slot pin
  let handles ← refusedAs "PKCS#11 C_FindObjects failed: "
    (p.findObjects session [.ofClass .privateKey])
  pure { slotDescription, tokenLabel, supportsSha256RsaPkcs, privateKeyCount := handles.length }

end Cryptoki

variable {p}

def Pkcs11Signer.signMessage (signer : Pkcs11Signer p) (message : Bytes) :
    Prog T Fault Bytes := do
  let (mechanism, payload) := match signer.mode with
    | .sha256RsaPkcs => (Mechanism.sha256RsaPkcs, message)
    | .rawRsaPkcs => (Mechanism.rsaPkcs, sha256DigestInfoPrefix ++ p.sha256 message)
  .rejectIf (signer.session.poisoned = true) (signingError "PKCS#11 session mutex poisoned")
  refusedAs "PKCS#11 C_Sign failed: "
    (p.sign signer.session.value mechanism signer.privateKey payload)

end Calls

section DigestInfo
variable (crate : DerCrate)

def sha256DigestInfo (digest : Bytes) : Asn1.DigestInfo crate where
  digestAlgorithm := { oid := crate.newUnwrap idSha256, parameters := some ⟨crate.null, []⟩ }
  digest

variable {crate}

theorem digestInfo_encode
    (oid : crate.oids.encode (crate.newUnwrap idSha256) =
      [0x60, 0x86, 0x48, 0x01, 0x65, 0x03, 0x04, 0x02, 0x01])
    {digest : Bytes} (length : digest.length = 32) :
    (Asn1.DigestInfo.codec crate).encode (sha256DigestInfo crate digest) =
      sha256DigestInfoPrefix ++ digest := by
  have algorithm : (Asn1.AlgorithmIdentifier.codec crate).encode
      (sha256DigestInfo crate digest).digestAlgorithm = tlv 0x30 (tlv 0x06
        (crate.oids.encode (crate.newUnwrap idSha256)) ++
          (Asn1.Any.codec crate).encode ⟨crate.null, []⟩) := rfl
  have whole : (Asn1.DigestInfo.codec crate).encode (sha256DigestInfo crate digest) =
      tlv 0x30 ((Asn1.AlgorithmIdentifier.codec crate).encode
        (sha256DigestInfo crate digest).digestAlgorithm ++ tlv 0x04 digest) := rfl
  have octets : tlv 0x04 digest = 0x04 :: 0x20 :: digest := by
    rw [tlv, length]
    rfl
  rw [oid, encode_anyNull] at algorithm
  rw [whole, algorithm, octets, tlv]
  simp only [List.length_append, List.length_cons, length]
  rfl

end DigestInfo

section Key
variable {T : Type} {p : Cryptoki T}

structure KeyObject where
  ofClass : ObjectClass
  id : Bytes
  label : Bytes

def KeyObject.has (o : KeyObject) : KeyAttribute → Bool
  | .ofClass c => o.ofClass == c
  | .id b => o.id == b
  | .label b => o.label == b

def Cryptoki.digestInfo (p : Cryptoki T) (crate : DerCrate) (message : Bytes) : Bytes :=
  (Asn1.DigestInfo.codec crate).encode (sha256DigestInfo crate (p.sha256 message))

/-- What PKCS#11 says of a module and its cards. A session sees the objects of its own card;
once it is logged in, it finds those with all the attributes. `rsa` is what the key behind a
handle signs an encoded `DigestInfo` to: a card that carries out the plain mechanism returns
that of its input, and one that carries out the combined mechanism that of the `DigestInfo` of
its input. A card need not have either. -/
structure CardLaws (p : Cryptoki T) (crate : DerCrate) (loggedIn : T → p.Session → Prop)
    (objects : p.Session → List (p.Handle × KeyObject))
    (rsa : p.Session → p.Handle → Bytes → Bytes) : Prop where
  login : ∀ session pin t u, (p.login session pin).run t = (.ok (), u) → loggedIn u session
  finds : ∀ session template t u handles, loggedIn t session →
    (p.findObjects session template).run t = (.ok handles, u) →
    handles = ((objects session).filter fun o => template.all o.2.has).map Prod.fst
  plain : ∀ session handle payload t u signature,
    (p.sign session .rsaPkcs handle payload).run t = (.ok signature, u) →
    signature = rsa session handle payload
  combined : ∀ session handle message t u signature,
    (p.sign session .sha256RsaPkcs handle message).run t = (.ok signature, u) →
    signature = rsa session handle (p.digestInfo crate message)
  length : ∀ message, (p.sha256 message).length = 32
  oid : crate.oids.encode (crate.newUnwrap idSha256) =
    [0x60, 0x86, 0x48, 0x01, 0x65, 0x03, 0x04, 0x02, 0x01]

def Cryptoki.Selects (p : Cryptoki T) (keyId : String) (o : KeyObject) : Prop :=
  o.ofClass = .privateKey ∧ (keyId ≠ "" →
    match p.hexDecode keyId with
    | some id => o.id = id
    | none => o.label = utf8 keyId)

theorem refusedAs_eq_ok {α : Type} {text : String} {x : Prog T String α} {a : α} {t u : T} :
    (refusedAs text x).run t = (.ok a, u) ↔ x.run t = (.ok a, u) := by
  refine Prog.zoom_eq_ok.trans ⟨?_, fun run => ⟨u, run, rfl⟩⟩
  rintro ⟨_, run, rfl⟩
  exact run

theorem template_has (keyId : String) (o : KeyObject) :
    (p.template keyId).all o.has = true ↔ p.Selects keyId o := by
  rw [Cryptoki.template, List.all_cons, Bool.and_eq_true, Cryptoki.Selects]
  refine and_congr beq_iff_eq ?_
  by_cases any : keyId = ""
  · simp [any]
  · have given : keyId.isEmpty = false := by simpa using any
    rw [given]
    simp only [any, ne_eq, not_false_eq_true, forall_const, Bool.false_eq_true, if_false]
    cases p.hexDecode keyId <;> simp [KeyObject.has]

section Laws
variable {crate : DerCrate} {loggedIn : T → p.Session → Prop}
  {objects : p.Session → List (p.Handle × KeyObject)} {rsa : p.Session → p.Handle → Bytes → Bytes}

theorem openSession_eq_ok (laws : CardLaws p crate loggedIn objects rsa)
    {ctx : p.Ctx} {slot : p.Slot} {pin : String} {session : p.Session} {t u : T}
    (run : (p.openSession ctx slot pin).run t = (.ok session, u)) : loggedIn u session := by
  obtain ⟨opened, _, -, run₁⟩ := Prog.bind_eq_ok.mp run
  obtain ⟨_, _, login, run₂⟩ := Prog.bind_eq_ok.mp run₁
  obtain ⟨rfl, rfl⟩ := Prog.pure_eq_ok.mp run₂
  exact laws.login _ _ _ _ (refusedAs_eq_ok.mp login)

theorem findPrivateKey_eq_ok (laws : CardLaws p crate loggedIn objects rsa)
    {session : p.Session} {keyId : String} {handle : p.Handle} {t u : T}
    (inside : loggedIn t session)
    (run : (p.findPrivateKey session keyId).run t = (.ok handle, u)) :
    ∃ key, (handle, key) ∈ objects session ∧ p.Selects keyId key ∧
      ∀ o ∈ objects session, p.Selects keyId o.2 → o = (handle, key) := by
  obtain ⟨handles, _, found, run₁⟩ := Prog.bind_eq_ok.mp run
  have listed := laws.finds _ _ _ _ _ inside (refusedAs_eq_ok.mp found)
  rcases handles with _ | ⟨first, _ | ⟨second, handles⟩⟩
  · cases run₁
  · cases run₁
    obtain ⟨⟨handle, key⟩, only, rfl⟩ := List.map_eq_singleton_iff.mp listed.symm
    have members : ∀ o, o ∈ objects session ∧ p.Selects keyId o.2 ↔ o = (handle, key) := by
      intro o
      have kept : o ∈ (objects session).filter (fun o => (p.template keyId).all o.2.has) ↔
          o ∈ objects session ∧ (p.template keyId).all o.2.has = true := List.mem_filter
      rw [only, List.mem_singleton, template_has] at kept
      exact kept.symm
    obtain ⟨there, selected⟩ := (members _).mpr rfl
    exact ⟨key, there, selected, fun o here selects => (members o).mp ⟨here, selects⟩⟩
  · cases run₁

theorem signMessage_eq (oid : crate.oids.encode (crate.newUnwrap idSha256) =
      [0x60, 0x86, 0x48, 0x01, 0x65, 0x03, 0x04, 0x02, 0x01])
    (length : ∀ message, (p.sha256 message).length = 32) {signer : Pkcs11Signer p}
    (sound : signer.session.poisoned = false) (message : Bytes) :
    signer.signMessage message = refusedAs "PKCS#11 C_Sign failed: "
      (if signer.mode = .sha256RsaPkcs then
        p.sign signer.session.value .sha256RsaPkcs signer.privateKey message
      else p.sign signer.session.value .rsaPkcs signer.privateKey
        (p.digestInfo crate message)) := by
  have open' : (Prog.rejectIf (signer.session.poisoned = true)
      (signingError "PKCS#11 session mutex poisoned") : Prog T Fault Unit) = pure () := by
    rw [sound]
    rfl
  rw [Pkcs11Signer.signMessage]
  cases signer.mode with
  | sha256RsaPkcs =>
    dsimp only
    rw [open', Prog.pure_bind, if_pos rfl]
  | rawRsaPkcs =>
    dsimp only
    rw [open', Prog.pure_bind, if_neg (by decide), Cryptoki.digestInfo,
      digestInfo_encode oid (length message)]

theorem signMessage_eq_ok (laws : CardLaws p crate loggedIn objects rsa)
    {signer : Pkcs11Signer p} (sound : signer.session.poisoned = false) {message : Bytes}
    {signature : Bytes} {t u : T} (run : (signer.signMessage message).run t = (.ok signature, u)) :
    signature = rsa signer.session.value signer.privateKey (p.digestInfo crate message) := by
  rw [signMessage_eq laws.oid laws.length sound, refusedAs_eq_ok] at run
  split at run
  · exact laws.combined _ _ _ _ _ _ run
  · exact laws.plain _ _ _ _ _ _ run

/-- A signer that was opened holds the only private key that its key id stands for, and asks
the card for one signature a message: of the message where the card has the combined
mechanism, else of the `DigestInfo`. Either comes back as the signature of the `DigestInfo`. -/
theorem opened_signer_signs (laws : CardLaws p crate loggedIn objects rsa)
    {modulePath : Path} {pin keyId : String} {publicKeyData : Bytes} {signer : Pkcs11Signer p}
    {t u : T} (opened : (p.openSigner modulePath pin keyId publicKeyData).run t =
      (.ok signer, u)) :
    (∃ key, (signer.privateKey, key) ∈ objects signer.session.value ∧ p.Selects keyId key ∧
      ∀ o ∈ objects signer.session.value, p.Selects keyId o.2 → o = (signer.privateKey, key)) ∧
    ∀ message, signer.signMessage message = refusedAs "PKCS#11 C_Sign failed: "
      (if signer.mode = .sha256RsaPkcs then
        p.sign signer.session.value .sha256RsaPkcs signer.privateKey message
      else p.sign signer.session.value .rsaPkcs signer.privateKey (p.digestInfo crate message)) ∧
      ∀ signature t u, (signer.signMessage message).run t = (.ok signature, u) →
        signature = rsa signer.session.value signer.privateKey (p.digestInfo crate message) := by
  obtain ⟨⟨ctx, slot⟩, _, -, run₁⟩ := Prog.bind_eq_ok.mp opened
  obtain ⟨supports, _, -, run₂⟩ := Prog.bind_eq_ok.mp run₁
  obtain ⟨session, _, entered, run₃⟩ := Prog.bind_eq_ok.mp run₂
  obtain ⟨privateKey, _, found, run₄⟩ := Prog.bind_eq_ok.mp run₃
  obtain ⟨rfl, -⟩ := Prog.pure_eq_ok.mp run₄
  exact ⟨findPrivateKey_eq_ok laws (openSession_eq_ok laws entered) found, fun message =>
    ⟨signMessage_eq laws.oid laws.length rfl message,
      fun _ _ _ run => signMessage_eq_ok laws rfl run⟩⟩

end Laws

/-- What a probe reports is what opening with no key id comes to: on a card with one private
key a signer in the mode that was reported, and on any other the error that names the
number. -/
theorem probe_foretells_open {modulePath : Path} {pin : String} {report : ProbeReport} {t u : T}
    (quiet : ∀ ctx slot t, ((p.slotDescription ctx slot).run t).2 = t ∧
      ((p.tokenLabel ctx slot).run t).2 = t)
    (probed : (p.probe modulePath pin).run t = (.ok report, u)) (publicKeyData : Bytes) :
    (report.privateKeyCount = 1 → ∃ session privateKey,
      (p.openSigner modulePath pin "" publicKeyData).run t = (.ok {
        session
        privateKey
        mode := if report.supportsSha256RsaPkcs then .sha256RsaPkcs else .rawRsaPkcs
        publicKey := publicKeyData }, u) ∧ session.poisoned = false) ∧
    (report.privateKeyCount ≠ 1 → (p.openSigner modulePath pin "" publicKeyData).run t =
      (.error (signingError (if report.privateKeyCount = 0 then "token has no private key"
        else "token has " ++ toString report.privateKeyCount ++
          " private keys; set a key id to choose one")), u)) := by
  obtain ⟨⟨ctx, slot⟩, t₁, first, run₁⟩ := Prog.bind_eq_ok.mp probed
  obtain ⟨description, t₂, described, run₂⟩ := Prog.bind_eq_ok.mp run₁
  obtain ⟨label, t₃, labelled, run₃⟩ := Prog.bind_eq_ok.mp run₂
  obtain ⟨supports, t₄, asked, run₄⟩ := Prog.bind_eq_ok.mp run₃
  obtain ⟨session, t₅, entered, run₅⟩ := Prog.bind_eq_ok.mp run₄
  obtain ⟨handles, t₆, found, run₆⟩ := Prog.bind_eq_ok.mp run₅
  obtain ⟨rfl, rfl⟩ := Prog.pure_eq_ok.mp run₆
  -- the two questions that opening does not ask leave the card as it was
  have same₂ : t₂ = t₁ := by
    have kept := (quiet ctx slot t₁).1
    rwa [refusedAs_eq_ok.mp described] at kept
  have same₃ : t₃ = t₁ := by
    have kept := (quiet ctx slot t₂).2
    rw [refusedAs_eq_ok.mp labelled] at kept
    exact kept.trans same₂
  rw [same₃] at asked
  have asks : (p.findPrivateKey session "").run t₅ = _ := Prog.bind_ok found
  have opens : (p.openSigner modulePath pin "" publicKeyData).run t = _ :=
    (Prog.bind_ok first).trans ((Prog.bind_ok asked).trans (Prog.bind_ok entered))
  rcases handles with _ | ⟨handle, _ | ⟨second, handles⟩⟩
  · exact ⟨fun one => (nomatch one), fun _ => opens.trans (Prog.bind_error asks)⟩
  · exact ⟨fun _ => ⟨_, handle, opens.trans (Prog.bind_ok asks), rfl⟩,
      fun other => (other rfl).elim⟩
  · refine ⟨fun one => ?_, fun _ => opens.trans (Prog.bind_error asks)⟩
    simp at one

end Key

section Sample

/-- A card with one key and the plain mechanism only, which signs to what it is given. -/
def echoCard : Cryptoki Bool where
  Ctx := Unit
  Slot := Unit
  Session := Unit
  Handle := Unit
  new _ := pure ()
  cInitialize _ := pure ()
  getSlotsWithToken _ := pure [()]
  slotDescription _ _ := pure "slot"
  tokenLabel _ _ := pure "token"
  getMechanismList _ _ := pure [.rsaPkcs]
  openRoSession _ _ := pure ()
  login _ _ := ⟨fun _ => (.ok (), true)⟩
  findObjects _ template :=
    pure (if template.all (KeyObject.has ⟨.privateKey, [7], []⟩) then [()] else [])
  sign _ mechanism _ payload :=
    if mechanism = .rsaPkcs then pure payload else .fail "CKR_MECHANISM_INVALID"
  hexDecode _ := some [7]
  sha256 _ := List.replicate 32 0
  display := id
  debug := id

theorem echoCard_laws : CardLaws echoCard octetCrate (fun inside _ => inside = true)
    (fun _ => [((), ⟨.privateKey, [7], []⟩)]) fun _ _ payload => payload where
  login _ _ _ _ run := by cases run; rfl
  finds session template t u handles _ run := by
    cases run
    cases listed : template.all (KeyObject.has ⟨.privateKey, [7], []⟩) <;>
      simp only [List.filter, listed] <;> rfl
  plain _ _ _ _ _ _ run := by cases run; rfl
  combined _ _ _ _ _ _ run := by cases run
  length _ := List.length_replicate ..
  oid := rfl

theorem opened_signer_signs_echo : ∃ signer : Pkcs11Signer echoCard,
    (echoCard.openSigner "card.so" "0000" "07" []).run false = (.ok signer, true) ∧
      echoCard.Selects "07" ⟨.privateKey, [7], []⟩ ∧
      ∃ signature, (signer.signMessage [1, 2, 3]).run true = (.ok signature, true) ∧
        signature = echoCard.digestInfo octetCrate [1, 2, 3] := by
  have opened : (echoCard.openSigner "card.so" "0000" "07" []).run false =
    (.ok ⟨⟨(), false⟩, (), .rawRsaPkcs, []⟩, true) := rfl
  obtain ⟨⟨key, listed, selected, -⟩, signs⟩ := opened_signer_signs echoCard_laws opened
  cases List.mem_singleton.mp listed
  have run : (Pkcs11Signer.signMessage (p := echoCard) ⟨⟨(), false⟩, (), .rawRsaPkcs, []⟩
      [1, 2, 3]).run true = (.ok (sha256DigestInfoPrefix ++ List.replicate 32 0), true) := rfl
  exact ⟨_, opened, selected, _, run, (signs [1, 2, 3]).2 _ _ _ run⟩

theorem probe_foretells_open_echo : ∃ report,
    (echoCard.probe "card.so" "0000").run false = (.ok report, true) ∧
      ∃ session privateKey, (echoCard.openSigner "card.so" "0000" "" []).run false =
        (.ok ⟨session, privateKey, .rawRsaPkcs, []⟩, true) := by
  have probed : (echoCard.probe "card.so" "0000").run false =
    (.ok ⟨"slot", "token", false, 1⟩, true) := rfl
  obtain ⟨session, privateKey, opened, -⟩ :=
    (probe_foretells_open (fun _ _ _ => ⟨rfl, rfl⟩) probed []).1 rfl
  exact ⟨_, probed, session, privateKey, opened⟩

end Sample

end Rsigncode
