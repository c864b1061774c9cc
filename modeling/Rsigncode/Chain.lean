import Rsigncode.Crates
import Mathlib.Logic.Relation

/-! The walk from a signer certificate to a trusted one: `crypto/chain.rs`. -/
namespace Rsigncode

open FileStore

def findSignerCert (crates : Crates) (signedData : crates.SignedData) (signer : crates.Signer) :
    Option crates.Cert := do
  let (issuer, serial) ← crates.certificateIssuerAndSerial signer
  (crates.certificates signedData).find? fun cert =>
    crates.serialNumberAsn1 cert == serial && crates.issuerName cert == issuer

variable {Cert : Type} (x509 : X509 Cert)

def isCertInSet (cert : Cert) (set : List Cert) : Bool :=
  set.any fun c => x509.constructedData c == x509.constructedData cert

def findIssuer (cert : Cert) (candidates : List Cert) : Option Cert :=
  candidates.find? (x509.verifySignedByCertificate cert)

/-- The loop of `verifyChainToCa`: the rounds left, where the walk stands, and the
encodings it has stood at. -/
def chainLoop (allCerts caCerts : List Cert) : Nat → Cert → List Bytes → Bool
  | 0, _, _ => false
  | rounds + 1, current, visited =>
    let currentData := x509.constructedData current
    if visited.contains currentData then false
    else if isCertInSet x509 current caCerts then true
    else if x509.verifySignedByCertificate current current then isCertInSet x509 current caCerts
    else match findIssuer x509 current allCerts with
      | some issuer =>
        if x509.verifySignedByCertificate current issuer then
          chainLoop allCerts caCerts rounds issuer (currentData :: visited)
        else false
      | none => false

def verifyChainToCa (signerCert : Cert) (certBag caCerts : List Cert) : Bool :=
  chainLoop x509 (certBag ++ caCerts) caCerts 20 signerCert []

def Issued (candidates : List Cert) (cert issuer : Cert) : Prop :=
  issuer ∈ candidates ∧ x509.verifySignedByCertificate cert issuer = true

def ChainsTo (candidates caCerts : List Cert) (cert : Cert) : Prop :=
  ∃ root, Relation.ReflTransGen (Issued x509 candidates) cert root ∧
    isCertInSet x509 root caCerts = true

variable {x509}

theorem findIssuer_issued {cert issuer : Cert} {candidates : List Cert}
    (found : findIssuer x509 cert candidates = some issuer) :
    Issued x509 candidates cert issuer :=
  ⟨List.mem_of_find?_eq_some found, List.find?_some found⟩

theorem chainLoop_succ {allCerts caCerts : List Cert} {rounds : Nat} {current : Cert}
    {visited : List Bytes} :
    chainLoop x509 allCerts caCerts (rounds + 1) current visited = true ↔
      x509.constructedData current ∉ visited ∧ (isCertInSet x509 current caCerts = true ∨
        isCertInSet x509 current caCerts = false ∧
        x509.verifySignedByCertificate current current = false ∧
        ∃ issuer, findIssuer x509 current allCerts = some issuer ∧
          chainLoop x509 allCerts caCerts rounds issuer
            (x509.constructedData current :: visited) = true) := by
  simp only [chainLoop]
  by_cases seen : x509.constructedData current ∈ visited
  · simp [seen]
  cases trusted : isCertInSet x509 current caCerts with
  | true => simp [seen]
  | false =>
    cases root : x509.verifySignedByCertificate current current with
    | true => simp [seen]
    | false =>
      cases found : findIssuer x509 current allCerts with
      | none => simp [seen]
      | some issuer => simp [seen, (findIssuer_issued found).2]

theorem chainLoop_sound {allCerts caCerts : List Cert} {rounds : Nat} {current : Cert}
    {visited : List Bytes}
    (accepted : chainLoop x509 allCerts caCerts rounds current visited = true) :
    ChainsTo x509 allCerts caCerts current := by
  induction rounds generalizing current visited with
  | zero => cases accepted
  | succ rounds ih =>
    obtain ⟨-, trusted | ⟨-, -, issuer, found, rest⟩⟩ := chainLoop_succ.mp accepted
    · exact ⟨current, .refl, trusted⟩
    · obtain ⟨root, links, trusted⟩ := ih rest
      exact ⟨root, links.head (findIssuer_issued found), trusted⟩

theorem verifyChainToCa_sound {signerCert : Cert} {certBag caCerts : List Cert}
    (accepted : verifyChainToCa x509 signerCert certBag caCerts = true) :
    ChainsTo x509 (certBag ++ caCerts) caCerts signerCert :=
  chainLoop_sound accepted

theorem findSignerCert_eq_some {crates : Crates} {signedData : crates.SignedData}
    {signer : crates.Signer} {cert : crates.Cert}
    (found : findSignerCert crates signedData signer = some cert) :
    cert ∈ crates.certificates signedData ∧ crates.certificateIssuerAndSerial signer =
      some (crates.issuerName cert, crates.serialNumberAsn1 cert) := by
  simp only [findSignerCert, Option.bind_eq_bind, Option.bind_eq_some_iff] at found
  obtain ⟨⟨issuer, serial⟩, named, found⟩ := found
  have same := List.find?_some found
  simp only [Bool.and_eq_true, beq_iff_eq] at same
  exact ⟨List.mem_of_find?_eq_some found, by rw [named, same.1, same.2]⟩

end Rsigncode
