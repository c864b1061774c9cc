import Rsigncode.Chain

/-! Two chain walks side by side, the second with more trusted certificates, in any order. -/
namespace Rsigncode

open FileStore

variable {Cert : Type} {x509 : X509 Cert}

theorem isCertInSet_subset {cert : Cert} {set set' : List Cert} (more : set ⊆ set')
    (member : isCertInSet x509 cert set = true) : isCertInSet x509 cert set' = true := by
  obtain ⟨c, here, same⟩ := List.any_eq_true.mp member
  exact List.any_eq_true.mpr ⟨c, more here, same⟩

theorem isCertInSet_of_mem {cert : Cert} {set : List Cert} (member : cert ∈ set) :
    isCertInSet x509 cert set = true :=
  List.any_eq_true.mpr ⟨cert, member, beq_self_eq_true _⟩

theorem findIssuer_append (cert : Cert) (bag more : List Cert) :
    findIssuer x509 cert (bag ++ more) =
      (findIssuer x509 cert bag).or (findIssuer x509 cert more) :=
  List.find?_append

theorem exists_findIssuer {cert issuer : Cert} {candidates : List Cert}
    (here : issuer ∈ candidates) (signed : x509.verifySignedByCertificate cert issuer = true) :
    ∃ other, findIssuer x509 cert candidates = some other := by
  apply Option.isSome_iff_exists.mp
  exact List.find?_isSome.mpr ⟨issuer, here, signed⟩

/-- Both walks stand at the same certificate until one of them comes to a trusted one: an
issuer from outside the bag is trusted, and no trusted one has been seen before. -/
theorem chainLoop_mono {certBag caCerts caCerts' : List Cert} {rounds : Nat} {current : Cert}
    {visited : List Bytes} (more : caCerts ⊆ caCerts')
    (unseen : ∀ cert, isCertInSet x509 cert caCerts' = true →
      x509.constructedData cert ∉ visited)
    (accepted : chainLoop x509 (certBag ++ caCerts) caCerts rounds current visited = true) :
    chainLoop x509 (certBag ++ caCerts') caCerts' rounds current visited = true := by
  induction rounds generalizing current visited with
  | zero => cases accepted
  | succ rounds ih =>
    obtain ⟨fresh, trusted | ⟨-, unsigned, issuer, found, rest⟩⟩ := chainLoop_succ.mp accepted
    · exact chainLoop_succ.mpr ⟨fresh, .inl (isCertInSet_subset more trusted)⟩
    · cases sooner : isCertInSet x509 current caCerts' with
      | true => exact chainLoop_succ.mpr ⟨fresh, .inl sooner⟩
      | false =>
        have unseen' : ∀ cert, isCertInSet x509 cert caCerts' = true →
            x509.constructedData cert ∉ x509.constructedData current :: visited := by
          intro cert trusted again
          obtain same | before := List.mem_cons.mp again
          · rw [isCertInSet, same, ← isCertInSet, sooner] at trusted
            cases trusted
          · exact unseen cert trusted before
        rw [findIssuer_append] at found
        obtain inBag | ⟨none, inCa⟩ := Option.or_eq_some_iff.mp found
        · have next : findIssuer x509 current (certBag ++ caCerts') = some issuer := by
            rw [findIssuer_append, inBag, Option.some_or]
          exact chainLoop_succ.mpr ⟨fresh, .inr ⟨sooner, unsigned, issuer, next, ih unseen' rest⟩⟩
        · obtain ⟨here, signed⟩ := findIssuer_issued inCa
          obtain ⟨other, found'⟩ := exists_findIssuer (more here) signed
          have next : findIssuer x509 current (certBag ++ caCerts') = some other := by
            rw [findIssuer_append, none, Option.none_or, found']
          have trusted : isCertInSet x509 other caCerts' = true :=
            isCertInSet_of_mem (findIssuer_issued found').1
          have last : chainLoop x509 (certBag ++ caCerts') caCerts' rounds other
              (x509.constructedData current :: visited) = true := by
            cases rounds with
            | zero => cases rest
            | succ m => exact chainLoop_succ.mpr ⟨unseen' other trusted, .inl trusted⟩
          exact chainLoop_succ.mpr ⟨fresh, .inr ⟨sooner, unsigned, other, next, last⟩⟩

theorem verifyChainToCa_subset {signerCert : Cert} {certBag caCerts caCerts' : List Cert}
    (more : caCerts ⊆ caCerts')
    (accepted : verifyChainToCa x509 signerCert certBag caCerts = true) :
    verifyChainToCa x509 signerCert certBag caCerts' = true :=
  chainLoop_mono more (fun _ _ => List.not_mem_nil) accepted

theorem verifyChainToCa_mono {signerCert : Cert} {certBag caCerts : List Cert} (extra : List Cert)
    (accepted : verifyChainToCa x509 signerCert certBag caCerts = true) :
    verifyChainToCa x509 signerCert certBag (caCerts ++ extra) = true :=
  verifyChainToCa_subset (List.subset_append_left caCerts extra) accepted

def numbered : X509 (Nat × Nat) where
  constructedData cert := Number.le 1 cert.1
  verifySignedByCertificate cert issuer := cert.2 == issuer.1

theorem verifyChainToCa_mono_numbered :
    verifyChainToCa numbered (1, 2) [(2, 3)] ([(3, 3)] ++ [(2, 3), (1, 2)]) = true :=
  verifyChainToCa_mono [(2, 3), (1, 2)] (by decide)

end Rsigncode
