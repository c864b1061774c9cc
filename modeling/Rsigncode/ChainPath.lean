import Rsigncode.ChainTrust
import Rsigncode.Lib.Greedy

/-! The paths behind a verdict of the chain walk, and what the order of the certificates
has to do with it. -/
namespace Rsigncode

open FileStore Greedy

variable {Cert : Type} {x509 : X509 Cert}

variable (x509) in
/-- A path of certificates from the signer to a trusted one, the only one on it that is
trusted or self-signed. Certificates are told apart by their encodings. -/
structure TrustedPath (certBag caCerts : List Cert) (rounds : Nat) (signerCert : Cert)
    (path : List Cert) : Prop where
  starts : path.head? = some signerCert
  short : path.length ≤ rounds
  distinct : (path.map x509.constructedData).Nodup
  drawn : ∀ cert ∈ path.tail, cert ∈ certBag ∨ cert ∈ caCerts
  signed : path.IsChain fun cert issuer => x509.verifySignedByCertificate cert issuer = true
  inner : ∀ cert ∈ path.dropLast, x509.verifySignedByCertificate cert cert = false ∧
    isCertInSet x509 cert caCerts = false
  trusted : ∃ root, path.getLast? = some root ∧ isCertInSet x509 root caCerts = true

theorem TrustedPath.singleton {certBag caCerts : List Cert} (rounds : Nat) {root : Cert}
    (trusted : isCertInSet x509 root caCerts = true) :
    TrustedPath x509 certBag caCerts (rounds + 1) root [root] where
  starts := rfl
  short := Nat.succ_pos rounds
  distinct := List.nodup_singleton _
  drawn := by simp
  signed := .singleton root
  inner := by simp
  trusted := ⟨root, rfl, trusted⟩

theorem TrustedPath.cons {certBag caCerts path : List Cert} {rounds : Nat} {cert issuer : Cert}
    (rest : TrustedPath x509 certBag caCerts rounds issuer path)
    (found : findIssuer x509 cert (certBag ++ caCerts) = some issuer)
    (untrusted : isCertInSet x509 cert caCerts = false)
    (unsigned : x509.verifySignedByCertificate cert cert = false)
    (fresh : ∀ later ∈ path, x509.constructedData later ≠ x509.constructedData cert) :
    TrustedPath x509 certBag caCerts (rounds + 1) cert (cert :: path) := by
  obtain ⟨here, issued⟩ := findIssuer_issued found
  cases path with
  | nil => cases rest.starts
  | cons head issuers =>
    cases rest.starts
    exact {
      starts := rfl
      short := Nat.succ_le_succ rest.short
      distinct := by
        rw [List.map_cons, List.nodup_cons]
        refine ⟨fun again => ?_, rest.distinct⟩
        obtain ⟨later, member, same⟩ := List.mem_map.mp again
        exact fresh later member same
      drawn := by
        intro later member
        cases member with
        | head => exact List.mem_append.mp here
        | tail _ member => exact rest.drawn later member
      signed := .cons_cons issued rest.signed
      inner := by
        intro later member
        cases member with
        | head => exact ⟨unsigned, untrusted⟩
        | tail _ member => exact rest.inner later member
      trusted := by rw [List.getLast?_cons_cons]; exact rest.trusted }

theorem chainLoop_path {certBag caCerts : List Cert} {rounds : Nat} {current : Cert}
    {visited : List Bytes}
    (accepted : chainLoop x509 (certBag ++ caCerts) caCerts rounds current visited = true) :
    ∃ path, TrustedPath x509 certBag caCerts rounds current path ∧
      ∀ cert ∈ path, x509.constructedData cert ∉ visited := by
  induction rounds generalizing current visited with
  | zero => cases accepted
  | succ rounds ih =>
    obtain ⟨fresh, trusted | ⟨untrusted, unsigned, issuer, found, rest⟩⟩ :=
      chainLoop_succ.mp accepted
    · exact ⟨[current], .singleton rounds trusted, by simpa using fresh⟩
    · obtain ⟨path, climbs, unseen⟩ := ih rest
      refine ⟨current :: path, climbs.cons found untrusted unsigned ?_, ?_⟩
      · intro later member same
        exact unseen later member (same ▸ .head _)
      · intro later member
        cases member with
        | head => exact fresh
        | tail _ member => exact fun seen => unseen later member (.tail _ seen)

theorem verifyChainToCa_path {signerCert : Cert} {certBag caCerts : List Cert}
    (accepted : verifyChainToCa x509 signerCert certBag caCerts = true) :
    ∃ path, TrustedPath x509 certBag caCerts 20 signerCert path := by
  obtain ⟨path, climbs, -⟩ := chainLoop_path accepted
  exact ⟨path, climbs⟩

def keyed : X509 Bytes where
  constructedData := id
  verifySignedByCertificate cert issuer := cert.getD 2 0 == issuer.getD 1 0

theorem verifyChainToCa_path_keyed :
    ∃ path, TrustedPath keyed [[2, 20, 30]] [[3, 30, 30]] 20 [1, 10, 20] path :=
  verifyChainToCa_path (by decide)

variable (x509) in
/-- What the code takes for granted of X.509: an encoding settles who signed the
certificate and whom it signed. -/
def Identified : Prop :=
  ∀ cert cert' issuer issuer', x509.constructedData cert = x509.constructedData cert' →
    x509.constructedData issuer = x509.constructedData issuer' →
      x509.verifySignedByCertificate cert issuer = x509.verifySignedByCertificate cert' issuer'

variable (x509) in
/-- The issuers the walk may go on to, by the order of the candidates: those of the bag,
and those of the trusted set where the bag has none. -/
def Candidate (certBag caCerts : List Cert) (cert issuer : Cert) : Prop :=
  x509.verifySignedByCertificate cert cert = false ∧
    x509.verifySignedByCertificate cert issuer = true ∧
    (issuer ∈ certBag ∨ issuer ∈ caCerts ∧
      ∀ other ∈ certBag, x509.verifySignedByCertificate cert other = false)

variable (x509) in
def Trusted (caCerts : List Cert) (cert : Cert) : Prop := isCertInSet x509 cert caCerts = true

variable (x509) in
def nextIssuer (certBag caCerts : List Cert) (cert : Cert) : Option Cert :=
  if x509.verifySignedByCertificate cert cert then none
  else findIssuer x509 cert (certBag ++ caCerts)

theorem trusted_congr {caCerts caCerts' : List Cert} (perm : caCerts'.Perm caCerts) :
    Trusted x509 caCerts' = Trusted x509 caCerts := by
  funext cert
  simp only [Trusted, isCertInSet, List.any_eq_true, perm.mem_iff]

theorem candidate_congr {certBag certBag' caCerts caCerts' : List Cert}
    (bag : certBag'.Perm certBag) (ca : caCerts'.Perm caCerts) :
    Candidate x509 certBag' caCerts' = Candidate x509 certBag caCerts := by
  funext cert issuer
  simp only [Candidate, bag.mem_iff, ca.mem_iff]

theorem nextIssuer_eq_some {certBag caCerts : List Cert} {cert issuer : Cert} :
    nextIssuer x509 certBag caCerts cert = some issuer ↔
      x509.verifySignedByCertificate cert cert = false ∧
        (findIssuer x509 cert certBag = some issuer ∨
          findIssuer x509 cert certBag = none ∧ findIssuer x509 cert caCerts = some issuer) := by
  unfold nextIssuer findIssuer
  cases x509.verifySignedByCertificate cert cert with
  | true => simp
  | false => simp [List.find?_append, Option.or_eq_some_iff]

variable (x509) in
theorem nextIssuer_picks (certBag caCerts : List Cert) :
    Picks (Candidate x509 certBag caCerts) (nextIssuer x509 certBag caCerts) where
  edge := by
    intro cert issuer taken
    obtain ⟨unsigned, found | ⟨none, found⟩⟩ := nextIssuer_eq_some.mp taken
    · obtain ⟨here, issued⟩ := findIssuer_issued found
      exact ⟨unsigned, issued, .inl here⟩
    · obtain ⟨here, issued⟩ := findIssuer_issued found
      exact ⟨unsigned, issued, .inr ⟨here, by simpa [findIssuer] using none⟩⟩
  stuck := by
    rintro cert taken issuer ⟨unsigned, issued, here⟩
    simp only [nextIssuer, unsigned, Bool.false_eq_true, if_false, findIssuer,
      List.find?_eq_none] at taken
    refine taken issuer (List.mem_append.mpr ?_) issued
    exact here.imp id And.left

/-- Ordered by what a relation prefers, both lists together lead the walk to the issuer
preferred among all it may go on to. -/
theorem nextIssuer_prefers {certBag caCerts : List Cert} {r : Cert → Cert → Prop}
    (bag : ∀ {p : Cert → Bool} {b c}, certBag.find? p = some b → c ∈ certBag → p c = true →
      r b c)
    (ca : ∀ {p : Cert → Bool} {b c}, caCerts.find? p = some b → c ∈ caCerts → p c = true →
      r b c)
    {cert issuer other : Cert} (taken : nextIssuer x509 certBag caCerts cert = some issuer)
    (candidate : Candidate x509 certBag caCerts cert other) : r issuer other := by
  obtain ⟨-, issued, here⟩ := candidate
  obtain ⟨-, found | ⟨none, found⟩⟩ := nextIssuer_eq_some.mp taken
  · obtain here | ⟨-, none⟩ := here
    · exact bag found here issued
    · obtain ⟨member, signed⟩ := findIssuer_issued found
      rw [none issuer member] at signed
      cases signed
  · obtain here | ⟨here, -⟩ := here
    · exact absurd issued (List.find?_eq_none.mp none other here)
    · exact ca found here issued

theorem Identified.nextIssuer_eq (identified : Identified x509) {cert cert' : Cert}
    (same : x509.constructedData cert = x509.constructedData cert') (certBag caCerts : List Cert) :
    nextIssuer x509 certBag caCerts cert = nextIssuer x509 certBag caCerts cert' := by
  have issued : x509.verifySignedByCertificate cert = x509.verifySignedByCertificate cert' :=
    funext fun issuer => identified cert cert' issuer issuer same rfl
  simp only [nextIssuer, findIssuer, issued, identified cert' cert' cert cert' rfl same]

theorem Identified.meets_congr (identified : Identified x509) {certBag caCerts : List Cert}
    {n : Nat} {cert cert' : Cert}
    (same : x509.constructedData cert = x509.constructedData cert')
    (meets : Meets (Trusted x509 caCerts) (nextIssuer x509 certBag caCerts) n cert) :
    Meets (Trusted x509 caCerts) (nextIssuer x509 certBag caCerts) n cert' := by
  have trusted : Trusted x509 caCerts cert → Trusted x509 caCerts cert' := by
    simp only [Trusted, isCertInSet, same, imp_self]
  cases n with
  | zero => exact trusted meets
  | succ n =>
    obtain here | ⟨issuer, taken, rest⟩ := meets
    · exact .inl (trusted here)
    · have next := identified.nextIssuer_eq same certBag caCerts
      exact .inr ⟨issuer, next.symm.trans taken, rest⟩

theorem chainLoop_meets {certBag caCerts : List Cert} {n : Nat} {current : Cert}
    {visited : List Bytes}
    (accepted : chainLoop x509 (certBag ++ caCerts) caCerts (n + 1) current visited = true) :
    Meets (Trusted x509 caCerts) (nextIssuer x509 certBag caCerts) n current := by
  induction n generalizing current visited with
  | zero =>
    obtain ⟨-, trusted | ⟨-, -, issuer, -, rest⟩⟩ := chainLoop_succ.mp accepted
    · exact trusted
    · cases rest
  | succ n ih =>
    obtain ⟨-, trusted | ⟨-, unsigned, issuer, found, rest⟩⟩ := chainLoop_succ.mp accepted
    · exact .inl trusted
    · exact .inr ⟨issuer, by simp [nextIssuer, unsigned, found], ih rest⟩

variable (x509) in
def Behind (certBag caCerts : List Cert) (n : Nat) (visited : List Bytes) : Prop :=
  ∀ data ∈ visited, ∃ cert, x509.constructedData cert = data ∧
    ¬ Meets (Trusted x509 caCerts) (nextIssuer x509 certBag caCerts) n cert

theorem Behind.pred {certBag caCerts : List Cert} {n : Nat} {visited : List Bytes}
    (behind : Behind x509 certBag caCerts (n + 1) visited) :
    Behind x509 certBag caCerts n visited := by
  intro data member
  obtain ⟨cert, same, not⟩ := behind data member
  exact ⟨cert, same, fun sooner => not sooner.succ⟩

theorem Behind.cons {certBag caCerts : List Cert} {n : Nat} {visited : List Bytes} {cert : Cert}
    (behind : Behind x509 certBag caCerts n visited)
    (not : ¬ Meets (Trusted x509 caCerts) (nextIssuer x509 certBag caCerts) n cert) :
    Behind x509 certBag caCerts n (x509.constructedData cert :: visited) := by
  intro data member
  cases member with
  | head => exact ⟨cert, rfl, not⟩
  | tail _ member => exact behind data member

theorem Identified.fresh (identified : Identified x509) {certBag caCerts : List Cert} {n : Nat}
    {current : Cert} {visited : List Bytes} (behind : Behind x509 certBag caCerts n visited)
    (meets : Meets (Trusted x509 caCerts) (nextIssuer x509 certBag caCerts) n current) :
    x509.constructedData current ∉ visited := by
  intro again
  obtain ⟨cert, same, not⟩ := behind _ again
  exact not (identified.meets_congr same.symm meets)

/-- A walk that meets a trusted certificate is not cut short by the cycle check: were one
of its encodings seen before, the walk from there would have met the trusted one sooner. -/
theorem Identified.chainLoop_of_meets (identified : Identified x509)
    {certBag caCerts : List Cert} {n rounds : Nat} {current : Cert} {visited : List Bytes}
    (meets : Meets (Trusted x509 caCerts) (nextIssuer x509 certBag caCerts) n current)
    (behind : Behind x509 certBag caCerts n visited) (left : n < rounds) :
    chainLoop x509 (certBag ++ caCerts) caCerts rounds current visited = true := by
  have fresh := identified.fresh behind meets
  induction n generalizing current visited rounds with
  | zero =>
    cases left with
    | refl => exact chainLoop_succ.mpr ⟨fresh, .inl meets⟩
    | step => exact chainLoop_succ.mpr ⟨fresh, .inl meets⟩
  | succ n ih =>
    by_cases sooner : Meets (Trusted x509 caCerts) (nextIssuer x509 certBag caCerts) n current
    · exact ih sooner behind.pred (Nat.lt_of_succ_lt left) fresh
    · obtain trusted | ⟨issuer, taken, rest⟩ := meets
      · exact absurd (.of_goal trusted) sooner
      · have untrusted : isCertInSet x509 current caCerts = false :=
          Bool.eq_false_iff.mpr fun trusted => sooner (.of_goal trusted)
        obtain ⟨unsigned, -⟩ := nextIssuer_eq_some.mp taken
        simp only [nextIssuer, unsigned, Bool.false_eq_true, if_false] at taken
        obtain ⟨m, rfl⟩ : ∃ m, rounds = m + 1 := ⟨rounds - 1, by omega⟩
        have behind := behind.pred.cons sooner
        exact chainLoop_succ.mpr ⟨fresh, .inr ⟨untrusted, unsigned, issuer, taken,
          ih rest behind (Nat.lt_of_succ_lt_succ left) (identified.fresh behind rest)⟩⟩

theorem Identified.verifyChainToCa_iff (identified : Identified x509) {signerCert : Cert}
    {certBag caCerts : List Cert} :
    verifyChainToCa x509 signerCert certBag caCerts = true ↔
      Meets (Trusted x509 caCerts) (nextIssuer x509 certBag caCerts) 19 signerCert :=
  ⟨chainLoop_meets, fun meets =>
    identified.chainLoop_of_meets meets (fun _ member => nomatch member) (by omega)⟩

variable (x509) in
/-- A walk through issuers that some order puts first meets a trusted certificate in time. -/
def Leads (certBag caCerts : List Cert) (signerCert : Cert) : Prop :=
  Reaches (Trusted x509 caCerts) (Candidate x509 certBag caCerts) 19 signerCert

variable (x509) in
/-- A walk through issuers that some order puts first comes to a dead end, or to no end,
without a trusted certificate. -/
def Strays (certBag caCerts : List Cert) (signerCert : Cert) : Prop :=
  Avoids (Trusted x509 caCerts) (Candidate x509 certBag caCerts) 20 signerCert

theorem Identified.leads_of_accepted (identified : Identified x509) {signerCert : Cert}
    {certBag caCerts : List Cert}
    (accepted : verifyChainToCa x509 signerCert certBag caCerts = true) :
    Leads x509 certBag caCerts signerCert :=
  (identified.verifyChainToCa_iff.mp accepted).reaches (nextIssuer_picks x509 certBag caCerts)

theorem Identified.strays_of_rejected (identified : Identified x509) {signerCert : Cert}
    {certBag caCerts : List Cert}
    (rejected : verifyChainToCa x509 signerCert certBag caCerts = false) :
    Strays x509 certBag caCerts signerCert :=
  .of_not_meets (nextIssuer_picks x509 certBag caCerts) fun meets => by
    rw [identified.verifyChainToCa_iff.mpr meets] at rejected
    cases rejected

/-- Some order of the certificates makes the walk go on to the issuer that a relation
prefers, wherever it stands. The candidates are the same in every order. -/
theorem exists_preferring {r : Cert → Cert → Prop} (total : ∀ a b, r a b ∨ r b a)
    (trans : ∀ {a b c}, r a b → r b c → r a c) (certBag caCerts : List Cert) :
    ∃ certBag' caCerts' : List Cert, certBag'.Perm certBag ∧ caCerts'.Perm caCerts ∧
      Picks (Candidate x509 certBag caCerts) (nextIssuer x509 certBag' caCerts') ∧
      ∀ {cert issuer other}, nextIssuer x509 certBag' caCerts' cert = some issuer →
        Candidate x509 certBag caCerts cert other → r issuer other := by
  obtain ⟨certBag', bag, first⟩ := exists_perm_first total trans certBag
  obtain ⟨caCerts', ca, first'⟩ := exists_perm_first total trans caCerts
  refine ⟨certBag', caCerts', bag, ca, ?_⟩
  rw [← candidate_congr bag ca]
  refine ⟨nextIssuer_picks x509 certBag' caCerts', nextIssuer_prefers ?_ ?_⟩
  · intro p b c found here passes
    exact first found (bag.mem_iff.mp here) passes
  · intro p b c found here passes
    exact first' found (ca.mem_iff.mp here) passes

theorem Identified.exists_accepting (identified : Identified x509) {signerCert : Cert}
    {certBag caCerts : List Cert} (leads : Leads x509 certBag caCerts signerCert) :
    ∃ certBag' caCerts', certBag'.Perm certBag ∧ caCerts'.Perm caCerts ∧
      verifyChainToCa x509 signerCert certBag' caCerts' = true := by
  have total := total_of_mono (Reaches (Trusted x509 caCerts) (Candidate x509 certBag caCerts))
    Reaches.mono
  obtain ⟨certBag', caCerts', bag, ca, picks, prefers⟩ := exists_preferring total
    (fun ab bc m reaches => ab m (bc m reaches)) certBag caCerts
  refine ⟨certBag', caCerts', bag, ca, identified.verifyChainToCa_iff.mpr ?_⟩
  rw [trusted_congr ca]
  exact leads.meets picks prefers

theorem Identified.exists_rejecting (identified : Identified x509) {signerCert : Cert}
    {certBag caCerts : List Cert} (strays : Strays x509 certBag caCerts signerCert) :
    ∃ certBag' caCerts', certBag'.Perm certBag ∧ caCerts'.Perm caCerts ∧
      verifyChainToCa x509 signerCert certBag' caCerts' = false := by
  have total := total_of_anti (Avoids (Trusted x509 caCerts) (Candidate x509 certBag caCerts))
    Avoids.anti
  obtain ⟨certBag', caCerts', bag, ca, picks, prefers⟩ := exists_preferring total
    (fun ab bc m avoids => ab m (bc m avoids)) certBag caCerts
  refine ⟨certBag', caCerts', bag, ca, Bool.eq_false_iff.mpr fun accepted => ?_⟩
  have meets := identified.verifyChainToCa_iff.mp accepted
  rw [trusted_congr ca] at meets
  exact strays.not_meets picks prefers meets

/-- The order of the trusted certificates does not matter: the bag is searched first. -/
theorem verifyChainToCa_perm {signerCert : Cert} {certBag caCerts caCerts' : List Cert}
    (perm : caCerts'.Perm caCerts) : verifyChainToCa x509 signerCert certBag caCerts' =
      verifyChainToCa x509 signerCert certBag caCerts :=
  Bool.eq_iff_iff.mpr
    ⟨verifyChainToCa_subset perm.subset, verifyChainToCa_subset perm.symm.subset⟩

/-- The order of the trusted certificates never matters. That of the bag matters exactly when
the certificates hold both a walk to a trusted one and one that strays: the walk of the code
is one of them, by the order. -/
theorem verifyChainToCa_order (signerCert : Cert) (certBag caCerts : List Cert) :
    (∀ caCerts', caCerts'.Perm caCerts → verifyChainToCa x509 signerCert certBag caCerts' =
      verifyChainToCa x509 signerCert certBag caCerts) ∧
    (Identified x509 →
      ((∀ certBag', certBag'.Perm certBag → verifyChainToCa x509 signerCert certBag' caCerts =
          verifyChainToCa x509 signerCert certBag caCerts) ↔
        ¬ (Leads x509 certBag caCerts signerCert ∧ Strays x509 certBag caCerts signerCert))) := by
  refine ⟨fun caCerts' => verifyChainToCa_perm, fun identified => ⟨?_, ?_⟩⟩
  · rintro same ⟨leads, strays⟩
    obtain ⟨certBag', caCerts', bag, ca, accepted⟩ := identified.exists_accepting leads
    obtain ⟨certBag'', caCerts'', bag', ca', rejected⟩ := identified.exists_rejecting strays
    rw [verifyChainToCa_perm ca, same certBag' bag] at accepted
    rw [verifyChainToCa_perm ca', same certBag'' bag', accepted] at rejected
    cases rejected
  · intro never certBag' bag
    by_contra differ
    apply never
    have leads := @Identified.leads_of_accepted _ _ identified signerCert certBag' caCerts
    have strays := @Identified.strays_of_rejected _ _ identified signerCert certBag' caCerts
    simp only [Leads, Strays, candidate_congr bag (.refl caCerts)] at leads strays
    cases verdict : verifyChainToCa x509 signerCert certBag caCerts with
    | true =>
      rw [verdict, Bool.not_eq_true] at differ
      exact ⟨identified.leads_of_accepted verdict, strays differ⟩
    | false =>
      rw [verdict, Bool.not_eq_false] at differ
      exact ⟨leads differ, identified.strays_of_rejected verdict⟩

/-- A certificate of the bag and a re-issued one with the same key, of which one leads to
the trusted one: the verdict is that of whichever comes first. -/
theorem verifyChainToCa_reissued :
    ¬ ∀ certBag certBag' : List Bytes, certBag'.Perm certBag →
      verifyChainToCa keyed [1, 10, 20] certBag' [[4, 30, 30]] =
        verifyChainToCa keyed [1, 10, 20] certBag [[4, 30, 30]] := by
  intro same
  exact absurd (same [[2, 20, 30], [3, 20, 40]] [[3, 20, 40], [2, 20, 30]] (.swap _ _ []))
    (by decide)

theorem keyed_identified : Identified keyed := by
  intro cert cert' issuer issuer' same same'
  cases same
  cases same'
  rfl

theorem verifyChainToCa_order_reissued :
    verifyChainToCa keyed [2, 20, 30] [] [[4, 30, 30], [5, 30, 40]] =
        verifyChainToCa keyed [2, 20, 30] [] [[5, 30, 40], [4, 30, 30]] ∧
      Leads keyed [[2, 20, 30], [3, 20, 40]] [[4, 30, 30]] [1, 10, 20] ∧
      Strays keyed [[2, 20, 30], [3, 20, 40]] [[4, 30, 30]] [1, 10, 20] := by
  refine ⟨(verifyChainToCa_order _ _ _).1 _ (.swap _ _ []), ?_⟩
  by_contra never
  exact absurd (((verifyChainToCa_order _ _ _).2 keyed_identified).mpr never
    [[3, 20, 40], [2, 20, 30]] (.swap _ _ [])) (by decide)

end Rsigncode
