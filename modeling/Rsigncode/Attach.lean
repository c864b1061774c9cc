import Rsigncode.Crates

/-! Timestamps attached to a signature: `crypto/timestamp.rs` after the answer of the
server has been decoded. A timestamp adds an unsigned attribute to the first SignerInfo,
and some add certificates; nothing else moves. -/
namespace Rsigncode

def tstInfo : Oid := [1, 2, 840, 113549, 1, 9, 16, 1, 4]

structure EncapsulatedContentInfo where
  contentType : Oid
  content : Option FileStore.Bytes
  deriving DecidableEq

/-- `others` is the version, the digest algorithms and the revocation lists. -/
structure SignedDataFields (Cert Others : Type) where
  contentInfo : EncapsulatedContentInfo
  certificates : Option (List Cert)
  others : Others

/-- `others` is the version, the signer's identifier and both algorithms. -/
structure SignerInfoFields (Others : Type) where
  signature : FileStore.Bytes
  signedAttributes : Option (List Attribute)
  others : Others

section
variable {Cert D S : Type}

abbrev SignerInfo (S : Type) := Rfc5652SignerInfo (SignerInfoFields S)
abbrev SignedData (Cert D S : Type) :=
  Rfc5652SignedData (SignedDataFields Cert D) (SignerInfoFields S)

/-- Both `encode_ref`s, written in BER mode. -/
structure Encoders (Cert D S : Type) where
  signedData : SignedData Cert D S → FileStore.Bytes
  signerInfo : SignerInfo S → FileStore.Bytes

abbrev Mutates (Cert D S : Type) := Prog (SignedData Cert D S) Fault

def timestampError (m : String) : Fault := .error (.timestamp m)

def pushUnsignedAttribute (attr : Attribute) : Mutates Cert D S Unit := ⟨fun signedData =>
  match signedData.signerInfos with
  | [] => (.error (timestampError "no signer info in signed data"), signedData)
  | signerInfo :: rest =>
    let attrs := match signerInfo.unsignedAttributes with
      | some attrs => attrs ++ [attr]
      | none => [attr]
    (.ok (), { signedData with
      signerInfos := { signerInfo with unsignedAttributes := some attrs } :: rest })⟩

def attachRfc3161Timestamp (enc : Encoders Cert D S) (token : SignedData Cert D S) :
    Mutates Cert D S Unit :=
  pushUnsignedAttribute { typ := spcRfc3161, values := [enc.signedData token] }

variable [DecidableEq Cert]

/-- The loop over the response's certificates. -/
def pushMissing (certs tsaCerts : List Cert) : List Cert :=
  tsaCerts.foldl (fun certs cert => if cert ∈ certs then certs else certs ++ [cert]) certs

/-- `get_or_insert_with`, then the loop; nothing happens when the response has none. -/
def bringCertificates (tsaCerts : Option (List Cert)) : Mutates Cert D S Unit := ⟨fun signedData =>
  match tsaCerts with
  | none => (.ok (), signedData)
  | some tsaCerts =>
    let certs := signedData.fields.certificates.getD []
    (.ok (), { signedData with
      fields := { signedData.fields with certificates := some (pushMissing certs tsaCerts) } })⟩

def attachAuthenticodeTimestamp (enc : Encoders Cert D S) (tsaResponse : SignedData Cert D S) :
    Mutates Cert D S Unit :=
  if tsaResponse.fields.contentInfo.contentType = tstInfo then
    attachRfc3161Timestamp enc tsaResponse
  else match tsaResponse.signerInfos.head? with
    | none => .fail (timestampError "no signer in Authenticode timestamp response")
    | some tsaSigner => do
      let attr := { typ := pkcs9CounterSignature, values := [enc.signerInfo tsaSigner] }
      bringCertificates tsaResponse.fields.certificates
      pushUnsignedAttribute attr

inductive Timestamp (Cert D S : Type) where
  | rfc3161 (token : SignedData Cert D S)
  | authenticode (tsaResponse : SignedData Cert D S)

namespace Timestamp

def attach (enc : Encoders Cert D S) : Timestamp Cert D S → Mutates Cert D S Unit
  | rfc3161 token => attachRfc3161Timestamp enc token
  | authenticode tsaResponse => attachAuthenticodeTimestamp enc tsaResponse

def isToken : Timestamp Cert D S → Bool
  | rfc3161 _ => true
  | authenticode tsaResponse => tsaResponse.fields.contentInfo.contentType = tstInfo

def oid (ts : Timestamp Cert D S) : Oid :=
  if ts.isToken then spcRfc3161 else pkcs9CounterSignature

/-- The timestamp as an attribute: a token whole, else the signer of the answer, if any. -/
def toAttribute (enc : Encoders Cert D S) : Timestamp Cert D S → Option Attribute
  | rfc3161 token => some { typ := spcRfc3161, values := [enc.signedData token] }
  | authenticode tsaResponse =>
    if tsaResponse.fields.contentInfo.contentType = tstInfo then
      some { typ := spcRfc3161, values := [enc.signedData tsaResponse] }
    else tsaResponse.signerInfos.head?.map fun tsaSigner =>
      { typ := pkcs9CounterSignature, values := [enc.signerInfo tsaSigner] }

def certificates : Timestamp Cert D S → List Cert
  | rfc3161 _ => []
  | authenticode tsaResponse =>
    if tsaResponse.fields.contentInfo.contentType = tstInfo then []
    else tsaResponse.fields.certificates.getD []

end Timestamp

/-- Attach one after the other; a call that fails is followed by the next. -/
def attachAll (enc : Encoders Cert D S) (all : List (Timestamp Cert D S))
    (signedData : SignedData Cert D S) : SignedData Cert D S :=
  all.foldl (fun signedData ts => ((ts.attach enc).run signedData).2) signedData

def attached (enc : Encoders Cert D S) :
    List (Timestamp Cert D S) → SignedData Cert D S → List (Timestamp Cert D S)
  | [], _ => []
  | ts :: all, signedData =>
    match (ts.attach enc).run signedData with
    | (.ok (), next) => ts :: attached enc all next
    | (.error _, next) => attached enc all next

end

section PushMissing
variable {α : Type} [DecidableEq α]

theorem pushMissing_cons (xs ys : List α) (y : α) :
    pushMissing xs (y :: ys) = pushMissing (if y ∈ xs then xs else xs ++ [y]) ys := rfl

theorem pushMissing_eq (xs ys : List α) :
    ∃ new, pushMissing xs ys = xs ++ new ∧ ∀ y ∈ new, y ∈ ys := by
  induction ys generalizing xs with
  | nil => exact ⟨[], (List.append_nil xs).symm, fun _ h => nomatch h⟩
  | cons y ys ih =>
    rw [pushMissing_cons]
    by_cases known : y ∈ xs
    · obtain ⟨new, same, from_ys⟩ := ih xs
      exact ⟨new, by rw [if_pos known, same], fun z hz => List.mem_cons_of_mem y (from_ys z hz)⟩
    · obtain ⟨new, same, from_ys⟩ := ih (xs ++ [y])
      refine ⟨y :: new, by rw [if_neg known, same, List.append_assoc, List.singleton_append], ?_⟩
      intro z hz
      rcases List.mem_cons.mp hz with rfl | hz
      · exact List.mem_cons_self
      · exact List.mem_cons_of_mem y (from_ys z hz)

theorem mem_pushMissing {xs ys : List α} {y : α} (h : y ∈ ys) : y ∈ pushMissing xs ys := by
  induction ys generalizing xs with
  | nil => cases h
  | cons z ys ih =>
    rw [pushMissing_cons]
    rcases List.mem_cons.mp h with rfl | h
    · obtain ⟨new, same, -⟩ := pushMissing_eq (if y ∈ xs then xs else xs ++ [y]) ys
      rw [same, List.mem_append]
      refine .inl ?_
      split
      · assumption
      · exact List.mem_append_right xs List.mem_cons_self
    · exact ih h

theorem pushMissing_nodup {xs : List α} (ys : List α) (h : xs.Nodup) :
    (pushMissing xs ys).Nodup := by
  induction ys generalizing xs with
  | nil => exact h
  | cons y ys ih =>
    rw [pushMissing_cons]
    split
    · exact ih h
    · rename_i fresh
      refine ih (List.nodup_append.mpr ⟨h, List.nodup_singleton y, ?_⟩)
      intro a ha b hb same
      rw [List.mem_singleton.mp hb] at same
      exact fresh (same ▸ ha)

end PushMissing

section Run
variable {Cert D S : Type}

def firstAttributes (signedData : SignedData Cert D S) : List Attribute :=
  (signedData.signerInfos.head?.bind (·.unsignedAttributes)).getD []

def certificateList (signedData : SignedData Cert D S) : List Cert :=
  signedData.fields.certificates.getD []

structure Stamped (enc : Encoders Cert D S) (s : SignedData Cert D S)
    (done : List (Timestamp Cert D S)) (t : SignedData Cert D S) : Prop where
  contentInfo : t.fields.contentInfo = s.fields.contentInfo
  others : t.fields.others = s.fields.others
  signers : t.signerInfos.map (·.fields) = s.signerInfos.map (·.fields)
  otherSigners : t.signerInfos.tail = s.signerInfos.tail
  attributes : ∃ new, firstAttributes t = firstAttributes s ++ new ∧
    new.map (·.typ) = done.map (·.oid) ∧ new.map some = done.map (·.toAttribute enc)
  certificates : ∃ new, certificateList t = certificateList s ++ new ∧
    ∀ cert ∈ new, ∃ ts ∈ done, cert ∈ ts.certificates
  brought : ∀ ts ∈ done, ∀ cert ∈ ts.certificates, cert ∈ certificateList t
  nodup : (certificateList s).Nodup → (certificateList t).Nodup

namespace Stamped
variable {enc : Encoders Cert D S} {s t u : SignedData Cert D S}
  {done more : List (Timestamp Cert D S)}

theorem refl (s : SignedData Cert D S) : Stamped enc s [] s where
  contentInfo := rfl
  others := rfl
  signers := rfl
  otherSigners := rfl
  attributes := ⟨[], (List.append_nil _).symm, rfl, rfl⟩
  certificates := ⟨[], (List.append_nil _).symm, fun _ h => nomatch h⟩
  brought _ h := nomatch h
  nodup := id

theorem trans (h : Stamped enc s done t) (g : Stamped enc t more u) :
    Stamped enc s (done ++ more) u := by
  obtain ⟨attrs, grown, types, made⟩ := h.attributes
  obtain ⟨attrs', grown', types', made'⟩ := g.attributes
  obtain ⟨certs, longer, sources⟩ := h.certificates
  obtain ⟨certs', longer', sources'⟩ := g.certificates
  exact {
    contentInfo := g.contentInfo.trans h.contentInfo
    others := g.others.trans h.others
    signers := g.signers.trans h.signers
    otherSigners := g.otherSigners.trans h.otherSigners
    attributes := ⟨attrs ++ attrs', by rw [grown', grown, List.append_assoc],
      by rw [List.map_append, List.map_append, types, types'],
      by rw [List.map_append, List.map_append, made, made']⟩
    certificates := by
      refine ⟨certs ++ certs', by rw [longer', longer, List.append_assoc], fun cert member => ?_⟩
      rcases List.mem_append.mp member with member | member
      · obtain ⟨ts, here, source⟩ := sources cert member
        exact ⟨ts, List.mem_append_left more here, source⟩
      · obtain ⟨ts, here, source⟩ := sources' cert member
        exact ⟨ts, List.mem_append_right done here, source⟩
    brought := by
      intro ts here cert member
      rcases List.mem_append.mp here with here | here
      · rw [longer']
        exact List.mem_append_left certs' (h.brought ts here cert member)
      · exact g.brought ts here cert member
    nodup := g.nodup ∘ h.nodup }

theorem signed (h : Stamped enc s done t) (some : s.signerInfos ≠ []) : t.signerInfos ≠ [] := by
  intro none
  have same := h.signers
  rw [none, List.map_nil] at same
  exact some (List.map_eq_nil_iff.mp same.symm)

end Stamped

theorem pushUnsignedAttribute_run (attr : Attribute) {s : SignedData Cert D S}
    (signed : s.signerInfos ≠ []) :
    ∃ t, (pushUnsignedAttribute attr).run s = (.ok (), t) ∧ t.fields = s.fields ∧
      t.signerInfos.map (·.fields) = s.signerInfos.map (·.fields) ∧
      t.signerInfos.tail = s.signerInfos.tail ∧
      firstAttributes t = firstAttributes s ++ [attr] := by
  obtain ⟨fields, signerInfos⟩ := s
  cases signerInfos with
  | nil => exact absurd rfl signed
  | cons signerInfo rest =>
    refine ⟨_, rfl, rfl, rfl, rfl, ?_⟩
    rcases signerInfo with ⟨fields, _ | attrs⟩ <;> rfl

theorem stamped_token {enc : Encoders Cert D S} {s : SignedData Cert D S}
    (signed : s.signerInfos ≠ []) {ts : Timestamp Cert D S} (token : ts.isToken = true)
    (none : ts.certificates = []) {value : FileStore.Bytes}
    (made : ts.toAttribute enc = some { typ := spcRfc3161, values := [value] }) :
    ∃ t, (pushUnsignedAttribute { typ := spcRfc3161, values := [value] }).run s = (.ok (), t) ∧
      Stamped enc s [ts] t := by
  obtain ⟨t, run, fields, signers, others, attributes⟩ :=
    pushUnsignedAttribute_run { typ := spcRfc3161, values := [value] } signed
  have certs : certificateList t = certificateList s := by rw [certificateList, fields]; rfl
  refine ⟨t, run, ?_⟩
  exact {
    contentInfo := by rw [fields]
    others := by rw [fields]
    signers := signers
    otherSigners := others
    attributes := ⟨_, attributes, by simp [Timestamp.oid, token], by simp [made]⟩
    certificates := ⟨[], by rw [certs, List.append_nil], fun _ h => nomatch h⟩
    brought := by simp [none]
    nodup := by rw [certs]; exact id }

variable [DecidableEq Cert]

theorem bringCertificates_run (tsaCerts : Option (List Cert)) (s : SignedData Cert D S) :
    ∃ t, (bringCertificates tsaCerts).run s = (.ok (), t) ∧ t.signerInfos = s.signerInfos ∧
      t.fields.contentInfo = s.fields.contentInfo ∧ t.fields.others = s.fields.others ∧
      certificateList t = pushMissing (certificateList s) (tsaCerts.getD []) := by
  cases tsaCerts with
  | none => exact ⟨s, rfl, rfl, rfl, rfl, rfl⟩
  | some tsaCerts => exact ⟨_, rfl, rfl, rfl, rfl, rfl⟩

/-- What one call does: it stamps the data, or fails and leaves it alone. -/
theorem attach_run (enc : Encoders Cert D S) (ts : Timestamp Cert D S) {s : SignedData Cert D S}
    (signed : s.signerInfos ≠ []) :
    (∃ t, (ts.attach enc).run s = (.ok (), t) ∧ Stamped enc s [ts] t) ∨
      ∃ e, (ts.attach enc).run s = (.error e, s) := by
  cases ts with
  | rfc3161 token => exact .inl (stamped_token signed rfl rfl rfl)
  | authenticode tsaResponse =>
    simp only [Timestamp.attach, attachAuthenticodeTimestamp]
    by_cases token : tsaResponse.fields.contentInfo.contentType = tstInfo
    · rw [if_pos token]
      exact .inl (stamped_token signed (by simp [Timestamp.isToken, token])
        (by simp [Timestamp.certificates, token]) (by simp [Timestamp.toAttribute, token]))
    · rw [if_neg token]
      cases first : tsaResponse.signerInfos.head? with
      | none => exact .inr ⟨_, rfl⟩
      | some tsaSigner =>
        have brings : (Timestamp.authenticode tsaResponse).certificates =
            tsaResponse.fields.certificates.getD [] := by
          rw [Timestamp.certificates, if_neg token]
        obtain ⟨t, run, same, content, others, certs⟩ :=
          bringCertificates_run tsaResponse.fields.certificates s
        obtain ⟨u, push, fields, signers, otherSigners, attributes⟩ :=
          pushUnsignedAttribute_run
            { typ := pkcs9CounterSignature, values := [enc.signerInfo tsaSigner] }
            (s := t) (by rwa [same])
        have list : certificateList u = certificateList t := by rw [certificateList, fields]; rfl
        obtain ⟨new, longer, sources⟩ :=
          pushMissing_eq (certificateList s) (tsaResponse.fields.certificates.getD [])
        refine .inl ⟨u, (Prog.bind_ok run).trans push, ?_⟩
        exact {
          contentInfo := by rw [fields, content]
          others := by rw [fields, others]
          signers := by rw [signers, same]
          otherSigners := by rw [otherSigners, same]
          attributes := by
            refine ⟨_, by rw [attributes, firstAttributes, same]; rfl, ?_, ?_⟩
            · simp [Timestamp.oid, Timestamp.isToken, token]
            · simp [Timestamp.toAttribute, token, first]
          certificates := by
            refine ⟨new, by rw [list, certs, longer], fun cert member => ?_⟩
            exact ⟨_, List.mem_singleton_self _, brings ▸ sources cert member⟩
          brought := by
            intro ts here cert member
            rw [List.mem_singleton.mp here, brings] at member
            rw [list, certs]
            exact mem_pushMissing member
          nodup := by
            rw [list, certs]
            exact pushMissing_nodup _ }

theorem attachAll_stamped (enc : Encoders Cert D S) (all : List (Timestamp Cert D S))
    {s : SignedData Cert D S} (signed : s.signerInfos ≠ []) :
    Stamped enc s (attached enc all s) (attachAll enc all s) := by
  induction all generalizing s with
  | nil => exact Stamped.refl s
  | cons ts all ih =>
    rw [attached, attachAll, List.foldl_cons]
    rcases attach_run enc ts signed with ⟨t, run, stamped⟩ | ⟨e, run⟩ <;> rw [run]
    · exact stamped.trans (ih (stamped.signed signed))
    · exact ih signed

/-- A run of timestamps on a signed message adds the unsigned attributes and certificates
of those that were attached, and a call that fails after it changes nothing. -/
theorem timestamps_touch_unsigned (enc : Encoders Cert D S) (all : List (Timestamp Cert D S))
    {s : SignedData Cert D S} (signed : s.signerInfos ≠ []) :
    Stamped enc s (attached enc all s) (attachAll enc all s) ∧
      ∀ ts e t, (Timestamp.attach enc ts).run (attachAll enc all s) = (.error e, t) →
        t = attachAll enc all s := by
  have stamped := attachAll_stamped enc all signed
  refine ⟨stamped, fun ts e t failed => ?_⟩
  rcases attach_run enc ts (stamped.signed signed) with ⟨u, run, -⟩ | ⟨e', run⟩
  · rw [run] at failed
    cases failed
  · rw [run] at failed
    exact (Prod.mk.inj failed).2.symm

end Run

def plainEncoders : Encoders Nat Unit Unit where
  signedData _ := [1]
  signerInfo _ := [2]

def plainMessage (certs : List Nat) : SignedData Nat Unit Unit where
  fields := ⟨⟨[1, 2, 840, 113549, 1, 7, 1], none⟩, some certs, ()⟩
  signerInfos := [⟨⟨[7], none, ()⟩, none⟩]

theorem timestamps_touch_unsigned_plain :
    Stamped plainEncoders (plainMessage [1])
      (attached plainEncoders [.authenticode (plainMessage [2, 2, 1])] (plainMessage [1]))
      (attachAll plainEncoders [.authenticode (plainMessage [2, 2, 1])] (plainMessage [1])) :=
  (timestamps_touch_unsigned plainEncoders [.authenticode (plainMessage [2, 2, 1])]
    (s := plainMessage [1]) (List.cons_ne_nil _ _)).1

end Rsigncode
