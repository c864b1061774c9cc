import Rsigncode.CliSign

/-! Commands that are told to write the file that they read. The writer empties it before it
has copied anything, and what it leaves there no command reads again. -/
namespace Rsigncode

open FileStore Window Number

section Writers
variable {b : Build} {p : Path} {pe : PeInfo} {s : Store}

/-- What is left of a file that was written over while it was to be copied: zeros up to the
end of the directory entry, and what the writer itself has put there and behind. -/
inductive Ruined (pe : PeInfo) : Bytes → Prop where
  | emptied (unsigned : pe.sigpos = 0) : Ruined pe []
  | removed (checksum : Bytes) (field : checksum.length ≤ 4) :
      Ruined pe (overwrite (zeros (pe.certTableOffset + 8)) pe.checksumOffset checksum)
  | signed (x checksum : Bytes) (field : checksum.length ≤ 4) :
      Ruined pe (overwrite (certified pe.certTableOffset (zeros (pe.certTableOffset + 8)) x)
        pe.checksumOffset checksum)

theorem zeros_head {n : Nat} (some : 0 < n) : (zeros n : Bytes)[0]? = .some 0 := by
  rw [zeros, List.getElem?_replicate, if_pos some]

theorem Ruined.refused {b' : Build} {f d : Bytes} (accepted : parseBytes b f = .ok pe)
    (h : Ruined pe d) (pe' : PeInfo) : parseBytes b' d ≠ .ok pe' := by
  intro again
  have accepts := parseBytes_eq_ok.mp accepted
  have accepts' := parseBytes_eq_ok.mp again
  have cso := accepts.checksumOffset
  have cto := accepts.certTableOffset
  have head : ∀ n checksum (z : Bytes), z[0]? = some 0 → pe.checksumOffset = n + 1 →
      (overwrite z pe.checksumOffset checksum)[0]? = some 0 := by
    intro n checksum z first later
    rw [overwrite_before _ (by omega) (List.getElem?_eq_some_iff.mp first).1, first]
  cases h with
  | emptied unsigned =>
    have room := accepts'.room
    rw [List.length_nil] at room
    omega
  | removed checksum field =>
    exact accepts'.head (head _ checksum _ (zeros_head (by omega)) cso)
  | signed x checksum field =>
    exact accepts'.head (head _ checksum _
      (certified_head x (by omega) (zeros_head (by omega))) cso)

theorem zeroFields_nothing {cso cto : Nat} (order : cso + 4 ≤ cto) :
    zeroFields cso cto [] = zeros (cto + 8) := by
  have first : overwrite [] cso (zeros 4) = (zeros (cso + 4) : Bytes) := by
    rw [overwrite_past (Nat.zero_le cso) (by decide), List.nil_append, zeros_append]
    rfl
  rw [zeroFields, first, overwrite_past (by rwa [zeros_length]) (by decide), zeros_length,
    zeros_append, zeros_append]
  exact congrArg zeros (by omega)

theorem storeChecksum_wrote (b : Build) (f : File) (cso : Nat) (s : Store) :
    ∃ r t checksum, (storeChecksum b f cso).run s = (r, t) ∧ checksum.length ≤ 4 ∧
      FileStore.Wrote s f.path (overwrite (s.data f.path) cso checksum) t ∧
        (b = .release → r = .ok ()) := by
  have same := peCalcChecksum_sameFiles b f cso s
  rcases run : (peCalcChecksum b f cso).run s with ⟨e | v, u⟩ <;> rw [run] at same
  · have failed : (storeChecksum b f cso).run s = (.error e, u) := by
      rw [storeChecksum, Prog.bind_error run]
    refine ⟨.error e, u, [], failed, Nat.zero_le 4, wrote_sameFiles same f.path, ?_⟩
    rintro rfl
    obtain ⟨v, t, stored, -⟩ := storeChecksum_release f cso s
    cases failed.symm.trans stored
  · refine ⟨.ok (), u.setData f.path (overwrite (u.data f.path) cso (le 4 v)), le 4 v, ?_,
      Nat.le_of_eq (by simp), ?_, fun _ => rfl⟩
    · rw [storeChecksum, Prog.bind_ok run]
      rfl
    · rw [data_congr same]
      exact (wrote_sameFiles same f.path).trans (wrote_setData u f.path _)

/-- A writer whose output is its input, in any build. A release build says nothing of it. -/
theorem writeSignedPe_self (b : Build) (order : pe.checksumOffset + 4 ≤ pe.certTableOffset)
    (d : Bytes) : ∃ r t, (writeSignedPe b ⟨p, 0⟩ p pe d).run s = (r, t) ∧
      Ruined pe (t.data p) ∧ (b = .release → r = .ok ()) := by
  let output : File := ⟨p, 0⟩
  obtain ⟨t₁, run₁, wrote₁⟩ := copyRange_emptied ⟨p, 0⟩ p pe s
  obtain ⟨t₂, run₂, wrote₂, -⟩ :=
    zeroFields_run output pe.checksumOffset pe.certTableOffset t₁
  obtain ⟨t₃, run₃, wrote₃, -⟩ := appendCertificate_run
    (output.seek (pe.certTableOffset + 8)) pe.certTableOffset d t₂
  obtain ⟨r, t₄, checksum, run₄, field, wrote₄, release⟩ := storeChecksum_wrote b
    (output.seek (pe.certTableOffset + 8)) pe.checksumOffset t₃
  have path : output.path = p := rfl
  rw [path, wrote₁.data, copiedData, if_pos rfl, zeroFields_nothing order] at wrote₂
  rw [seek_path, path, wrote₂.data] at wrote₃
  rw [seek_path, path, wrote₃.data] at wrote₄
  refine ⟨r, t₄, ?_, wrote₄.data ▸ .signed d checksum field, release⟩
  rw [writeSignedPe, Prog.bind_ok (createTruncate_run p s), writeSignedPeTo]
  exact (Prog.bind_ok run₁).trans ((run₂ _).trans ((run₃ _).trans run₄))

theorem writeUnsignedPe_self (b : Build) (order : pe.checksumOffset + 4 ≤ pe.certTableOffset) :
    ∃ r t, (writeUnsignedPe b ⟨p, 0⟩ p pe).run s = (r, t) ∧ Ruined pe (t.data p) ∧
      (b = .release → t.data p ≠ [] → r = .ok ()) := by
  by_cases unsigned : pe.sigpos = 0
  · refine ⟨_, _, writeUnsignedPe_refused unsigned, ?_, fun _ some => ?_⟩
    · rw [data_setData]
      exact .emptied unsigned
    · exact absurd (data_setData s p []) some
  · let output : File := ⟨p, 0⟩
    obtain ⟨t₁, run₁, wrote₁⟩ := copyRange_emptied ⟨p, 0⟩ p pe s
    obtain ⟨t₂, run₂, wrote₂, -⟩ :=
      zeroFields_run output pe.checksumOffset pe.certTableOffset t₁
    obtain ⟨r, t₃, checksum, run₃, field, wrote₃, release⟩ := storeChecksum_wrote b
      (output.seek (pe.certTableOffset + 8)) pe.checksumOffset t₂
    have path : output.path = p := rfl
    rw [path, wrote₁.data, copiedData, if_pos rfl, zeroFields_nothing order] at wrote₂
    rw [seek_path, path, wrote₂.data] at wrote₃
    rw [PeInfo.dataEnd, if_pos (Nat.pos_of_ne_zero unsigned)] at run₁
    refine ⟨r, t₃, ?_, wrote₃.data ▸ .removed checksum field, fun built _ => release built⟩
    have checked : (Prog.rejectIf (pe.sigpos = 0) (Fault.error .noSignature)).run
        (s.setData p []) = (.ok (), s.setData p []) := Prog.rejectIf_eq_ok.mpr ⟨unsigned, rfl⟩
    rw [writeUnsignedPe, Prog.bind_ok (createTruncate_run p s), writeUnsignedPeTo,
      Prog.bind_ok checked]
    exact (Prog.bind_ok run₁).trans ((run₂ _).trans run₃)

end Writers

section Steps
variable {T α : Type} {s : Store} {Q : Except Halt Unit → Store → Prop}

def Ends (s : Store) (Q : Except Halt Unit → Store → Prop) (x : Command T Unit) : Prop :=
  ∀ (w : World T), SameFiles s w.store → ∀ r v, x.run w = (r, v) →
    SameFiles s v.store ∧ r ≠ .ok () ∨ Q r v.store

theorem Ends.after {x : Command T α} {f : α → Command T Unit} (hx : Looks x)
    (hf : ∀ (w : World T) a u, SameFiles s w.store → x.run w = (.ok a, u) → Ends s Q (f a)) :
    Ends s Q (x >>= f) := by
  intro w same r v run
  have looked : OnFiles SameFiles w (x.run w).2 := hx w
  rcases first : x.run w with ⟨e | a, u⟩ <;> rw [first] at looked
  · rw [Prog.bind_error first] at run
    cases run
    exact .inl ⟨same.next looked, nofun⟩
  · rw [Prog.bind_ok first] at run
    exact hf w a u same first u (same.next looked) r v run

theorem Ends.after_look {x : Command T α} {f : α → Command T Unit} (hx : Looks x)
    (hf : ∀ a, Ends s Q (f a)) : Ends s Q (x >>= f) :=
  .after hx fun _ a _ _ _ => hf a

theorem ends_written {context : Option String} {x : Proc Unit} {line : String}
    (hx : ∀ t r u, SameFiles s t → x.run t = (r, u) →
      ∀ r', (r = .ok () → r' = .ok ()) → Q r' u) :
    Ends (T := T) s Q (onStore context x >>= fun _ => eprintln line) := by
  intro w same r v run
  rcases done : x.run w.store with ⟨e | _, u⟩
  · have failed : (onStore context x).run w = (.error (e.halt context), { w with store := u }) :=
      Prog.zoom_error done
    rw [Prog.bind_error failed] at run
    cases run
    exact .inr (hx _ _ _ same done _ nofun)
  · have ok : (onStore context x).run w = (.ok (), { w with store := u }) := Prog.zoom_ok done
    rw [Prog.bind_ok ok] at run
    cases run
    exact .inr (hx _ _ _ same done _ fun _ => rfl)

end Steps

def Invocation.infile : Invocation → Path
  | .sign args => args.infile
  | .verify args => args.infile
  | .extractData args => args.infile
  | .extractSignature args => args.infile
  | .attachSignature args => args.infile
  | .removeSignature args => args.infile
  | .add args => args.infile

section Commands
variable {Key D S : Type} {sys : Platform Key D S} {s : Store}
  {Q : Except Halt Unit → Store → Prop}

theorem ends_parsed {infile : Path} {f : File → PeInfo → sys.Run Unit}
    (hf : ∀ pe, parseBytes sys.build (s.data infile) = .ok pe → Ends s Q (f ⟨infile, 0⟩ pe)) :
    Ends s Q (sys.openInput infile >>= fun input => sys.parseInput input >>= f input) := by
  refine .after (sys.looks_openInput infile) fun _ input _ _ opened => ?_
  cases openInput_eq_ok opened
  exact .after (sys.looks_parseInput _) fun _ pe _ same parsed =>
    hf pe (data_congr same infile ▸ parseInput_eq_ok parsed)

structure Written (sys : Platform Key D S) (s : Store) (Q : Except Halt Unit → Store → Prop)
    (infile outfile : Path) (pe : PeInfo) : Prop where
  signed : ∀ context x line, Ends s Q (onStore context
    (writeSignedPe sys.build ⟨infile, 0⟩ outfile pe x) >>= fun _ => eprintln line : sys.Run Unit)
  unsigned : ∀ context line, Ends s Q (onStore context
    (writeUnsignedPe sys.build ⟨infile, 0⟩ outfile pe) >>= fun _ => eprintln line : sys.Run Unit)

theorem main_ends {inv : Invocation} {infile outfile : Path} (reads : inv.source = some infile)
    (writes : inv.outfile = some outfile)
    (written : ∀ pe, parseBytes sys.build (s.data infile) = .ok pe →
      Written sys s Q infile outfile pe) : Ends s Q (sys.main inv) := by
  cases inv <;> cases reads <;> cases writes
  case sign args =>
    exact .after_look (sys.looks_ofExcept _ _) fun _ => .after_look (looks_present _ _) fun _ =>
      .after_look (looks_present _ _) fun _ =>
      .after_look (looks_loading (KeyMaterial.fromPem_inspects _ _ _).within) fun km =>
      .after_look (sys.looks_optionally fun ac =>
        looks_loading (km.addExtraCertsPem_inspects _ ac).within) fun _ =>
      ends_parsed fun pe parsed => .after_look (sys.looks_digest _ _ _ _) fun _ =>
      .after_look (looks_onNetwork _) fun _ => (written pe parsed).signed _ _ _
  case attachSignature args =>
    exact .after_look (looks_loading (fsRead_inspects _ _).within) fun _ =>
      .after_look (sys.looks_ofExcept _ _) fun _ =>
      ends_parsed fun pe parsed => (written pe parsed).signed _ _ _
  case removeSignature args =>
    exact ends_parsed fun pe parsed => (written pe parsed).unsigned _ _
  case add args =>
    exact .after_look (sys.looks_rejectIf _ _) fun _ => ends_parsed fun pe parsed =>
      .after_look (sys.looks_extract _ _ _) fun _ => .after_look (looks_present _ _) fun _ =>
      .after_look (looks_onNetwork _) fun _ => (written pe parsed).signed _ _ _

theorem main_refused {inv : Invocation}
    (refused : ∀ pe, parseBytes sys.build (s.data inv.infile) ≠ .ok pe) :
    Ends s (fun _ _ => False) (sys.main inv) := by
  cases inv
  case sign args => exact main_ends rfl rfl fun pe parsed => absurd parsed (refused pe)
  case attachSignature args => exact main_ends rfl rfl fun pe parsed => absurd parsed (refused pe)
  case removeSignature args => exact main_ends rfl rfl fun pe parsed => absurd parsed (refused pe)
  case add args => exact main_ends rfl rfl fun pe parsed => absurd parsed (refused pe)
  case extractData args =>
    exact .after_look (sys.looks_ofExcept _ _) fun _ =>
      ends_parsed fun pe parsed => absurd parsed (refused pe)
  case extractSignature args => exact ends_parsed fun pe parsed => absurd parsed (refused pe)
  case verify args =>
    refine .after (sys.looks_openInput _) fun _ input _ _ opened => ?_
    cases openInput_eq_ok opened
    refine .after_look (sys.looks_optionally fun _ =>
        looks_loading (loadPemCerts_inspects _ _).within) fun _ =>
      .after_look (sys.looks_optionally fun _ =>
        looks_loading (loadPemCerts_inspects _ _).within) fun _ =>
      .after (looks_onStore (verifyPeRich_looks _ _ _ _ _)) fun w result u same run => ?_
    obtain ⟨t, verified, -⟩ := onStore_eq_ok.mp run
    have accepted := verifyPeRich_outcome verified
    rw [verifyBytes_eq] at accepted
    obtain ⟨pe, parsed, -⟩ := Res.bind_eq_ok.mp accepted
    exact absurd (data_congr same args.infile ▸ parsed) (refused pe)

/-- No command reads the file again, for as long as nothing else is written there: each fails
and leaves all files as they are. -/
def Lapsed (sys : Platform Key D S) (p : Path) (d : Bytes) : Prop :=
  ∀ (u : World (SignedData sys.crates.Cert D S)) (inv : Invocation), u.store.data p = d →
    inv.infile = p → SameFiles u.store ((sys.main inv).run u).2.store ∧
      ((sys.main inv).run u).1 ≠ .ok ()

theorem Ruined.lapsed {b : Build} {p : Path} {pe : PeInfo} {f d : Bytes} (h : Ruined pe d)
    (accepted : parseBytes b f = .ok pe) : Lapsed sys p d := by
  rintro u inv rfl rfl
  have refused : Ends u.store (fun _ _ => False) (sys.main inv) :=
    main_refused fun pe' => h.refused accepted pe'
  rcases refused u (SameFiles.refl _) _ _ rfl with kept | lost
  · exact kept
  · exact lost.elim

/-- A command that writes a PE onto the one that it reads either fails and changes nothing,
or the image is lost. A release build says that it has succeeded, unless it has emptied the
file. -/
theorem in_place_ruins {inv : Invocation} {p : Path} (reads : inv.source = some p)
    (writes : inv.outfile = some p) {w v : World (SignedData sys.crates.Cert D S)}
    {r : Except Halt Unit} (run : (sys.main inv).run w = (r, v)) :
    SameFiles w.store v.store ∧ r ≠ .ok () ∨
    ∃ pe, parseBytes sys.build (w.store.data p) = .ok pe ∧ Ruined pe (v.store.data p) ∧
      Lapsed sys p (v.store.data p) ∧
      (sys.build = .release → v.store.data p ≠ [] → r = .ok ()) := by
  have ends : Ends w.store (fun r t => ∃ pe, parseBytes sys.build (w.store.data p) = .ok pe ∧
      Ruined pe (t.data p) ∧ (sys.build = .release → t.data p ≠ [] → r = .ok ()))
      (sys.main inv) := by
    refine main_ends reads writes fun pe parsed => ?_
    have accepts := parseBytes_eq_ok.mp parsed
    have order : pe.checksumOffset + 4 ≤ pe.certTableOffset := by
      rw [accepts.checksumOffset, accepts.certTableOffset]
      omega
    refine ⟨fun context x line => ends_written fun t r u _ run r' ok => ?_,
      fun context line => ends_written fun t r u _ run r' ok => ?_⟩
    · obtain ⟨_, _, same, ruined, release⟩ := writeSignedPe_self sys.build order x
      cases run.symm.trans same
      exact ⟨pe, parsed, ruined, fun built _ => ok (release built)⟩
    · obtain ⟨_, _, same, ruined, release⟩ := writeUnsignedPe_self sys.build order
      cases run.symm.trans same
      exact ⟨pe, parsed, ruined, fun built some => ok (release built some)⟩
  rcases ends w (SameFiles.refl _) r v run with kept | ⟨pe, parsed, ruined, release⟩
  · exact .inl kept
  · exact .inr ⟨pe, parsed, ruined, ruined.lapsed parsed, release⟩

end Commands

section Sample

def attachInPlace : Invocation :=
  .attachSignature { infile := "in", outfile := "in", sigin := "sig" }

theorem attachInPlace_ok :
    ((smallPlatform.main attachInPlace).run signatureWorld).1.toOption = some () := by
  decide +kernel

theorem in_place_ruins_small : ∃ pe,
    parseBytes .release (signatureWorld.store.data "in") = .ok pe ∧
      Ruined pe (((smallPlatform.main attachInPlace).run signatureWorld).2.store.data "in") ∧
      Lapsed smallPlatform "in"
        (((smallPlatform.main attachInPlace).run signatureWorld).2.store.data "in") ∧
      (((smallPlatform.main attachInPlace).run signatureWorld).2.store.data "in" ≠ [] →
        ((smallPlatform.main attachInPlace).run signatureWorld).1 = .ok ()) := by
  have run : (smallPlatform.main attachInPlace).run signatureWorld = _ :=
    run_of_succeeded attachInPlace_ok
  rcases in_place_ruins rfl rfl run with ⟨-, failed⟩ | ⟨pe, parsed, ruined, lapsed, -⟩
  · exact absurd rfl failed
  · exact ⟨pe, parsed, ruined, lapsed, fun _ => congrArg Prod.fst run⟩

end Sample

end Rsigncode
