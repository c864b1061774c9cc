import Rsigncode.Verdict

/-! What a PE is for: an image, and the signature it carries. Signing and removing act on
that pair, and verification is a function of it. -/
namespace Rsigncode

open FileStore Window Tlv

structure Shelf where
  image : Bytes
  signature : Option Bytes

def Shelf.carry (op : Op) (shelf : Shelf) : Shelf :=
  match op with
  | .sign x => { shelf with signature := some x }
  | .remove => { shelf with signature := none }

/-- The last signature that was put on and not taken off again. -/
def Shelf.after (shelf : Shelf) (ops : List Op) : Shelf :=
  ops.foldl (fun shelf op => shelf.carry op) shelf

def Shelf.verify (crates : Crates) (opts : VerifyOptions crates.Cert) (shelf : Shelf) :
    Res (VerifyResult crates.Time) := do
  let x ← okOr shelf.signature (.error .noSignature)
  verifySignature crates opts shelf.image x

theorem Shelf.after_concat (shelf : Shelf) (ops : List Op) (op : Op) :
    shelf.after (ops ++ [op]) = (shelf.after ops).carry op :=
  List.foldl_concat ..

theorem Shelf.after_image (shelf : Shelf) (ops : List Op) :
    (shelf.after ops).image = shelf.image := by
  induction ops using List.reverseRecOn with
  | nil => rfl
  | append_singleton ops op ih =>
    rw [Shelf.after_concat, ← ih]
    cases op <;> rfl

theorem Shelf.after_signature {shelf : Shelf} {ops : List Op} {x : Bytes}
    (unsigned : shelf.signature = none) (here : (shelf.after ops).signature = some x) :
    .sign x ∈ ops := by
  induction ops using List.reverseRecOn with
  | nil => cases unsigned.symm.trans here
  | append_singleton ops op ih =>
    rw [Shelf.after_concat] at here
    cases op with
    | sign y =>
      cases here
      exact List.mem_append_right ops List.mem_cons_self
    | remove => cases here

/-- The file `cur` shows the shelf: its image, and its signature with the padding. -/
structure Shows (b : Build) (F : Frame) (core cur : Bytes) (pe : PeInfo) (shelf : Shelf) :
    Prop where
  held : Held b F core cur pe
  image : shelf.image = F.head ++ F.mid ++ core
  signature : ∀ rounds,
    extractBytes b (rounds + 1) cur pe = .ok (shelf.signature.map padded)

theorem extractBytes_unsigned {b : Build} {rounds : Nat} {cur : Bytes} {pe : PeInfo}
    (unsigned : pe.sigpos = 0) : extractBytes b rounds cur pe = .ok none := by
  rw [extractBytes, extractSignature, if_pos (.inl unsigned)]
  rfl

section Step
variable {b : Build} {F : Frame} {core cur : Bytes} {pe : PeInfo} {shelf : Shelf}

theorem Shows.signed (h : Shows b F core cur pe shelf) {checksum : Bytes}
    (len : checksum.length = 4) (x : Bytes) (small : (F.signed checksum core x).length < 2 ^ 32) :
    ∃ pe', Shows b F core (F.signed checksum core x) pe' (shelf.carry (.sign x)) := by
  have held := held_signed b len x h.held.core_aligned h.held.room small
  refine ⟨_, held, h.image, fun rounds => ?_⟩
  obtain ⟨pe', held', extracted⟩ := h.held.reads_back len x small rounds
  cases (parseBytes_eq_ok.mpr held'.accepted).symm.trans (parseBytes_eq_ok.mpr held.accepted)
  exact extracted

theorem Shows.unsigned (h : Shows b F core cur pe shelf) {checksum : Bytes}
    (len : checksum.length = 4) (small : (F.file checksum (zeros 8) core).length < 2 ^ 32) :
    ∃ pe', Shows b F core (F.file checksum (zeros 8) core) pe' (shelf.carry .remove) :=
  ⟨_, held_unsigned b len h.held.core_aligned h.held.room small, h.image,
    fun _ => extractBytes_unsigned rfl⟩

theorem Shows.step (h : Shows b F core cur pe shelf) {op : Op} {reads : Reads}
    (allowed : op.Allowed b cur) (small : (op.apply b reads cur).2.length < 2 ^ 32 - 2 ^ 16) :
    ∃ pe', Shows b F core (op.apply b reads cur).2 pe' (shelf.carry op) := by
  cases op with
  | sign x =>
    obtain ⟨r, checksum, run, len, -⟩ := h.held.sign x reads
    rw [run] at small ⊢
    dsimp only at small ⊢
    exact h.signed len x (by omega)
  | remove =>
    obtain ⟨pe', accepted, signed⟩ := allowed rfl
    cases (parseBytes_eq_ok.mpr h.held.accepted).symm.trans accepted
    obtain ⟨r, checksum, run, len, -⟩ := h.held.remove signed reads
    rw [run] at small ⊢
    dsimp only at small ⊢
    exact h.unsigned len (by omega)

theorem Shows.verify {crates : Crates} {opts : VerifyOptions crates.Cert}
    (h : Shows b F core cur pe shelf)
    (transparent : ∀ x, shelf.signature = some x → ∃ s, Transparent x s)
    (rounds : Nat) (reads : Reads) :
    verifyBytes crates opts b (rounds + 1) reads cur = shelf.verify crates opts := by
  rw [verifyBytes_eq, Res.bind_ok (parseBytes_eq_ok.mpr h.held.accepted),
    Res.bind_ok (h.signature rounds), h.held.stream, ← h.image, Shelf.verify]
  cases here : shelf.signature with
  | none => rfl
  | some x =>
    obtain ⟨s, transparent⟩ := transparent x here
    exact verifySignature_padded transparent shelf.image

end Step

section Runs
variable {b : Build} {served : Reads → Prop} {f cur : Bytes} {pf : PeInfo} {ops : List Op}

theorem Accepts.shows {F : Frame} {core : Bytes} (held : Held b F core f pf)
    (unsigned : pf.sigpos = 0) : Shows b F core f pf ⟨digestStream f pf, none⟩ :=
  ⟨held, held.stream, fun _ => extractBytes_unsigned unsigned⟩

theorem Run.shows {F : Frame} {core : Bytes} {shelf : Shelf} (run : Run b served f ops cur)
    (first : Shows b F core f pf shelf) : ∃ pe, Shows b F core cur pe (shelf.after ops) := by
  induction run with
  | start => exact ⟨pf, first⟩
  | step op reads run serves allowed small ih =>
    obtain ⟨pe, now⟩ := ih
    rw [Shelf.after_concat]
    exact now.step allowed small

/-- After any run of signing and removing, verification of the file is that of the image
it began with and of the signature that is on it, however the files were read. -/
theorem verify_refines_shelf {crates : Crates} {opts : VerifyOptions crates.Cert}
    (accepted : parseBytes b f = .ok pf) (unsigned : pf.sigpos = 0)
    (small : f.length < 2 ^ 32 - 2 ^ 16) (run : Run b served f ops cur)
    (transparent : ∀ x, .sign x ∈ ops → ∃ s, Transparent x s) (rounds : Nat) (reads : Reads) :
    verifyBytes crates opts b (rounds + 1) reads cur =
      (Shelf.after ⟨digestStream f pf, none⟩ ops).verify crates opts := by
  have first := parseBytes_eq_ok.mp accepted
  have bound := first.dataEnd_le
  obtain ⟨F, core, start⟩ := first.held unsigned (first.room_of_small (by omega))
  obtain ⟨pe, shows⟩ := run.shows (Accepts.shows start unsigned)
  exact shows.verify (fun x here => transparent x (Shelf.after_signature rfl here)) rounds reads

end Runs

theorem sampleDer_transparent : Transparent sampleDer sampleSpine :=
  .of_checked sampleDer_walk sampleSpine_wellNested (by decide +kernel) (by decide)

theorem verify_refines_shelf_sample :
    verifyBytes sampleCrates ⟨[[1]], none, false⟩ .release 1 uncut
        ((Op.sign sampleDer).apply .release uncut (smallPe 0 0)).2 =
      (Shelf.after ⟨digestStream (smallPe 0 0) (smallFrame.info 0 0 240), none⟩
        [.sign sampleDer]).verify sampleCrates ⟨[[1]], none, false⟩ := by
  have short : ((Op.sign sampleDer).apply .release uncut (smallPe 0 0)).2.length <
      2 ^ 32 - 2 ^ 16 := by
    rw [smallPe_held.sign_length]
    decide
  have run : Run .release (· = uncut) (smallPe 0 0) [.sign sampleDer] _ :=
    .step (.sign sampleDer) uncut .start rfl (fun h => nomatch h) short
  refine verify_refines_shelf (smallPe_unsigned .release) rfl (by rw [smallPe_length]; decide)
    run (fun x here => ?_) 0 uncut
  cases List.mem_singleton.mp here
  exact ⟨sampleSpine, sampleDer_transparent⟩

end Rsigncode
