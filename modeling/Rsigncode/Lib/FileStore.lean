import Mathlib.Data.UInt
import Rsigncode.Lib.Prog
import Rsigncode.Lib.Number

/-! A store of files under paths, and handles with a position into it. Several
handles may be open on one path: each sees what the others write. A read may
return fewer bytes than were asked for; how many is the store's own choice. A file that
is there can be opened, and seeking and writing always succeed. -/
namespace FileStore

open Window

abbrev Bytes := List UInt8
abbrev Path := String

/-- The system's answers to the reads still to come: `none` fills the buffer or
reaches the end of the file, `some k` stops after at most `k + 1` bytes. -/
abbrev Reads := Nat → Option Nat

def uncut : Reads := fun _ => none

structure Store where
  files : Path → Option Bytes
  reads : Reads

structure File where
  path : Path
  pos : Nat

inductive IoError where
  | unexpectedEof
  deriving DecidableEq, Repr

class OfIo (ε : Type) where
  ofIo : IoError → ε

def Store.data (s : Store) (p : Path) : Bytes := (s.files p).getD []

def Store.setData (s : Store) (p : Path) (d : Bytes) : Store :=
  { s with files := fun q => if q = p then some d else s.files q }

def cut : Option Nat → Nat → Nat
  | none, n => n
  | some k, n => min n (k + 1)

variable {ε : Type}

def File.seek (f : File) (n : Nat) : File := { f with pos := n }

def File.seekEnd (f : File) : Prog Store ε File := ⟨fun s =>
  (.ok (f.seek (s.data f.path).length), s)⟩

/-- One read of at most `n` bytes: none at the end of the file, else at least one. -/
def File.read (f : File) (n : Nat) : Prog Store ε (Bytes × File) := ⟨fun s =>
  let k := cut (s.reads 0) (min n ((s.data f.path).length - f.pos))
  (.ok (slice (s.data f.path) f.pos (f.pos + k), f.seek (f.pos + k)),
    { s with reads := fun i => s.reads (i + 1) })⟩

def File.readExact [OfIo ε] (f : File) (n : Nat) : Prog Store ε (Bytes × File) := ⟨fun s =>
  if f.pos + n ≤ (s.data f.path).length then
    (.ok (slice (s.data f.path) f.pos (f.pos + n), f.seek (f.pos + n)), s)
  else (.error (OfIo.ofIo .unexpectedEof), s)⟩

def File.writeAll (f : File) (x : Bytes) : Prog Store ε File := ⟨fun s =>
  (.ok (f.seek (f.pos + x.length)), s.setData f.path (overwrite (s.data f.path) f.pos x))⟩

def createTruncate (p : Path) : Prog Store ε File := ⟨fun s =>
  (.ok ⟨p, 0⟩, s.setData p [])⟩

@[simp] theorem seek_path (f : File) (n : Nat) : (f.seek n).path = f.path := rfl
@[simp] theorem seek_pos (f : File) (n : Nat) : (f.seek n).pos = n := rfl
@[simp] theorem seek_seek (f : File) (m n : Nat) : (f.seek m).seek n = f.seek n := rfl

@[simp] theorem data_setData (s : Store) (p : Path) (d : Bytes) : (s.setData p d).data p = d := by
  simp [Store.data, Store.setData]

theorem data_setData_ne {s : Store} {p q : Path} (d : Bytes) (h : q ≠ p) :
    (s.setData p d).data q = s.data q := by
  simp [Store.data, Store.setData, h]

@[simp] theorem setData_setData (s : Store) (p : Path) (d e : Bytes) :
    (s.setData p d).setData p e = s.setData p e := by
  simp only [Store.setData, Store.mk.injEq, and_true]
  funext q
  split <;> rfl

theorem data_congr {s t : Store} (h : t.files = s.files) (p : Path) : t.data p = s.data p := by
  simp only [Store.data, h]

theorem createTruncate_run (p : Path) (s : Store) :
    (createTruncate p).run s = ((.ok ⟨p, 0⟩ : Except ε File), s.setData p []) := rfl

theorem cut_le (a : Option Nat) (n : Nat) : cut a n ≤ n := by
  cases a <;> simp only [cut] <;> omega

theorem cut_pos {n : Nat} (a : Option Nat) (h : 0 < n) : 0 < cut a n := by
  cases a <;> simp only [cut] <;> omega

theorem readExact_eq_ok [OfIo ε] {f g : File} {n : Nat} {s t : Store} {x : Bytes} :
    (f.readExact n).run s = ((.ok (x, g) : Except ε _), t) ↔
      f.pos + n ≤ (s.data f.path).length ∧ x = slice (s.data f.path) f.pos (f.pos + n) ∧
        g = f.seek (f.pos + n) ∧ t = s := by
  by_cases h : f.pos + n ≤ (s.data f.path).length
  · simp [File.readExact, h, eq_comm, and_assoc]
  · simp [File.readExact, h]

theorem readExact_never [OfIo ε] (f : File) (n : Nat) {e : ε}
    (h : e ≠ OfIo.ofIo .unexpectedEof) : Prog.Never e (f.readExact n) := by
  intro s failed
  unfold File.readExact at failed
  dsimp only at failed
  split at failed
  · cases failed
  · exact h (Except.error.inj failed).symm

theorem seekEnd_never (f : File) (e : ε) : Prog.Never e f.seekEnd := fun _ h => nomatch h

theorem read_never (f : File) (n : Nat) (e : ε) : Prog.Never e (f.read n) :=
  fun _ h => nomatch h

theorem writeAll_never (f : File) (x : Bytes) (e : ε) : Prog.Never e (f.writeAll x) :=
  fun _ h => nomatch h

theorem seekEnd_eq_ok {f g : File} {s t : Store} :
    f.seekEnd.run s = ((.ok g : Except ε _), t) ↔ g = f.seek (s.data f.path).length ∧ t = s := by
  simp [File.seekEnd, eq_comm]

/-- A read returns the next bytes of the file, and nothing only at its end. -/
theorem read_run (f : File) {n : Nat} (s : Store) (positive : 0 < n) :
    ∃ x t, (f.read n).run s = ((.ok (x, f.seek (f.pos + x.length)) : Except ε _), t) ∧
      t.files = s.files ∧ x.length ≤ n ∧
      x = slice (s.data f.path) f.pos (f.pos + x.length) ∧
      (x = [] → (s.data f.path).length ≤ f.pos) := by
  have low := cut_le (s.reads 0) (min n ((s.data f.path).length - f.pos))
  have some := fun h => cut_pos (n := min n ((s.data f.path).length - f.pos)) (s.reads 0) h
  have len : (slice (s.data f.path) f.pos
      (f.pos + cut (s.reads 0) (min n ((s.data f.path).length - f.pos)))).length =
      cut (s.reads 0) (min n ((s.data f.path).length - f.pos)) := by
    rw [slice_length]
    omega
  refine ⟨_, { s with reads := fun i => s.reads (i + 1) }, by rw [len]; rfl, rfl, by omega,
    by rw [len], fun h => ?_⟩
  rw [h, List.length_nil] at len
  omega

theorem writeAll_run (f : File) (x : Bytes) (s : Store) :
    (f.writeAll x).run s = ((.ok (f.seek (f.pos + x.length)) : Except ε _),
      s.setData f.path (overwrite (s.data f.path) f.pos x)) := rfl

structure Wrote (s : Store) (p : Path) (d : Bytes) (t : Store) : Prop where
  data : t.data p = d
  others : ∀ q, q ≠ p → t.files q = s.files q

theorem Wrote.trans {s t u : Store} {p : Path} {d e : Bytes} (h : Wrote s p d t)
    (g : Wrote t p e u) : Wrote s p e u :=
  ⟨g.data, fun q hq => (g.others q hq).trans (h.others q hq)⟩

theorem wrote_setData (s : Store) (p : Path) (d : Bytes) : Wrote s p d (s.setData p d) :=
  ⟨data_setData s p d, fun q hq => by simp [Store.setData, hq]⟩

theorem wrote_sameFiles {s t : Store} (h : t.files = s.files) (p : Path) :
    Wrote s p (s.data p) t :=
  ⟨data_congr h p, fun q _ => congrFun h q⟩

/-- The files are as they were; only the reads to come may differ. -/
def SameFiles (s t : Store) : Prop := t.files = s.files

section SameFiles

theorem SameFiles.refl (s : Store) : SameFiles s s := rfl

theorem SameFiles.trans (a b c : Store) (h : SameFiles a b) (g : SameFiles b c) :
    SameFiles a c := Eq.trans g h

theorem SameFiles.next {a b c : Store} (h : SameFiles a b) (g : SameFiles b c) : SameFiles a c :=
  SameFiles.trans a b c h g

theorem read_sameFiles (f : File) (n : Nat) :
    Prog.Within SameFiles (f.read n : Prog Store ε _) := fun _ => rfl

theorem seekEnd_sameFiles (f : File) :
    Prog.Within SameFiles (f.seekEnd : Prog Store ε _) := fun _ => rfl

end SameFiles

def Inspects {α : Type} (x : Prog Store ε α) : Prop :=
  ∃ g : (Path → Option Bytes) → Except ε α, ∀ s, x.run s = (g s.files, s)

section Inspects
variable {α β : Type}

theorem Inspects.run_eq {x : Prog Store ε α} (h : Inspects x) {s t : Store}
    (same : SameFiles s t) : x.run t = ((x.run s).1, t) := by
  obtain ⟨g, run⟩ := h
  rw [run, run, same]

theorem inspects_pure (a : α) : Inspects (pure a : Prog Store ε α) := ⟨fun _ => .ok a, fun _ => rfl⟩

theorem inspects_ofExcept (x : Except ε α) : Inspects (Prog.ofExcept x : Prog Store ε α) :=
  ⟨fun _ => x, fun _ => rfl⟩

theorem inspects_fail (e : ε) : Inspects (Prog.fail e : Prog Store ε α) :=
  inspects_ofExcept (.error e)

theorem inspects_rejectIf (c : Prop) [Decidable c] (e : ε) :
    Inspects (Prog.rejectIf c e : Prog Store ε Unit) := by
  unfold Prog.rejectIf
  split
  · exact inspects_fail e
  · exact inspects_pure ()

theorem Inspects.bind {x : Prog Store ε α} {f : α → Prog Store ε β} (hx : Inspects x)
    (hf : ∀ a, Inspects (f a)) : Inspects (x >>= f) := by
  obtain ⟨g, first⟩ := hx
  choose k next using hf
  refine ⟨fun files => (g files).bind fun a => k a files, fun s => ?_⟩
  cases outcome : g s.files with
  | error e =>
    rw [Prog.bind_error (t := s) (e := e) (by rw [first, outcome])]
    simp only [outcome, Except.bind]
  | ok a =>
    rw [Prog.bind_ok (t := s) (a := a) (by rw [first, outcome]), next]
    simp only [outcome, Except.bind]

theorem readExact_inspects [OfIo ε] (f : File) (n : Nat) :
    Inspects (f.readExact n : Prog Store ε _) := by
  refine ⟨fun files =>
    let d := (files f.path).getD []
    if f.pos + n ≤ d.length then .ok (slice d f.pos (f.pos + n), f.seek (f.pos + n))
    else .error (OfIo.ofIo .unexpectedEof), fun s => ?_⟩
  by_cases inside : f.pos + n ≤ (s.data f.path).length
  · exact (if_pos inside).trans (congrArg (·, s) (if_pos inside).symm)
  · exact (if_neg inside).trans (congrArg (·, s) (if_neg inside).symm)

end Inspects

def Yields {α : Type} (x : Prog Store ε α) (s : Store) (r : Except ε α) : Prop :=
  ∃ t, x.run s = (r, t) ∧ SameFiles s t

section Yields
variable {α β : Type}

theorem Yields.outcome {x : Prog Store ε α} {s : Store} {r : Except ε α} (h : Yields x s r) :
    (x.run s).1 = r := by
  obtain ⟨t, run, -⟩ := h
  rw [run]

theorem Yields.sameFiles {x : Prog Store ε α} {s : Store} {r : Except ε α} (h : Yields x s r) :
    SameFiles s (x.run s).2 := by
  obtain ⟨t, run, same⟩ := h
  rwa [run]

theorem yields_pure (a : α) (s : Store) : Yields (pure a : Prog Store ε α) s (.ok a) :=
  ⟨s, rfl, SameFiles.refl s⟩

theorem yields_ofExcept (r : Except ε α) (s : Store) : Yields (Prog.ofExcept r) s r :=
  ⟨s, rfl, SameFiles.refl s⟩

theorem Inspects.yields {x : Prog Store ε α} (h : Inspects x) {s t : Store}
    (same : SameFiles s t) : Yields x t (x.run s).1 :=
  ⟨t, h.run_eq same, SameFiles.refl t⟩

theorem Inspects.within {x : Prog Store ε α} (h : Inspects x) : Prog.Within SameFiles x :=
  fun s => (h.yields (SameFiles.refl s)).sameFiles

theorem Yields.bind {x : Prog Store ε α} {f : α → Prog Store ε β} {s : Store} {r : Except ε α}
    {k : α → Except ε β} (h : Yields x s r)
    (next : ∀ a t, r = .ok a → SameFiles s t → Yields (f a) t (k a)) :
    Yields (x >>= f) s (r >>= k) := by
  obtain ⟨t, run, same⟩ := h
  cases r with
  | error e => exact ⟨t, Prog.bind_error run, same⟩
  | ok a =>
    obtain ⟨u, rest, same'⟩ := next a t rfl same
    exact ⟨u, (Prog.bind_ok run).trans rest, SameFiles.trans s t u same same'⟩

end Yields

def Grows (p : Path) (s t : Store) : Prop := (s.data p).length ≤ (t.data p).length

section Grows
variable (p : Path)

theorem Grows.refl (s : Store) : Grows p s s := Nat.le_refl _

theorem Grows.trans (a b c : Store) (h : Grows p a b) (g : Grows p b c) : Grows p a c :=
  Nat.le_trans h g

theorem SameFiles.grows {s t : Store} (h : SameFiles s t) : Grows p s t :=
  Nat.le_of_eq (congrArg List.length (data_congr h p).symm)

theorem writeAll_grows (f : File) (x : Bytes) :
    Prog.Within (Grows p) (f.writeAll x : Prog Store ε _) := by
  intro s
  rw [writeAll_run]
  by_cases here : p = f.path
  · subst here
    rw [Grows, data_setData]
    exact overwrite_length_le _ _ _
  · exact Nat.le_of_eq (congrArg List.length (data_setData_ne _ here).symm)

end Grows

def Others (p : Path) (s t : Store) : Prop := ∀ q, q ≠ p → t.files q = s.files q

section Others
variable (p : Path)

theorem Others.refl (s : Store) : Others p s s := fun _ _ => rfl

theorem Others.trans (a b c : Store) (h : Others p a b) (g : Others p b c) : Others p a c :=
  fun q other => (g q other).trans (h q other)

theorem SameFiles.others {s t : Store} (h : SameFiles s t) : Others p s t :=
  fun q _ => congrFun h q

theorem setData_others (s : Store) (d : Bytes) : Others p s (s.setData p d) :=
  fun _ other => if_neg other

theorem createTruncate_others : Prog.Within (Others p) (createTruncate p : Prog Store ε _) :=
  fun s => setData_others p s []

variable {p}

theorem writeAll_others {α : Type} {f : File} {x : Bytes} {rest : File → Prog Store ε α}
    (here : f.path = p) (next : ∀ g : File, g.path = p → Prog.Within (Others p) (rest g)) :
    Prog.Within (Others p) (f.writeAll x >>= rest) := by
  refine Prog.Within.bind_returned (Others.trans p) (fun s => here ▸ setData_others f.path s _) ?_
  intro s g t run
  cases run
  exact next _ here

theorem seekEnd_others {α : Type} {f : File} {rest : File → Prog Store ε α} (here : f.path = p)
    (next : ∀ g : File, g.path = p → Prog.Within (Others p) (rest g)) :
    Prog.Within (Others p) (f.seekEnd >>= rest) := by
  refine Prog.Within.bind_returned (Others.trans p) (fun s => Others.refl p s) ?_
  intro s g t run
  cases run
  exact next _ here

end Others

end FileStore
