import Rsigncode.Lib.FileStore

/-! Errors, panics and the two builds of 32-bit arithmetic. `usize` and `u64`
are 64-bit and are modelled without overflow; `u32` is `Nat` below `2 ^ 32`. -/
namespace Rsigncode

open FileStore

inductive Error where
  | invalidPe (message : String)
  | signing (message : String)
  | verification (message : String)
  | certificate (message : String)
  | der (message : String)
  | io (error : IoError)
  | timestamp (message : String)
  | http (message : String)
  | noSignature
  | other (message : String)
  deriving DecidableEq, Repr

def Error.display : Error → String
  | .invalidPe m => "Invalid PE file: " ++ m
  | .signing m => "Signing error: " ++ m
  | .verification m => "Verification failed: " ++ m
  | .certificate m => "Certificate error: " ++ m
  | .der m => "ASN.1 encoding error: " ++ m
  | .io .unexpectedEof => "I/O error: failed to fill whole buffer"
  | .timestamp m => "Timestamp error: " ++ m
  | .http m => "HTTP error: " ++ m
  | .noSignature => "No signature found"
  | .other m => m

/-- How a call can end other than with `Ok`: an `Err`, a panic, or more rounds
of an unbounded loop than the model was given. -/
inductive Fault where
  | error (e : Error)
  | panic
  | fuel
  deriving DecidableEq, Repr

instance : OfIo Fault where
  ofIo e := .error (.io e)

abbrev Res := Except Fault
abbrev Proc := Prog Store Fault

/-- Overflow of `u32` addition wraps in a release build and panics in a checked one. -/
inductive Build where
  | release | checked
  deriving DecidableEq, Repr

def asU32 (n : Nat) : Nat := n % 2 ^ 32

def Build.add (b : Build) (x y : Nat) : Res Nat :=
  if x + y < 2 ^ 32 then .ok (x + y)
  else match b with
    | .release => .ok (asU32 (x + y))
    | .checked => .error .panic

theorem asU32_of_lt {n : Nat} (h : n < 2 ^ 32) : asU32 n = n := Nat.mod_eq_of_lt h

theorem asU32_le (n : Nat) : asU32 n ≤ n := Nat.mod_le _ _

theorem add_of_lt {b : Build} {x y : Nat} (h : x + y < 2 ^ 32) : b.add x y = .ok (x + y) := by
  simp only [Build.add, if_pos h]

theorem add_release (x y : Nat) : Build.release.add x y = .ok (asU32 (x + y)) := by
  unfold Build.add
  split
  · rename_i small
    rw [asU32_of_lt small]
  · rfl

theorem add_eq_ok {b : Build} {x y z : Nat} (h : b.add x y = .ok z) : z = asU32 (x + y) := by
  unfold Build.add at h
  split at h
  · rename_i hlt
    cases h
    exact (asU32_of_lt hlt).symm
  · cases b <;> cases h
    rfl

theorem add_ne_error {e : Fault} (h : e ≠ .panic) (b : Build) (x y : Nat) :
    b.add x y ≠ .error e := by
  intro failed
  unfold Build.add at failed
  split at failed
  · cases failed
  · cases b <;> cases failed
    exact h rfl

theorem Res.bind_ne_error {α β : Type} {x : Res α} {f : α → Res β} {e : Fault}
    (first : x ≠ .error e) (next : ∀ a, f a ≠ .error e) : x >>= f ≠ .error e := by
  cases x with
  | error e' => exact fun same => first (congrArg Except.error (Except.error.inj same))
  | ok a => exact next a

theorem Res.bind_eq_ok {α β : Type} {x : Res α} {f : α → Res β} {c : β} :
    x >>= f = .ok c ↔ ∃ a, x = .ok a ∧ f a = .ok c := by
  cases x with
  | error e => simp [bind, Except.bind]
  | ok a => simp [bind, Except.bind]

theorem Res.bind_ok {α β : Type} {x : Res α} {a : α} (h : x = .ok a) (f : α → Res β) :
    x >>= f = f a := by
  rw [h]
  rfl

theorem Res.exists_ok {α : Type} {x : Res α} {p : α → Bool}
    (h : x.toOption.any p = true) : ∃ a, x = .ok a ∧ p a = true := by
  cases x with
  | error e => cases h
  | ok a => exact ⟨a, rfl, h⟩

def Res.mapErr {α : Type} (x : Res α) (f : Error → Error) : Res α :=
  match x with
  | .error (.error e) => .error (.error (f e))
  | r => r

theorem Res.mapErr_eq_ok {α : Type} {x : Res α} {f : Error → Error} {a : α} :
    x.mapErr f = .ok a ↔ x = .ok a := by
  rcases x with (_ | _ | _) | _ <;> simp [mapErr]

def Proc.unwrapOr {α : Type} (x : Proc α) (d : α) : Proc α := ⟨fun s =>
  match x.run s with
  | (.error (.error _), t) => (.ok d, t)
  | r => r⟩

theorem Proc.unwrapOr_eq_ok {α : Type} {x : Proc α} {a d : α} {s t : Store} :
    (x.unwrapOr d).run s = (.ok a, t) ↔
      x.run s = (.ok a, t) ∨ d = a ∧ ∃ e, x.run s = (.error (.error e), t) := by
  rcases run : x.run s with ⟨(_ | _ | _) | _, u⟩ <;> simp [unwrapOr, run]

theorem Proc.within_unwrapOr {α : Type} {R : Store → Store → Prop} {x : Proc α}
    (h : Prog.Within R x) (d : α) : Prog.Within R (x.unwrapOr d) := by
  intro s
  have here := h s
  rcases run : x.run s with ⟨(_ | _ | _) | _, u⟩ <;> simpa [unwrapOr, run] using here

def Res.Returns {α : Type} (x : Res α) : Prop := (∃ a, x = .ok a) ∨ ∃ e, x = .error (.error e)

theorem Res.returns_ok {α : Type} (a : α) : Returns (.ok a : Res α) := .inl ⟨a, rfl⟩

theorem Res.returns_pure {α : Type} (a : α) : Returns (pure a : Res α) := .inl ⟨a, rfl⟩

theorem Res.returns_error {α : Type} (e : Error) : Returns (.error (.error e) : Res α) :=
  .inr ⟨e, rfl⟩

theorem Res.Returns.bind {α β : Type} {x : Res α} {f : α → Res β} (h : x.Returns)
    (next : ∀ a, x = .ok a → (f a).Returns) : (x >>= f).Returns := by
  rcases h with ⟨a, rfl⟩ | ⟨e, rfl⟩
  · exact next a rfl
  · exact .inr ⟨e, rfl⟩

theorem Res.returns_ite_bind {α β : Type} {c : Prop} [Decidable c] {a : α} {f : α → Res β} :
    ((if c then .ok a else .error .panic : Res α) >>= f).Returns ↔ c ∧ (f a).Returns := by
  by_cases h : c
  · simp only [h, if_true, true_and]
    rfl
  · simp [h, Returns, bind, Except.bind]

end Rsigncode
