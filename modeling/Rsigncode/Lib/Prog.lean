import Mathlib.Logic.Basic

/-! Programs over a store that may stop with a fault. The store survives the
fault, so what a failed call leaves behind can be stated. -/

/-- A program from a store to a result or a fault, and the store it leaves. -/
structure Prog (σ ε α : Type) where
  run : σ → Except ε α × σ

namespace Prog

variable {σ ε α β : Type}

instance : Monad (Prog σ ε) where
  pure a := ⟨fun s => (.ok a, s)⟩
  bind x f := ⟨fun s =>
    match x.run s with
    | (.ok a, t) => (f a).run t
    | (.error e, t) => (.error e, t)⟩

def fail (e : ε) : Prog σ ε α := ⟨fun s => (.error e, s)⟩

def ofExcept (x : Except ε α) : Prog σ ε α := ⟨fun s => (x, s)⟩

def rejectIf (c : Prop) [Decidable c] (e : ε) : Prog σ ε Unit :=
  if c then fail e else pure ()

@[simp] theorem pure_run (a : α) (s : σ) : (pure a : Prog σ ε α).run s = (.ok a, s) := rfl

@[simp] theorem fail_run (e : ε) (s : σ) : (fail e : Prog σ ε α).run s = (.error e, s) := rfl

@[simp] theorem ofExcept_run (x : Except ε α) (s : σ) : (ofExcept x).run s = (x, s) := rfl

theorem bind_ok {x : Prog σ ε α} {f : α → Prog σ ε β} {s t : σ} {a : α}
    (h : x.run s = (.ok a, t)) : (x >>= f).run s = (f a).run t := by
  simp only [bind, h]

theorem bind_error {x : Prog σ ε α} {f : α → Prog σ ε β} {s t : σ} {e : ε}
    (h : x.run s = (.error e, t)) : (x >>= f).run s = (.error e, t) := by
  simp only [bind, h]

theorem bind_eq_ok {x : Prog σ ε α} {f : α → Prog σ ε β} {s u : σ} {b : β} :
    (x >>= f).run s = (.ok b, u) ↔ ∃ a t, x.run s = (.ok a, t) ∧ (f a).run t = (.ok b, u) := by
  constructor
  · intro h
    rcases hx : x.run s with ⟨_ | a, t⟩
    · rw [bind_error hx] at h
      cases h
    · exact ⟨a, t, rfl, by rwa [bind_ok hx] at h⟩
  · rintro ⟨a, t, hx, hf⟩
    rwa [bind_ok hx]

theorem bind_eq_error {x : Prog σ ε α} {f : α → Prog σ ε β} {s u : σ} {e : ε} :
    (x >>= f).run s = (.error e, u) ↔ x.run s = (.error e, u) ∨
      ∃ a t, x.run s = (.ok a, t) ∧ (f a).run t = (.error e, u) := by
  rcases hx : x.run s with ⟨e' | a, t⟩
  · rw [bind_error hx]
    simp
  · rw [bind_ok hx]
    constructor
    · exact fun h => .inr ⟨a, t, rfl, h⟩
    · rintro (h | ⟨a', t', h, g⟩)
      · cases h
      · cases h
        exact g

theorem pure_bind (a : α) (f : α → Prog σ ε β) : (pure a : Prog σ ε α) >>= f = f a := rfl

theorem bind_assoc {γ : Type} (x : Prog σ ε α) (f : α → Prog σ ε β) (g : β → Prog σ ε γ) :
    x >>= f >>= g = x >>= fun a => f a >>= g := by
  simp only [bind, mk.injEq]
  funext s
  rcases x.run s with ⟨_ | _, _⟩ <;> rfl

theorem pure_eq_ok {a b : α} {s t : σ} :
    (pure a : Prog σ ε α).run s = (.ok b, t) ↔ b = a ∧ t = s := by
  simp [eq_comm]

theorem ofExcept_eq_ok {x : Except ε α} {a : α} {s t : σ} :
    (ofExcept x).run s = (.ok a, t) ↔ x = .ok a ∧ t = s := by
  simp [eq_comm]

theorem rejectIf_eq_ok {c : Prop} [Decidable c] {e : ε} {u : Unit} {s t : σ} :
    (rejectIf c e).run s = (.ok u, t) ↔ ¬ c ∧ t = s := by
  by_cases h : c <;> simp [rejectIf, h, eq_comm]

theorem pure_ne_error {a : α} {e : ε} {s t : σ} :
    (pure a : Prog σ ε α).run s ≠ (.error e, t) := by
  simp

theorem ofExcept_eq_error {x : Except ε α} {e : ε} {s t : σ} :
    (ofExcept x).run s = (.error e, t) ↔ x = .error e ∧ t = s := by
  simp [eq_comm]

theorem rejectIf_eq_error {c : Prop} [Decidable c] {e e' : ε} {s t : σ} :
    (rejectIf c e).run s = (.error e', t) ↔ c ∧ e' = e ∧ t = s := by
  by_cases h : c <;> simp [rejectIf, h, eq_comm]

/-- Every run of `x`, whichever way it ends, relates its two stores by `R`. -/
def Within (R : σ → σ → Prop) (x : Prog σ ε α) : Prop := ∀ s, R s (x.run s).2

section Within
variable {R : σ → σ → Prop}

theorem Within.of_run {x : Prog σ ε α} (h : Within R x) {s t : σ} {r : Except ε α}
    (run : x.run s = (r, t)) : R s t := by
  simpa [run] using h s

theorem within_pure (refl : ∀ s, R s s) (a : α) : Within R (pure a : Prog σ ε α) := refl

theorem within_fail (refl : ∀ s, R s s) (e : ε) : Within R (fail e : Prog σ ε α) := refl

theorem within_ofExcept (refl : ∀ s, R s s) (x : Except ε α) :
    Within R (ofExcept x : Prog σ ε α) := refl

theorem Within.bind (trans : ∀ a b c, R a b → R b c → R a c) {x : Prog σ ε α}
    {f : α → Prog σ ε β} (hx : Within R x) (hf : ∀ a, Within R (f a)) : Within R (x >>= f) := by
  intro s
  have first := hx s
  rcases run : x.run s with ⟨e | a, t⟩ <;> rw [run] at first
  · rwa [bind_error run]
  · rw [bind_ok run]
    exact trans s t _ first (hf a t)

theorem Within.bind_returned (trans : ∀ a b c, R a b → R b c → R a c) {x : Prog σ ε α}
    {f : α → Prog σ ε β} (hx : Within R x)
    (hf : ∀ s a t, x.run s = (.ok a, t) → Within R (f a)) : Within R (x >>= f) := by
  intro s
  have first := hx s
  rcases run : x.run s with ⟨e | a, t⟩ <;> rw [run] at first
  · rwa [bind_error run]
  · rw [bind_ok run]
    exact trans s t _ first (hf s a t run t)

end Within

def Never (e : ε) (x : Prog σ ε α) : Prop := ∀ s, (x.run s).1 ≠ .error e

section Never
variable {e : ε}

theorem Never.run_ne {x : Prog σ ε α} (h : Never e x) {s t : σ} : x.run s ≠ (.error e, t) :=
  fun run => h s (congrArg Prod.fst run)

theorem never_pure (a : α) : Never e (pure a : Prog σ ε α) := by
  intro s h
  cases h

theorem never_ofExcept {x : Except ε α} (h : x ≠ .error e) : Never e (ofExcept x : Prog σ ε α) :=
  fun _ => h

theorem never_rejectIf {c : Prop} [Decidable c] {e' : ε} (h : e' ≠ e) :
    Never e (rejectIf c e' : Prog σ ε Unit) := by
  unfold rejectIf
  split
  · exact never_ofExcept fun same => h (Except.error.inj same)
  · exact never_pure ()

theorem Never.bind {x : Prog σ ε α} {f : α → Prog σ ε β} (hx : Never e x)
    (hf : ∀ a, Never e (f a)) : Never e (x >>= f) := by
  intro s
  have first := hx s
  rcases run : x.run s with ⟨e' | a, t⟩ <;> rw [run] at first
  · rw [bind_error run]
    exact fun same => first (congrArg Except.error (Except.error.inj same))
  · rw [bind_ok run]
    exact hf a t

end Never

/-- A run of `x` that ends with such a fault has changed nothing that `R` holds. -/
def Refuses (P : ε → Prop) (R : σ → σ → Prop) (x : Prog σ ε α) : Prop :=
  ∀ s t e, x.run s = (.error e, t) → P e → R s t

section Refuses
variable {P : ε → Prop} {R : σ → σ → Prop}

theorem refuses_of_never {x : Prog σ ε α} (h : ∀ e, P e → Never e x) : Refuses P R x :=
  fun _ _ e run fault => absurd run (h e fault).run_ne

theorem Refuses.bind (trans : ∀ a b c, R a b → R b c → R a c) {x : Prog σ ε α}
    {f : α → Prog σ ε β} (hx : Within R x) (hf : ∀ a, Refuses P R (f a)) :
    Refuses P R (x >>= f) := by
  intro s u e run fault
  rcases bind_eq_error.mp run with first | ⟨a, t, first, rest⟩
  · exact hx.of_run first
  · exact trans s t u (hx.of_run first) (hf a t u e rest fault)

theorem Refuses.bind_never {x : Prog σ ε α} {f : α → Prog σ ε β} (hx : Refuses P R x)
    (hf : ∀ a e, P e → Never e (f a)) : Refuses P R (x >>= f) := by
  intro s u e run fault
  rcases bind_eq_error.mp run with first | ⟨a, t, -, rest⟩
  · exact hx s u e first fault
  · exact absurd rest (hf a e fault).run_ne

end Refuses

def Fails (P : ε → Prop) (x : Prog σ ε α) : Prop := ∀ s e t, x.run s = (.error e, t) → P e

section Fails
variable {P : ε → Prop}

theorem fails_ofExcept {x : Except ε α} (h : ∀ e, x = .error e → P e) :
    Fails P (ofExcept x : Prog σ ε α) := fun _ e _ run => h e (Prod.mk.inj run).1

theorem fails_pure (a : α) : Fails P (pure a : Prog σ ε α) := by
  intro s e t run
  cases run

theorem fails_rejectIf {c : Prop} [Decidable c] {e : ε} (h : P e) :
    Fails P (rejectIf c e : Prog σ ε Unit) := by
  unfold rejectIf
  split
  · exact fails_ofExcept fun _ same => Except.error.inj same ▸ h
  · exact fails_pure ()

theorem Fails.bind {x : Prog σ ε α} {f : α → Prog σ ε β} (hx : Fails P x)
    (hf : ∀ s a t, x.run s = (.ok a, t) → Fails P (f a)) : Fails P (x >>= f) := by
  intro s e u run
  rcases bind_eq_error.mp run with first | ⟨a, t, first, rest⟩
  · exact hx s e u first
  · exact hf s a t first t e u rest

end Fails

def Alike (R : σ → σ → Prop) (x : Prog σ ε α) : Prop :=
  ∀ s t, R s t → (x.run s).1 = (x.run t).1 ∧ R (x.run s).2 (x.run t).2

section Alike
variable {R : σ → σ → Prop}

theorem alike_ofExcept (x : Except ε α) : Alike R (ofExcept x : Prog σ ε α) :=
  fun _ _ related => ⟨rfl, related⟩

theorem alike_pure (a : α) : Alike R (pure a : Prog σ ε α) := alike_ofExcept (.ok a)

theorem Alike.bind {x : Prog σ ε α} {f : α → Prog σ ε β} (hx : Alike R x)
    (hf : ∀ a, Alike R (f a)) : Alike R (x >>= f) := by
  intro s t related
  have first := hx s t related
  rcases left : x.run s with ⟨r, s'⟩
  rcases right : x.run t with ⟨r', t'⟩
  rw [left, right] at first
  obtain ⟨same, related'⟩ := first
  cases same
  cases r with
  | error e =>
    rw [bind_error left, bind_error right]
    exact ⟨rfl, related'⟩
  | ok a =>
    rw [bind_ok left, bind_ok right]
    exact hf a s' t' related'

theorem alike_check {x : Except ε α} {f : α → Prog σ ε β}
    (hf : ∀ a, x = .ok a → Alike R (f a)) : Alike R (ofExcept x >>= f) := by
  cases x with
  | error e => exact alike_ofExcept (.error e)
  | ok a => exact hf a rfl

end Alike

section Zoom
variable {τ ε' : Type} {get : σ → τ} {set : σ → τ → σ} {lift : ε → ε'} {x : Prog τ ε α}

/-- Run on a part of the store, with its faults translated. -/
def zoom (get : σ → τ) (set : σ → τ → σ) (lift : ε → ε') (x : Prog τ ε α) : Prog σ ε' α := ⟨fun s =>
  match x.run (get s) with
  | (.ok a, t) => (.ok a, set s t)
  | (.error e, t) => (.error (lift e), set s t)⟩

theorem zoom_ok {s : σ} {t : τ} {a : α} (h : x.run (get s) = (.ok a, t)) :
    (zoom get set lift x).run s = (.ok a, set s t) := by
  simp only [zoom, h]

theorem zoom_error {s : σ} {t : τ} {e : ε} (h : x.run (get s) = (.error e, t)) :
    (zoom get set lift x).run s = (.error (lift e), set s t) := by
  simp only [zoom, h]

theorem zoom_eq_ok {s u : σ} {a : α} : (zoom get set lift x).run s = (.ok a, u) ↔
    ∃ t, x.run (get s) = (.ok a, t) ∧ set s t = u := by
  rcases run : x.run (get s) with ⟨e | b, t⟩
  · simp [zoom_error run]
  · simp [zoom_ok run, and_assoc]

theorem zoom_eq_error {s u : σ} {e' : ε'} : (zoom get set lift x).run s = (.error e', u) ↔
    ∃ e t, x.run (get s) = (.error e, t) ∧ lift e = e' ∧ set s t = u := by
  rcases run : x.run (get s) with ⟨e | b, t⟩
  · simp [zoom_error run, and_assoc]
  · simp [zoom_ok run]

theorem Within.zoom {R : τ → τ → Prop} {R' : σ → σ → Prop} (h : Within R x)
    (carry : ∀ s t, R (get s) t → R' s (set s t)) : Within R' (zoom get set lift x) := by
  intro s
  have here := h (get s)
  rcases run : x.run (get s) with ⟨e | a, t⟩ <;> rw [run] at here
  · rw [zoom_error run]
    exact carry s t here
  · rw [zoom_ok run]
    exact carry s t here

theorem Never.zoom {e' : ε'} (h : ∀ e, lift e = e' → Never e x) :
    Never e' (zoom get set lift x) := by
  intro s failed
  obtain ⟨e, t, run, same, -⟩ := zoom_eq_error.mp
    (Prod.ext failed rfl : (Prog.zoom get set lift x).run s = (.error e', _))
  exact (h e same).run_ne run

end Zoom

end Prog
