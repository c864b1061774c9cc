import Mathlib.Data.UInt

/-! Base64 over the standard alphabet: three octets in four symbols, the last group
filled up with `=`. The decoder takes the canonical form only. -/
namespace Base64

def symbol (n : Nat) : UInt8 :=
  if n < 26 then UInt8.ofNat (n + 65)
  else if n < 52 then UInt8.ofNat (n + 71)
  else if n < 62 then UInt8.ofNat (n - 4)
  else if n = 62 then 43
  else 47

def sextet (c : UInt8) : Option Nat :=
  if 65 ≤ c.toNat ∧ c.toNat < 91 then some (c.toNat - 65)
  else if 97 ≤ c.toNat ∧ c.toNat < 123 then some (c.toNat - 71)
  else if 48 ≤ c.toNat ∧ c.toNat < 58 then some (c.toNat + 4)
  else if c = 43 then some 62
  else if c = 47 then some 63
  else none

def pad : UInt8 := 61

def encode : List UInt8 → List UInt8
  | a :: b :: c :: rest =>
    symbol (a.toNat / 4) :: symbol (a.toNat % 4 * 16 + b.toNat / 16) ::
      symbol (b.toNat % 16 * 4 + c.toNat / 64) :: symbol (c.toNat % 64) :: encode rest
  | [a, b] =>
    [symbol (a.toNat / 4), symbol (a.toNat % 4 * 16 + b.toNat / 16), symbol (b.toNat % 16 * 4), pad]
  | [a] => [symbol (a.toNat / 4), symbol (a.toNat % 4 * 16), pad, pad]
  | [] => []

def firstOctet (w x : UInt8) : Option (UInt8 × Nat) := do
  let w ← sextet w
  let x ← sextet x
  pure (UInt8.ofNat (w * 4 + x / 16), x % 16)

def secondOctet (high : Nat) (y : UInt8) : Option (UInt8 × Nat) := do
  let y ← sextet y
  pure (UInt8.ofNat (high * 16 + y / 4), y % 4)

def thirdOctet (high : Nat) (z : UInt8) : Option UInt8 := do
  let z ← sextet z
  pure (UInt8.ofNat (high * 64 + z))

/-- The bits of a symbol that no octet takes must be zero. -/
def decode : List UInt8 → Option (List UInt8)
  | w :: x :: y :: z :: rest => do
    let (a, high) ← firstOctet w x
    if y = pad then
      if z = pad ∧ high = 0 ∧ rest = [] then pure [a] else none
    else do
      let (b, high) ← secondOctet high y
      if z = pad then
        if high = 0 ∧ rest = [] then pure [a, b] else none
      else do
        let c ← thirdOctet high z
        let more ← decode rest
        pure (a :: b :: c :: more)
  | [] => some []
  | _ => none

theorem sextet_symbol {n : Nat} (h : n < 64) : sextet (symbol n) = some n := by
  have all : ∀ n < 64, sextet (symbol n) = some n := by decide
  exact all n h

theorem symbol_ne_pad {n : Nat} (h : n < 64) : symbol n ≠ pad := by
  have all : ∀ n < 64, symbol n ≠ pad := by decide
  exact all n h

theorem symbol_inj {n m : Nat} (hn : n < 64) (hm : m < 64) : symbol n = symbol m ↔ n = m := by
  refine ⟨fun same => ?_, congrArg symbol⟩
  have values := congrArg sextet same
  rw [sextet_symbol hn, sextet_symbol hm] at values
  exact Option.some.inj values

theorem firstOctet_symbols (a : UInt8) {high : Nat} (h : high < 16) :
    firstOctet (symbol (a.toNat / 4)) (symbol (a.toNat % 4 * 16 + high)) = some (a, high) := by
  have small := a.toNat_lt
  have value : a.toNat / 4 * 4 + (a.toNat % 4 * 16 + high) / 16 = a.toNat := by omega
  have rest : (a.toNat % 4 * 16 + high) % 16 = high := by omega
  simp only [firstOctet, sextet_symbol (show a.toNat / 4 < 64 by omega),
    sextet_symbol (show a.toNat % 4 * 16 + high < 64 by omega), value, rest, UInt8.ofNat_toNat,
    bind, Option.bind, pure]

theorem secondOctet_symbol (b : UInt8) {high : Nat} (h : high < 4) :
    secondOctet (b.toNat / 16) (symbol (b.toNat % 16 * 4 + high)) = some (b, high) := by
  have small := b.toNat_lt
  have value : b.toNat / 16 * 16 + (b.toNat % 16 * 4 + high) / 4 = b.toNat := by omega
  have rest : (b.toNat % 16 * 4 + high) % 4 = high := by omega
  simp only [secondOctet, sextet_symbol (show b.toNat % 16 * 4 + high < 64 by omega), value, rest,
    UInt8.ofNat_toNat, bind, Option.bind, pure]

theorem thirdOctet_symbol (c : UInt8) :
    thirdOctet (c.toNat / 64) (symbol (c.toNat % 64)) = some c := by
  have value : c.toNat / 64 * 64 + c.toNat % 64 = c.toNat := by omega
  simp only [thirdOctet, sextet_symbol (show c.toNat % 64 < 64 by omega), value,
    UInt8.ofNat_toNat, bind, Option.bind, pure]

theorem decode_encode (x : List UInt8) : decode (encode x) = some x := by
  induction x using encode.induct with
  | case1 a b c rest ih =>
    have hb := b.toNat_lt
    have hc := c.toNat_lt
    rw [encode, decode, firstOctet_symbols a (show b.toNat / 16 < 16 by omega)]
    simp only [bind, Option.bind]
    rw [if_neg (symbol_ne_pad (show b.toNat % 16 * 4 + c.toNat / 64 < 64 by omega)),
      secondOctet_symbol b (show c.toNat / 64 < 4 by omega)]
    dsimp only
    rw [if_neg (symbol_ne_pad (show c.toNat % 64 < 64 by omega)), thirdOctet_symbol c, ih]
    rfl
  | case2 a b =>
    have hb := b.toNat_lt
    have second := secondOctet_symbol b (show 0 < 4 by decide)
    rw [Nat.add_zero] at second
    rw [encode, decode, firstOctet_symbols a (show b.toNat / 16 < 16 by omega)]
    simp only [bind, Option.bind]
    rw [if_neg (symbol_ne_pad (show b.toNat % 16 * 4 < 64 by omega)), second]
    rfl
  | case3 a =>
    have first := firstOctet_symbols a (show 0 < 16 by decide)
    rw [Nat.add_zero] at first
    rw [encode, decode, first]
    rfl
  | case4 => rfl

theorem encode_length (x : List UInt8) : (encode x).length = (x.length + 2) / 3 * 4 := by
  induction x using encode.induct with
  | case1 a b c rest ih =>
    simp only [encode, List.length_cons, ih]
    omega
  | case2 a b => simp [encode]
  | case3 a => simp [encode]
  | case4 => simp [encode]

theorem encode_ne_self {x : List UInt8} (nonempty : x ≠ []) : encode x ≠ x := by
  intro same
  have longer := congrArg List.length same
  have positive := List.length_pos_iff.mpr nonempty
  rw [encode_length] at longer
  omega

theorem encode_starts {i j k : Nat} (hi : i < 64) (hj : j < 64) (hk : k < 64)
    (a b c : UInt8) (rest : List UInt8) :
    [symbol i, symbol j, symbol k] <+: encode (a :: b :: c :: rest) ↔
      i = a.toNat / 4 ∧ j = a.toNat % 4 * 16 + b.toNat / 16 ∧
        k = b.toNat % 16 * 4 + c.toNat / 64 := by
  have ha := a.toNat_lt
  have hb := b.toNat_lt
  have hc := c.toNat_lt
  rw [encode, List.cons_prefix_cons, List.cons_prefix_cons, List.cons_prefix_cons,
    symbol_inj hi (by omega), symbol_inj hj (by omega), symbol_inj hk (by omega)]
  simp

end Base64
