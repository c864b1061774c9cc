import Rsigncode.Lib.Tlv

/-! Codecs for DER types, each with the law that it reads back what it wrote. The
contents of a type are a `Value`; an element, which starts with its identifier, is a
`Codec`; what stands in a SEQUENCE is `Fields`. An absent field and the alternative of a
CHOICE are told by the next octet. -/
namespace DerCodec

open Number Tlv

structure Limit where
  max : Nat
  lt : max < 2 ^ 32

def tlv (tag : UInt8) (content : List UInt8) : List UInt8 :=
  tag :: lengthOctets content.length ++ content

theorem length_le_tlv (tag : UInt8) (content : List UInt8) :
    content.length + 2 ≤ (tlv tag content).length := by
  have some : 0 < (lengthOctets content.length).length := by
    rw [lengthOctets]
    split <;> simp
  rw [tlv, List.length_append, List.length_cons]
  omega

def IsIdentifier (tag : UInt8) : Prop := tag &&& 0x1F ≠ 0x1F ∧ tag &&& 0xDF ≠ 0

instance (tag : UInt8) : Decidable (IsIdentifier tag) := inferInstanceAs (Decidable (_ ∧ _))

/-- One element, down to its leaves. -/
inductive IsElement : List UInt8 → Prop where
  | primitive (t : Tlv) (tag : IsIdentifier t.tag) (leaf : t.tag &&& 0x20 = 0) : IsElement t.bytes
  | constructed (t : Tlv) (ts : List Tlv) (tag : IsIdentifier t.tag) (inner : t.tag &&& 0x20 = 0x20)
      (content : t.content = flat ts) (elements : ∀ u ∈ ts, IsElement u.bytes) : IsElement t.bytes

theorem isElement_leaf {tag : UInt8} {content : List UInt8} (small : content.length < 2 ^ 32)
    (identifier : IsIdentifier tag) (leaf : tag &&& 0x20 = 0) : IsElement (tlv tag content) :=
  .primitive (Tlv.emit tag content small) identifier leaf

theorem exists_flat {parts : List (List UInt8)} (elements : ∀ p ∈ parts, IsElement p) :
    ∃ ts : List Tlv, flat ts = parts.flatten ∧ ∀ u ∈ ts, IsElement u.bytes := by
  induction parts with
  | nil => exact ⟨[], rfl, fun _ here => absurd here List.not_mem_nil⟩
  | cons p parts ih =>
    have first := elements p List.mem_cons_self
    obtain ⟨ts, bytes, rest⟩ := ih fun q here => elements q (List.mem_cons_of_mem p here)
    obtain ⟨t, rfl⟩ : ∃ t : Tlv, t.bytes = p := by
      cases first <;> exact ⟨_, rfl⟩
    refine ⟨t :: ts, ?_, List.forall_mem_cons.mpr ⟨first, rest⟩⟩
    rw [flat_cons, bytes, List.flatten_cons]

theorem isElement_inner {tag : UInt8} {parts : List (List UInt8)}
    (small : parts.flatten.length < 2 ^ 32) (identifier : IsIdentifier tag)
    (inner : tag &&& 0x20 = 0x20) (elements : ∀ p ∈ parts, IsElement p) :
    IsElement (tlv tag parts.flatten) := by
  obtain ⟨ts, bytes, elements⟩ := exists_flat elements
  exact .constructed (Tlv.emit tag parts.flatten small) ts identifier inner bytes.symm elements

theorem isElement_around {tag : UInt8} {p : List UInt8} (small : p.length < 2 ^ 32)
    (identifier : IsIdentifier tag) (inner : tag &&& 0x20 = 0x20) (element : IsElement p) :
    IsElement (tlv tag p) := by
  have held : [p].flatten = p := List.append_nil p
  rw [← held]
  exact isElement_inner (held.symm ▸ small) identifier inner (List.forall_mem_singleton.mpr element)

/-- The length in its shortest form only. -/
def readLength : List UInt8 → Option (Nat × List UInt8)
  | [] => none
  | l0 :: b =>
    if l0.toNat < 128 then some (l0.toNat, b)
    else
      let k := l0.toNat - 128
      let n := ofBe (b.take k)
      if k ≤ 4 ∧ lengthOctets n = l0 :: b.take k then some (n, b.drop k) else none

def readContent (limit : Limit) (b : List UInt8) : Option (List UInt8 × List UInt8) := do
  let (n, b) ← readLength b
  if n ≤ limit.max ∧ n ≤ b.length then some (b.take n, b.drop n) else none

theorem readLength_lengthOctets {n : Nat} (small : n < 2 ^ 32) (r : List UInt8) :
    readLength (lengthOctets n ++ r) = some (n, r) := by
  have form := lengthOctets_form small
  have self : lengthOctets n = lengthOctets n := rfl
  by_cases short : n < 128
  · have octets : lengthOctets n = [UInt8.ofNat n] := if_pos short
    have value : (UInt8.ofNat n).toNat = n := by
      rw [ofNat_toNat_mod]
      omega
    rw [octets, List.singleton_append, readLength, value, if_pos short]
  · have octets : lengthOctets n = UInt8.ofNat (128 + (trim (be 8 n)).length) :: trim (be 8 n) :=
      if_neg short
    have value : ofBe (trim (be 8 n)) = n := (ofBe_trim _).trans (ofBe_be (by omega))
    have few : (trim (be 8 n)).length ≤ 4 :=
      trim_length_le (by rw [ofBe_be (by omega)]; omega)
    have count : (UInt8.ofNat (128 + (trim (be 8 n)).length)).toNat =
        128 + (trim (be 8 n)).length := by
      rw [ofNat_toNat_mod]
      omega
    rw [octets, List.cons_append, readLength, count, if_neg (by omega)]
    simp only [Nat.add_sub_cancel_left, List.take_left, List.drop_left, value]
    rw [if_pos ⟨few, octets⟩]

theorem readContent_tlv (limit : Limit) {content : List UInt8}
    (fits : content.length ≤ limit.max) (r : List UInt8) :
    readContent limit (lengthOctets content.length ++ content ++ r) = some (content, r) := by
  have small := limit.lt
  rw [readContent, List.append_assoc, readLength_lengthOctets (by omega)]
  simp [fits]

structure Value (limit : Limit) (α : Type) where
  encode : α → List UInt8
  decode : List UInt8 → Option α
  decode_encode : ∀ x, (encode x).length ≤ limit.max → decode (encode x) = some x

/-- An element, read from the front; it starts with an octet that `starts` knows. -/
structure Codec (limit : Limit) (α : Type) where
  encode : α → List UInt8
  decode : List UInt8 → Option (α × List UInt8)
  starts : UInt8 → Bool
  encode_starts : ∀ x, ∃ a r, encode x = a :: r ∧ starts a = true
  decode_encode : ∀ x r, (encode x).length ≤ limit.max → decode (encode x ++ r) = some (x, r)

/-- Elements one after the other, some of which may be absent. They begin with an octet
of `first`, if with any, and an octet of `takes` behind them would be read as one of them. -/
structure Fields (limit : Limit) (α : Type) where
  encode : α → List UInt8
  decode : List UInt8 → Option (α × List UInt8)
  first : UInt8 → Bool
  takes : UInt8 → Bool
  encode_first : ∀ x a r, encode x = a :: r → first a = true
  decode_encode : ∀ x r, (encode x).length ≤ limit.max →
    (∀ a s, r = a :: s → takes a = false) → decode (encode x ++ r) = some (x, r)

def Apart (p q : UInt8 → Bool) : Prop := ∀ a, p a = true → q a = false

theorem apart_never (q : UInt8 → Bool) : Apart (fun _ => false) q := fun _ h => nomatch h

theorem apart_tag {tag : UInt8} {q : UInt8 → Bool} (other : q tag = false) :
    Apart (· == tag) q := by
  intro a same
  rw [eq_of_beq same, other]

variable {limit : Limit} {α β : Type}

def whole : Option (α × List UInt8) → Option α
  | some (x, []) => some x
  | _ => none

namespace Value

def ofCodec (c : Codec limit α) : Value limit α where
  encode := c.encode
  decode b := whole (c.decode b)
  decode_encode x fits := by
    have law := c.decode_encode x [] fits
    rw [List.append_nil] at law
    rw [law, whole]

def ofFields (f : Fields limit α) : Value limit α where
  encode := f.encode
  decode b := whole (f.decode b)
  decode_encode x fits := by
    have law := f.decode_encode x [] fits (fun _ _ h => nomatch h)
    rw [List.append_nil] at law
    rw [law, whole]

end Value

namespace Codec

def tagged (tag : UInt8) (v : Value limit α) : Codec limit α where
  encode x := tlv tag (v.encode x)
  decode b :=
    match b with
    | [] => none
    | a :: b =>
      if a = tag then do
        let (content, r) ← readContent limit b
        let x ← v.decode content
        some (x, r)
      else none
  starts := (· == tag)
  encode_starts x := ⟨tag, _, rfl, beq_self_eq_true tag⟩
  decode_encode x r fits := by
    have inside : (v.encode x).length ≤ limit.max := by
      rw [tlv, List.length_append] at fits
      omega
    simp only [tlv, List.cons_append, if_true]
    rw [readContent_tlv limit inside]
    simp only [bind, Option.bind, v.decode_encode x inside]

def sequence (f : Fields limit α) : Codec limit α := tagged 0x30 (.ofFields f)

def contextTag (n : Nat) (constructed : Bool) : UInt8 :=
  UInt8.ofNat (0x80 + (if constructed then 0x20 else 0) + n)

/-- `[n] IMPLICIT`: the tag is replaced. -/
def implicitTag (n : Nat) (constructed : Bool) (v : Value limit α) : Codec limit α :=
  tagged (contextTag n constructed) v

/-- `[n] EXPLICIT`: the element is wrapped. -/
def explicitTag (n : Nat) (c : Codec limit α) : Codec limit α :=
  tagged (contextTag n true) (.ofCodec c)

def map (c : Codec limit α) (pack : α → β) (unpack : β → α)
    (inverse : ∀ y, pack (unpack y) = y) : Codec limit β where
  encode y := c.encode (unpack y)
  decode b := (c.decode b).map fun (x, r) => (pack x, r)
  starts := c.starts
  encode_starts y := c.encode_starts (unpack y)
  decode_encode y r fits := by
    rw [c.decode_encode (unpack y) r fits, Option.map_some]
    dsimp only
    rw [inverse]

def choice (c : Codec limit α) (d : Codec limit β) (apart : Apart c.starts d.starts) :
    Codec limit (α ⊕ β) where
  encode := Sum.elim c.encode d.encode
  decode b :=
    match b with
    | [] => none
    | a :: r =>
      if c.starts a then (c.decode (a :: r)).map fun (x, r) => (.inl x, r)
      else if d.starts a then (d.decode (a :: r)).map fun (y, r) => (.inr y, r)
      else none
  starts a := c.starts a || d.starts a
  encode_starts
    | .inl x => by
      obtain ⟨a, r, cons, start⟩ := c.encode_starts x
      exact ⟨a, r, cons, by rw [start, Bool.true_or]⟩
    | .inr y => by
      obtain ⟨a, r, cons, start⟩ := d.encode_starts y
      exact ⟨a, r, cons, by rw [start, Bool.or_true]⟩
  decode_encode
    | .inl x, r, fits => by
      have law := c.decode_encode x r fits
      obtain ⟨a, s, cons, start⟩ := c.encode_starts x
      rw [cons, List.cons_append] at law
      simp only [Sum.elim_inl, cons, List.cons_append, start, if_true, law, Option.map_some]
    | .inr y, r, fits => by
      have law := d.decode_encode y r fits
      obtain ⟨a, s, cons, start⟩ := d.encode_starts y
      have other : c.starts a = false := by
        by_contra both
        rw [apart a (Bool.of_not_eq_false both)] at start
        cases start
      rw [cons, List.cons_append] at law
      simp only [Sum.elim_inr, cons, List.cons_append, other, start, if_true, law,
        Option.map_some, Bool.false_eq_true, if_false]

/-- `ANY`: identifier octets and a content that is not looked into. -/
def any {Tag : Type} (tags : Codec limit Tag) : Codec limit (Tag × List UInt8) where
  encode x := tags.encode x.1 ++ (lengthOctets x.2.length ++ x.2)
  decode b := do
    let (tag, b) ← tags.decode b
    let (content, r) ← readContent limit b
    some ((tag, content), r)
  starts := tags.starts
  encode_starts x := by
    obtain ⟨a, r, cons, start⟩ := tags.encode_starts x.1
    exact ⟨a, r ++ (lengthOctets x.2.length ++ x.2), by rw [cons, List.cons_append], start⟩
  decode_encode x r fits := by
    rw [List.length_append, List.length_append] at fits
    rw [List.append_assoc, tags.decode_encode x.1 _ (by omega)]
    simp only [bind, Option.bind, readContent_tlv limit (show x.2.length ≤ limit.max by omega)]

end Codec

namespace Fields

def required (c : Codec limit α) : Fields limit α where
  encode := c.encode
  decode := c.decode
  first := c.starts
  takes _ := false
  encode_first x a r cons := by
    obtain ⟨a', r', cons', start⟩ := c.encode_starts x
    rw [cons] at cons'
    cases cons'
    exact start
  decode_encode x r fits _ := c.decode_encode x r fits

def optional (c : Codec limit α) : Fields limit (Option α) where
  encode
    | none => []
    | some x => c.encode x
  decode b :=
    match b with
    | [] => some (none, [])
    | a :: r =>
      if c.starts a then (c.decode (a :: r)).map fun (x, r) => (some x, r)
      else some (none, a :: r)
  first := c.starts
  takes := c.starts
  encode_first
    | none, _, _, cons => nomatch cons
    | some x, a, r, cons => by
      have cons : c.encode x = a :: r := cons
      obtain ⟨a', r', cons', start⟩ := c.encode_starts x
      rw [cons] at cons'
      cases cons'
      exact start
  decode_encode
    | none, r, _, stop => by
      cases r with
      | nil => rfl
      | cons a r => simp only [List.nil_append, stop a r rfl, Bool.false_eq_true, if_false]
    | some x, r, fits, _ => by
      have law := c.decode_encode x r fits
      obtain ⟨a, s, cons, start⟩ := c.encode_starts x
      rw [cons, List.cons_append] at law
      simp only [cons, List.cons_append, start, if_true, law, Option.map_some]

/-- One after the other: what the first may take must not begin the second. -/
def pair (f : Fields limit α) (g : Fields limit β) (apart : Apart f.takes g.first) :
    Fields limit (α × β) where
  encode x := f.encode x.1 ++ g.encode x.2
  decode b := do
    let (x, b) ← f.decode b
    let (y, b) ← g.decode b
    some ((x, y), b)
  first a := f.first a || g.first a
  takes a := f.takes a || g.takes a
  encode_first x a r cons := by
    cases head : f.encode x.1 with
    | nil =>
      rw [head, List.nil_append] at cons
      rw [g.encode_first _ a r cons, Bool.or_true]
    | cons b s =>
      rw [head, List.cons_append] at cons
      cases cons
      rw [f.encode_first _ a s head, Bool.true_or]
  decode_encode x r fits stop := by
    rw [List.length_append] at fits
    have last : ∀ a s, r = a :: s → f.takes a = false ∧ g.takes a = false := fun a s cons => by
      simpa using stop a s cons
    have next : ∀ a s, g.encode x.2 ++ r = a :: s → f.takes a = false := by
      intro a s cons
      cases head : g.encode x.2 with
      | nil =>
        rw [head, List.nil_append] at cons
        exact (last a s cons).1
      | cons b t =>
        rw [head, List.cons_append] at cons
        cases cons
        by_contra both
        have begins := g.encode_first _ a t head
        rw [apart a (Bool.of_not_eq_false both)] at begins
        cases begins
    rw [List.append_assoc, f.decode_encode x.1 _ (by omega) next]
    simp only [bind, Option.bind,
      g.decode_encode x.2 r (by omega) (fun a s cons => (last a s cons).2)]

def field (c : Codec limit α) (g : Fields limit β) : Fields limit (α × β) :=
  (required c).pair g (apart_never _)

def map (f : Fields limit α) (pack : α → β) (unpack : β → α)
    (inverse : ∀ y, pack (unpack y) = y) : Fields limit β where
  encode y := f.encode (unpack y)
  decode b := (f.decode b).map fun (x, r) => (pack x, r)
  first := f.first
  takes := f.takes
  encode_first y := f.encode_first (unpack y)
  decode_encode y r fits stop := by
    rw [f.decode_encode (unpack y) r fits stop, Option.map_some]
    dsimp only
    rw [inverse]

end Fields

namespace Codec
variable (c : Codec limit α)

def toDer (x : α) : Option (List UInt8) :=
  if (c.encode x).length ≤ limit.max then some (c.encode x) else none

def fromDer (b : List UInt8) : Option α :=
  if b.length ≤ limit.max then whole (c.decode b) else none

theorem toDer_eq_some {x : α} {der : List UInt8} :
    c.toDer x = some der ↔ (c.encode x).length ≤ limit.max ∧ c.encode x = der := by
  unfold toDer
  split
  · next fits => simp [fits]
  · next large => simp [large]

theorem fromDer_toDer {x : α} {der : List UInt8} (h : c.toDer x = some der) :
    c.fromDer der = some x := by
  obtain ⟨fits, rfl⟩ := c.toDer_eq_some.mp h
  have law := c.decode_encode x [] fits
  rw [List.append_nil] at law
  rw [fromDer, if_pos fits, law, whole]

theorem toDer_injective {x y : α} {der : List UInt8} (hx : c.toDer x = some der)
    (hy : c.toDer y = some der) : x = y := by
  have read := c.fromDer_toDer hx
  rw [c.fromDer_toDer hy] at read
  exact (Option.some.inj read).symm

end Codec

end DerCodec
