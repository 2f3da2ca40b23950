import Mathlib.Data.List.Basic

/-!
# Base64

The encoding of RFC 4648 with padding: three bytes are four characters of six bits each, and
one or two bytes at the end are filled up with `=`. `decode` returns three bytes for four
characters and reads an `=` as zero bits, so that it gives the text of an encoding back with
zeros where it was padded (`decode_encode`). How many there are can be read off the last two
characters (`padding_eq`).
-/

namespace Base64

/-- The characters of the values. -/
def alphabet : List UInt8 :=
  "ABCDEFGHIJKLMNOPQRSTUVWXYZabcdefghijklmnopqrstuvwxyz0123456789+/".toList.map Char.toUInt8

/-- The character of six bits. -/
def digit (v : Nat) : UInt8 := alphabet.getD v 0

/-- `=` -/
def pad : UInt8 := 61

def encode : List UInt8 → List UInt8
  | [] => []
  | [a] => [digit (a.toNat / 4), digit (a.toNat % 4 * 16), pad, pad]
  | [a, b] =>
    [digit (a.toNat / 4), digit (a.toNat % 4 * 16 + b.toNat / 16), digit (b.toNat % 16 * 4), pad]
  | a :: b :: c :: bs =>
    digit (a.toNat / 4) :: digit (a.toNat % 4 * 16 + b.toNat / 16) ::
      digit (b.toNat % 16 * 4 + c.toNat / 64) :: digit (c.toNat % 64) :: encode bs

/-- The six bits of a character; those of an `=` are zero. -/
def value (c : UInt8) : Option Nat := if c = pad then some 0 else alphabet.idxOf? c

/-- Four characters at a time. It is `none` for a character that is not of the alphabet, and for
a text whose length is not a multiple of four. -/
def decode : List UInt8 → Option (List UInt8)
  | [] => some []
  | w :: x :: y :: z :: cs => do
    let w ← value w
    let x ← value x
    let y ← value y
    let z ← value z
    let bs ← decode cs
    some (.ofNat (w * 4 + x / 16) :: .ofNat (x % 16 * 16 + y / 4) :: .ofNat (y % 4 * 64 + z) :: bs)
  | _ => none

/-- The bytes that an encoding of `n` bytes is filled up with. -/
def padding (n : Nat) : Nat := (3 - n % 3) % 3

/-! ## Characters

Sixty-four characters are few, and what has to be said of each of them is decided one by one. -/

theorem value_digit : ∀ v < 64, value (digit v) = some v := by
  decide +kernel

theorem digit_ne_pad : ∀ v < 64, digit v ≠ pad := by
  decide +kernel

@[simp] theorem value_pad : value pad = some 0 := if_pos rfl

/-! ## Texts

The recursion goes by three bytes on the one side and by four characters on the other, with the
two short ends as cases of their own. -/

theorem length_encode (bs : List UInt8) : (encode bs).length = 4 * ((bs.length + 2) / 3) := by
  fun_induction encode bs with
  | case1 => rfl
  | case2 a => simp
  | case3 a b => simp
  | case4 a b c bs ih =>
    simp only [List.length_cons, ih]
    omega

/-- A text is three bytes for four characters. -/
theorem length_decode {cs bs : List UInt8} (h : decode cs = some bs) :
    4 * bs.length = 3 * cs.length := by
  fun_induction decode cs generalizing bs with
  | case1 =>
    obtain rfl := Option.some.inj h
    rfl
  | case2 w x y z cs ih =>
    simp only [Option.bind_eq_bind, Option.bind_eq_some_iff, Option.some.injEq] at h
    obtain ⟨_, -, _, -, _, -, _, -, bs', hbs', rfl⟩ := h
    have hlen := ih hbs'
    simp only [List.length_cons]
    omega
  | case3 => cases h

theorem decode_cons {w x y z : UInt8} {v₁ v₂ v₃ v₄ : Nat} (hw : value w = some v₁)
    (hx : value x = some v₂) (hy : value y = some v₃) (hz : value z = some v₄) (cs : List UInt8) :
    decode (w :: x :: y :: z :: cs) = (decode cs).map fun bs =>
      .ofNat (v₁ * 4 + v₂ / 16) :: .ofNat (v₂ % 16 * 16 + v₃ / 4) :: .ofNat (v₃ % 4 * 64 + v₄) ::
        bs := by
  rw [decode, hw, hx, hy, hz]
  cases decode cs <;> rfl

/-- **What was encoded comes back, with zeros where it was padded.** The decoder reads the
padding characters as zero bits, and knows nothing of the length. -/
theorem decode_encode (bs : List UInt8) :
    decode (encode bs) = some (bs ++ List.replicate (padding bs.length) 0) := by
  fun_induction encode bs with
  | case1 => rfl
  | case2 a =>
    have ha := a.toNat_lt
    have hfirst : a.toNat / 4 * 4 + a.toNat % 4 * 16 / 16 = a.toNat := by omega
    have hsecond : a.toNat % 4 * 16 % 16 * 16 + 0 / 4 = 0 := by omega
    rw [decode_cons (value_digit _ (by omega)) (value_digit _ (by omega)) value_pad value_pad,
      hfirst, hsecond, UInt8.ofNat_toNat]
    rfl
  | case3 a b =>
    have ha := a.toNat_lt
    have hb := b.toNat_lt
    have hfirst : a.toNat / 4 * 4 + (a.toNat % 4 * 16 + b.toNat / 16) / 16 = a.toNat := by omega
    have hsecond : (a.toNat % 4 * 16 + b.toNat / 16) % 16 * 16 + b.toNat % 16 * 4 / 4 =
        b.toNat := by omega
    have hthird : b.toNat % 16 * 4 % 4 * 64 + 0 = 0 := by omega
    rw [decode_cons (value_digit _ (by omega)) (value_digit _ (by omega))
      (value_digit _ (by omega)) value_pad, hfirst, hsecond, hthird, UInt8.ofNat_toNat,
      UInt8.ofNat_toNat]
    rfl
  | case4 a b c bs ih =>
    have ha := a.toNat_lt
    have hb := b.toNat_lt
    have hc := c.toNat_lt
    have hfirst : a.toNat / 4 * 4 + (a.toNat % 4 * 16 + b.toNat / 16) / 16 = a.toNat := by omega
    have hsecond : (a.toNat % 4 * 16 + b.toNat / 16) % 16 * 16 +
        (b.toNat % 16 * 4 + c.toNat / 64) / 4 = b.toNat := by omega
    have hthird : (b.toNat % 16 * 4 + c.toNat / 64) % 4 * 64 + c.toNat % 64 = c.toNat := by omega
    have hpadding : padding (bs.length + 1 + 1 + 1) = padding bs.length := by
      rw [padding, padding]
      omega
    rw [decode_cons (value_digit _ (by omega)) (value_digit _ (by omega))
      (value_digit _ (by omega)) (value_digit _ (by omega)), ih, hfirst, hsecond, hthird,
      UInt8.ofNat_toNat, UInt8.ofNat_toNat, UInt8.ofNat_toNat]
    simp only [Option.map_some, List.length_cons, hpadding, List.cons_append]

/-! ## Padding

Whoever decodes has to know how many of the bytes at the end were not there. The last two
characters tell, since no byte is encoded as an `=`. -/

section LastTwo

variable (w x y z : UInt8) {cs : List UInt8}

/-- The last two characters are those of the rest. -/
theorem drop_four (h : 2 ≤ cs.length) :
    (w :: x :: y :: z :: cs).drop ((w :: x :: y :: z :: cs).length - 2) =
      cs.drop (cs.length - 2) := by
  have hlen : (w :: x :: y :: z :: cs).length - 2 = [w, x, y, z].length + (cs.length - 2) := by
    simp only [List.length_cons, List.length_nil]
    omega
  rw [hlen]
  exact List.drop_length_add_append _

theorem getLast?_four (h : 2 ≤ cs.length) :
    (w :: x :: y :: z :: cs).getLast? = cs.getLast? :=
  List.getLast?_append_of_ne_nil [w, x, y, z]
    (List.ne_nil_of_length_pos (Nat.zero_lt_of_lt h))

end LastTwo

/-- What the last two characters of a nonempty encoding say of its padding. -/
theorem padding_eq {bs : List UInt8} (hbs : bs ≠ []) :
    padding bs.length =
      if (encode bs).drop ((encode bs).length - 2) = [pad, pad] then 2
      else if (encode bs).getLast? = some pad then 1 else 0 := by
  fun_induction encode bs with
  | case1 => exact absurd rfl hbs
  | case2 a => rfl
  | case3 a b =>
    have hb := b.toNat_lt
    have hthird := digit_ne_pad (b.toNat % 16 * 4) (by omega)
    simp [padding, hthird]
  | case4 a b c bs ih =>
    have hc := c.toNat_lt
    have hlast := digit_ne_pad (c.toNat % 64) (by omega)
    cases bs with
    | nil => simp [encode, padding, hlast]
    | cons d bs =>
      have hlen : 2 ≤ (encode (d :: bs)).length := by
        rw [length_encode, List.length_cons]
        omega
      have hpadding : padding (a :: b :: c :: d :: bs).length = padding (d :: bs).length := by
        simp only [padding, List.length_cons]
        omega
      rw [hpadding, ih (List.cons_ne_nil d bs)]
      rw [drop_four _ _ _ _ hlen, getLast?_four _ _ _ _ hlen]

end Base64
