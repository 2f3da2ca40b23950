import Mathlib.Data.List.TakeDrop
import Mathlib.Data.Nat.Digits.Lemmas

/-!
# Numbers in a byte buffer

Numbers of a fixed width in a buffer, least significant byte first, and the two
halves of a copy: reading `n` elements at an offset, and overwriting those at an
offset. A buffer that is written from front to back holds what was written, in
order.
-/

namespace ByteFields

universe u

/-! ## Numbers

Digits in base 256, least significant first, as Mathlib has them; what is added is the fixed
width. -/

/-- The number that bytes stand for, the least significant first. Any bytes stand for one. -/
def ofBytes (bs : List UInt8) : Nat := Nat.ofDigits 256 (bs.map UInt8.toNat)

/-- A number below `256 ^ n` in `n` bytes. Mathlib's digits stop at the last one that is not
zero; the rest is filled with zeros. -/
def toBytes (n v : Nat) : List UInt8 := (Nat.digitsAppend 256 n v).map UInt8.ofNat

variable {n v : Nat}

theorem toNat_digits (bs : List UInt8) : ∀ x ∈ bs.map UInt8.toNat, x < 256 := by
  intro x hx
  obtain ⟨b, -, rfl⟩ := List.mem_map.mp hx
  exact b.toNat_lt

@[simp] theorem length_toBytes (hv : v < 256 ^ n) : (toBytes n v).length = n := by
  rw [toBytes, List.length_map]
  exact Nat.length_digitsAppend (by decide) n hv

/-- Bytes stand for a number that has as many digits, -/
theorem ofBytes_lt (bs : List UInt8) : ofBytes bs < 256 ^ bs.length := by
  have hlt := Nat.ofDigits_lt_base_pow_length (by decide : 1 < 256) (toNat_digits bs)
  rw [List.length_map] at hlt
  exact hlt

/-- a number comes back from its bytes, -/
theorem ofBytes_toBytes (hv : v < 256 ^ n) : ofBytes (toBytes n v) = v := by
  have hmap : (toBytes n v).map UInt8.toNat = Nat.digitsAppend 256 n v := by
    rw [toBytes, List.map_map]
    conv_rhs => rw [← List.map_id (Nat.digitsAppend 256 n v)]
    apply List.map_congr_left
    intro d hd
    exact UInt8.toNat_ofNat_of_lt' (Nat.lt_of_mem_digitsAppend (by decide) n d hd)
  rw [ofBytes, hmap]
  exact (Nat.setInvOn_digitsAppend_ofDigits (by decide) n).2 hv

/-- and bytes from their number, in the same width. -/
theorem toBytes_ofBytes {bs : List UInt8} (h : bs.length = n) : toBytes n (ofBytes bs) = bs := by
  have hdigits : Nat.digitsAppend 256 n (ofBytes bs) = bs.map UInt8.toNat :=
    (Nat.setInvOn_digitsAppend_ofDigits (by decide) n).1
      ⟨(List.length_map _).trans h, toNat_digits bs⟩
  rw [toBytes, hdigits, List.map_map]
  exact List.map_id'' (fun _ => UInt8.ofNat_toNat) bs

/-- Numbers with the same bytes are the same, as long as they fit. -/
theorem toBytes_inj {w : Nat} (hv : v < 256 ^ n) (hw : w < 256 ^ n)
    (h : toBytes n v = toBytes n w) : v = w := by
  rw [← ofBytes_toBytes hv, h, ofBytes_toBytes hw]

/-! ## Buffers

A copy into a buffer is a splice and a copy out of it is a slice. A frame is written field by
field, each right behind what is written already. -/

variable {α : Type u}

/-- The `n` elements from offset `o` on, or as many as there are. -/
def slice (buf : List α) (o n : Nat) : List α := (buf.drop o).take n

/-- The buffer with `bs` written over the elements from offset `o` on. It is as long as before if
what is written fits. -/
def splice (buf : List α) (o : Nat) (bs : List α) : List α :=
  buf.take o ++ bs ++ buf.drop (o + bs.length)

variable {buf bs pre : List α} {o : Nat}

@[simp] theorem length_slice (h : o + n ≤ buf.length) : (slice buf o n).length = n := by
  rw [slice, List.length_take, List.length_drop]
  omega

/-- What is before an offset, followed by what is read there. -/
theorem take_append_slice (buf : List α) (o n : Nat) :
    buf.take o ++ slice buf o n = buf.take (o + n) := List.take_add.symm

@[simp] theorem length_splice (h : o + bs.length ≤ buf.length) :
    (splice buf o bs).length = buf.length := by
  rw [splice, List.length_append, List.length_append, List.length_take, List.length_drop]
  omega

/-- Writing right after a prefix extends it. A message is written field by field, so this is the
only thing that is needed about its buffer. -/
theorem prefix_splice (h : pre <+: buf) (ho : pre.length = o) (bs : List α) :
    pre ++ bs <+: splice buf o bs := by
  rw [splice, ← ho, ← List.prefix_iff_eq_take.mp h]
  exact List.prefix_append (pre ++ bs) _

end ByteFields
