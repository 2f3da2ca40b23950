import AmrFramework.Base64
import Mathlib.Algebra.Ring.Nat
import Mathlib.Data.List.TakeDrop

/-!
# The transport of a signature

A signature travels as a text. `b64_encode` and `b64_decode` leave the characters to OpenSSL,
which is a parameter here (`Evp`), and do the rest by hand: the sizes of the buffers, and the
zeros that `EVP_DecodeBlock` leaves where the text was padded.

Both pass a length on as an `int`. A text that has fewer than `2 ^ 31` characters comes back
(`b64Decode_encode`), and no longer one does (`b64Decode_encode_ne`).
-/

namespace AmrFramework.Ota

/-- The two functions of OpenSSL: the bytes read and how many of them, to the bytes written and
the number returned. -/
structure Evp : Type where
  /-- `EVP_EncodeBlock` -/
  encodeBlock : List UInt8 → Int32 → List UInt8 × Int32
  /-- `EVP_DecodeBlock` -/
  decodeBlock : List UInt8 → Int32 → List UInt8 × Int32

/-- The bytes that a call reads: none for a negative number. -/
def block (data : List UInt8) (n : Int32) : List UInt8 := data.take n.toNatClampNeg

/-- A number of bytes that are there. -/
def InBounds (data : List UInt8) (n : Int32) : Prop := 0 ≤ n.toInt ∧ n.toInt ≤ data.length

/-- What is documented of them, and what a call here relies on. Nothing is assumed of a call with
a length that does not fit the block. -/
structure Evp.Documented (evp : Evp) : Prop where
  /-- the encoding is written, and a NUL -/
  encode_written : ∀ data n, InBounds data n →
    (evp.encodeBlock data n).1 = Base64.encode (block data n) ++ [0]
  /-- its length without the NUL is returned -/
  encode_returned : ∀ data n, InBounds data n → (Base64.encode (block data n)).length < 2 ^ 31 →
    (evp.encodeBlock data n).2.toInt = (Base64.encode (block data n)).length
  /-- three bytes are written for four characters, and their number is returned -/
  decode_block : ∀ text n bytes, InBounds text n → 0 < n.toInt →
    Base64.decode (block text n) = some bytes →
      evp.decodeBlock text n = (bytes, .ofNat bytes.length)
  /-- never more than these, and less than zero for an error -/
  decode_le : ∀ text n, InBounds text n → 0 < n.toInt →
    (evp.decodeBlock text n).2.toInt ≤ 3 * (n.toInt / 4)

/-- A buffer after bytes were written at its start. -/
def overwrite (buffer bytes : List UInt8) : List UInt8 := bytes ++ buffer.drop bytes.length

/-- `b64_encode`. -/
def b64Encode (evp : Evp) (data : List UInt8) : List UInt8 :=
  let out := List.replicate (4 * ((data.length + 2) / 3) + 1) 0
  let (written, n) := evp.encodeBlock data (.ofNat data.length)
  (overwrite out written).takeD (if 0 < n then n.toNatClampNeg else 0) 0

/-- The padding of a text, which `EVP_DecodeBlock` does not take off. -/
def padOf (input : List UInt8) : Nat :=
  if 2 ≤ input.length ∧ input.drop (input.length - 2) = [Base64.pad, Base64.pad] then 2
  else if input.getLast? = some Base64.pad then 1 else 0

/-- `b64_decode`: `none` is the answer `false`. -/
def b64Decode (evp : Evp) (input : List UInt8) : Option (List UInt8) :=
  if input = [] ∨ input.length % 4 ≠ 0 then none
  else
    let out := List.replicate (3 * input.length / 4 + 1) 0
    let (written, n) := evp.decodeBlock input (.ofNat input.length)
    if n ≤ 0 then none
    else if n.toNatClampNeg < padOf input then none
    else some ((overwrite out written).takeD (n.toNatClampNeg - padOf input) 0)

/-! ## Lengths as `int`

A length that an `int` cannot hold is cut to 32 bits and may come out negative or too small. The
buffers are sized by the true length, so they are large enough in any case. -/

theorem block_length {data : List UInt8} (h : data.length < 2 ^ 31) :
    block data (.ofNat data.length) = data := by
  rw [block, Int32.toNatClampNeg_ofNat_of_lt h, List.take_length]

theorem inBounds_length {data : List UInt8} (h : data.length < 2 ^ 31) :
    InBounds data (.ofNat data.length) := by
  rw [InBounds, Int32.toInt_ofNat_of_lt h]
  omega

theorem resize_overwrite (buffer bytes rest : List UInt8) :
    (overwrite buffer (bytes ++ rest)).takeD bytes.length 0 = bytes := by
  rw [overwrite, List.append_assoc]
  exact List.takeD_left' rfl

variable {evp : Evp} {data : List UInt8}

/-- The buffer of the encoder holds what is written, also when the length was cut. -/
theorem encode_fits (hevp : evp.Documented) {n : Int32} (hn : InBounds data n) :
    (evp.encodeBlock data n).1.length ≤
      (List.replicate (4 * ((data.length + 2) / 3) + 1) (0 : UInt8)).length := by
  have hle : (block data n).length ≤ data.length := List.length_take_le' _ _
  rw [hevp.encode_written _ _ hn, List.length_append, Base64.length_encode, List.length_replicate,
    List.length_singleton]
  omega

/-- So does that of the decoder. -/
theorem decode_fits (hevp : evp.Documented) {input bytes : List UInt8} {n : Int32}
    (hn : InBounds input n) (hpos : 0 < n.toInt)
    (hbytes : Base64.decode (block input n) = some bytes) :
    (evp.decodeBlock input n).1.length ≤
      (List.replicate (3 * input.length / 4 + 1) (0 : UInt8)).length := by
  have hle : (block input n).length ≤ input.length := List.length_take_le' _ _
  have hlen := Base64.length_decode hbytes
  rw [hevp.decode_block _ _ _ hn hpos hbytes, List.length_replicate]
  change bytes.length ≤ _
  omega

/-! ## The round trip

Below the bound the two functions are the encoding and the decoding of `Base64`, with the padding
taken off again. -/

/-- The encoding that an `int` can measure is returned. -/
theorem b64Encode_eq (hevp : evp.Documented) (h : 4 * ((data.length + 2) / 3) < 2 ^ 31) :
    b64Encode evp data = Base64.encode data := by
  have hlt : data.length < 2 ^ 31 := by omega
  have hwritten := hevp.encode_written data _ (inBounds_length hlt)
  have hreturned := hevp.encode_returned data _ (inBounds_length hlt)
  rw [block_length hlt] at hwritten hreturned
  have hsize := hreturned (by rwa [Base64.length_encode])
  rw [b64Encode]
  generalize evp.encodeBlock data (.ofNat data.length) = answer at hwritten hsize ⊢
  obtain ⟨written, n⟩ := answer
  obtain rfl : written = _ := hwritten
  change n.toInt = _ at hsize
  have hlength : (if 0 < n then n.toNatClampNeg else 0) = (Base64.encode data).length := by
    split_ifs with hpos
    · rw [Int32.toNatClampNeg, hsize, Int.toNat_natCast]
    · rw [Int32.lt_iff_toInt_lt, hsize, Int32.toInt_zero] at hpos
      omega
  simp only [hlength]
  exact resize_overwrite _ _ _

/-- What is encoded comes back. -/
theorem b64Decode_encode (hevp : evp.Documented) (hdata : data ≠ [])
    (h : 4 * ((data.length + 2) / 3) < 2 ^ 31) :
    b64Decode evp (b64Encode evp data) = some data := by
  have hpos := List.length_pos_iff.mpr hdata
  have hlen := Base64.length_encode data
  have hlt : (Base64.encode data).length < 2 ^ 31 := hlen ▸ h
  have hdecode := Base64.decode_encode data
  have hbytes := Base64.length_decode hdecode
  rw [List.length_append, List.length_replicate] at hbytes
  have hn : (Int32.ofNat (Base64.encode data).length).toInt = (Base64.encode data).length :=
    Int32.toInt_ofNat_of_lt hlt
  have hanswer := hevp.decode_block (Base64.encode data) (.ofNat (Base64.encode data).length) _
    (inBounds_length hlt) (by omega) ((congrArg Base64.decode (block_length hlt)).trans hdecode)
  rw [List.length_append, List.length_replicate] at hanswer
  have hsize : (Int32.ofNat (data.length + Base64.padding data.length)).toInt =
      (data.length + Base64.padding data.length : Nat) := Int32.toInt_ofNat_of_lt (by omega)
  have haccepted : ¬ (Base64.encode data = [] ∨ (Base64.encode data).length % 4 ≠ 0) := by
    rw [← List.length_eq_zero_iff]
    omega
  have hreturned : ¬ Int32.ofNat (data.length + Base64.padding data.length) ≤ 0 := by
    rw [Int32.le_iff_toInt_le, hsize, Int32.toInt_zero]
    omega
  have hpad : padOf (Base64.encode data) = Base64.padding data.length := by
    have htwo : 2 ≤ (Base64.encode data).length := by omega
    rw [Base64.padding_eq hdata, padOf]
    simp only [htwo, true_and]
  rw [b64Encode_eq hevp h, b64Decode, if_neg haccepted]
  simp only [hanswer, if_neg hreturned, hpad]
  rw [Int32.toNatClampNeg, hsize, Int.toNat_natCast, if_neg (by omega), Nat.add_sub_cancel]
  exact congrArg some (resize_overwrite _ _ _)

/-- What is decoded is never longer than three bytes for four characters. -/
theorem length_b64Decode (hevp : evp.Documented) {input bytes : List UInt8}
    (hlt : input.length < 2 ^ 31) (h : b64Decode evp input = some bytes) :
    bytes.length ≤ 3 * (input.length / 4) := by
  rw [b64Decode] at h
  by_cases hinput : input = [] ∨ input.length % 4 ≠ 0
  · rw [if_pos hinput] at h
    cases h
  rw [if_neg hinput] at h
  have hn : (Int32.ofNat input.length).toInt = input.length := Int32.toInt_ofNat_of_lt hlt
  have hpos : 0 < input.length := List.length_pos_iff.mpr fun hnil => hinput (.inl hnil)
  have hle := hevp.decode_le input (.ofNat input.length) (inBounds_length hlt) (by omega)
  rw [hn] at hle
  generalize evp.decodeBlock input (.ofNat input.length) = answer at hle h
  obtain ⟨written, n⟩ := answer
  change n.toInt ≤ _ at hle
  simp only at h
  split_ifs at h
  obtain rfl := Option.some.inj h
  rw [List.takeD_length, Int32.toNatClampNeg]
  omega

/-- What is too long to be measured does not come back, whatever is written and returned for it.
Either nothing is returned or a text that decodes to something shorter. -/
theorem b64Decode_encode_ne (hevp : evp.Documented) (h : 2 ^ 31 ≤ 4 * ((data.length + 2) / 3)) :
    b64Decode evp (b64Encode evp data) ≠ some data := by
  intro hback
  have hlt : (b64Encode evp data).length < 2 ^ 31 := by
    rw [b64Encode]
    generalize evp.encodeBlock data (.ofNat data.length) = answer
    obtain ⟨written, n⟩ := answer
    have hint := n.toInt_lt
    simp only [List.takeD_length, Int32.toNatClampNeg]
    split_ifs <;> omega
  have hle := length_b64Decode hevp hlt hback
  omega

/-- **The transport of signatures**, for every byte string: what was encoded comes back exactly
when an `int` holds the length of its text. No text is accepted that is empty, or not in groups
of four. -/
theorem signature_transport (evp : Evp) (hevp : evp.Documented) :
    (∀ data, data ≠ [] →
      (b64Decode evp (b64Encode evp data) = some data ↔ 4 * ((data.length + 2) / 3) < 2 ^ 31)) ∧
      ∀ input : List UInt8, input.length = 0 ∨ ¬ 4 ∣ input.length → b64Decode evp input = none := by
  refine ⟨fun data hdata => ⟨fun hback => ?_, b64Decode_encode hevp hdata⟩, fun input hinput => ?_⟩
  · by_contra hlong
    exact b64Decode_encode_ne hevp (Nat.not_lt.mp hlong) hback
  · rw [b64Decode, if_pos]
    rwa [List.length_eq_zero_iff, Nat.dvd_iff_mod_eq_zero] at hinput

/-- The functions on texts without white space. -/
def openssl : Evp where
  encodeBlock data n :=
    (Base64.encode (block data n) ++ [0], .ofNat (Base64.encode (block data n)).length)
  decodeBlock text n :=
    match Base64.decode (block text n) with
    | some bytes => (bytes, .ofNat bytes.length)
    | none => ([], -1)

theorem documented_openssl : openssl.Documented where
  encode_written _ _ _ := rfl
  encode_returned _ _ _ h := Int32.toInt_ofNat_of_lt h
  decode_block text n bytes _ _ h := by simp only [openssl, h]
  decode_le text n _ hn := by
    have hint := n.toInt_lt
    have hblock : (block text n).length ≤ n.toNatClampNeg := List.length_take_le _ _
    rw [Int32.toNatClampNeg] at hblock
    simp only [openssl]
    cases hbytes : Base64.decode (block text n) with
    | none =>
      change (-1 : Int) ≤ _
      omega
    | some bytes =>
      have hlen := Base64.length_decode hbytes
      have hsize : (Int32.ofNat bytes.length).toInt = bytes.length :=
        Int32.toInt_ofNat_of_lt (by omega)
      simp only [hsize]
      omega

/-- Two bytes, the last one zero. -/
theorem signature_transport_openssl :
    (b64Decode openssl (b64Encode openssl [7, 0]) = some [7, 0] ↔ 4 * ((2 + 2) / 3) < 2 ^ 31) ∧
      b64Decode openssl [65, 65, 65] = none :=
  ⟨(signature_transport openssl documented_openssl).1 [7, 0] (by decide),
    (signature_transport openssl documented_openssl).2 [65, 65, 65] (by decide)⟩

/-- Of `2 ^ 31` bytes nothing is encoded. -/
theorem long_signature_lost :
    ∃ evp : Evp, evp.Documented ∧ List.replicate (2 ^ 31) (0 : UInt8) ≠ [] ∧
      b64Decode evp (b64Encode evp (List.replicate (2 ^ 31) 0)) ≠
        some (List.replicate (2 ^ 31) 0) := by
  refine ⟨openssl, documented_openssl, ?_, b64Decode_encode_ne documented_openssl ?_⟩
  · rw [Ne, List.replicate_eq_nil_iff]
    exact Nat.ne_of_gt (Nat.two_pow_pos 31)
  · rw [List.length_replicate]
    omega

end AmrFramework.Ota
