import AmrFramework.ByteFields

/-!
# The header on the wire

A request and a reply of the lightweight RPC start with a header of 32 bytes. The
encoder and the decoder each place its fields by offsets of their own, and no
table ties the two. `headerBytes` is that table: the encoder writes it, whatever
was in the buffer, and what the decoder accepts starts with it.
-/

namespace AmrFramework.Rpc

open ByteFields

/-- An error code; any byte of a reply is cast to one. -/
structure Status : Type where
  code : UInt8
deriving DecidableEq, Repr

namespace Status

def ok : Status := ⟨0⟩
def timeout : Status := ⟨1⟩
def noRoute : Status := ⟨2⟩
def serverError : Status := ⟨3⟩
def overloaded : Status := ⟨4⟩
def badRequest : Status := ⟨5⟩

end Status

def kMagic : UInt16 := 0x4152

/-- The fields of the header. -/
structure Header : Type where
  magic : UInt16 := kMagic
  clientId : UInt16 := 0
  sequence : UInt64 := 0
  idemKey : UInt64 := 0
  deadlineNs : Int64 := 0
  status : UInt8 := Status.ok.code
  reserved : UInt8 := 0
  payloadLen : UInt16 := 0
deriving DecidableEq, Repr

def kHeaderSize : Nat := 32

/-! ## The two directions

The encoder and the decoder as they stand in the source, each with its own offsets. -/

def bytes16 (v : UInt16) : List UInt8 := toBytes 2 v.toNat
def bytes64 (v : UInt64) : List UInt8 := toBytes 8 v.toNat

def put16 (buf : List UInt8) (o : Nat) (v : UInt16) : List UInt8 := splice buf o (bytes16 v)
def put64 (buf : List UInt8) (o : Nat) (v : UInt64) : List UInt8 := splice buf o (bytes64 v)

/-- `encode_header`: the buffer is cut to the size of the message, or filled up
with zeros to it, and the fields are written at the front. -/
def encodeHeader (buf : List UInt8) (h : Header) : List UInt8 :=
  let buf := buf.takeD (kHeaderSize + h.payloadLen.toNat) 0
  let buf := put16 buf 0 h.magic
  let buf := put16 buf 2 h.clientId
  let buf := put64 buf 4 h.sequence
  let buf := put64 buf 12 h.idemKey
  let buf := put64 buf 20 h.deadlineNs.toUInt64
  let buf := splice buf 28 [h.status]
  let buf := splice buf 29 [h.reserved]
  put16 buf 30 h.payloadLen

def get16 (data : List UInt8) (o : Nat) : UInt16 := UInt16.ofNat (ofBytes (slice data o 2))
def get64 (data : List UInt8) (o : Nat) : UInt64 := UInt64.ofNat (ofBytes (slice data o 8))

/-- The fields as `decode_header` reads them. -/
def readFields (data : List UInt8) : Header where
  magic := get16 data 0
  clientId := get16 data 2
  sequence := get64 data 4
  idemKey := get64 data 12
  deadlineNs := (get64 data 20).toInt64
  status := data.getD 28 0
  reserved := data.getD 29 0
  payloadLen := get16 data 30

/-- `decode_header`: nothing for a message that is short or not marked as one. -/
def decodeHeader (data : List UInt8) : Option Header :=
  if data.length < kHeaderSize then none
  else
    let h := readFields data
    if h.magic ≠ kMagic then none
    else if data.length < kHeaderSize + h.payloadLen.toNat then none
    else some h

/-! ## The table of fields

What both are compared with: the bytes of a header, field by field in the order of the wire. -/

/-- The fields in the order in which they are on the wire. -/
def headerBytes (h : Header) : List UInt8 :=
  bytes16 h.magic ++ bytes16 h.clientId ++ bytes64 h.sequence ++ bytes64 h.idemKey ++
    bytes64 h.deadlineNs.toUInt64 ++ [h.status] ++ [h.reserved] ++ bytes16 h.payloadLen

theorem toNat_lt_16 (v : UInt16) : v.toNat < 256 ^ 2 := v.toNat_lt

theorem toNat_lt_64 (v : UInt64) : v.toNat < 256 ^ 8 := v.toNat_lt

@[simp] theorem length_bytes16 (v : UInt16) : (bytes16 v).length = 2 :=
  length_toBytes (toNat_lt_16 v)

@[simp] theorem length_bytes64 (v : UInt64) : (bytes64 v).length = 8 :=
  length_toBytes (toNat_lt_64 v)

theorem bytes16_inj {v w : UInt16} (h : bytes16 v = bytes16 w) : v = w :=
  UInt16.toNat_inj.mp (toBytes_inj (toNat_lt_16 v) (toNat_lt_16 w) h)

theorem bytes64_inj {v w : UInt64} (h : bytes64 v = bytes64 w) : v = w :=
  UInt64.toNat_inj.mp (toBytes_inj (toNat_lt_64 v) (toNat_lt_64 w) h)

@[simp] theorem length_headerBytes (h : Header) : (headerBytes h).length = kHeaderSize := by
  simp [headerBytes, kHeaderSize]

/-- No two headers have the same bytes: every field has its own place. -/
theorem headerBytes_inj {h h' : Header} (heq : headerBytes h = headerBytes h') : h = h' := by
  simp only [headerBytes] at heq
  obtain ⟨heq, hpayloadLen⟩ := List.append_inj' heq (by simp)
  obtain ⟨heq, hreserved⟩ := List.append_inj' heq rfl
  obtain ⟨heq, hstatus⟩ := List.append_inj' heq rfl
  obtain ⟨heq, hdeadlineNs⟩ := List.append_inj' heq (by simp)
  obtain ⟨heq, hidemKey⟩ := List.append_inj' heq (by simp)
  obtain ⟨heq, hsequence⟩ := List.append_inj' heq (by simp)
  obtain ⟨hmagic, hclientId⟩ := List.append_inj' heq (by simp)
  have hdeadline := congrArg UInt64.toInt64 (bytes64_inj hdeadlineNs)
  rw [Int64.toInt64_toUInt64, Int64.toInt64_toUInt64] at hdeadline
  cases h
  cases h'
  simp only [Header.mk.injEq]
  exact ⟨bytes16_inj hmagic, bytes16_inj hclientId, bytes64_inj hsequence, bytes64_inj hidemKey,
    hdeadline, List.singleton_inj.mp hstatus, List.singleton_inj.mp hreserved,
    bytes16_inj hpayloadLen⟩

/-! ## Encoding

Every field is written right behind the one before it, so what is written so far is a prefix of
the buffer, and the bytes behind it do not matter. -/

/-- What is written to a buffer from the front. -/
structure Written (buf : List UInt8) (size : Nat) (bs : List UInt8) : Prop where
  length_eq : buf.length = size
  isPrefix : bs <+: buf

variable {buf pre : List UInt8} {size o : Nat}

/-- The next field is written right after those before. -/
theorem Written.splice (h : Written buf size pre) (bs : List UInt8) (ho : pre.length = o)
    (hfit : o + bs.length ≤ size) : Written (splice buf o bs) size (pre ++ bs) :=
  ⟨(length_splice (h.length_eq ▸ hfit)).trans h.length_eq, prefix_splice h.isPrefix ho bs⟩

/-- The buffer starts with the fields in the order of the table. -/
theorem encodeHeader_written (buf : List UInt8) (h : Header) :
    Written (encodeHeader buf h) (kHeaderSize + h.payloadLen.toNat) (headerBytes h) := by
  have hsize : 32 ≤ kHeaderSize + h.payloadLen.toNat := Nat.le_add_right 32 _
  have hstart : Written (buf.takeD (kHeaderSize + h.payloadLen.toNat) 0)
      (kHeaderSize + h.payloadLen.toNat) [] := ⟨List.takeD_length .., List.nil_prefix⟩
  have hmagic := hstart.splice (bytes16 h.magic) rfl (by simp; omega)
  have hclientId := hmagic.splice (bytes16 h.clientId) (o := 2) (by simp) (by simp; omega)
  have hsequence := hclientId.splice (bytes64 h.sequence) (o := 4) (by simp) (by simp; omega)
  have hidemKey := hsequence.splice (bytes64 h.idemKey) (o := 12) (by simp) (by simp; omega)
  have hdeadlineNs := hidemKey.splice (bytes64 h.deadlineNs.toUInt64) (o := 20)
    (by simp) (by simp; omega)
  have hstatus := hdeadlineNs.splice [h.status] (o := 28) (by simp) (by simp; omega)
  have hreserved := hstatus.splice [h.reserved] (o := 29) (by simp) (by simp; omega)
  exact hreserved.splice (bytes16 h.payloadLen) (by simp) (by simp; omega)

theorem take_encodeHeader (buf : List UInt8) (h : Header) :
    (encodeHeader buf h).take kHeaderSize = headerBytes h := by
  have hprefix := List.prefix_iff_eq_take.mp (encodeHeader_written buf h).isPrefix
  rw [length_headerBytes] at hprefix
  exact hprefix.symm

/-! ## Decoding

Reading a field at its offset is taking a slice of the bytes, and the slices follow one another
without a gap. So reading all fields and writing them down again gives the same bytes. -/

theorem bytes16_get16 (data : List UInt8) (h : o + 2 ≤ data.length) :
    bytes16 (get16 data o) = slice data o 2 := by
  have hlength : (slice data o 2).length = 2 := length_slice h
  have hlt := ofBytes_lt (slice data o 2)
  rw [hlength] at hlt
  rw [bytes16, get16, UInt16.toNat_ofNat_of_lt' hlt]
  exact toBytes_ofBytes hlength

theorem bytes64_get64 (data : List UInt8) (h : o + 8 ≤ data.length) :
    bytes64 (get64 data o) = slice data o 8 := by
  have hlength : (slice data o 8).length = 8 := length_slice h
  have hlt := ofBytes_lt (slice data o 8)
  rw [hlength] at hlt
  rw [bytes64, get64, UInt64.toNat_ofNat_of_lt' hlt]
  exact toBytes_ofBytes hlength

theorem singleton_getD (data : List UInt8) (h : o + 1 ≤ data.length) :
    [data.getD o 0] = slice data o 1 := by
  have hlt : o < data.length := h
  rw [slice, List.drop_eq_getElem_cons hlt, List.getD_eq_getElem?_getD,
    List.getElem?_eq_getElem hlt]
  rfl

/-- The fields read are those at the front, by the offsets of the decoder. -/
theorem headerBytes_readFields {data : List UInt8} (h : kHeaderSize ≤ data.length) :
    headerBytes (readFields data) = data.take kHeaderSize := by
  have hsize : 32 ≤ data.length := h
  have hmagic := bytes16_get16 data (o := 0) (by omega)
  have hclientId := bytes16_get16 data (o := 2) (by omega)
  have hsequence := bytes64_get64 data (o := 4) (by omega)
  have hidemKey := bytes64_get64 data (o := 12) (by omega)
  have hdeadlineNs := bytes64_get64 data (o := 20) (by omega)
  have hstatus := singleton_getD data (o := 28) (by omega)
  have hreserved := singleton_getD data (o := 29) (by omega)
  have hpayloadLen := bytes16_get16 data (o := 30) (by omega)
  simp only [headerBytes, readFields, UInt64.toUInt64_toInt64, hmagic, hclientId, hsequence,
    hidemKey, hdeadlineNs, hstatus, hreserved, hpayloadLen]
  have hfirst : slice data 0 2 = data.take 2 := rfl
  rw [hfirst, take_append_slice, take_append_slice, take_append_slice, take_append_slice,
    take_append_slice, take_append_slice, take_append_slice]
  rfl

/-- What `decode_header` checks. -/
theorem decodeHeader_eq_some {data : List UInt8} {h : Header} :
    decodeHeader data = some h ↔
      kHeaderSize ≤ data.length ∧ readFields data = h ∧ h.magic = kMagic ∧
        kHeaderSize + h.payloadLen.toNat ≤ data.length := by
  rw [decodeHeader]
  by_cases hsize : data.length < kHeaderSize
  · rw [if_pos hsize]
    exact ⟨nofun, fun hmust => absurd hsize (Nat.not_lt.mpr hmust.1)⟩
  · rw [if_neg hsize]
    dsimp only
    split
    · exact ⟨nofun, fun ⟨_, heq, hmagic, _⟩ => absurd (heq ▸ hmagic) ‹_›⟩
    · split
      · refine ⟨nofun, fun ⟨_, heq, _, hlong⟩ => ?_⟩
        subst heq
        exact absurd ‹_› (Nat.not_lt.mpr hlong)
      · refine ⟨fun hsome => ?_, fun hmust => congrArg some hmust.2.1⟩
        obtain rfl := Option.some.inj hsome
        exact ⟨Nat.le_of_not_lt hsize, rfl, not_not.mp ‹_›, Nat.le_of_not_lt ‹_›⟩

/-- A header is read back from its bytes, whatever follows them. -/
theorem decodeHeader_headerBytes {h : Header} {rest : List UInt8} (hmagic : h.magic = kMagic)
    (hrest : h.payloadLen.toNat ≤ rest.length) : decodeHeader (headerBytes h ++ rest) = some h := by
  have hlength : (headerBytes h ++ rest).length = kHeaderSize + rest.length := by
    rw [List.length_append, length_headerBytes]
  have hsize : kHeaderSize ≤ (headerBytes h ++ rest).length := by omega
  have hread : readFields (headerBytes h ++ rest) = h := by
    apply headerBytes_inj
    rw [headerBytes_readFields hsize]
    exact List.take_left' (length_headerBytes h)
  exact decodeHeader_eq_some.mpr ⟨hsize, hread, hmagic, by omega⟩

/-- **The codec.** A marked header is read back from an encoded buffer, with its
payload in the room that the encoder left for it or behind that; what is read is
encoded to the bytes it was read from; and nothing is read from exactly those
messages that are short or not marked. -/
theorem header_codec :
    (∀ (buf : List UInt8) (h : Header) (payload : List UInt8), h.magic = kMagic →
      payload.length = h.payloadLen.toNat →
      decodeHeader ((encodeHeader buf h).take kHeaderSize ++ payload) = some h ∧
      decodeHeader (encodeHeader buf h ++ payload) = some h) ∧
    (∀ (data : List UInt8) (h : Header), decodeHeader data = some h →
      ∀ buf, (encodeHeader buf h).take kHeaderSize = data.take kHeaderSize) ∧
    (∀ data : List UInt8, decodeHeader data = none ↔
      data.length < kHeaderSize ∨ get16 data 0 ≠ kMagic ∨
        data.length < kHeaderSize + (get16 data 30).toNat) := by
  refine ⟨fun buf h payload hmagic hlength => ?_, fun data h hdecode buf => ?_, fun data => ?_⟩
  · refine ⟨?_, ?_⟩
    · rw [take_encodeHeader]
      exact decodeHeader_headerBytes hmagic (Nat.le_of_eq hlength.symm)
    · rw [← List.take_append_drop kHeaderSize (encodeHeader buf h), take_encodeHeader,
        List.append_assoc]
      apply decodeHeader_headerBytes hmagic
      rw [List.length_append]
      omega
  · obtain ⟨hsize, rfl, -, -⟩ := decodeHeader_eq_some.mp hdecode
    rw [take_encodeHeader, headerBytes_readFields hsize]
  · rw [Option.eq_none_iff_forall_ne_some]
    refine ⟨fun hnone => ?_, fun hbad h hdecode => ?_⟩
    · by_contra hgood
      simp only [not_or, not_not, Nat.not_lt] at hgood
      exact hnone _ (decodeHeader_eq_some.mpr ⟨hgood.1, rfl, hgood.2.1, hgood.2.2⟩)
    · obtain ⟨hsize, rfl, hmagic, hlong⟩ := decodeHeader_eq_some.mp hdecode
      obtain hshort | hunmarked | hcut := hbad
      · exact absurd hsize (Nat.not_le.mpr hshort)
      · exact hunmarked hmagic
      · exact absurd hlong (Nat.not_le.mpr hcut)

/-- A header of distinct fields, read back with its payload. -/
theorem header_codec_frame :
    decodeHeader (encodeHeader [9, 9] ⟨kMagic, 0x0102, 3, 4, -5, 6, 7, 2⟩ ++ [0xAA, 0xBB]) =
      some ⟨kMagic, 0x0102, 3, 4, -5, 6, 7, 2⟩ :=
  (header_codec.1 [9, 9] ⟨kMagic, 0x0102, 3, 4, -5, 6, 7, 2⟩ [0xAA, 0xBB] rfl rfl).2

end AmrFramework.Rpc
