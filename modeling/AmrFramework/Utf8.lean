import Mathlib.Data.List.Basic

/-!
# Texts as bytes

The encoding of a list of characters, byte by byte. A character below 128 is one byte, and no
other character has a byte below 128 in it, so that such a byte ends the same text in the bytes
as its character does in the characters (`takeWhile_utf8`). A text has one decoding (`utf8_inj`).
-/

namespace Utf8

/-- The bytes of a text. -/
def utf8 (cs : List Char) : List UInt8 := cs.flatMap String.utf8EncodeChar

@[simp] theorem utf8_nil : utf8 [] = [] := rfl

@[simp] theorem utf8_cons (c : Char) (cs : List Char) :
    utf8 (c :: cs) = String.utf8EncodeChar c ++ utf8 cs := rfl

@[simp] theorem utf8_append (cs ds : List Char) : utf8 (cs ++ ds) = utf8 cs ++ utf8 ds :=
  List.flatMap_append

theorem utf8_inj {cs ds : List Char} (h : utf8 cs = utf8 ds) : cs = ds := by
  refine String.ofList_injective (String.toByteArray_inj.mp ?_)
  exact congrArg List.toByteArray h

/-- A character of one byte. -/
def Ascii (c : Char) : Prop := c.toNat < 128

instance : DecidablePred Ascii := fun _ => inferInstanceAs (Decidable (_ < _))

theorem encode_ascii {c : Char} (h : Ascii c) :
    String.utf8EncodeChar c = [UInt8.ofNat c.toNat] := by
  rw [String.utf8EncodeChar]
  exact if_pos (Nat.le_of_lt_succ h)

/-- A byte below 128 is the whole of its character. -/
theorem encode_of_mem {c : Char} {b : UInt8} (hb : b.toNat < 128)
    (hmem : b ∈ String.utf8EncodeChar c) : c.toNat = b.toNat ∧ String.utf8EncodeChar c = [b] := by
  by_cases hc : Ascii c
  · rw [encode_ascii hc, List.mem_singleton] at hmem
    subst hmem
    exact ⟨(Nat.mod_eq_of_lt (Nat.lt_trans hc (by decide))).symm, encode_ascii hc⟩
  · -- every other byte has its highest bit set
    exfalso
    rw [Ascii, Nat.not_lt] at hc
    simp only [String.utf8EncodeChar] at hmem
    change 128 ≤ c.val.toNat at hc
    rw [if_neg (by omega)] at hmem
    split at hmem
    · simp only [List.mem_cons, List.not_mem_nil, or_false] at hmem
      obtain rfl | rfl := hmem <;> simp only [UInt8.toNat_ofNat'] at hb <;> omega
    · split at hmem
      · simp only [List.mem_cons, List.not_mem_nil, or_false] at hmem
        obtain rfl | rfl | rfl := hmem <;> simp only [UInt8.toNat_ofNat'] at hb <;> omega
      · simp only [List.mem_cons, List.not_mem_nil, or_false] at hmem
        obtain rfl | rfl | rfl | rfl := hmem <;> simp only [UInt8.toNat_ofNat'] at hb <;> omega

/-- The bytes up to a byte below 128 are those of the characters up to the same one. By induction
on the text: a character that is not it has none of its bytes below 128, or is another one of
them. -/
theorem takeWhile_utf8 {d : Char} {b : UInt8} (hb : b.toNat < 128) (hd : d.toNat = b.toNat)
    (cs : List Char) : (utf8 cs).takeWhile (· ≠ b) = utf8 (cs.takeWhile (· ≠ d)) := by
  induction cs with
  | nil => rfl
  | cons c cs ih =>
    by_cases hc : c = d
    · subst hc
      have hascii : Ascii c := by
        rw [Ascii, hd]
        exact hb
      have hbyte : UInt8.ofNat c.toNat = b := by
        rw [hd]
        exact UInt8.ofNat_toNat
      simp [encode_ascii hascii, hbyte]
    · have hnot : b ∉ String.utf8EncodeChar c := by
        intro hmem
        exact hc (Char.toNat_inj.mp ((encode_of_mem hb hmem).1.trans hd.symm))
      rw [utf8_cons, List.takeWhile_append_of_pos, ih, List.takeWhile_cons_of_pos, utf8_cons]
      · exact decide_eq_true hc
      · intro x hx
        exact decide_eq_true fun hxb => hnot (hxb ▸ hx)

/-- Which bytes below 128 there are in a text. -/
theorem mem_utf8 {b : UInt8} (hb : b.toNat < 128) {cs : List Char} (h : b ∈ utf8 cs) :
    ∃ c ∈ cs, c.toNat = b.toNat := by
  obtain ⟨c, hc, hmem⟩ := List.mem_flatMap.mp h
  exact ⟨c, hc, (encode_of_mem hb hmem).1⟩

theorem length_utf8 {cs : List Char} (h : ∀ c ∈ cs, Ascii c) : (utf8 cs).length = cs.length := by
  induction cs with
  | nil => rfl
  | cons c cs ih =>
    obtain ⟨hc, hcs⟩ := List.forall_mem_cons.mp h
    rw [utf8_cons, encode_ascii hc, List.length_append, ih hcs, List.length_singleton,
      List.length_cons, Nat.add_comm]

end Utf8
