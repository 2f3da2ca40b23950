import Mathlib
import AmrFramework.OtaAgentSafety
import AmrFramework.Separators

/-!
# What a signature authorises

A signature is over one text, `image_manifest` or, in the older format, `update_manifest`.
The digest is an arbitrary string, which may contain the tags and separators of the format.
The text is nevertheless read in one way only (`manifests_unambiguous`): the version ends at
the first `;`, and the size begins after the last one, since decimal numbers have none.

A byte of a string is a character here; versions and sizes are unbounded.
-/

namespace AmrFramework.Ota

open Separators

/-- `update_manifest`: the version alone. -/
def updateManifest (version : Int) : String := "amr-ota:v" ++ toString version

/-- There is no separator in a size. -/
theorem semicolon_notMem_nat (n : Nat) : ';' ∉ n.repr.toList := by
  intro h
  rw [Nat.toList_repr] at h
  exact absurd (Nat.isDigit_of_mem_toDigits (by decide) (by decide) h) (by decide)

/-- There is none in a version, which may be negative. -/
theorem semicolon_notMem_int (v : Int) : ';' ∉ v.repr.toList := by
  rw [Int.repr_eq_if]
  split_ifs
  · exact semicolon_notMem_nat _
  · rw [String.toList_append, List.mem_append]
    rintro (hsign | hdigit)
    · simp at hsign
    · exact semicolon_notMem_nat _ hdigit

/-! ## The two formats

The texts as lists of characters, taken apart at the first separator and at the last one. What is
between the two may contain more of them. -/

theorem toList_updateManifest (version : Int) :
    (updateManifest version).toList = "amr-ota:v".toList ++ version.repr.toList := by
  simp [updateManifest]

theorem toList_imageManifest (version : Int) (sha256 : String) (size : Nat) :
    (imageManifest version sha256 size).toList =
      "amr-ota:v".toList ++ (version.repr.toList ++ ';' :: ("sha256=".toList ++
        (sha256.toList ++ ';' :: ("size=".toList ++ size.repr.toList)))) := by
  have hsha : ";sha256=".toList = ';' :: "sha256=".toList := by decide
  have hsize : ";size=".toList = ';' :: "size=".toList := by decide
  simp only [imageManifest, String.toList_append, Int.toString_eq_repr, Nat.toString_eq_repr, hsha,
    hsize, List.append_assoc, List.cons_append]

/-- The version, the digest and the size can be read off the signed text. -/
theorem imageManifest_inj {version version' : Int} {sha256 sha256' : String} {size size' : Nat}
    (h : imageManifest version sha256 size = imageManifest version' sha256' size') :
    version = version' ∧ sha256 = sha256' ∧ size = size' := by
  have hlist := congrArg String.toList h
  rw [toList_imageManifest, toList_imageManifest] at hlist
  -- the version ends at the first separator
  obtain ⟨hversion, hrest⟩ := eq_of_append_sep (semicolon_notMem_int version)
    (semicolon_notMem_int version') (List.append_cancel_left hlist)
  have hnone : ∀ n : Nat, ';' ∉ "size=".toList ++ n.repr.toList := by
    intro n hmem
    rcases List.mem_append.mp hmem with htag | hdigit
    · simp at htag
    · exact semicolon_notMem_nat n hdigit
  -- and the size begins after the last one, whatever the digest is
  obtain ⟨hsha, hsize⟩ := eq_of_sep_append (hnone size) (hnone size')
    (List.append_cancel_left hrest)
  exact ⟨Int.repr_injective (String.toList_inj.mp hversion), String.toList_inj.mp hsha,
    Nat.repr_injective (String.toList_inj.mp (List.append_cancel_left hsize))⟩

/-- The older format has no separator at all. -/
theorem imageManifest_ne_updateManifest (version version' : Int) (sha256 : String) (size : Nat) :
    imageManifest version sha256 size ≠ updateManifest version' := by
  intro h
  have hlist := congrArg String.toList h
  rw [toList_imageManifest, toList_updateManifest] at hlist
  refine semicolon_notMem_int version' ?_
  rw [← List.append_cancel_left hlist]
  exact List.mem_append_right _ List.mem_cons_self

/-! ## The agent

What the signature check is asked for is one text, so what it says about an image rests on what
that text says. -/

/-- The signature is valid for one text at most. -/
def Binding (crypto : Crypto) (signature publicKey : String) : Prop :=
  ∀ text text', crypto.verify text signature publicKey = true →
    crypto.verify text' signature publicKey = true → text = text'

/-- An image that is fetched was signed. -/
theorem verify_of_fetch {crypto : Crypto} {i : PollInput} {publicKey : String} {v : Int}
    (h : fetch crypto i publicKey v = true) :
    ∃ bytes, i.image v = some bytes ∧
      crypto.verify (imageManifest v (crypto.sha256Hex bytes) bytes.length) i.targetSignature
        publicKey = true := by
  rw [fetch] at h
  split at h
  · cases h
  · next bytes himage =>
    split at h
    · cases h
    · exact ⟨bytes, himage, h⟩

/-- **Signed manifests**, for all versions, digests and sizes: the signed text of an image
determines them, and is never that of a version alone. So a signature that is valid for
one text at most lets the agent fetch one image at most, up to its digest and size, and none
when it was made for a version alone. -/
theorem manifests_unambiguous :
    (Function.Injective fun m : Int × String × Nat => imageManifest m.1 m.2.1 m.2.2) ∧
      (∀ version version' sha256 size,
        imageManifest version sha256 size ≠ updateManifest version') ∧
      ∀ crypto publicKey (i : PollInput), Binding crypto i.targetSignature publicKey →
        (∀ (i' : PollInput) v v', i'.targetSignature = i.targetSignature →
          fetch crypto i publicKey v = true → fetch crypto i' publicKey v' = true →
            ∃ bytes bytes', i.image v = some bytes ∧ i'.image v' = some bytes' ∧ v = v' ∧
              crypto.sha256Hex bytes = crypto.sha256Hex bytes' ∧
              bytes.length = bytes'.length) ∧
        ∀ v v', crypto.verify (updateManifest v') i.targetSignature publicKey = true →
          fetch crypto i publicKey v = false := by
  refine ⟨?_, fun _ _ _ _ => imageManifest_ne_updateManifest _ _ _ _, ?_⟩
  · rintro ⟨version, sha256, size⟩ ⟨version', sha256', size'⟩ h
    obtain ⟨rfl, rfl, rfl⟩ := imageManifest_inj h
    rfl
  · intro crypto publicKey i hbinding
    refine ⟨fun i' v v' hsignature hfetch hfetch' => ?_, fun v v' hupdate => ?_⟩
    · obtain ⟨bytes, himage, hverify⟩ := verify_of_fetch hfetch
      obtain ⟨bytes', himage', hverify'⟩ := verify_of_fetch hfetch'
      rw [hsignature] at hverify'
      exact ⟨bytes, bytes', himage, himage', imageManifest_inj (hbinding _ _ hverify hverify')⟩
    · by_contra hfetch
      obtain ⟨bytes, -, hverify⟩ := verify_of_fetch (Bool.eq_true_of_not_eq_false hfetch)
      exact imageManifest_ne_updateManifest _ _ _ _ (hbinding _ _ hverify hupdate)

/-- A vendor who has signed an image of version 12 and, in the older format, the
version 12 alone. -/
def twoFormatCrypto : Crypto where
  sha256Hex := fun _ => "620bfdaa346b088fb49998d92f19a7eaf6bfc2fb0aee015753966da1028cb731"
  verify := fun text signature _ =>
    if signature = "c2ln" then
      text = imageManifest 12 "620bfdaa346b088fb49998d92f19a7eaf6bfc2fb0aee015753966da1028cb731" 1
    else signature = "b2xk" ∧ text = updateManifest 12

theorem binding_twoFormatCrypto (signature publicKey : String) :
    Binding twoFormatCrypto signature publicKey := by
  intro text text' h h'
  rw [twoFormatCrypto] at h h'
  dsimp only at h h'
  split_ifs at h h'
  · exact (of_decide_eq_true h).trans (of_decide_eq_true h').symm
  · exact (of_decide_eq_true h).2.trans (of_decide_eq_true h').2.symm

/-- The signed image is fetched. Its signature is good for no other version, and the
signature over the version alone fetches nothing. -/
theorem manifests_unambiguous_twoFormats :
    fetch twoFormatCrypto (quietTick 12 "ok") "key" 12 = true ∧
      (∀ v, fetch twoFormatCrypto (quietTick 12 "ok") "key" v = true → 12 = v) ∧
      ∀ v, fetch twoFormatCrypto { quietTick 12 "ok" with targetSignature := "b2xk" } "key" v =
        false := by
  have hsigned : fetch twoFormatCrypto (quietTick 12 "ok") "key" 12 = true := by decide +kernel
  refine ⟨hsigned, fun v hv => ?_, fun v => ?_⟩
  · obtain ⟨-, -, -, -, hversion, -, -⟩ := (manifests_unambiguous.2.2 twoFormatCrypto "key"
      (quietTick 12 "ok") (binding_twoFormatCrypto _ _)).1 (quietTick 12 "ok") 12 v rfl hsigned hv
    exact hversion
  · exact (manifests_unambiguous.2.2 twoFormatCrypto "key"
      { quietTick 12 "ok" with targetSignature := "b2xk" } (binding_twoFormatCrypto _ _)).2 v 12
      (by decide +kernel)

end AmrFramework.Ota
