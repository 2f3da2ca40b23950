import Mathlib.Data.List.Basic
import Mathlib.Order.Nat

/-!
# Maximal runs

Where the entries of a list of booleans are `true`: `Block` is some of them in a row,
`MaximalRun` all of them between two that are not. Every block lies in one maximal run
(`exists_maximalRun`), and two maximal runs that meet are the same (`MaximalRun.unique`).
On a circle, whose last entry is next to its first, a block can also go over the seam
(`circular_iff`).

Both ways to find the runs of a list, from the left with a counter and by looking at an entry and
its neighbours, are compared with this one notion.
-/

namespace MaximalRuns

/-- The `count` entries from `start` on are `true`. -/
def Block (bs : List Bool) (start count : Nat) : Prop := ∀ j < count, bs[start + j]? = some true

/-- The same, where the list is a circle. -/
def CircularBlock (bs : List Bool) (start count : Nat) : Prop :=
  ∀ j < count, bs[(start + j) % bs.length]? = some true

/-- A block that cannot be extended: it begins at the start or after a `false`, and no `true`
follows it. -/
structure MaximalRun (bs : List Bool) (start count : Nat) : Prop where
  pos : 0 < count
  block : Block bs start count
  left : ∀ i, i + 1 = start → bs[i]? = some false
  right : bs[start + count]? ≠ some true

variable {bs : List Bool} {s c : Nat}

instance (bs : List Bool) (start count : Nat) : Decidable (Block bs start count) :=
  inferInstanceAs (Decidable (∀ j < count, _))

instance (bs : List Bool) (start count : Nat) : Decidable (CircularBlock bs start count) :=
  inferInstanceAs (Decidable (∀ j < count, _))

/-- An entry that is `true` is there. -/
theorem lt_length_of_true {i : Nat} (h : bs[i]? = some true) : i < bs.length :=
  (List.getElem?_eq_some_iff.mp h).1

/-- Lists of the same length are the same when the same entries are `true`. -/
theorem ext_true {bs' : List Bool} (hlen : bs.length = bs'.length)
    (h : ∀ i < bs.length, bs[i]? = some true ↔ bs'[i]? = some true) : bs = bs' := by
  refine List.ext_getElem hlen fun i hi hi' => Bool.eq_iff_iff.mpr ?_
  have hiff := h i hi
  rwa [List.getElem?_eq_getElem hi, List.getElem?_eq_getElem hi', Option.some.injEq,
    Option.some.injEq] at hiff

/-- An entry of a block, -/
theorem Block.get (h : Block bs s c) {i : Nat} (hs : s ≤ i) (hi : i < s + c) :
    bs[i]? = some true := by
  have hj := h (i - s) (by omega)
  rwa [Nat.add_sub_of_le hs] at hj

/-- which ends within the list, -/
theorem Block.le_length (h : Block bs s c) (hc : 0 < c) : s + c ≤ bs.length := by
  have hlast := lt_length_of_true (h.get (i := s + c - 1) (by omega) (by omega))
  omega

/-- and whose parts are blocks. -/
theorem Block.mono {s' c' : Nat} (h : Block bs s c) (hs : s ≤ s') (hc : s' + c' ≤ s + c) :
    Block bs s' c' := by
  intro j hj
  exact h.get (by omega) (by omega)

/-- A block is one that is shorter, and one more entry. -/
theorem block_succ : Block bs s (c + 1) ↔ Block bs s c ∧ bs[s + c]? = some true := by
  rw [Block, Nat.forall_lt_succ_right]
  rfl

theorem MaximalRun.le_length (h : MaximalRun bs s c) : s + c ≤ bs.length := h.block.le_length h.pos

/-- A block that meets a maximal run lies in it. -/
theorem MaximalRun.block_le (h : MaximalRun bs s c) {s' c' i : Nat} (hblock : Block bs s' c')
    (hs : s ≤ i) (hi : i < s + c) (hs' : s' ≤ i) (hi' : i < s' + c') :
    s ≤ s' ∧ s' + c' ≤ s + c := by
  constructor
  · by_contra hlt
    have hbefore := h.left (s - 1) (by omega)
    rw [hblock.get (by omega) (by omega)] at hbefore
    cases hbefore
  · by_contra hlt
    exact h.right (hblock.get (by omega) (by omega))

/-- Two maximal runs that meet are the same. -/
theorem MaximalRun.unique (h : MaximalRun bs s c) {s' c' i : Nat} (h' : MaximalRun bs s' c')
    (hs : s ≤ i) (hi : i < s + c) (hs' : s' ≤ i) (hi' : i < s' + c') : s = s' ∧ c = c' := by
  have hle := h.block_le h'.block hs hi hs' hi'
  have hge := h'.block_le h.block hs' hi' hs hi
  omega

/-- Between two maximal runs there is an entry that is not `true`. -/
theorem MaximalRun.separated (h : MaximalRun bs s c) {s' c' : Nat} (h' : MaximalRun bs s' c') :
    (s = s' ∧ c = c') ∨ s + c < s' ∨ s' + c' < s := by
  have hpos := h.pos
  have hpos' := h'.pos
  by_cases hmeet : s < s' + c' ∧ s' < s + c
  · obtain ⟨hlt, hlt'⟩ := hmeet
    obtain hle | hle := Nat.le_total s s'
    · exact .inl (h.unique h' hle hlt' le_rfl (by omega))
    · exact .inl (h.unique h' le_rfl (by omega) hle hlt)
  · -- they are not next to each other, either
    have hne : s + c ≠ s' := fun heq => h.right (heq ▸ h'.block.get le_rfl (by omega))
    have hne' : s' + c' ≠ s := fun heq => h'.right (heq ▸ h.block.get le_rfl (by omega))
    omega

/-- A block that ends where no entry is `true` can be extended to the left as far as it goes. -/
theorem exists_left_end (h : Block bs s c) (hc : 0 < c) (hright : bs[s + c]? ≠ some true) :
    ∃ s' c', MaximalRun bs s' c' ∧ s' ≤ s ∧ s' + c' = s + c := by
  induction s generalizing c with
  | zero => exact ⟨0, c, ⟨hc, h, fun i hi => absurd hi (Nat.succ_ne_zero i), hright⟩, le_rfl, rfl⟩
  | succ s ih =>
    have hlt : s < bs.length := by
      have hlen := h.le_length hc
      omega
    cases hbit : bs[s] with
    | false =>
      refine ⟨s + 1, c, ⟨hc, h, fun i hi => ?_, hright⟩, le_rfl, rfl⟩
      obtain rfl := Nat.succ.inj hi
      rw [List.getElem?_eq_getElem hlt, hbit]
    | true =>
      have hextended : Block bs s (c + 1) := by
        rintro (_ | j) hj
        · rw [Nat.add_zero, List.getElem?_eq_getElem hlt, hbit]
        · exact h.get (by omega) (by omega)
      have hend : s + (c + 1) = s + 1 + c := by omega
      obtain ⟨s', c', hrun, hle, heq⟩ :=
        ih hextended (Nat.succ_pos c) (by rwa [hend])
      exact ⟨s', c', hrun, hle.trans (Nat.le_succ s), heq.trans hend⟩

/-- Every block lies in a maximal run. -/
theorem exists_maximalRun (h : Block bs s c) (hc : 0 < c) :
    ∃ s' c', MaximalRun bs s' c' ∧ s' ≤ s ∧ s + c ≤ s' + c' := by
  have hlen := h.le_length hc
  -- to the right first, by induction on what is left there
  induction hn : bs.length - (s + c) generalizing c with
  | zero =>
    have hright : bs[s + c]? ≠ some true := by
      intro htrue
      have hlt := lt_length_of_true htrue
      omega
    obtain ⟨s', c', hrun, hle, heq⟩ := exists_left_end h hc hright
    exact ⟨s', c', hrun, hle, heq.ge⟩
  | succ n ih =>
    by_cases hright : bs[s + c]? = some true
    · have hlt := lt_length_of_true hright
      obtain ⟨s', c', hrun, hle, hge⟩ :=
        ih (block_succ.mpr ⟨h, hright⟩) (Nat.succ_pos c) (by omega) (by omega)
      exact ⟨s', c', hrun, hle, by omega⟩
    · obtain ⟨s', c', hrun, hle, heq⟩ := exists_left_end h hc hright
      exact ⟨s', c', hrun, hle, heq.ge⟩

/-! ## From the other end

A list that is read backwards has the same blocks, counted from the other side. So what is shown
of a loop from the left is known of the mirror image. -/

theorem Block.reverse (h : Block bs s c) (hlen : s + c ≤ bs.length) :
    Block bs.reverse (bs.length - (s + c)) c := by
  intro j hj
  rw [List.getElem?_reverse (by omega)]
  exact h.get (by omega) (by omega)

theorem MaximalRun.reverse (h : MaximalRun bs s c) :
    MaximalRun bs.reverse (bs.length - (s + c)) c where
  pos := h.pos
  block := h.block.reverse h.le_length
  left := by
    intro i hi
    have hlen := h.le_length
    have hright := h.right
    rw [List.getElem?_reverse (by omega), show bs.length - 1 - i = s + c by omega]
    rw [List.getElem?_eq_getElem (by omega)] at hright ⊢
    exact congrArg some (Bool.eq_false_iff.mpr fun heq => hright (congrArg some heq))
  right := by
    have hlen := h.le_length
    have hpos := h.pos
    obtain rfl | hs := Nat.eq_zero_or_pos s
    · rw [List.getElem?_eq_none (by rw [List.length_reverse]; omega)]
      exact nofun
    · rw [List.getElem?_reverse (by omega),
        show bs.length - 1 - (bs.length - (s + c) + c) = s - 1 by omega,
        h.left (s - 1) (by omega)]
      decide

/-! ## On a circle

The seam is where the list was cut. A block that does not cross it is one of the list; one that
does is made of a block at the end and a block at the beginning. -/

/-- A block on the circle is one of the list, or goes over the seam: the last entries and
the first ones. -/
theorem circular_iff (bs : List Bool) {m : Nat} (hm : 0 < m) (hlen : m ≤ bs.length) :
    (∃ s < bs.length, CircularBlock bs s m) ↔
      (∃ s, Block bs s m) ∨
        ∃ i j, i + j = m ∧ Block bs 0 i ∧ Block bs (bs.length - j) j := by
  constructor
  · rintro ⟨s, hs, hblock⟩
    obtain hle | hlt := Nat.le_total (s + m) bs.length
    · -- the block ends before the seam
      refine .inl ⟨s, fun j hj => ?_⟩
      have hj' := hblock j hj
      rwa [Nat.mod_eq_of_lt (by omega)] at hj'
    · refine .inr ⟨s + m - bs.length, bs.length - s, by omega, fun j hj => ?_, fun j hj => ?_⟩
      · have hj' := hblock (bs.length - s + j) (by omega)
        have hindex : s + (bs.length - s + j) = bs.length + j := by omega
        rwa [hindex, Nat.add_mod_left, Nat.mod_eq_of_lt (by omega), ← Nat.zero_add j] at hj'
      · have hj' := hblock j (by omega)
        rw [Nat.mod_eq_of_lt (by omega)] at hj'
        rwa [show bs.length - (bs.length - s) = s by omega]
  · rintro (⟨s, hblock⟩ | ⟨i, j, rfl, hfirst, hlast⟩)
    · have hle := hblock.le_length hm
      refine ⟨s, by omega, fun j hj => ?_⟩
      rw [Nat.mod_eq_of_lt (by omega)]
      exact hblock j hj
    · obtain rfl | hj := Nat.eq_zero_or_pos j
      · refine ⟨0, by omega, fun k hk => ?_⟩
        rw [Nat.mod_eq_of_lt (by omega)]
        exact hfirst k hk
      · refine ⟨bs.length - j, by omega, fun k hk => ?_⟩
        obtain hkj | hkj := Nat.lt_or_ge k j
        · rw [Nat.mod_eq_of_lt (by omega)]
          exact hlast k hkj
        · have hindex : bs.length - j + k = bs.length + (k - j) := by omega
          rw [hindex, Nat.add_mod_left, Nat.mod_eq_of_lt (by omega)]
          exact hfirst.get (Nat.zero_le _) (by omega)

end MaximalRuns
