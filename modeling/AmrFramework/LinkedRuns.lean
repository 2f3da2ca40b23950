import Mathlib.Data.List.Chain
import Mathlib.Data.List.Infix

/-!
# Runs of linked entries

A run of a list is some of its entries in a row, all of them good and each linked to the next
one. The maximal runs are found in one pass that keeps the run which the entries read so far
end with (`Trailing`) and those that have ended before (`Ended`); `Ended.snoc` is one entry
more. At the end of the list the run in progress is the last one (`Ended.finish`).

A pass over a list has to know two things: which runs have ended, and how long the one in
progress is. Both are described here without the pass, so that a loop is verified by showing
which of the four lemmas each of its branches is.
-/

namespace LinkedRuns

universe u

variable {α : Type u}

/-- Some entries in a row: `count` of them, from index `start` on, or as many as there are. -/
def segment (l : List α) (start count : Nat) : List α := (l.drop start).take count

section Runs

variable (good : α → Prop) (link : α → α → Prop)

/-- Good entries, each linked to the next. `good` is any predicate and `link` any relation, and
neither has to be decidable here. -/
structure Run (l : List α) (start count : Nat) : Prop where
  le_length : start + count ≤ l.length
  good : ∀ a ∈ segment l start count, good a
  chain : (segment l start count).IsChain link

/-- A run that cannot be extended: neither of the two runs longer by one is a run. -/
structure MaximalRun (l : List α) (start count : Nat) : Prop where
  pos : 0 < count
  run : Run good link l start count
  left : ∀ i, i + 1 = start → ¬ Run good link l i (count + 1)
  right : ¬ Run good link l start (count + 1)

/-- The list ends with a run of this length, and with no longer one. Zero stands for a last entry
that is not good. -/
structure Trailing (l : List α) (count : Nat) : Prop where
  le_length : count ≤ l.length
  run : Run good link l (l.length - count) count
  left : ∀ i, i + (count + 1) = l.length → ¬ Run good link l i (count + 1)

/-- The maximal runs that ended before the last entry, in order. The run that reaches the last
entry is not among them, since it may still grow. -/
structure Ended (l : List α) (runs : List (Nat × Nat)) : Prop where
  ordered : runs.Pairwise fun r r' => r.1 + r.2 ≤ r'.1
  mem_iff : ∀ r : Nat × Nat, r ∈ runs ↔ MaximalRun good link l r.1 r.2 ∧ r.1 + r.2 < l.length

end Runs

/-! ## Segments

Lemmas about a part of a list, when the list gets longer at its end. -/

variable {l : List α} {a : α} {start count : Nat}

theorem length_segment (h : start + count ≤ l.length) : (segment l start count).length = count := by
  rw [segment, List.length_take, List.length_drop]
  omega

theorem segment_append (h : start + count ≤ l.length) (l' : List α) :
    segment (l ++ l') start count = segment l start count := by
  rw [segment, segment, List.drop_append_of_le_length (by omega),
    List.take_append_of_le_length (by rw [List.length_drop]; omega)]

/-- The last entry is that of the segment. One entry more at the end of the list makes a segment
that ends there longer by one. -/
theorem segment_snoc (h : start + count = l.length) (a : α) :
    segment (l ++ [a]) start (count + 1) = segment l start count ++ [a] := by
  have hlen : (l.drop start).length = count := by
    rw [List.length_drop]
    omega
  rw [segment, segment, List.drop_append_of_le_length (by omega),
    List.take_of_length_le (by rw [List.length_append, hlen, List.length_singleton]),
    List.take_of_length_le hlen.le]

theorem getLast?_segment (h : start + count = l.length) (hpos : 0 < count) :
    (segment l start count).getLast? = l.getLast? := by
  rw [segment, List.take_of_length_le (by rw [List.length_drop]; omega), List.getLast?_drop,
    if_neg (by omega)]

theorem segment_succ (h : start < l.length) (count : Nat) :
    segment l start (count + 1) = l[start] :: segment l (start + 1) count := by
  rw [segment, List.drop_eq_getElem_cons h, List.take_succ_cons, segment]

/-- Part of a segment. -/
theorem segment_isInfix {start' count' : Nat} (hs : start ≤ start')
    (hc : start' + count' ≤ start + count) :
    segment l start' count' <:+: segment l start count := by
  have hsplit : segment l start' count' =
      ((segment l start count).drop (start' - start)).take count' := by
    rw [segment, segment, List.drop_take, List.drop_drop, List.take_take]
    congr 1
    · omega
    · rw [Nat.add_sub_of_le hs]
  rw [hsplit]
  exact (List.take_prefix _ _).isInfix.trans (List.drop_suffix _ _).isInfix

/-! ## Runs

A run does not see what is around it, so it stays one when entries are added behind it. -/

variable {good : α → Prop} {link : α → α → Prop}

theorem Run.mono (h : Run good link l start count) {start' count' : Nat} (hs : start ≤ start')
    (hc : start' + count' ≤ start + count) : Run good link l start' count' where
  le_length := hc.trans h.le_length
  good a ha := h.good a ((segment_isInfix hs hc).subset ha)
  chain := h.chain.infix (segment_isInfix hs hc)

theorem run_append_iff (h : start + count ≤ l.length) (l' : List α) :
    Run good link (l ++ l') start count ↔ Run good link l start count := by
  have hle : start + count ≤ (l ++ l').length := by
    rw [List.length_append]
    omega
  refine ⟨?_, ?_⟩
  · intro hrun
    have hgood := hrun.good
    have hchain := hrun.chain
    rw [segment_append h] at hgood hchain
    exact ⟨h, hgood, hchain⟩
  · intro hrun
    refine ⟨hle, ?_, ?_⟩
    · rw [segment_append h]
      exact hrun.good
    · rw [segment_append h]
      exact hrun.chain

theorem run_zero (h : start ≤ l.length) : Run good link l start 0 where
  le_length := h
  good a ha := by cases ha
  chain := .nil

/-- A run that ends with the last entry: what was there is one, the entry is good, and it is
linked to the one before, if it has one. -/
theorem run_snoc_iff (h : start + count = l.length) :
    Run good link (l ++ [a]) start (count + 1) ↔
      Run good link l start count ∧ good a ∧ (0 < count → ∀ b ∈ l.getLast?, link b a) := by
  have hlast : (∀ b ∈ (segment l start count).getLast?, link b a) ↔
      (0 < count → ∀ b ∈ l.getLast?, link b a) := by
    obtain rfl | hpos := Nat.eq_zero_or_pos count
    · simp [segment]
    · rw [getLast?_segment h hpos]
      exact ⟨fun hlink _ => hlink, fun hlink => hlink hpos⟩
  rw [← hlast]
  have hlen : start + (count + 1) = (l ++ [a]).length := by
    rw [List.length_append, List.length_singleton]
    omega
  refine ⟨?_, ?_⟩
  · intro hrun
    have hgood := hrun.good
    have hchain := hrun.chain
    rw [segment_snoc h] at hgood hchain
    rw [List.isChain_append] at hchain
    exact ⟨⟨h.le, fun b hb => hgood b (List.mem_append_left _ hb), hchain.1⟩,
      hgood a (List.mem_append_right _ (List.mem_singleton_self a)),
      fun b hb => hchain.2.2 b hb a rfl⟩
  · rintro ⟨hrun, ha, hlink⟩
    refine ⟨hlen.le, ?_, ?_⟩
    · rw [segment_snoc h]
      intro b hb
      rcases List.mem_append.mp hb with hb | hb
      · exact hrun.good b hb
      · rwa [List.mem_singleton.mp hb]
    · rw [segment_snoc h, List.isChain_append]
      refine ⟨hrun.chain, .singleton a, fun b hb a' ha' => ?_⟩
      obtain rfl := Option.some.inj ha'
      exact hlink b hb

/-- One entry more in front, which is linked to the first one. The link is given as a run of two,
which is what the neighbour of a maximal run is asked for. -/
theorem Run.cons (h : Run good link l (start + 1) (count + 1)) (htwo : Run good link l start 2) :
    Run good link l start (count + 2) := by
  have hlt : start + 1 < l.length := by
    have hle := htwo.le_length
    omega
  have hgood := htwo.good
  have hchain := htwo.chain
  have hrest := h.chain
  rw [segment_succ (Nat.lt_of_succ_lt hlt), segment_succ hlt] at hgood hchain
  refine ⟨by have hle := h.le_length; omega, fun b hb => ?_, ?_⟩
  · rw [segment_succ (Nat.lt_of_succ_lt hlt)] at hb
    rcases List.mem_cons.mp hb with rfl | hb
    · exact hgood _ List.mem_cons_self
    · exact h.good b hb
  · rw [segment_succ hlt] at hrest
    rw [segment_succ (Nat.lt_of_succ_lt hlt), segment_succ hlt]
    exact .cons_cons (List.isChain_cons_cons.mp hchain).1 hrest

/-! ## The run in progress

The longest run that ends with the list. It is extended, begun again, or stopped by the next
entry. -/

theorem trailing_nil : Trailing good link [] 0 :=
  ⟨le_rfl, run_zero le_rfl, fun _ h => nomatch h⟩

variable {k : Nat}

theorem Trailing.le_of_run (h : Trailing good link l k)
    (hrun : Run good link l start count) (hend : start + count = l.length) : count ≤ k := by
  by_contra hlt
  exact h.left (l.length - (k + 1)) (by omega) (hrun.mono (by omega) (by omega))

/-- The only maximal run that ends with the list. A longer one would have been found, and a
shorter one can be extended to the left. -/
theorem Trailing.eq_of_maximal (h : Trailing good link l k)
    (hmax : MaximalRun good link l start count) (hend : start + count = l.length) : count = k := by
  have hle := h.le_of_run hmax.run hend
  have hk := h.le_length
  by_contra hne
  refine hmax.left (start - 1) (by omega) (h.run.mono (by omega) (by omega))

theorem Trailing.maximal (h : Trailing good link l k) (hpos : 0 < k) :
    MaximalRun good link l (l.length - k) k where
  pos := hpos
  run := h.run
  left i hi := h.left i (by have hk := h.le_length; omega)
  right hrun := by
    have hle := hrun.le_length
    have hk := h.le_length
    omega

/-- The other ones end before it: a run that reached into it could be extended. -/
theorem Trailing.end_le (h : Trailing good link l k) (hmax : MaximalRun good link l start count)
    (hend : start + count < l.length) : start + count ≤ l.length - k := by
  have hk := h.le_length
  have hpos := hmax.pos
  by_contra hlt
  obtain hle | hgt := Nat.lt_or_ge start (l.length - k)
  · -- the run meets the one in progress, which then begins too late
    obtain ⟨i, hi⟩ : ∃ i, i + 1 = l.length - k := ⟨l.length - k - 1, by omega⟩
    obtain ⟨k, rfl⟩ : ∃ k', k = k' + 1 := ⟨k - 1, by omega⟩
    have htwo : Run good link l i 2 := hmax.run.mono (by omega) (by omega)
    exact h.left i (by omega) ((hi ▸ h.run).cons htwo)
  · exact hmax.right (h.run.mono hgt (by omega))

theorem trailing_stop (ha : ¬ good a) : Trailing good link (l ++ [a]) 0 where
  le_length := Nat.zero_le _
  run := run_zero (Nat.sub_le _ _)
  left i hi hrun := by
    rw [List.length_append, List.length_singleton] at hi
    exact ha ((run_snoc_iff (by omega)).mp hrun).2.1

/-- The next entry continues the run in progress, or begins one if there was none. -/
theorem Trailing.extend (h : Trailing good link l k) (ha : good a)
    (hlink : 0 < k → ∀ b ∈ l.getLast?, link b a) :
    Trailing good link (l ++ [a]) (k + 1) where
  le_length := by
    have hk := h.le_length
    rw [List.length_append, List.length_singleton]
    omega
  run := by
    have hk := h.le_length
    have hstart : (l ++ [a]).length - (k + 1) = l.length - k := by
      rw [List.length_append, List.length_singleton]
      omega
    rw [hstart]
    exact (run_snoc_iff (by omega)).mpr ⟨h.run, ha, hlink⟩
  left i hi hrun := by
    rw [List.length_append, List.length_singleton] at hi
    exact h.left i (by omega) ((run_snoc_iff (by omega)).mp hrun).1

/-- The next entry begins a run: it is good, and not linked to the one before. -/
theorem Trailing.restart (h : Trailing good link l k) (ha : good a)
    (hlink : 0 < k → ∃ b ∈ l.getLast?, ¬ link b a) :
    Trailing good link (l ++ [a]) 1 where
  le_length := by
    rw [List.length_append, List.length_singleton]
    omega
  run := by
    rw [List.length_append, List.length_singleton, Nat.add_sub_cancel]
    exact (run_snoc_iff rfl).mpr ⟨run_zero le_rfl, ha, fun hpos => absurd hpos (lt_irrefl 0)⟩
  left i hi hrun := by
    rw [List.length_append, List.length_singleton] at hi
    obtain ⟨hlast, -, hlinked⟩ := (run_snoc_iff (by omega)).mp hrun
    obtain ⟨b, hb, hbroken⟩ := hlink (h.le_of_run hlast (by omega))
    exact hbroken (hlinked Nat.one_pos b hb)

/-! ## The runs that have ended

They are maximal whatever comes next. When the run in progress cannot be continued it becomes one
of them. -/

/-- The run in progress, as a list of one run or none. -/
def current (l : List α) (k : Nat) : List (Nat × Nat) :=
  if 0 < k then [(l.length - k, k)] else []

theorem ended_nil : Ended good link [] [] :=
  ⟨.nil, fun _ => iff_of_false List.not_mem_nil fun h => Nat.not_lt_zero _ h.2⟩

theorem Ended.pairwise_current {runs : List (Nat × Nat)} (h : Ended good link l runs)
    (ht : Trailing good link l k) :
    (runs ++ current l k).Pairwise fun r r' => r.1 + r.2 ≤ r'.1 := by
  rw [current]
  split_ifs with hpos
  · refine List.pairwise_append.mpr ⟨h.ordered, List.pairwise_singleton _ _, fun r hr r' hr' => ?_⟩
    obtain rfl := List.mem_singleton.mp hr'
    obtain ⟨hmax, hend⟩ := (h.mem_iff r).mp hr
    exact ht.end_le hmax hend
  · rw [List.append_nil]
    exact h.ordered

theorem Trailing.mem_current (h : Trailing good link l k) (r : Nat × Nat) :
    r ∈ current l k ↔ MaximalRun good link l r.1 r.2 ∧ r.1 + r.2 = l.length := by
  have hk := h.le_length
  rw [current]
  split_ifs with hpos
  · rw [List.mem_singleton]
    refine ⟨?_, ?_⟩
    · rintro rfl
      exact ⟨h.maximal hpos, Nat.sub_add_cancel hk⟩
    · rintro ⟨hmax, hend⟩
      have heq := h.eq_of_maximal hmax hend
      exact Prod.ext (by omega) heq
  · refine iff_of_false List.not_mem_nil ?_
    rintro ⟨hmax, hend⟩
    have heq := h.eq_of_maximal hmax hend
    have hpos := hmax.pos
    omega

/-- **At the end of the list** the maximal runs are those that have ended and the one in
progress: a maximal run ends before the last entry or with it, and only one ends with it. -/
theorem Ended.finish {runs : List (Nat × Nat)} (h : Ended good link l runs)
    (ht : Trailing good link l k) (r : Nat × Nat) :
    r ∈ runs ++ current l k ↔ MaximalRun good link l r.1 r.2 := by
  rw [List.mem_append, h.mem_iff, ht.mem_current, ← and_or_left]
  refine and_iff_left_of_imp fun hmax => ?_
  have hle := hmax.run.le_length
  omega

/-- A run that ends before the last entry does so whatever comes next: whether it can be extended
is a question about the entries next to it. -/
theorem maximalRun_snoc_iff (hend : start + count < l.length) (a : α) :
    MaximalRun good link (l ++ [a]) start count ↔ MaximalRun good link l start count := by
  refine ⟨?_, ?_⟩
  · rintro ⟨hpos, hrun, hleft, hright⟩
    rw [run_append_iff hend.le] at hrun
    rw [run_append_iff hend] at hright
    refine ⟨hpos, hrun, fun i hi => ?_, hright⟩
    rw [← run_append_iff (by omega) [a]]
    exact hleft i hi
  · rintro ⟨hpos, hrun, hleft, hright⟩
    rw [← run_append_iff hend.le [a]] at hrun
    rw [← run_append_iff hend [a]] at hright
    refine ⟨hpos, hrun, fun i hi => ?_, hright⟩
    rw [run_append_iff (by omega) [a]]
    exact hleft i hi

variable {runs : List (Nat × Nat)}

theorem Ended.mem_snoc_iff (h : Ended good link l runs) (a : α) (r : Nat × Nat) :
    MaximalRun good link (l ++ [a]) r.1 r.2 ∧ r.1 + r.2 < (l ++ [a]).length ↔
      r ∈ runs ∨ (MaximalRun good link (l ++ [a]) r.1 r.2 ∧ r.1 + r.2 = l.length) := by
  rw [List.length_append, List.length_singleton, Nat.lt_succ_iff, Nat.le_iff_lt_or_eq, and_or_left,
    h.mem_iff]
  exact or_congr_left (and_congr_left fun hend => maximalRun_snoc_iff hend a)

/-- The run in progress goes on, so nothing has ended. -/
theorem Ended.extend (h : Ended good link l runs) (ht : Trailing good link l k)
    (ht' : Trailing good link (l ++ [a]) (k + 1)) : Ended good link (l ++ [a]) runs where
  ordered := h.ordered
  mem_iff r := by
    rw [h.mem_snoc_iff]
    refine (or_iff_left ?_).symm
    rintro ⟨hmax, hend⟩
    have hk := ht.le_length
    have hlen : (l ++ [a]).length - (k + 1) = l.length - k := by
      rw [List.length_append, List.length_singleton]
      omega
    have hrun := ht'.run
    rw [hlen] at hrun
    have hle := ht.le_of_run ((run_append_iff hend.le [a]).mp hmax.run) hend
    exact hmax.right (hrun.mono (by omega) (by omega))

/-- The run in progress has ended, since the one that ends with the new entry is not longer. It
becomes the last of those that have ended. -/
theorem Ended.append (h : Ended good link l runs) (ht : Trailing good link l k) {k' : Nat}
    (ht' : Trailing good link (l ++ [a]) k') (hk' : k' ≤ k) :
    Ended good link (l ++ [a]) (runs ++ current l k) where
  ordered := h.pairwise_current ht
  mem_iff r := by
    rw [h.mem_snoc_iff, List.mem_append, ht.mem_current]
    refine or_congr_right (and_congr_left fun hend => ?_)
    refine ⟨?_, ?_⟩
    · rintro ⟨hpos, hrun, hleft, hright⟩
      refine ⟨hpos, (run_append_iff hend.le [a]).mpr hrun, fun i hi => ?_, fun hrun' => ?_⟩
      · rw [run_append_iff (by omega) [a]]
        exact hleft i hi
      · have hle := ht'.le_of_run hrun' (by rw [List.length_append, List.length_singleton]; omega)
        have heq := ht.eq_of_maximal ⟨hpos, hrun, hleft, hright⟩ hend
        omega
    · rintro ⟨hpos, hrun, hleft, -⟩
      refine ⟨hpos, (run_append_iff hend.le [a]).mp hrun, fun i hi => ?_, fun hrun' => ?_⟩
      · rw [← run_append_iff (by omega) [a]]
        exact hleft i hi
      · have hle := hrun'.le_length
        omega

end LinkedRuns
