import AmrFramework.DedupCache

/-!
# The window of keys seen

The two methods that change a `DedupCache` may be called in any order, with any
keys and however often. Whatever the calls were, the keys seen are the last
`maxEntries` of those admitted, and the queue and the set agree on them.
-/

namespace AmrFramework.Rpc

universe u

variable {α : Type u}

/-- A call that may change the cache. -/
inductive Call (α : Type u) : Type u
  | firstSeen (key : Key)
  | cacheResult (key : Key) (payload : α)

/-- The cache after a call. -/
def DedupCache.call (c : DedupCache α) : Call α → DedupCache α
  | .firstSeen key => (c.firstSeen key).2
  | .cacheResult key payload => c.cacheResult key payload

/-- The cache after the calls, newest first. -/
def called (maxEntries : Nat) : List (Call α) → DedupCache α
  | [] => { maxEntries := maxEntries }
  | call :: calls => (called maxEntries calls).call call

/-- The keys for which `first_seen` returned `true`, newest first. -/
def admitted (maxEntries : Nat) : List (Call α) → List Key
  | [] => []
  | .firstSeen key :: calls =>
    if ((called maxEntries calls).firstSeen key).1 then key :: admitted maxEntries calls
    else admitted maxEntries calls
  | .cacheResult _ _ :: calls => admitted maxEntries calls

/-! ## What a call keeps

Either method, in any state. `first_seen` moves the window by a key or leaves it; `cache_result`
does not touch it. -/

variable {c : DedupCache α} {maxEntries : Nat} {ks : List Key}

/-- The results are dropped before there are more of them than twice the bound. -/
theorem cacheResult_results_length (c : DedupCache α) (key : Key) (payload : α) :
    (c.cacheResult key payload).results.keys.length ≤ c.maxEntries * 2 := by
  rw [DedupCache.cacheResult]
  dsimp only
  split
  · exact Nat.zero_le _
  · exact Nat.le_of_not_lt ‹_›

/-- The window law, after any calls. -/
theorem called_windowed (maxEntries : Nat) (calls : List (Call α)) :
    Windowed (called (maxEntries + 1) calls) (maxEntries + 1)
      (admitted (maxEntries + 1) calls) := by
  induction calls with
  | nil => exact ⟨rfl, rfl, .nil, fun _ => by simp [called, admitted]⟩
  | cons call calls ih =>
    cases call with
    | firstSeen key =>
      rw [called, DedupCache.call, admitted]
      cases hfirst : ((called (maxEntries + 1) calls).firstSeen key).1 with
      | true => exact ih.admit ((ih.firstSeen_iff key).mp hfirst)
      | false =>
        rw [firstSeen_of_not_first hfirst]
        exact ih
    | cacheResult key payload => exact cacheResult_windowed ih key payload

/-- The bound on the results, after any calls. -/
theorem called_results_length (maxEntries : Nat) (calls : List (Call α)) :
    (called (maxEntries + 1) calls).results.keys.length ≤ (maxEntries + 1) * 2 := by
  induction calls with
  | nil => exact Nat.zero_le _
  | cons call calls ih =>
    cases call with
    | firstSeen key =>
      rw [called, DedupCache.call, firstSeen_results]
      exact ih
    | cacheResult key payload =>
      have hlength := cacheResult_results_length (called (maxEntries + 1) calls) key payload
      rw [(called_windowed maxEntries calls).maxEntries_eq] at hlength
      exact hlength

/-! ## What a window is

What can be said of the keys seen without their history. -/

theorem Windowed.order_nodup (h : Windowed c maxEntries ks) : c.order.Nodup := by
  rw [h.order_eq, List.nodup_reverse]
  exact h.nodup

theorem Windowed.mem_order (h : Windowed c maxEntries ks) (k : Key) : k ∈ c.order ↔ k ∈ c.seen := by
  rw [h.order_eq, List.mem_reverse, h.mem_seen]

theorem Windowed.order_length (h : Windowed c maxEntries ks) : c.order.length ≤ maxEntries := by
  rw [h.order_eq, List.length_reverse]
  exact List.length_take_le maxEntries ks

/-- **The window.** However the two methods are called, the queue holds the keys
seen, none twice and no more than the bound; a key is not seen first exactly when
it is one of the last `maxEntries` admitted; and the results are at most twice as
many. -/
theorem dedup_window (maxEntries : Nat) (hpos : 1 ≤ maxEntries) (calls : List (Call α)) :
    (called maxEntries calls).order.Nodup ∧
    (∀ k, k ∈ (called maxEntries calls).order ↔ k ∈ (called maxEntries calls).seen) ∧
    (called maxEntries calls).order.length ≤ maxEntries ∧
    (∀ k, ((called maxEntries calls).firstSeen k).1 = false ↔
      k ∈ (admitted maxEntries calls).take maxEntries) ∧
    (called maxEntries calls).results.keys.length ≤ maxEntries * 2 := by
  obtain ⟨n, rfl⟩ : ∃ n, maxEntries = n + 1 := ⟨maxEntries - 1, by omega⟩
  have h := called_windowed n calls
  refine ⟨h.order_nodup, h.mem_order, h.order_length, fun k => ?_, called_results_length n calls⟩
  rw [← Bool.not_eq_true, h.firstSeen_iff, not_not]

/-- The key 1 leaves a window of two keys and is admitted again. -/
theorem dedup_window_readmitted :
    ((called 2 [.firstSeen 1, .firstSeen 3, .cacheResult 2 20, .firstSeen 2, .firstSeen 1,
      .firstSeen (1 : Key)] : DedupCache Nat).firstSeen 3).1 = false ↔
    3 ∈ (admitted 2 [.firstSeen 1, .firstSeen 3, .cacheResult 2 20, .firstSeen 2, .firstSeen 1,
      (.firstSeen 1 : Call Nat)]).take 2 :=
  (dedup_window 2 (by decide) [.firstSeen 1, .firstSeen 3, .cacheResult 2 20, .firstSeen 2,
    .firstSeen 1, .firstSeen 1]).2.2.2.1 3

end AmrFramework.Rpc
