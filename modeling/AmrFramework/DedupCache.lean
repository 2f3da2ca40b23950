import Mathlib.Data.Finset.Card
import Mathlib.Data.Int.Order.Basic
import Mathlib.Data.List.AList

/-!
# The deduplication cache

The server of the lightweight RPC executes a request once and replays the cached
result to every retry. `DedupCache` keeps the two halves of that in containers
with different evictions: the keys seen leave one by one, oldest first, and the
results are all dropped as soon as there are more than twice as many as the
bound.

`window` and `retained` are the two containers as functions of the keys executed
so far. A retry is answered from its execution exactly when its key is retained.
-/

namespace AmrFramework.Rpc

universe u

/-- An idempotency key. -/
abbrev Key := Nat

variable {α : Type u}

/-- The data members; `α` is the type of a result. `order` and `seen` hold the same keys, the one
for eviction and the other for lookup. -/
structure DedupCache (α : Type u) : Type u where
  maxEntries : Nat := 128
  order : List Key := []
  seen : Finset Key := ∅
  results : AList fun _ : Key => α := ∅

/-- The oldest key leaves a full window, and its result stays. With a bound of zero the source
reads the front of an empty queue, which has none; here that leaves the cache as it is. -/
def DedupCache.evict (c : DedupCache α) : DedupCache α :=
  match c.order with
  | [] => c
  | oldest :: order =>
    if c.maxEntries ≤ c.order.length then { c with seen := c.seen.erase oldest, order := order }
    else c

/-- `first_seen`: `true` for a key to execute, `false` for one to replay. -/
def DedupCache.firstSeen (c : DedupCache α) (key : Key) : Bool × DedupCache α :=
  if key ∈ c.seen then (false, c)
  else
    let c := c.evict
    (true, { c with seen := insert key c.seen, order := c.order ++ [key] })

/-- `cache_result`. -/
def DedupCache.cacheResult (c : DedupCache α) (key : Key) (payload : α) : DedupCache α :=
  let results := c.results.insert key payload
  { c with results := if c.maxEntries * 2 < results.keys.length then ∅ else results }

/-- `cached`: the result to replay. -/
def DedupCache.cached (c : DedupCache α) (key : Key) : Option α := c.results.lookup key

/-! ## Requests served

The server asks whether a key is seen first, executes the request, and caches the result. A
request carries the result that executing it now would have, so that a later execution can be
told from an earlier one. -/

/-- A request: its key, and the result of executing it now. -/
structure Request (α : Type u) : Type u where
  key : Key
  result : α

/-- Execute a request and cache its result if it is seen first. -/
def DedupCache.serve (c : DedupCache α) (r : Request α) : DedupCache α :=
  let (first, c') := c.firstSeen r.key
  if first then c'.cacheResult r.key r.result else c'

/-- The cache after the requests, newest first. -/
def served (maxEntries : Nat) : List (Request α) → DedupCache α
  | [] => { maxEntries := maxEntries }
  | r :: rs => (served maxEntries rs).serve r

/-- The requests executed, newest first. -/
def executed (maxEntries : Nat) : List (Request α) → List (Request α)
  | [] => []
  | r :: rs =>
    if ((served maxEntries rs).firstSeen r.key).1 then r :: executed maxEntries rs
    else executed maxEntries rs

/-- The result of the most recent execution of a key. -/
def lastResult (maxEntries : Nat) (rs : List (Request α)) (key : Key) : Option α :=
  ((executed maxEntries rs).find? fun r => r.key = key).map Request.result

/-! ## The two evictions

Both are functions of the keys executed so far, newest first, and know nothing of the containers. -/

/-- The keys executed when a key is skipped while it is one of the last
`maxEntries` executed; both lists are newest first. -/
def window (maxEntries : Nat) : List Key → List Key
  | [] => []
  | k :: ks =>
    if k ∈ (window maxEntries ks).take maxEntries then window maxEntries ks
    else k :: window maxEntries ks

/-- Of the keys executed, those since the results were last dropped: no more
than twice the bound. -/
def retained (maxEntries : Nat) : List Key → Finset Key
  | [] => ∅
  | k :: ks =>
    if maxEntries * 2 < (insert k (retained maxEntries ks)).card then ∅
    else insert k (retained maxEntries ks)

/-! ## The containers hold them

The invariant of the window is separate from that of the results, because the window also holds
when the methods are called in any other order (`DedupWindow`). -/

/-- The window holds the last `maxEntries` of the keys `ks`, newest first, in both of its
representations and without repetition. -/
structure Windowed (c : DedupCache α) (maxEntries : Nat) (ks : List Key) : Prop where
  maxEntries_eq : c.maxEntries = maxEntries
  order_eq : c.order = (ks.take maxEntries).reverse
  nodup : (ks.take maxEntries).Nodup
  mem_seen : ∀ k, k ∈ c.seen ↔ k ∈ ks.take maxEntries

/-- What the cache holds after the keys `ks` were executed: the window of the keys, and the
results retained, which are dropped by a different rule. -/
structure Holds (c : DedupCache α) (maxEntries : Nat) (ks : List Key) : Prop where
  maxEntries_eq : c.maxEntries = maxEntries
  order_eq : c.order = (ks.take maxEntries).reverse
  nodup : (ks.take maxEntries).Nodup
  mem_seen : ∀ k, k ∈ c.seen ↔ k ∈ ks.take maxEntries
  keys_eq : c.results.keys.toFinset = retained maxEntries ks

variable {c : DedupCache α} {maxEntries : Nat} {ks : List Key}

theorem Holds.windowed (h : Holds c maxEntries ks) : Windowed c maxEntries ks :=
  ⟨h.maxEntries_eq, h.order_eq, h.nodup, h.mem_seen⟩

/-- A key is seen first when it is not one of the last `maxEntries` executed. -/
theorem Windowed.firstSeen_iff (h : Windowed c maxEntries ks) (key : Key) :
    (c.firstSeen key).1 = true ↔ key ∉ ks.take maxEntries := by
  rw [← h.mem_seen, DedupCache.firstSeen]
  by_cases hseen : key ∈ c.seen
  · rw [if_pos hseen]
    exact iff_of_false Bool.false_ne_true (not_not.mpr hseen)
  · rw [if_neg hseen]
    exact iff_of_true rfl hseen

/-- The oldest of a full window leaves it. -/
theorem Windowed.evict (h : Windowed c (maxEntries + 1) ks) :
    c.evict.order = (ks.take maxEntries).reverse ∧
      ∀ k, k ∈ c.evict.seen ↔ k ∈ ks.take maxEntries := by
  obtain hfull | hall := Nat.lt_or_ge maxEntries ks.length
  · have hlast : ks.take (maxEntries + 1) = ks.take maxEntries ++ [ks[maxEntries]] :=
      List.take_succ_eq_append_getElem hfull
    have horder : c.order = ks[maxEntries] :: (ks.take maxEntries).reverse := by
      rw [h.order_eq, hlast, List.reverse_append]
      rfl
    have hlen : c.maxEntries ≤ c.order.length := by
      rw [h.maxEntries_eq, h.order_eq, List.length_reverse, List.length_take]
      omega
    have hevict : c.evict = { c with
        seen := c.seen.erase ks[maxEntries], order := (ks.take maxEntries).reverse } := by
      rw [DedupCache.evict, horder]
      exact if_pos (horder ▸ hlen)
    have hnodup := h.nodup
    rw [hlast, List.nodup_append] at hnodup
    rw [hevict]
    refine ⟨rfl, fun k => ?_⟩
    rw [Finset.mem_erase, h.mem_seen, hlast, List.mem_append, List.mem_singleton]
    refine ⟨fun ⟨hne, hmem⟩ => hmem.resolve_right hne, fun hmem => ⟨?_, .inl hmem⟩⟩
    exact hnodup.2.2 k hmem _ (List.mem_singleton_self _)
  · have htake : ks.take (maxEntries + 1) = ks.take maxEntries := by
      rw [List.take_of_length_le hall, List.take_of_length_le (by omega)]
    have hlen : ¬ c.maxEntries ≤ c.order.length := by
      rw [h.maxEntries_eq, h.order_eq, List.length_reverse, List.length_take]
      omega
    have hevict : c.evict = c := by
      rw [DedupCache.evict]
      split
      · rfl
      · exact if_neg hlen
    rw [hevict, ← htake]
    exact ⟨h.order_eq, h.mem_seen⟩

@[simp] theorem evict_maxEntries : c.evict.maxEntries = c.maxEntries := by
  rw [DedupCache.evict]
  split
  · rfl
  · split <;> rfl

@[simp] theorem evict_results : c.evict.results = c.results := by
  rw [DedupCache.evict]
  split
  · rfl
  · split <;> rfl

/-- A key that is seen first enters the window, at the end of the queue; a full queue loses its
front for it. -/
theorem Windowed.admit (h : Windowed c (maxEntries + 1) ks) {key : Key}
    (hkey : key ∉ ks.take (maxEntries + 1)) :
    Windowed (c.firstSeen key).2 (maxEntries + 1) (key :: ks) := by
  have hseen : key ∉ c.seen := fun hmem => hkey ((h.mem_seen key).mp hmem)
  obtain ⟨horder, hmem⟩ := h.evict
  have hfresh : key ∉ ks.take maxEntries := fun hmem =>
    hkey (List.take_subset_take_left ks (Nat.le_succ maxEntries) hmem)
  have hnodup : (ks.take maxEntries).Nodup :=
    h.nodup.sublist (List.take_sublist_take_left (Nat.le_succ maxEntries))
  rw [DedupCache.firstSeen, if_neg hseen]
  refine ⟨evict_maxEntries.trans h.maxEntries_eq, ?_, ?_, fun k => ?_⟩
  · rw [List.take_succ_cons, List.reverse_cons, ← horder]
  · rw [List.take_succ_cons]
    exact List.nodup_cons.mpr ⟨hfresh, hnodup⟩
  · rw [List.take_succ_cons, List.mem_cons, ← hmem]
    exact Finset.mem_insert

/-- A key that is not leaves it as it is. -/
theorem firstSeen_of_not_first {key : Key} (h : (c.firstSeen key).1 = false) :
    (c.firstSeen key).2 = c := by
  rw [DedupCache.firstSeen] at h ⊢
  split at h
  · rw [if_pos ‹_›]
  · cases h

theorem firstSeen_results (key : Key) : (c.firstSeen key).2.results = c.results := by
  rw [DedupCache.firstSeen]
  split
  · rfl
  · exact evict_results

theorem cacheResult_windowed (h : Windowed c maxEntries ks) (key : Key) (payload : α) :
    Windowed (c.cacheResult key payload) maxEntries ks :=
  ⟨h.maxEntries_eq, h.order_eq, h.nodup, h.mem_seen⟩

theorem toFinset_keys_insert (results : AList fun _ : Key => α) (key : Key) (payload : α) :
    (results.insert key payload).keys.toFinset = insert key results.keys.toFinset := by
  ext k
  rw [List.mem_toFinset, ← AList.mem_keys, AList.mem_insert, Finset.mem_insert, List.mem_toFinset,
    AList.mem_keys]

theorem length_keys (results : AList fun _ : Key => α) :
    results.keys.length = results.keys.toFinset.card :=
  (List.toFinset_card_of_nodup (AList.keys_nodup results)).symm

/-- Executing a key and caching its result. -/
theorem Holds.serve (h : Holds c (maxEntries + 1) ks) {r : Request α}
    (hkey : r.key ∉ ks.take (maxEntries + 1)) : Holds (c.serve r) (maxEntries + 1) (r.key :: ks) := by
  have hfirst : (c.firstSeen r.key).1 = true := (h.windowed.firstSeen_iff r.key).mpr hkey
  have hserve : c.serve r = (c.firstSeen r.key).2.cacheResult r.key r.result := if_pos hfirst
  have hw := h.windowed.admit hkey
  rw [hserve]
  refine ⟨hw.maxEntries_eq, hw.order_eq, hw.nodup, hw.mem_seen, ?_⟩
  simp only [DedupCache.cacheResult, firstSeen_results, hw.maxEntries_eq, retained,
    ← h.keys_eq, length_keys, toFinset_keys_insert]
  split
  · rfl
  · exact toFinset_keys_insert ..

/-- A cached result is the one cached last, or was there before. -/
theorem lookup_cacheResult {key k : Key} {payload v : α}
    (h : v ∈ (c.cacheResult key payload).results.lookup k) :
    (k = key ∧ v = payload) ∨ (k ≠ key ∧ v ∈ c.results.lookup k) := by
  simp only [DedupCache.cacheResult] at h
  split at h
  · rw [AList.lookup_empty] at h
    cases h
  · by_cases hk : k = key
    · obtain rfl := hk
      rw [AList.lookup_insert] at h
      exact .inl ⟨rfl, (Option.some.inj h).symm⟩
    · rw [AList.lookup_insert_ne hk] at h
      exact .inr ⟨hk, h⟩

/-! ## Replays

What is cached for a key is its last result, always. So a retry is answered wrongly only when
there is nothing cached, and that is a question of which keys are retained. -/

/-- A request that is executed, or one that leaves the cache. -/
theorem serve_cases (c : DedupCache α) (r : Request α) :
    ((c.firstSeen r.key).1 = true ∧
      c.serve r = (c.firstSeen r.key).2.cacheResult r.key r.result) ∨
    ((c.firstSeen r.key).1 = false ∧ c.serve r = c) := by
  by_cases hseen : r.key ∈ c.seen
  · refine .inr ?_
    simp [DedupCache.serve, DedupCache.firstSeen, hseen]
  · refine .inl ?_
    simp [DedupCache.serve, DedupCache.firstSeen, hseen]

/-- The containers after any requests. -/
theorem holds_served (maxEntries : Nat) (rs : List (Request α)) :
    Holds (served (maxEntries + 1) rs) (maxEntries + 1)
      (window (maxEntries + 1) (rs.map Request.key)) := by
  induction rs with
  | nil => exact ⟨rfl, rfl, .nil, fun _ => by simp [served, window], rfl⟩
  | cons r rs ih =>
    have hfirst := ih.windowed.firstSeen_iff r.key
    rw [served, List.map_cons, window]
    obtain ⟨hexec, -⟩ | ⟨hskip, heq⟩ := serve_cases (served (maxEntries + 1) rs) r
    · rw [if_neg (hfirst.mp hexec)]
      exact ih.serve (hfirst.mp hexec)
    · have hmem := not_not.mp fun hnot => Bool.false_ne_true (hskip.symm.trans (hfirst.mpr hnot))
      rw [if_pos hmem, heq]
      exact ih

theorem lastResult_cons_of_first {rs : List (Request α)} {r : Request α}
    (h : ((served maxEntries rs).firstSeen r.key).1 = true) (key : Key) :
    lastResult maxEntries (r :: rs) key =
      if r.key = key then some r.result else lastResult maxEntries rs key := by
  rw [lastResult, executed, if_pos h, List.find?_cons]
  by_cases hk : r.key = key <;> simp [hk, lastResult]

theorem lastResult_cons_of_seen {rs : List (Request α)} {r : Request α}
    (h : ((served maxEntries rs).firstSeen r.key).1 = false) (key : Key) :
    lastResult maxEntries (r :: rs) key = lastResult maxEntries rs key := by
  rw [lastResult, executed, if_neg (Bool.eq_false_iff.mp h), lastResult]

/-- Whatever is cached for a key is the result of its most recent execution: it was cached by
that one, and nothing cached it again. -/
theorem cached_lastResult (maxEntries : Nat) (rs : List (Request α)) {key : Key} {v : α}
    (h : v ∈ (served maxEntries rs).cached key) : lastResult maxEntries rs key = some v := by
  induction rs with
  | nil => cases h
  | cons r rs ih =>
    rw [served] at h
    obtain ⟨hfirst, heq⟩ | ⟨hseen, heq⟩ := serve_cases (served maxEntries rs) r
    · rw [heq] at h
      rw [lastResult_cons_of_first hfirst]
      obtain ⟨rfl, rfl⟩ | ⟨hne, hv⟩ := lookup_cacheResult h
      · exact if_pos rfl
      · rw [firstSeen_results] at hv
        exact (if_neg (Ne.symm hne)).trans (ih hv)
    · rw [heq] at h
      rw [lastResult_cons_of_seen hseen]
      exact ih h

/-- **Replays.** A key, and with it every one that is not seen first, is answered
with the result of its most recent execution exactly when the results were not
dropped at or after that execution. -/
theorem replay_iff (maxEntries : Nat) (hpos : 1 ≤ maxEntries) (rs : List (Request α)) (key : Key) :
    (∃ result, lastResult maxEntries rs key = some result ∧
      (served maxEntries rs).cached key = some result) ↔
    key ∈ retained maxEntries (window maxEntries (rs.map Request.key)) := by
  obtain ⟨n, rfl⟩ : ∃ n, maxEntries = n + 1 := ⟨maxEntries - 1, by omega⟩
  rw [← (holds_served n rs).keys_eq, List.mem_toFinset, ← AList.mem_keys, ← AList.lookup_isSome,
    Option.isSome_iff_exists]
  refine exists_congr fun result => ⟨fun h => h.2, fun h => ⟨?_, h⟩⟩
  exact cached_lastResult (n + 1) rs h

/-- Two results are not dropped with a bound of two. -/
theorem replay_iff_two :
    ∃ result, lastResult 2 [⟨5, 50⟩, (⟨4, 40⟩ : Request Nat)] 4 = some result ∧
      (served 2 [⟨5, 50⟩, (⟨4, 40⟩ : Request Nat)]).cached 4 = some result :=
  (replay_iff 2 (by decide) [⟨5, 50⟩, ⟨4, 40⟩] 4).mpr (by decide)

/-- With a bound of one, the third key executed is seen and has no result. -/
theorem replay_lost :
    ¬ ∀ maxEntries, 1 ≤ maxEntries → ∀ (rs : List (Request Nat)) (key : Key),
      ((served maxEntries rs).firstSeen key).1 = false →
      ∃ result, lastResult maxEntries rs key = some result ∧
        (served maxEntries rs).cached key = some result := by
  intro h
  have hlost : (served 1 [⟨3, 30⟩, ⟨2, 20⟩, (⟨1, 10⟩ : Request Nat)]).cached 3 = none := by decide
  obtain ⟨result, -, hresult⟩ := h 1 (by decide) [⟨3, 30⟩, ⟨2, 20⟩, ⟨1, 10⟩] 3 (by decide)
  rw [hlost] at hresult
  cases hresult

end AmrFramework.Rpc
