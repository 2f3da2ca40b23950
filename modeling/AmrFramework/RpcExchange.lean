import AmrFramework.DedupCache
import AmrFramework.ReplyPairing

/-!
# Calls on a channel that loses, repeats and reorders

The clients of the lightweight RPC and its server, on topics of which nothing is
assumed. A client that got no answer calls again with the same idempotency key;
the server executes what it sees first and replays the cached result otherwise.

* `Spaced` — between two executions of a key there are as many of other keys as
  the window holds.
* `ExchangeStep` — a step of one of the parties. A message that was sent may be
  delivered at any time, any number of times, or never.
* `Exchange.Sound` — where the calls in flight and the replies come from.
-/

namespace AmrFramework.Rpc

open Runs

universe u

variable {α : Type u} {maxEntries : Nat}

/-! ## Executions of one key

What the window of the server guarantees for one key, without any server: a key comes again only
after as many others as the window holds. -/

/-- No key is one of the `maxEntries` before it. -/
def Spaced (maxEntries : Nat) (ks : List Key) : Prop :=
  Always (fun key older => key ∉ older.take maxEntries) ks

theorem window_spaced (maxEntries : Nat) (ks : List Key) :
    Spaced maxEntries (window maxEntries ks) := by
  induction ks with
  | nil => trivial
  | cons k ks ih =>
    rw [window]
    split
    · exact ih
    · exact ⟨‹_›, ih⟩

theorem Spaced.nodup_take {ks : List Key} (h : Spaced maxEntries ks) :
    (ks.take maxEntries).Nodup := by
  induction ks with
  | nil => simp
  | cons k ks ih =>
    obtain ⟨hk, hks⟩ := h
    cases maxEntries with
    | zero => exact .nil
    | succ n =>
      have hsub : (ks.take n).Sublist (ks.take (n + 1)) :=
        List.take_sublist_take_left (Nat.le_succ n)
      rw [List.take_succ_cons]
      exact List.nodup_cons.mpr ⟨fun hmem => hk (hsub.subset hmem), (ih hks).sublist hsub⟩

/-- Between a key and the same key there are `maxEntries` different ones. -/
theorem Spaced.between {newer between older : List Key} {key : Key}
    (h : Spaced maxEntries (newer ++ key :: (between ++ key :: older))) :
    maxEntries ≤ between.toFinset.card := by
  obtain ⟨hkey, hrest⟩ := Always.of_append h
  have hlength : maxEntries ≤ between.length := by
    by_contra hshort
    refine hkey (List.mem_take_iff_getElem.mpr ⟨between.length, ?_, ?_⟩)
    · rw [List.length_append, List.length_cons]
      omega
    · simp
  have hnodup : (between.take maxEntries).Nodup := by
    have := Spaced.nodup_take hrest
    rwa [List.take_append_of_le_length hlength] at this
  calc maxEntries = (between.take maxEntries).length := (List.length_take_of_le hlength).symm
    _ = (between.take maxEntries).toFinset.card := (List.toFinset_card_of_nodup hnodup).symm
    _ ≤ between.toFinset.card := Finset.card_le_card fun k hk =>
        List.mem_toFinset.mpr (List.mem_of_mem_take (List.mem_toFinset.mp hk))

/-- No key is there twice when there are no more than `maxEntries`. -/
theorem Spaced.nodup {ks : List Key} (h : Spaced maxEntries ks)
    (hroom : ks.toFinset.card ≤ maxEntries) : ks.Nodup := by
  induction ks with
  | nil => exact .nil
  | cons k ks ih =>
    obtain ⟨hk, hks⟩ := h
    have hle : ks.toFinset.card ≤ maxEntries := by
      refine le_trans (Finset.card_le_card ?_) hroom
      rw [List.toFinset_cons]
      exact Finset.subset_insert ..
    have hnodup := ih hks hle
    rw [List.toFinset_card_of_nodup hnodup] at hle
    rw [List.take_of_length_le hle] at hk
    exact List.nodup_cons.mpr ⟨hk, hnodup⟩

/-- No result is dropped when there are no more keys than twice the bound. -/
theorem retained_of_card {ks : List Key} (hroom : ks.toFinset.card ≤ maxEntries * 2) :
    retained maxEntries ks = ks.toFinset := by
  induction ks with
  | nil => rfl
  | cons k ks ih =>
    rw [List.toFinset_cons] at hroom ⊢
    rw [retained, ih (le_trans (Finset.card_le_card (Finset.subset_insert ..)) hroom)]
    exact if_neg (Nat.not_lt.mpr hroom)

theorem executed_keys (maxEntries : Nat) (rs : List (Request α)) :
    (executed (maxEntries + 1) rs).map Request.key =
      window (maxEntries + 1) (rs.map Request.key) := by
  induction rs with
  | nil => rfl
  | cons r rs ih =>
    have hfirst := (holds_served maxEntries rs).windowed.firstSeen_iff r.key
    rw [executed, List.map_cons, window]
    by_cases hmem : r.key ∈ (window (maxEntries + 1) (rs.map Request.key)).take (maxEntries + 1)
    · rw [if_pos hmem, if_neg (hfirst.not.mpr (not_not.mpr hmem)), ih]
    · rw [if_neg hmem, if_pos (hfirst.mpr hmem), List.map_cons, ih]

/-! ## The parties

Every message that was sent stays on the channel, from where it can be delivered at any time and
any number of times. So loss is a message that is not delivered, and a duplicate is one delivered
twice. -/

/-- The key of a request on the wire. -/
def Header.key (h : Header) : Key := h.idemKey.toNat

/-- The answer to a request: the result of executing it if it is seen first, what is cached for it
otherwise. -/
def DedupCache.answer (c : DedupCache α) (r : Request α) : Option α :=
  if (c.firstSeen r.key).1 then some r.result else c.cached r.key

/-- A reply; the header is that of the request, with a status. -/
structure Reply (α : Type u) : Type u where
  header : Header
  payload : α
deriving DecidableEq

/-- The parties, and every message sent so far. A message is never taken away, so that it may be
delivered late, more than once, or not at all. -/
structure Exchange (α : Type u) : Type u where
  clients : Clients := fun _ => {}
  server : DedupCache α
  requests : List Header := []
  replies : List (Reply α) := []

inductive Move (α : Type u) : Type u
  /-- a client calls, or calls again -/
  | call (request : Header)
  /-- the server gets a request; executing it now would have the result -/
  | serve (request : Header) (result : α)
  | receive (client : UInt16) (reply : Reply α) (nowNs : Int64)
  | sweep (client : UInt16) (nowNs : Int64) (order : List UInt64)

/-- A number that was used before is used by the same client for the same key. -/
def Exchange.Fresh (x : Exchange α) (request : Header) : Prop :=
  ∀ earlier ∈ x.requests, earlier.sequence = request.sequence →
    earlier.clientId = request.clientId ∧ earlier.idemKey = request.idemKey

instance (x : Exchange α) (request : Header) : Decidable (x.Fresh request) :=
  inferInstanceAs (Decidable (∀ earlier ∈ x.requests, _))

/-- What the server sends back. -/
def Exchange.replyTo (x : Exchange α) (request : Header) (result : α) : List (Reply α) :=
  ((x.server.answer ⟨request.key, result⟩).map fun payload =>
    ⟨{ request with status := Status.ok.code }, payload⟩).toList

inductive ExchangeStep : Exchange α → Move α → Exchange α → Prop
  | call {x : Exchange α} {request : Header} : x.Fresh request →
      ExchangeStep x (.call request)
        { x with
          clients := x.clients.step
            ⟨request.clientId, .register request.sequence request.deadlineNs⟩
          requests := request :: x.requests }
  | serve {x : Exchange α} {request : Header} (result : α) : request ∈ x.requests →
      ExchangeStep x (.serve request result)
        { x with
          server := x.server.serve ⟨request.key, result⟩
          replies := x.replyTo request result ++ x.replies }
  | receive {x : Exchange α} {reply : Reply α} (client : UInt16) (nowNs : Int64) :
      reply ∈ x.replies →
      ExchangeStep x (.receive client reply nowNs)
        { x with clients := x.clients.step ⟨client, .receive reply.header nowNs⟩ }
  | sweep {x : Exchange α} {client : UInt16} {order : List UInt64} (nowNs : Int64) :
      order.Perm (x.clients client).pending.keys →
      ExchangeStep x (.sweep client nowNs order)
        { x with clients := x.clients.step ⟨client, .sweep nowNs order⟩ }

/-- The requests that reached the server, newest first. -/
def delivered (h : List (Move α)) : List (Request α) :=
  h.filterMap fun
    | .serve request result => some ⟨request.key, result⟩
    | _ => none

/-- The keys of all calls. -/
def Exchange.keys (x : Exchange α) : Finset Key := (x.requests.map Header.key).toFinset

/-! ## Where the messages come from

Each message on the channel goes back to a call, and each reply also to an execution. Both stay
true as more is sent, which makes them invariants. -/

/-- What is answered is the result of an execution of the key. -/
theorem answer_executed {rs : List (Request α)} {r : Request α} {payload : α}
    (h : (served maxEntries rs).answer r = some payload) :
    ∃ e ∈ executed maxEntries (r :: rs), e.key = r.key ∧ e.result = payload := by
  rw [DedupCache.answer] at h
  rw [executed]
  split at h
  · next hfirst =>
    rw [if_pos hfirst]
    exact ⟨r, List.mem_cons_self .., rfl, Option.some.inj h⟩
  · next hseen =>
    rw [if_neg hseen]
    have hlast := cached_lastResult maxEntries rs h
    obtain ⟨e, he, hresult⟩ := Option.map_eq_some_iff.mp hlast
    exact ⟨e, List.mem_of_find?_eq_some he, by simpa using List.find?_some he, hresult⟩

theorem executed_sublist (maxEntries : Nat) (rs : List (Request α)) :
    (executed maxEntries rs).Sublist rs := by
  induction rs with
  | nil => exact .slnil
  | cons r rs ih =>
    rw [executed]
    split
    · exact ih.cons_cons r
    · exact ih.cons r

/-- A reply answers a request with the result of an execution of its key. -/
def Reply.Answers (reply : Reply α) (request : Header) (es : List (Request α)) : Prop :=
  reply.header = { request with status := Status.ok.code } ∧
    ∃ e ∈ es, e.key = request.key ∧ e.result = reply.payload

theorem Reply.Answers.mono {reply : Reply α} {request : Header} {es es' : List (Request α)}
    (h : reply.Answers request es) (hsub : es ⊆ es') : reply.Answers request es' := by
  obtain ⟨hheader, e, he, hresult⟩ := h
  exact ⟨hheader, e, hsub he, hresult⟩

/-- What holds at any time: the server is where the delivered requests have led it, a sequence
number belongs to one call, and every reply answers a request. -/
structure Exchange.Sound (maxEntries : Nat) (h : List (Move α)) (x : Exchange α) : Prop where
  server : x.server = served maxEntries (delivered h)
  sent : ∀ r ∈ delivered h, r.key ∈ x.keys
  numbers : ∀ a ∈ x.requests, ∀ b ∈ x.requests, a.sequence = b.sequence →
    a.clientId = b.clientId ∧ a.idemKey = b.idemKey
  pending : ∀ client sequence deadline,
    (x.clients client).pending.lookup sequence = some deadline →
      ∃ r ∈ x.requests, r.clientId = client ∧ r.sequence = sequence ∧ r.deadlineNs = deadline
  replies : ∀ reply ∈ x.replies, ∃ r ∈ x.requests,
    reply.Answers r (executed maxEntries (delivered h))

variable {h : List (Move α)} {x x' : Exchange α} {m : Move α}

/-- The table of a client after an event that registers nothing: no new calls. -/
theorem lookup_step {w : Clients} {e : Event}
    (hop : ∀ sequence deadlineNs, e.op ≠ .register sequence deadlineNs) {client : UInt16}
    {sequence : UInt64} {deadline : Int64}
    (hlookup : (w.step e client).pending.lookup sequence = some deadline) :
    (w client).pending.lookup sequence = some deadline := by
  rw [Clients.step] at hlookup
  by_cases hclient : client = e.client
  · subst hclient
    rw [Function.update_self] at hlookup
    cases hkind : e.op with
    | register sequence deadlineNs => exact absurd hkind (hop sequence deadlineNs)
    | receive reply nowNs =>
      rw [hkind, PendingCalls.apply, lookup_matchReply] at hlookup
      split at hlookup
      · cases hlookup
      · exact hlookup
    | sweep nowNs order =>
      rw [hkind, PendingCalls.apply, lookup_sweepExpired] at hlookup
      split at hlookup
      · cases hlookup
      · exact hlookup
  · rwa [Function.update_of_ne hclient] at hlookup

/-- A client that calls has that call in flight. -/
theorem lookup_step_register {w : Clients} {request : Header} {client : UInt16} {sequence : UInt64}
    {deadline : Int64}
    (hlookup : (w.step ⟨request.clientId, .register request.sequence request.deadlineNs⟩
      client).pending.lookup sequence = some deadline) :
    (request.clientId = client ∧ request.sequence = sequence ∧ request.deadlineNs = deadline) ∨
      (w client).pending.lookup sequence = some deadline := by
  rw [Clients.step] at hlookup
  by_cases hclient : client = request.clientId
  · subst hclient
    rw [Function.update_self, PendingCalls.apply, lookup_registerCall] at hlookup
    split at hlookup
    · next hsequence => exact .inl ⟨rfl, hsequence.symm, Option.some.inj hlookup⟩
    · exact .inr hlookup
  · rw [Function.update_of_ne hclient] at hlookup
    exact .inr hlookup

/-- **One step** keeps it. A call adds a request, the server adds a reply and an execution, and a
client that receives takes only something out of its table. -/
theorem Exchange.Sound.step (hx : x.Sound maxEntries h) (hstep : ExchangeStep x m x') :
    x'.Sound maxEntries (m :: h) := by
  cases hstep with
  | @call request hfresh =>
    have hmore : ∀ {r : Header}, r ∈ x.requests → r ∈ request :: x.requests :=
      List.mem_cons_of_mem _
    refine ⟨hx.server, fun r hr => ?_, ?_, fun client sequence deadline hlookup => ?_, ?_⟩
    · have hold := hx.sent r hr
      simp only [Exchange.keys, List.map_cons, List.toFinset_cons, Finset.mem_insert] at hold ⊢
      exact .inr hold
    · intro a ha b hb hsequence
      obtain rfl | hold := List.mem_cons.mp ha
      · obtain rfl | hold' := List.mem_cons.mp hb
        · exact ⟨rfl, rfl⟩
        · obtain ⟨hclient, hkey⟩ := hfresh b hold' hsequence.symm
          exact ⟨hclient.symm, hkey.symm⟩
      · obtain rfl | hold' := List.mem_cons.mp hb
        · exact hfresh a hold hsequence
        · exact hx.numbers a hold b hold' hsequence
    · obtain hnew | hold := lookup_step_register hlookup
      · exact ⟨request, List.mem_cons_self .., hnew⟩
      · obtain ⟨r, hr, hcall⟩ := hx.pending client sequence deadline hold
        exact ⟨r, hmore hr, hcall⟩
    · intro reply hreply
      obtain ⟨r, hr, hanswers⟩ := hx.replies reply hreply
      exact ⟨r, hmore hr, hanswers⟩
  | @serve request result hsent =>
    have hsub : executed maxEntries (delivered h) ⊆
        executed maxEntries (⟨request.key, result⟩ :: delivered h) := by
      rw [executed]
      split
      · exact List.subset_cons_self ..
      · exact List.Subset.refl _
    refine ⟨?_, fun r hr => ?_, hx.numbers, hx.pending, fun reply hreply => ?_⟩
    · change x.server.serve _ = (served maxEntries (delivered h)).serve _
      rw [hx.server]
    · obtain rfl | hr := List.mem_cons.mp hr
      · exact List.mem_toFinset.mpr (List.mem_map_of_mem hsent)
      · exact hx.sent r hr
    · obtain hnew | hold := List.mem_append.mp hreply
      · rw [Exchange.replyTo, Option.mem_toList] at hnew
        obtain ⟨payload, hpayload, rfl⟩ := Option.map_eq_some_iff.mp hnew
        rw [hx.server] at hpayload
        exact ⟨request, hsent, rfl, answer_executed hpayload⟩
      · obtain ⟨r, hr, hanswers⟩ := hx.replies reply hold
        exact ⟨r, hr, hanswers.mono hsub⟩
  | receive client nowNs hreply =>
    exact ⟨hx.server, hx.sent, hx.numbers,
      fun c s d hlookup => hx.pending c s d (lookup_step (fun _ _ heq => by cases heq) hlookup),
      hx.replies⟩
  | sweep nowNs hperm =>
    exact ⟨hx.server, hx.sent, hx.numbers,
      fun c s d hlookup => hx.pending c s d (lookup_step (fun _ _ heq => by cases heq) hlookup),
      hx.replies⟩

theorem sound_run (hr : Run ExchangeStep { server := { maxEntries := maxEntries } } h x) :
    x.Sound maxEntries h :=
  hr.invariant (I := fun h x => x.Sound maxEntries h) ⟨rfl, nofun, nofun, nofun, nofun⟩
    fun _ _ _ _ hx hstep => hx.step hstep

/-! ## All calls

With room for all keys nothing leaves the window and no result is dropped, so the cache is as
good as a table of all executions. -/

/-- The keys executed are keys of calls. -/
theorem Exchange.Sound.executed_keys (hx : x.Sound maxEntries h) :
    ((executed maxEntries (delivered h)).map Request.key).toFinset ⊆ x.keys := by
  intro key hkey
  obtain ⟨e, he, rfl⟩ := List.mem_map.mp (List.mem_toFinset.mp hkey)
  exact hx.sent e ((executed_sublist maxEntries (delivered h)).subset he)

/-- With room for all keys, a request is answered, and with the result of the execution if there
was one. -/
theorem answer_of_room {rs : List (Request α)} {r : Request α}
    (hnodup : ((executed (maxEntries + 1) rs).map Request.key).Nodup)
    (hroom : ((executed (maxEntries + 1) rs).map Request.key).toFinset.card ≤ maxEntries + 1) :
    ∃ payload, (served (maxEntries + 1) rs).answer r = some payload ∧
      ∀ e ∈ executed (maxEntries + 1) rs, e.key = r.key → e.result = payload := by
  have hkeys := executed_keys maxEntries rs
  have hholds := holds_served maxEntries rs
  rw [← hkeys] at hholds
  have hfirst := hholds.windowed.firstSeen_iff r.key
  have hall : ((executed (maxEntries + 1) rs).map Request.key).take (maxEntries + 1) =
      (executed (maxEntries + 1) rs).map Request.key := by
    refine List.take_of_length_le ?_
    rwa [List.toFinset_card_of_nodup hnodup] at hroom
  rw [hall] at hfirst
  rw [DedupCache.answer]
  by_cases hmem : r.key ∈ (executed (maxEntries + 1) rs).map Request.key
  · have hretained := hholds.keys_eq
    rw [retained_of_card (by omega)] at hretained
    obtain ⟨payload, hpayload⟩ : ∃ payload, (served (maxEntries + 1) rs).cached r.key =
        some payload := by
      rw [DedupCache.cached, ← Option.isSome_iff_exists, AList.lookup_isSome, AList.mem_keys,
        ← List.mem_toFinset, hretained]
      exact List.mem_toFinset.mpr hmem
    rw [if_neg (hfirst.not.mpr (not_not.mpr hmem))]
    refine ⟨payload, hpayload, fun e he hkey => ?_⟩
    obtain ⟨last, hlast, hresult⟩ :=
      Option.map_eq_some_iff.mp (cached_lastResult (maxEntries + 1) rs hpayload)
    have hlastKey : last.key = r.key := by simpa using List.find?_some hlast
    obtain rfl := List.inj_on_of_nodup_map hnodup he (List.mem_of_find?_eq_some hlast)
      (hkey.trans hlastKey.symm)
    exact hresult
  · rw [if_pos (hfirst.mpr hmem)]
    exact ⟨r.result, rfl, fun e he hkey => absurd (hkey ▸ List.mem_map_of_mem he) hmem⟩

/-- **From the call to its answer.** Whatever the channel does: between two executions of a key at
least as many others are executed as the window holds; a call that is answered in time gets the
result of an execution of its own key; and as long as no more keys were called than the window
holds, each is executed once at most, and every request that gets through is answered with the
result of that execution. -/
theorem calls_answered {maxEntries : Nat} (hpos : 1 ≤ maxEntries)
    (hr : Run ExchangeStep { server := { maxEntries := maxEntries } } h x) :
    (∀ newer later between earlier older,
      executed maxEntries (delivered h) = newer ++ later :: (between ++ earlier :: older) →
      later.key = earlier.key → maxEntries ≤ (between.map Request.key).toFinset.card) ∧
    (∀ client, ∀ reply ∈ x.replies, ∀ nowNs,
      ((x.clients client).matchReply reply.header nowNs).1 = .ok →
      ∃ request ∈ x.requests, request.clientId = client ∧
        request.sequence = reply.header.sequence ∧ nowNs ≤ request.deadlineNs ∧
        ∃ e ∈ executed maxEntries (delivered h),
          e.key = request.key ∧ e.result = reply.payload) ∧
    (x.keys.card ≤ maxEntries →
      ((executed maxEntries (delivered h)).map Request.key).Nodup ∧
      ∀ key result, ∃ payload, x.server.answer ⟨key, result⟩ = some payload ∧
        ∀ e ∈ executed maxEntries (delivered h), e.key = key → e.result = payload) := by
  obtain ⟨n, rfl⟩ : ∃ n, maxEntries = n + 1 := ⟨maxEntries - 1, by omega⟩
  have hx := sound_run hr
  have hspaced := window_spaced (n + 1) ((delivered h).map Request.key)
  rw [← executed_keys] at hspaced
  refine ⟨fun newer later between earlier older hsplit hkey => ?_,
    fun client reply hreply nowNs hok => ?_, fun hroom => ?_⟩
  · rw [hsplit] at hspaced
    simp only [List.map_append, List.map_cons, hkey] at hspaced
    exact hspaced.between
  · have hintime : ((x.clients client).matchReply reply.header nowNs).1 ≠ .timeout := by
      rw [hok]
      decide
    obtain ⟨deadline, hlookup, hle, -⟩ := matchReply_status hintime
    obtain ⟨call, hcall, hclient, hsequence, rfl⟩ := hx.pending client _ deadline hlookup
    obtain ⟨request, hrequest, hheader, e, he, hkey, hresult⟩ := hx.replies reply hreply
    -- the reply is to a request under the number of the call, and so with its key
    have hnumber : call.sequence = request.sequence := by
      rw [hsequence, hheader]
    obtain ⟨-, hidem⟩ := hx.numbers call hcall request hrequest hnumber
    refine ⟨call, hcall, hclient, hsequence, hle, e, he, ?_, hresult⟩
    rw [hkey, Header.key, Header.key, hidem]
  · have hcard := le_trans (Finset.card_le_card hx.executed_keys) hroom
    have hnodup := hspaced.nodup hcard
    refine ⟨hnodup, fun key result => ?_⟩
    rw [hx.server]
    exact answer_of_room hnodup hcard

/-- A call, and the call again. -/
def firstTry : Header := { clientId := 1, sequence := 1, idemKey := 7, deadlineNs := 100 }
def secondTry : Header := { clientId := 1, sequence := 2, idemKey := 7, deadlineNs := 300 }

/-- The reply to the first call is lost, and the one to the second is that to the first. -/
theorem calls_answered_retry :
    ∃ (h : List (Move Nat)) (x : Exchange Nat),
      Run ExchangeStep { server := { maxEntries := 2 } } h x ∧
      ((executed 2 (delivered h)).map Request.key).Nodup ∧
      ∃ request ∈ x.requests, request.clientId = 1 ∧ request.sequence = 2 ∧
        250 ≤ request.deadlineNs ∧
        ∃ e ∈ executed 2 (delivered h), e.key = request.key ∧ e.result = 70 := by
  have hcalled : Run ExchangeStep { server := { maxEntries := 2 } }
      [.serve firstTry 70, .call firstTry] _ :=
    (Run.start.snoc (.call nofun)).snoc (.serve 70 (List.mem_cons_self ..))
  have hlost : Run ExchangeStep { server := { maxEntries := 2 } }
      [.call secondTry, .sweep 1 200 [1], .serve firstTry 70, .call firstTry] _ :=
    (hcalled.snoc (.sweep 200 (by decide))).snoc (.call (by decide))
  have hrun := hlost.snoc (.serve 71 (List.mem_cons_self ..))
  obtain ⟨-, hanswered, hroom⟩ := calls_answered (by decide) hrun
  exact ⟨_, _, hrun, (hroom (by decide)).1, hanswered 1 ⟨secondTry, 70⟩ (by decide) 250 (by decide)⟩

end AmrFramework.Rpc
