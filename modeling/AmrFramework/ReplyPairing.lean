import AmrFramework.PendingCalls

/-!
# Replies on a shared channel

Every client reads all replies of the channel, and a reply carries the number of
the client it is for together with that of the call. A client looks at the second
only. As the clients number their calls each on its own, a reply for another one
may carry a number that is in flight here; it then takes that call out, in time or
not. Where the numbers differ, it does nothing.
-/

namespace AmrFramework.Rpc

open Runs

/-- The tables of the clients, by client number. -/
abbrev Clients : Type := UInt16 → PendingCalls

/-- A client makes a call, receives a reply of the channel or sweeps its table. -/
structure Event : Type where
  client : UInt16
  op : Op

/-- An event changes the table of its client. -/
def Clients.step (w : Clients) (e : Event) : Clients :=
  Function.update w e.client ((w e.client).apply e.op)

/-- The tables after the events, newest first. -/
def clientsAfter : List Event → Clients
  | [] => fun _ => {}
  | e :: es => (clientsAfter es).step e

/-- The method calls of one client. -/
def opsOf (client : UInt16) (es : List Event) : List Op :=
  (es.filter fun e => e.client = client).map Event.op

/-- A reply for another client. -/
def Event.Foreign (e : Event) (reply : Header) : Prop :=
  (∃ nowNs, e.op = .receive reply nowNs) ∧ reply.clientId ≠ e.client

/-- A reply for another client leaves the calls in flight. -/
def Undisturbed (w : Clients) (e : Event) : Prop :=
  ∀ reply, e.Foreign reply → w.step e e.client = w e.client

/-- A reply for another client carries a number that is not in flight. -/
def Apart (w : Clients) (e : Event) : Prop :=
  ∀ reply, e.Foreign reply → reply.sequence ∉ (w e.client).pending

/-! ## One delivery

A reply that is for another client does nothing unless its number is in flight here. -/

/-- A reply leaves the table exactly when it answers no call there. -/
theorem apply_receive_eq_iff (c : PendingCalls) (reply : Header) (nowNs : Int64) :
    c.apply (.receive reply nowNs) = c ↔ reply.sequence ∉ c.pending := by
  refine ⟨fun heq hmem => ?_, fun hnot => ?_⟩
  · have hgone : (c.apply (.receive reply nowNs)).pending.lookup reply.sequence = none := by
      rw [PendingCalls.apply, lookup_matchReply, if_pos rfl]
    rw [heq, AList.lookup_eq_none] at hgone
    exact hgone hmem
  · rw [PendingCalls.apply, PendingCalls.matchReply, AList.lookup_eq_none.mpr hnot]

theorem step_client (w : Clients) (e : Event) : w.step e e.client = (w e.client).apply e.op :=
  Function.update_self ..

theorem undisturbed_iff (w : Clients) (e : Event) : Undisturbed w e ↔ Apart w e := by
  refine forall_congr' fun reply => forall_congr' fun hforeign => ?_
  obtain ⟨⟨nowNs, hop⟩, -⟩ := hforeign
  rw [step_client, hop]
  exact apply_receive_eq_iff (w e.client) reply nowNs

/-! ## Any deliveries

The equivalence holds delivery by delivery, and so it holds along any history. -/

/-- The table of a client depends on its own method calls only. -/
theorem clientsAfter_apply (es : List Event) (client : UInt16) :
    clientsAfter es client = after (opsOf client es) := by
  induction es with
  | nil => rfl
  | cons e es ih =>
    rw [clientsAfter, Clients.step, opsOf]
    by_cases hclient : e.client = client
    · subst hclient
      rw [Function.update_self, List.filter_cons_of_pos (by simp), ih]
      rfl
    · rw [Function.update_of_ne (Ne.symm hclient),
        List.filter_cons_of_neg (by simpa using hclient), ih]
      rfl

/-- **Foreign replies.** In any order of the deliveries: all replies for other
clients leave the calls in flight exactly when none of them carries a number that
is in flight where it is delivered. -/
theorem foreign_replies_inert_iff (es : List Event) :
    Always (fun e older => Undisturbed (clientsAfter older) e) es ↔
      Always (fun e older => Apart (clientsAfter older) e) es := by
  induction es with
  | nil => exact Iff.rfl
  | cons e es ih => exact and_congr (undisturbed_iff (clientsAfter es) e) ih

/-- Two clients have a call with the number 1 in flight. The reply for the second
is delivered to the first, and its call is resolved. -/
theorem foreign_reply_resolves :
    ¬ ∀ es : List Event, Always (fun e older => Undisturbed (clientsAfter older) e) es := by
  intro h
  have hall := h [⟨1, .receive { clientId := 2, sequence := 1 } 50⟩, ⟨2, .register 1 100⟩,
    ⟨1, .register 1 100⟩]
  have happart := (undisturbed_iff _ _).mp hall.1 { clientId := 2, sequence := 1 }
    ⟨⟨50, rfl⟩, by decide⟩
  exact happart (by decide)

/-! ## Numbers of their own

A condition that a deployment can see to: clients that take their numbers from disjoint sets. -/

/-- A call in the table was registered. -/
theorem mem_registered_of_mem {ops : List Op} (hfitting : Fitting ops) {sequence : UInt64}
    (h : sequence ∈ (after ops).pending) : sequence ∈ registered ops := by
  induction ops with
  | nil => exact absurd h (AList.notMem_empty sequence)
  | cons op ops ih =>
    obtain ⟨hfits, hfitting⟩ := hfitting
    obtain ⟨new, deadlineNs, rfl⟩ | hop := op.register_or
    · obtain rfl | hold := (mem_registerCall (after ops) new sequence deadlineNs).mp h
      · exact List.mem_cons_self ..
      · exact List.mem_cons_of_mem _ (ih hfitting hold)
    · rw [registered_cons hop]
      exact ih hfitting (mem_of_mem_apply hfits hop h)

theorem opsOf_append (client : UInt16) (new older : List Event) :
    opsOf client (new ++ older) = opsOf client new ++ opsOf client older := by
  rw [opsOf, List.filter_append, List.map_append]
  rfl

theorem registered_subset_append (new older : List Op) :
    registered older ⊆ registered (new ++ older) := by
  induction new with
  | nil => exact List.Subset.refl _
  | cons op new ih =>
    obtain ⟨sequence, deadlineNs, rfl⟩ | hop := op.register_or
    · exact fun _ hmem => List.mem_cons_of_mem _ (ih hmem)
    · rw [List.cons_append, registered_cons hop]
      exact ih

/-- Replies do no harm where no two clients use the same number and every reply
carries one that the client it is for has used. -/
theorem foreign_replies_inert (es : List Event) (hfitting : ∀ client, Fitting (opsOf client es))
    (hown : ∀ a b, a ≠ b → ∀ sequence ∈ registered (opsOf a es),
      sequence ∉ registered (opsOf b es))
    (hreplies : ∀ e ∈ es, ∀ reply nowNs, e.op = .receive reply nowNs →
      reply.sequence ∈ registered (opsOf reply.clientId es)) :
    Always (fun e older => Undisturbed (clientsAfter older) e) es := by
  -- the calls of the whole run are those that the hypotheses speak of at each delivery
  suffices h : ∀ new older, es = new ++ older →
      Always (fun e older => Undisturbed (clientsAfter older) e) older from h [] es rfl
  intro new older
  induction older generalizing new with
  | nil => exact fun _ => trivial
  | cons e older ih =>
    intro hsplit
    have hrest : es = (new ++ [e]) ++ older := by rw [hsplit, List.append_assoc]; rfl
    refine ⟨(undisturbed_iff _ _).mpr fun reply ⟨⟨nowNs, hop⟩, hforeign⟩ hpending => ?_,
      ih (new ++ [e]) hrest⟩
    have hmem : e ∈ es := by
      rw [hsplit]
      exact List.mem_append_right new (List.mem_cons_self ..)
    have hall := hfitting e.client
    rw [hrest, opsOf_append] at hall
    rw [clientsAfter_apply] at hpending
    have hhere := registered_subset_append (opsOf e.client (new ++ [e])) _
      (mem_registered_of_mem (Always.of_append hall) hpending)
    rw [← opsOf_append, ← hrest] at hhere
    exact hown _ _ hforeign _ (hreplies e hmem reply nowNs hop) hhere

end AmrFramework.Rpc
