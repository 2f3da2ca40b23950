import AmrFramework.RpcHeader
import AmrFramework.Runs
import Mathlib.Data.List.AList

/-!
# The calls in flight

A client of the lightweight RPC keeps the deadline of every call it made until a
reply comes or a sweep finds the call expired. Three methods change that table:

* `registerCall` enters a call;
* `matchReply` takes out the call a reply answers, in time or not;
* `sweepExpired` takes out every call whose deadline has passed, while it goes
  through the table.

`Outstanding` says from the methods called alone which calls are in flight, and
with which deadline. The table holds just these.
-/

namespace AmrFramework.Rpc

open Runs

/-- The data member: the deadline of every call, by its sequence number. The table is an
unordered map, so a sweep visits it in an order of its own. -/
structure PendingCalls : Type where
  pending : AList fun _ : UInt64 => Int64 := ∅

namespace PendingCalls

/-- `register_call`. -/
def registerCall (c : PendingCalls) (sequence : UInt64) (deadlineNs : Int64) : PendingCalls :=
  { pending := c.pending.insert sequence deadlineNs }

def erase (c : PendingCalls) (sequence : UInt64) : PendingCalls :=
  { pending := c.pending.erase sequence }

/-- `match`: the status to report to the caller. -/
def matchReply (c : PendingCalls) (reply : Header) (nowNs : Int64) : Status × PendingCalls :=
  match c.pending.lookup reply.sequence with
  | none => (.timeout, c)
  | some deadline =>
    if nowNs > deadline then (.timeout, c.erase reply.sequence)
    else (⟨reply.status⟩, c.erase reply.sequence)

/-- `sweep_expired`: the expired calls, taken out. The second argument is what the loop has still
to visit; it starts with all keys, in the order of the table. An entry is erased while the loop
goes on. -/
def sweepExpired (nowNs : Int64) : List UInt64 → PendingCalls → List UInt64 × PendingCalls
  | [], c => ([], c)
  | sequence :: rest, c =>
    match c.pending.lookup sequence with
    | none => sweepExpired nowNs rest c
    | some deadline =>
      if nowNs > deadline then
        let (expired, c') := sweepExpired nowNs rest (c.erase sequence)
        (sequence :: expired, c')
      else sweepExpired nowNs rest c

end PendingCalls

/-! ## Sequences of calls

The methods are called in any order. A sweep is given the order in which it goes through the hash
table, which is any order of the keys that are there. -/

/-- A method call with its arguments; a sweep goes through the table in some order. -/
inductive Op : Type
  | register (sequence : UInt64) (deadlineNs : Int64)
  | receive (reply : Header) (nowNs : Int64)
  | sweep (nowNs : Int64) (order : List UInt64)

/-- The order of a sweep lists every key of the table once. -/
def Op.Fits (c : PendingCalls) : Op → Prop
  | .sweep _ order => order.Perm c.pending.keys
  | _ => True

instance (c : PendingCalls) : (op : Op) → Decidable (op.Fits c)
  | .register _ _ => inferInstanceAs (Decidable True)
  | .receive _ _ => inferInstanceAs (Decidable True)
  | .sweep _ order => inferInstanceAs (Decidable (order.Perm _))

/-- The table after a method call. -/
def PendingCalls.apply (c : PendingCalls) : Op → PendingCalls
  | .register sequence deadlineNs => c.registerCall sequence deadlineNs
  | .receive reply nowNs => (c.matchReply reply nowNs).2
  | .sweep nowNs order => (c.sweepExpired nowNs order).2

/-- The table after the method calls, newest first. -/
def after : List Op → PendingCalls
  | [] => {}
  | op :: ops => (after ops).apply op

/-- Every sweep went through the table it found. -/
def Fitting (ops : List Op) : Prop := Always (fun op older => op.Fits (after older)) ops

instance (ops : List Op) : Decidable (Fitting ops) := inferInstanceAs (Decidable (Always _ ops))

/-- The sequence numbers registered, newest first. -/
def registered : List Op → List UInt64
  | [] => []
  | .register sequence _ :: ops => sequence :: registered ops
  | _ :: ops => registered ops

/-- A method call takes a call out of the table. -/
def Resolves (c : PendingCalls) (op : Op) (sequence : UInt64) : Prop :=
  sequence ∈ c.pending ∧ sequence ∉ (c.apply op).pending

instance (c : PendingCalls) (op : Op) (sequence : UInt64) : Decidable (Resolves c op sequence) :=
  inferInstanceAs (Decidable (_ ∧ _))

/-- How often a call was taken out. -/
def resolutions : List Op → UInt64 → Nat
  | [], _ => 0
  | op :: ops, sequence =>
    resolutions ops sequence + if Resolves (after ops) op sequence then 1 else 0

/-- What ends a call: a reply to it, or a sweep after its deadline. -/
def Op.Ends (sequence : UInt64) (deadlineNs : Int64) : Op → Prop
  | .register _ _ => False
  | .receive reply _ => reply.sequence = sequence
  | .sweep nowNs _ => deadlineNs < nowNs

/-- The call was registered with the deadline, and nothing has ended it since. -/
def Outstanding (ops : List Op) (sequence : UInt64) (deadlineNs : Int64) : Prop :=
  Since (fun op => ¬ op.Ends sequence deadlineNs) (fun op => op = .register sequence deadlineNs) ops

/-! ## The three methods

What each method does to the table, as lookups. All that is said later is about lookups. -/

variable {c : PendingCalls} {sequence : UInt64} {deadline nowNs : Int64}

@[simp] theorem lookup_registerCall (c : PendingCalls) (sequence key : UInt64) (deadline : Int64) :
    (c.registerCall sequence deadline).pending.lookup key =
      if key = sequence then some deadline else c.pending.lookup key := by
  rw [PendingCalls.registerCall]
  split
  · next heq =>
    subst heq
    exact AList.lookup_insert _
  · exact AList.lookup_insert_ne ‹_›

@[simp] theorem lookup_erase (c : PendingCalls) (sequence key : UInt64) :
    (c.erase sequence).pending.lookup key =
      if key = sequence then none else c.pending.lookup key := by
  rw [PendingCalls.erase]
  split
  · next heq => rw [heq, AList.lookup_erase]
  · exact AList.lookup_erase_ne ‹_›

/-- A reply takes out the call it answers, and no other. -/
@[simp] theorem lookup_matchReply (c : PendingCalls) (reply : Header) (nowNs : Int64)
    (key : UInt64) :
    (c.matchReply reply nowNs).2.pending.lookup key =
      if key = reply.sequence then none else c.pending.lookup key := by
  rw [PendingCalls.matchReply]
  split
  · next hnone =>
    split
    · next heq => rw [heq, hnone]
    · rfl
  · split <;> exact lookup_erase c reply.sequence key

/-- Only the deadline decides whether the status of a reply is passed on. -/
theorem matchReply_status {reply : Header} (h : (c.matchReply reply nowNs).1 ≠ .timeout) :
    ∃ deadline, c.pending.lookup reply.sequence = some deadline ∧ nowNs ≤ deadline ∧
      (c.matchReply reply nowNs).1 = ⟨reply.status⟩ := by
  rw [PendingCalls.matchReply] at h ⊢
  split at h
  · exact absurd rfl h
  · next deadline hdeadline =>
    split at h
    · exact absurd rfl h
    · next hlate =>
      exact ⟨deadline, hdeadline, Int64.not_lt.mp hlate, congrArg Prod.fst (if_neg hlate)⟩

/-- The deadline of a call in the table has passed. -/
def PendingCalls.expired (c : PendingCalls) (nowNs : Int64) (sequence : UInt64) : Bool :=
  (c.pending.lookup sequence).any (· < nowNs)

theorem expired_iff : c.expired nowNs sequence = true ↔
    ∃ deadline, c.pending.lookup sequence = some deadline ∧ deadline < nowNs := by
  simp [PendingCalls.expired, Option.any_eq_true]

theorem sweepExpired_cons_of_expired (h : c.expired nowNs sequence = true) (rest : List UInt64) :
    c.sweepExpired nowNs (sequence :: rest) =
      (sequence :: ((c.erase sequence).sweepExpired nowNs rest).1,
        ((c.erase sequence).sweepExpired nowNs rest).2) := by
  obtain ⟨deadline, hdeadline, hlate⟩ := expired_iff.mp h
  rw [PendingCalls.sweepExpired, hdeadline]
  exact if_pos hlate

theorem sweepExpired_cons_of_not_expired (h : c.expired nowNs sequence = false)
    (rest : List UInt64) :
    c.sweepExpired nowNs (sequence :: rest) = c.sweepExpired nowNs rest := by
  rw [PendingCalls.sweepExpired]
  split
  · rfl
  · next deadline hdeadline =>
    apply if_neg
    intro hlate
    rw [expired_iff.mpr ⟨deadline, hdeadline, hlate⟩] at h
    cases h

theorem expired_erase {key : UInt64} (hne : key ≠ sequence) :
    (c.erase sequence).expired nowNs key = c.expired nowNs key := by
  rw [PendingCalls.expired, lookup_erase, if_neg hne, PendingCalls.expired]

/-- What a sweep returns are the keys that have expired, in its order. -/
theorem sweepExpired_fst {order : List UInt64} (hnodup : order.Nodup) :
    ∀ c : PendingCalls, (c.sweepExpired nowNs order).1 = order.filter (c.expired nowNs) := by
  induction order with
  | nil => exact fun _ => rfl
  | cons sequence rest ih =>
    intro c
    obtain ⟨hnotin, hnodup⟩ := List.nodup_cons.mp hnodup
    cases hexpired : c.expired nowNs sequence with
    | true =>
      rw [sweepExpired_cons_of_expired hexpired, List.filter_cons_of_pos hexpired, ih hnodup]
      refine congrArg (sequence :: ·) (List.filter_congr fun key hkey => ?_)
      exact expired_erase (ne_of_mem_of_not_mem hkey hnotin)
    | false =>
      rw [sweepExpired_cons_of_not_expired hexpired, ih hnodup]
      exact (List.filter_cons_of_neg (Bool.eq_false_iff.mp hexpired)).symm

/-- What a sweep leaves are the calls that have not expired, with their deadlines. -/
theorem lookup_sweepExpired {order : List UInt64} {key : UInt64} :
    ∀ c : PendingCalls, (c.sweepExpired nowNs order).2.pending.lookup key =
      if key ∈ order ∧ c.expired nowNs key = true then none else c.pending.lookup key := by
  induction order with
  | nil => exact fun _ => (if_neg (by simp)).symm
  | cons sequence rest ih =>
    intro c
    cases hexpired : c.expired nowNs sequence with
    | true =>
      rw [sweepExpired_cons_of_expired hexpired, ih]
      by_cases hkey : key = sequence
      · subst hkey
        simp [hexpired]
      · simp [hkey, expired_erase hkey]
    | false =>
      rw [sweepExpired_cons_of_not_expired hexpired, ih]
      by_cases hkey : key = sequence
      · subst hkey
        simp [hexpired]
      · simp [hkey]

/-! ## What the table holds

One method call keeps the correspondence between the table and the calls that are outstanding, as
long as every number is registered once. -/

theorem mem_pending_iff : sequence ∈ c.pending ↔ ∃ deadline, c.pending.lookup sequence = some deadline := by
  rw [← AList.lookup_isSome, Option.isSome_iff_exists]

theorem Op.register_or (op : Op) : (∃ sequence deadlineNs, op = .register sequence deadlineNs) ∨
    ∀ sequence deadlineNs, op ≠ .register sequence deadlineNs := by
  cases op with
  | register sequence deadlineNs => exact .inl ⟨sequence, deadlineNs, rfl⟩
  | receive => exact .inr nofun
  | sweep => exact .inr nofun

theorem registered_cons {op : Op} (hop : ∀ sequence deadlineNs, op ≠ .register sequence deadlineNs)
    (ops : List Op) : registered (op :: ops) = registered ops := by
  cases op with
  | register sequence deadlineNs => exact absurd rfl (hop sequence deadlineNs)
  | receive => rfl
  | sweep => rfl

/-- A call in the table was registered. -/
theorem Outstanding.mem_registered {ops : List Op} {sequence : UInt64} {deadlineNs : Int64}
    (h : Outstanding ops sequence deadlineNs) : sequence ∈ registered ops := by
  induction ops with
  | nil => exact h.elim
  | cons op ops ih =>
    obtain rfl | ⟨-, hsince⟩ := h
    · exact List.mem_cons_self ..
    · obtain ⟨sequence, deadlineNs, rfl⟩ | hop := op.register_or
      · exact List.mem_cons_of_mem _ (ih hsince)
      · rw [registered_cons hop]
        exact ih hsince

/-- A method call that registers nothing keeps the calls it does not end. -/
theorem lookup_apply {op : Op} (hfits : op.Fits c) (key : UInt64) (deadline : Int64)
    (hop : ∀ sequence deadlineNs, op ≠ .register sequence deadlineNs) :
    (c.apply op).pending.lookup key = some deadline ↔
      ¬ op.Ends key deadline ∧ c.pending.lookup key = some deadline := by
  cases op with
  | register sequence deadlineNs => exact absurd rfl (hop sequence deadlineNs)
  | receive reply nowNs =>
    rw [PendingCalls.apply, lookup_matchReply, Op.Ends]
    by_cases hkey : key = reply.sequence
    · simp [hkey]
    · simp [hkey, Ne.symm hkey]
  | sweep nowNs order =>
    rw [PendingCalls.apply, lookup_sweepExpired, Op.Ends]
    have hmem : key ∈ order ↔ key ∈ c.pending := (hfits.mem_iff).trans AList.mem_keys.symm
    split
    · next hgone =>
      obtain ⟨d, hd, hlate⟩ := expired_iff.mp hgone.2
      refine ⟨nofun, fun ⟨hnot, hdeadline⟩ => ?_⟩
      obtain rfl := Option.some.inj (hd.symm.trans hdeadline)
      exact absurd hlate hnot
    · next hstays =>
      refine ⟨fun hdeadline => ⟨fun hlate => hstays ⟨?_, ?_⟩, hdeadline⟩, fun h => h.2⟩
      · exact hmem.mpr (mem_pending_iff.mpr ⟨deadline, hdeadline⟩)
      · exact expired_iff.mpr ⟨deadline, hdeadline, hlate⟩

/-- **The table.** It holds the calls registered and not ended since, each with
its own deadline. -/
theorem lookup_after {ops : List Op} (hfitting : Fitting ops) (hfresh : (registered ops).Nodup)
    (key : UInt64) (deadline : Int64) :
    (after ops).pending.lookup key = some deadline ↔ Outstanding ops key deadline := by
  induction ops with
  | nil => exact iff_of_false (by simp [after]) id
  | cons op ops ih =>
    obtain ⟨hfits, hfitting⟩ := hfitting
    obtain ⟨sequence, deadlineNs, rfl⟩ | hop := op.register_or
    · obtain ⟨hnew, hfresh⟩ := List.nodup_cons.mp hfresh
      rw [after, PendingCalls.apply, lookup_registerCall, Outstanding, since_cons]
      split
      · next heq =>
        subst heq
        refine ⟨fun h => .inl ?_, fun h => ?_⟩
        · rw [Option.some.inj h]
        · obtain hsame | ⟨-, hsince⟩ := h
          · injection hsame with _ hd
            rw [hd]
          · exact absurd (Outstanding.mem_registered hsince) hnew
      · next hne =>
        rw [ih hfitting hfresh]
        refine ⟨fun h => .inr ⟨id, h⟩, fun h => ?_⟩
        obtain hsame | ⟨-, hsince⟩ := h
        · injection hsame with hs _
          exact absurd hs.symm hne
        · exact hsince
    · rw [registered_cons hop] at hfresh
      rw [after, lookup_apply hfits key deadline hop, ih hfitting hfresh]
      exact (or_iff_right (hop key deadline)).symm

/-! ## Exactly once

A call leaves the table in one way only, and it does not come back. Counting both gives the
theorem. -/

/-- The method calls that take a call out of the table are those that end it. -/
theorem resolves_iff {ops : List Op} (hfitting : Fitting ops) (hfresh : (registered ops).Nodup)
    {op : Op} (hfits : op.Fits (after ops)) (sequence : UInt64) :
    Resolves (after ops) op sequence ↔
      ∃ deadline, Outstanding ops sequence deadline ∧ op.Ends sequence deadline := by
  obtain ⟨new, deadlineNs, rfl⟩ | hop := op.register_or
  · refine ⟨fun ⟨hin, hout⟩ => absurd ?_ hout, fun ⟨_, _, hends⟩ => hends.elim⟩
    obtain ⟨deadline, hdeadline⟩ := mem_pending_iff.mp hin
    rw [PendingCalls.apply, mem_pending_iff]
    simp only [lookup_registerCall]
    split
    · exact ⟨deadlineNs, rfl⟩
    · exact ⟨deadline, hdeadline⟩
  · refine ⟨fun ⟨hin, hout⟩ => ?_, fun ⟨deadline, hout, hends⟩ => ⟨?_, fun hin => ?_⟩⟩
    · obtain ⟨deadline, hdeadline⟩ := mem_pending_iff.mp hin
      refine ⟨deadline, (lookup_after hfitting hfresh _ _).mp hdeadline, ?_⟩
      by_contra hends
      exact hout (mem_pending_iff.mpr
        ⟨deadline, (lookup_apply hfits sequence deadline hop).mpr ⟨hends, hdeadline⟩⟩)
    · exact mem_pending_iff.mpr ⟨deadline, (lookup_after hfitting hfresh _ _).mpr hout⟩
    · obtain ⟨d, hd⟩ := mem_pending_iff.mp hin
      obtain ⟨hkeeps, hbefore⟩ := (lookup_apply hfits sequence d hop).mp hd
      have hdeadline := (lookup_after hfitting hfresh _ _).mpr hout
      obtain rfl := Option.some.inj (hbefore.symm.trans hdeadline)
      exact hkeeps hends

theorem mem_registerCall (c : PendingCalls) (sequence key : UInt64) (deadline : Int64) :
    key ∈ (c.registerCall sequence deadline).pending ↔ key = sequence ∨ key ∈ c.pending :=
  AList.mem_insert _

/-- No call comes back by a method call that registers nothing. -/
theorem mem_of_mem_apply {op : Op} (hfits : op.Fits c)
    (hop : ∀ sequence deadlineNs, op ≠ .register sequence deadlineNs) {key : UInt64}
    (h : key ∈ (c.apply op).pending) : key ∈ c.pending := by
  obtain ⟨deadline, hdeadline⟩ := mem_pending_iff.mp h
  exact mem_pending_iff.mpr ⟨deadline, ((lookup_apply hfits key deadline hop).mp hdeadline).2⟩

/-- Every registration is either in the table or was resolved, and once only. By induction over
the method calls: one that resolves a call also takes it out. -/
theorem resolutions_add_pending {ops : List Op} (hfitting : Fitting ops)
    (hfresh : (registered ops).Nodup) (sequence : UInt64) :
    resolutions ops sequence + (if sequence ∈ (after ops).pending then 1 else 0) =
      (registered ops).count sequence := by
  induction ops with
  | nil => rfl
  | cons op ops ih =>
    obtain ⟨hfits, hfitting⟩ := hfitting
    obtain ⟨new, deadlineNs, rfl⟩ | hop := op.register_or
    · obtain ⟨hnew, hfresh⟩ := List.nodup_cons.mp hfresh
      have hold := ih hfitting hfresh
      have hmem := mem_registerCall (after ops) new sequence deadlineNs
      have hkeeps : ¬ Resolves (after ops) (.register new deadlineNs) sequence :=
        fun ⟨hin, hout⟩ => hout (hmem.mpr (.inr hin))
      rw [resolutions, if_neg hkeeps, after, PendingCalls.apply, registered, List.count_cons]
      simp only [hmem, beq_iff_eq]
      by_cases hsame : sequence = new
      · subst hsame
        have hzero := List.count_eq_zero_of_not_mem hnew
        simp only [true_or, if_true]
        omega
      · simp only [hsame, Ne.symm hsame, false_or, if_false]
        exact hold
    · rw [registered_cons hop] at hfresh ⊢
      have hold := ih hfitting hfresh
      rw [resolutions, after, ← hold]
      by_cases hin : sequence ∈ (after ops).pending
      · by_cases hstays : sequence ∈ ((after ops).apply op).pending
        · rw [if_neg fun h : Resolves (after ops) op sequence => h.2 hstays, if_pos hin,
            if_pos hstays]
        · have hgone : Resolves (after ops) op sequence := ⟨hin, hstays⟩
          rw [if_pos hgone, if_pos hin, if_neg hstays]
      · have hout : sequence ∉ ((after ops).apply op).pending :=
          fun h => hin (mem_of_mem_apply hfits hop h)
        rw [if_neg fun h : Resolves (after ops) op sequence => hin h.1, if_neg hin, if_neg hout]

/-- **Exactly once.** Whatever the replies and the times of the sweeps are: a call
registered under a fresh number is resolved once or still in the table, never
both; it is resolved by what ends it first, a reply to it or a sweep after its
deadline; a status is passed on in time only; and a sweep returns every call that
has expired, once, and leaves the others with their deadlines. -/
theorem calls_resolved_once (ops : List Op) (hfitting : Fitting ops)
    (hfresh : (registered ops).Nodup) :
    (∀ sequence ∈ registered ops,
      resolutions ops sequence + (if sequence ∈ (after ops).pending then 1 else 0) = 1) ∧
    (∀ op : Op, op.Fits (after ops) → ∀ sequence, Resolves (after ops) op sequence ↔
      ∃ deadline, Outstanding ops sequence deadline ∧ op.Ends sequence deadline) ∧
    (∀ reply nowNs, ((after ops).matchReply reply nowNs).1 ≠ .timeout →
      ∃ deadline, Outstanding ops reply.sequence deadline ∧ nowNs ≤ deadline ∧
        ((after ops).matchReply reply nowNs).1 = ⟨reply.status⟩) ∧
    (∀ nowNs order, order.Perm (after ops).pending.keys →
      ((after ops).sweepExpired nowNs order).1.Nodup ∧
      (∀ sequence, sequence ∈ ((after ops).sweepExpired nowNs order).1 ↔
        ∃ deadline, Outstanding ops sequence deadline ∧ deadline < nowNs) ∧
      ∀ sequence deadline,
        ((after ops).sweepExpired nowNs order).2.pending.lookup sequence = some deadline ↔
          Outstanding ops sequence deadline ∧ ¬ deadline < nowNs) := by
  have htable := lookup_after hfitting hfresh
  refine ⟨fun sequence hmem => ?_, fun op hfits sequence => ?_, fun reply nowNs hstatus => ?_,
    fun nowNs order hperm => ⟨?_, fun sequence => ?_, fun sequence deadline => ?_⟩⟩
  · rw [resolutions_add_pending hfitting hfresh]
    exact List.count_eq_one_of_mem hfresh hmem
  · exact resolves_iff hfitting hfresh hfits sequence
  · obtain ⟨deadline, hdeadline, hintime, hpassed⟩ := matchReply_status hstatus
    exact ⟨deadline, (htable _ _).mp hdeadline, hintime, hpassed⟩
  all_goals
    have hnodup : order.Nodup := hperm.nodup_iff.mpr (AList.keys_nodup _)
  · rw [sweepExpired_fst hnodup]
    exact hnodup.filter _
  · rw [sweepExpired_fst hnodup, List.mem_filter, expired_iff, hperm.mem_iff, ← AList.mem_keys,
      mem_pending_iff]
    simp only [htable]
    exact ⟨fun h => h.2, fun ⟨deadline, hout, hlate⟩ => ⟨⟨deadline, hout⟩, deadline, hout, hlate⟩⟩
  · have hfits : (Op.sweep nowNs order).Fits (after ops) := hperm
    rw [← htable]
    exact (lookup_apply hfits sequence deadline nofun).trans and_comm

/-- One call answered twice, and one swept. -/
theorem calls_resolved_once_swept :
    resolutions [.sweep 300 [2], .receive { sequence := 1 } 60, .receive { sequence := 1 } 50,
      .register 2 200, .register 1 100] 1 +
      (if (1 : UInt64) ∈ (after [.sweep 300 [2], .receive { sequence := 1 } 60,
        .receive { sequence := 1 } 50, .register 2 200, .register 1 100]).pending then 1 else 0) =
      1 :=
  (calls_resolved_once [.sweep 300 [2], .receive { sequence := 1 } 60,
    .receive { sequence := 1 } 50, .register 2 200, .register 1 100]
    (by decide) (by decide)).1 1 (by decide)

end AmrFramework.Rpc
