import AmrFramework.HealthMonitor

/-!
# The restart protocol

A restart record is set up by a tick and advanced by the responses, and it ends
in five ways: by completion, by a rejected transition, by its deadline, by a
service that is not ready and by a client that is missing. Whatever the order of
the callbacks, the requests of a restart are the first few of `kSequence`, one at
a time.

* `Proto` — between two callbacks: a request is unanswered exactly while a
  restart is in progress, and it is the one of its current step;
* `Ready` — before the next request of a restart is sent: none is unanswered, and
  the log ends with what allows it.
-/

namespace AmrFramework.Watchdog

open Runs

/-- The requests sent, newest first. -/
def sentRequests (log : List Rec) : List Request :=
  log.filterMap fun
    | .sent r => some r
    | _ => none

/-- The requests answered, newest first. -/
def answeredRequests (log : List Rec) : List Request :=
  log.filterMap fun
    | .answered r _ => some r
    | _ => none

/-- The requests of restart `k`, newest first. -/
def requestsOf (k : Nat) (log : List Rec) : List Request :=
  (sentRequests log).filter fun r => r.restart = k

/-- A first request follows the start of its restart, every other one the success
of the transition before it. -/
def Chained : Rec → List Rec → Prop
  | .sent r, older =>
    (kSequence[0]? = some r.transition ∧ older.head? = some (.begun r.node)) ∨
      ∃ i t, kSequence[i]? = some t ∧ kSequence[i + 1]? = some r.transition ∧
        older.head? = some (.answered { r with transition := t } true)
  | _, _ => True

/-- What the log shows of all restarts so far: each has sent a prefix of the sequence, to one
node and with one deadline, and sends nothing once a later one has sent something. -/
structure Logged (restarts : Nat) (log : List Rec) : Prop where
  chained : Always Chained log
  numbered : ∀ r ∈ sentRequests log, r.restart ≤ restarts
  ordered : (sentRequests log).Pairwise fun newer older => older.restart ≤ newer.restart
  prefixes : ∀ k, ∃ node deadline n, requestsOf k log =
    ((kSequence.take n).map fun t => (⟨k, node, t, deadline⟩ : Request)).reverse

structure Proto (w : World) : Prop where
  logged : Logged w.restarts w.log
  balance : (sentRequests w.log).Perm (w.pending ++ answeredRequests w.log)
  idle : w.node.restart.inProgress = false → w.pending = []
  busy : w.node.restart.inProgress = true → ∃ t, kSequence[w.node.restart.step]? = some t ∧
    w.pending = [w.request t] ∧
    requestsOf w.restarts w.log =
      ((kSequence.take (w.node.restart.step + 1)).map w.request).reverse

structure Ready (w : World) : Prop where
  logged : Logged w.restarts w.log
  balance : (sentRequests w.log).Perm (answeredRequests w.log)
  none_pending : w.pending = []
  inProgress : w.node.restart.inProgress = true
  link : (w.node.restart.step = 0 ∧ w.log.head? = some (.begun w.node.restart.node)) ∨
    ∃ i t, w.node.restart.step = i + 1 ∧ kSequence[i]? = some t ∧
      w.log.head? = some (.answered (w.request t) true)
  sentSoFar : requestsOf w.restarts w.log =
    ((kSequence.take w.node.restart.step).map w.request).reverse

variable {w : World}

/-! ## Sending

A request is sent at one place, by `send_next_transition`, and whoever calls it has just made
sure that nothing is unanswered. -/

theorem Logged.sent {restarts : Nat} {log : List Rec} (h : Logged restarts log) {r : Request}
    (hr : r.restart = restarts) (hchained : Chained (.sent r) log)
    {n : Nat} {t : Transition} (ht : kSequence[n]? = some t) (htr : r.transition = t)
    (hsent : requestsOf restarts log = ((kSequence.take n).map fun t =>
      (⟨restarts, r.node, t, r.deadline⟩ : Request)).reverse) :
    Logged restarts (.sent r :: log) ∧ requestsOf restarts (.sent r :: log) =
      ((kSequence.take (n + 1)).map fun t =>
        (⟨restarts, r.node, t, r.deadline⟩ : Request)).reverse := by
  have hnew : requestsOf restarts (.sent r :: log) = r :: requestsOf restarts log :=
    List.filter_cons_of_pos (by simpa using hr)
  have hthis : requestsOf restarts (.sent r :: log) =
      ((kSequence.take (n + 1)).map fun t =>
        (⟨restarts, r.node, t, r.deadline⟩ : Request)).reverse := by
    rw [hnew, hsent, List.take_add_one, ht, Option.toList_some, List.map_append,
      List.reverse_append, ← htr, ← hr]
    rfl
  refine ⟨⟨⟨hchained, h.chained⟩, fun r' hr' => ?_, ?_, fun k => ?_⟩, hthis⟩
  · obtain rfl | hmem := List.mem_cons.mp hr'
    · exact hr.le
    · exact h.numbered r' hmem
  · exact List.pairwise_cons.mpr ⟨fun r' hr' => hr ▸ h.numbered r' hr', h.ordered⟩
  · by_cases hk : k = restarts
    · obtain rfl := hk
      exact ⟨r.node, r.deadline, n + 1, hthis⟩
    · have hother : requestsOf k (.sent r :: log) = requestsOf k log :=
        List.filter_cons_of_neg (by simpa [hr] using Ne.symm hk)
      rw [hother]
      exact h.prefixes k

theorem sentRequests_cons_other {e : Rec} (he : ∀ r, e ≠ .sent r) (log : List Rec) :
    sentRequests (e :: log) = sentRequests log := by
  cases e with
  | sent r => exact absurd rfl (he r)
  | reported st => rfl
  | granted node => rfl
  | begun node => rfl
  | skipped node tick deadline => rfl
  | answered r success => rfl

theorem answeredRequests_cons_other {e : Rec} (he : ∀ r b, e ≠ .answered r b) (log : List Rec) :
    answeredRequests (e :: log) = answeredRequests log := by
  cases e with
  | answered r b => exact absurd rfl (he r b)
  | reported st => rfl
  | granted node => rfl
  | begun node => rfl
  | skipped node tick deadline => rfl
  | sent r => rfl

theorem chained_other {e : Rec} (he : ∀ r, e ≠ .sent r) (log : List Rec) : Chained e log := by
  cases e with
  | sent r => exact absurd rfl (he r)
  | reported st => trivial
  | granted node => trivial
  | begun node => trivial
  | skipped node tick deadline => trivial
  | answered r success => trivial

/-- A record that is not a request. -/
theorem Logged.other {restarts : Nat} {log : List Rec} (h : Logged restarts log) {e : Rec}
    (he : ∀ r, e ≠ .sent r) : Logged restarts (e :: log) := by
  have hsent := sentRequests_cons_other he log
  refine ⟨⟨chained_other he log, h.chained⟩, ?_, ?_, fun k => ?_⟩
  · rw [hsent]
    exact h.numbered
  · rw [hsent]
    exact h.ordered
  · rw [requestsOf, hsent]
    exact h.prefixes k

/-- A restart that sends its next request, or is over: by its deadline, by a service or a client
that is missing, or because the sequence is done. -/
theorem Ready.send (h : Ready w) (now : Int) (ready : Bool) :
    Proto (w.sendNextTransition now ready) := by
  obtain heq | ⟨t, ht, heq⟩ := sendNextTransition_cases w now ready <;> rw [heq]
  · refine ⟨h.logged, ?_, fun _ => h.none_pending, nofun⟩
    rw [World.reset, h.none_pending]
    exact h.balance
  · have hchained : Chained (.sent (w.request t)) w.log := by
      obtain ⟨hstep, hhead⟩ | ⟨i, t', hstep, ht', hhead⟩ := h.link
      · exact .inl ⟨hstep ▸ ht, hhead⟩
      · exact .inr ⟨i, t', ht', hstep ▸ ht, hhead⟩
    obtain ⟨hlogged, hsent⟩ := h.logged.sent rfl hchained ht rfl h.sentSoFar
    refine ⟨hlogged, ?_, fun hidle => ?_, fun _ => ⟨t, ht, ?_, hsent⟩⟩
    · rw [h.none_pending]
      exact h.balance.cons _
    · exact absurd (hidle.symm.trans h.inProgress) Bool.false_ne_true
    · rw [h.none_pending]
      rfl

/-! ## One callback

The tick begins restarts, one at most, and the responses go on with it. -/

/-- Only the restart record, the requests and the log matter. -/
theorem Proto.congr {w' : World} (h : Proto w) (hrestart : w'.node.restart = w.node.restart)
    (hpending : w'.pending = w.pending) (hrestarts : w'.restarts = w.restarts)
    (hlog : w'.log = w.log) : Proto w' := by
  have hrequest : w'.request = w.request := by
    funext t
    rw [World.request, World.request, hrestart, hrestarts]
  refine ⟨?_, ?_, ?_, ?_⟩
  · rw [hrestarts, hlog]
    exact h.logged
  · rw [hpending, hlog]
    exact h.balance
  · rw [hrestart, hpending]
    exact h.idle
  · rw [hrestart, hpending, hrestarts, hlog, hrequest]
    exact h.busy

/-- A record about no request. -/
theorem Proto.push (h : Proto w) {e : Rec} (hsent : ∀ r, e ≠ .sent r)
    (hanswered : ∀ r b, e ≠ .answered r b) : Proto (w.push e) := by
  refine ⟨h.logged.other hsent, ?_, h.idle, fun hbusy => ?_⟩
  · rw [World.push, sentRequests_cons_other hsent, answeredRequests_cons_other hanswered]
    exact h.balance
  · obtain ⟨t, ht, hpending, hof⟩ := h.busy hbusy
    refine ⟨t, ht, hpending, ?_⟩
    rw [World.push, requestsOf, sentRequests_cons_other hsent]
    exact hof

theorem Proto.beginRestart (h : Proto w) (name : String) (tick : Int) (env : RestartEnv) :
    Proto (w.beginRestart name tick env) := by
  obtain ⟨-, heq⟩ | ⟨-, heq⟩ | ⟨hidle, heq⟩ := beginRestart_cases w name tick env <;> rw [heq]
  · exact h.push nofun nofun
  · exact h.push nofun nofun
  · have hpending := h.idle hidle
    have hbalance := h.balance
    rw [hpending, List.nil_append] at hbalance
    have hfresh : requestsOf (w.restarts + 1) w.log = [] := by
      refine List.filter_eq_nil_iff.mpr fun r hr => ?_
      have hle := h.logged.numbered r hr
      simp only [decide_eq_true_eq]
      omega
    have hlogged : Logged (w.restarts + 1) w.log :=
      ⟨h.logged.chained, fun r hr => (h.logged.numbered r hr).trans (Nat.le_succ _),
        h.logged.ordered, h.logged.prefixes⟩
    apply Ready.send
    exact ⟨hlogged.other nofun, hbalance, hpending, rfl, .inl ⟨rfl, rfl⟩, hfresh⟩

theorem Proto.checkProbe (h : Proto w) (tick : Int) (env : String → RestartEnv)
    (cfg : ProbeConfig) : Proto (w.checkProbe tick env cfg) := by
  obtain ⟨-, -, st, -, -, heq⟩ | ⟨-, st, -, -, heq⟩ | ⟨-, -, st, -, -, heq⟩ :=
    checkProbe_cases w tick env cfg <;> rw [heq]
  · have hcounted : Proto (w.counted cfg.node) := h.congr rfl rfl rfl rfl
    refine Proto.push ?_ nofun nofun
    apply Proto.beginRestart
    exact hcounted.push nofun nofun
  · refine Proto.push ?_ nofun nofun
    exact h.congr rfl rfl rfl rfl
  · exact h.push nofun nofun

theorem Proto.checkHealth (h : Proto w) (tick : Int) (env : String → RestartEnv) :
    Proto (w.checkHealth tick env) := by
  refine checkHealth_invariant (fun _ hproto => ?_) (fun _ cfg hproto => ?_) h
  · exact hproto.congr rfl rfl rfl rfl
  · exact hproto.checkProbe tick env cfg

/-- A response belongs to the restart in progress, and to its current step: nothing else is
pending. So what the source does not check holds in every run. -/
theorem Proto.response (h : Proto w) {r : Request} (hr : r ∈ w.pending) (success : Bool)
    (now : Int) (ready : Bool) :
    Proto (World.handleTransitionResponse
      { w with pending := w.pending.erase r, log := .answered r success :: w.log }
      success now ready) := by
  have hbusy : w.node.restart.inProgress = true := by
    by_contra hidle
    rw [h.idle (Bool.eq_false_iff.mpr hidle)] at hr
    cases hr
  obtain ⟨t, ht, hpending, hof⟩ := h.busy hbusy
  rw [hpending] at hr
  obtain rfl := List.mem_singleton.mp hr
  have hnone : w.pending.erase (w.request t) = [] := by
    rw [hpending, List.erase_cons_head]
  have hbalance : (sentRequests w.log).Perm (w.request t :: answeredRequests w.log) := by
    have hbalance := h.balance
    rw [hpending] at hbalance
    exact hbalance
  have hlogged : Logged w.restarts (.answered (w.request t) success :: w.log) :=
    h.logged.other nofun
  rw [hnone, World.handleTransitionResponse]
  cases success with
  | false =>
    rw [if_pos Bool.false_ne_true]
    exact ⟨hlogged, hbalance, fun _ => rfl, nofun⟩
  | true =>
    rw [if_neg (not_not.mpr rfl)]
    apply Ready.send
    exact ⟨hlogged, hbalance, rfl, hbusy, .inr ⟨_, t, rfl, ht, rfl⟩, hof⟩

theorem Proto.step {w' : World} {e : Event} (h : Proto w) (hstep : Step w e w') : Proto w' := by
  cases hstep with
  | heartbeat name => exact h.congr rfl rfl rfl rfl
  | tick now env => exact h.checkHealth now env
  | response hr success now ready => exact h.response hr success now ready

theorem proto_start (probes : List ProbeConfig) (restartEnabled : Bool) :
    Proto (.start probes restartEnabled) :=
  ⟨⟨trivial, nofun, .nil, fun _ => ⟨"", 0, 0, rfl⟩⟩, .nil, fun _ => rfl, nofun⟩

theorem proto_run {probes : List ProbeConfig} {restartEnabled : Bool} {h : List Event}
    (hr : Run Step (.start probes restartEnabled) h w) : Proto w :=
  hr.invariant (I := fun _ w => Proto w) (proto_start probes restartEnabled)
    fun _ _ _ _ hproto hstep => hproto.step hstep

theorem Proto.pending_length (h : Proto w) : w.pending.length ≤ 1 := by
  cases hbusy : w.node.restart.inProgress with
  | false =>
    rw [h.idle hbusy]
    exact Nat.zero_le 1
  | true =>
    obtain ⟨t, -, hpending, -⟩ := h.busy hbusy
    rw [hpending]
    rfl

/-- **The restart protocol**, in every run: at most one request is unanswered, the
requests of each restart are the first few transitions of the sequence and go to
one node, each but the first is sent right after the success of the one before
it, and the requests of two restarts do not interleave. -/
theorem restart_protocol (probes : List ProbeConfig) (restartEnabled : Bool) (h : List Event)
    (w : World) (hr : Run Step (.start probes restartEnabled) h w) :
    ((sentRequests w.log).Perm (w.pending ++ answeredRequests w.log) ∧ w.pending.length ≤ 1) ∧
    (∀ k, ∃ node deadline n, (requestsOf k w.log).reverse =
      (kSequence.take n).map fun t => (⟨k, node, t, deadline⟩ : Request)) ∧
    Always Chained w.log ∧
    (sentRequests w.log).Pairwise fun newer older => older.restart ≤ newer.restart := by
  have hproto := proto_run hr
  refine ⟨⟨hproto.balance, hproto.pending_length⟩, fun k => ?_, hproto.logged.chained,
    hproto.logged.ordered⟩
  obtain ⟨node, deadline, n, hof⟩ := hproto.logged.prefixes k
  exact ⟨node, deadline, n, by rw [hof, List.reverse_reverse]⟩

/-- A node whose heartbeat stops is restarted by the second tick. -/
def overdue : List Event :=
  [.heartbeat "a", .tick 1000000000 fun _ => {}, .tick 3000000000 fun _ => {}]

theorem restart_protocol_overdue :
    ∃ w, Run Step (.start [⟨"a", 1, false⟩] true) overdue.reverse w ∧
      w.pending = [⟨1, "a", .deactivate, 33000000000⟩] ∧ w.pending.length ≤ 1 := by
  obtain ⟨w, hr, hw⟩ := run_of_handle (.start [⟨"a", 1, false⟩] true) overdue
    (fun w => w.pending = [⟨1, "a", .deactivate, 33000000000⟩]) (by decide +kernel)
  exact ⟨w, hr, of_decide_eq_true hw, (restart_protocol _ _ _ w hr).1.2⟩

end AmrFramework.Watchdog
