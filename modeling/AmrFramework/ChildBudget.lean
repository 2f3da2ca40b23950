import AmrFramework.Runs
import AmrFramework.SupervisorPolicy

/-!
# The restart budget of a child

Any events may be fed to the state machine of a child, at any times. What counts
of them are its failures, the events that take it down while it has a process, and
its resets, which clear the counters. The child is given up at the failure after
`maxRestarts` others since the last reset.

The budget is declared for a window of time. The state machine knows no such
window: time clears the counters only when the node finds one phase `running` long
enough, and failures that are further apart than the window add up.
-/

namespace AmrFramework.Monitoring

open Runs

/-! ## Failures and resets

Whether an event counts depends on the phase that it finds, so both are defined along with the
run that led there. The histories are lists with the newest event first. -/

/-- The event takes down a child that has a process. -/
def Fails (spec : ChildSpec) : Phase → Event → Bool
  | .starting, .exitedCrash | .starting, .startTimeout => true
  | .running, .exitedCrash | .running, .healthLost => true
  | .starting, .exitedOk | .running, .exitedOk => !spec.oneshot
  | _, _ => false

/-- The event clears the counters: running long enough, or done. -/
def Resets (spec : ChildSpec) : Phase → Event → Bool
  | .running, .runningStable => true
  | .starting, .exitedOk | .running, .exitedOk => spec.oneshot
  | _, _ => false

/-- A child after the events and their times, newest first. -/
def fed (spec : ChildSpec) : List (Event × Int) → ChildState
  | [] => {}
  | e :: h => (transition spec (fed spec h) e.1 e.2).2

/-- The times of the failures since the last reset, newest first. -/
def failuresSinceReset (spec : ChildSpec) : List (Event × Int) → List Int
  | [] => []
  | e :: h =>
    if Fails spec (fed spec h).phase e.1 then e.2 :: failuresSinceReset spec h
    else if Resets spec (fed spec h).phase e.1 then []
    else failuresSinceReset spec h

/-- The times of all failures, newest first. -/
def failures (spec : ChildSpec) : List (Event × Int) → List Int
  | [] => []
  | e :: h =>
    if Fails spec (fed spec h).phase e.1 then e.2 :: failures spec h else failures spec h

/-! ## One event

Every event is a failure, a reset, or neither, and one lemma says what each does to the counters.
The proofs over histories go by these three. -/

variable {spec : ChildSpec} {st : ChildState} {ev : Event} {t : Int}

theorem fails_live (h : Fails spec st.phase ev = true) : st.phase.live = true := by
  cases hphase : st.phase <;> simp_all [Fails, Phase.live]

/-- A failure enters `backoff`, or `fatal`. -/
theorem transition_fails (h : Fails spec st.phase ev = true) :
    ∃ kind, kind ≠ .markFatal ∧ transition spec st ev t = enterBackoff spec.policy st t kind := by
  have hlive := fails_live h
  cases ev with
  | exitedCrash => exact ⟨.spawn, by decide, transition_exit hlive (.inl rfl)⟩
  | exitedOk =>
    have honeshot : spec.oneshot = false := by
      cases hphase : st.phase <;> simp_all [Fails, Phase.live]
    exact ⟨.spawn, by decide, transition_exit hlive (.inr ⟨rfl, honeshot⟩)⟩
  | startTimeout =>
    have hstarting : st.phase = .starting := by
      cases hphase : st.phase <;> simp_all [Fails]
    exact ⟨.spawn, by decide, transition_startTimeout hstarting⟩
  | healthLost =>
    have hrunning : st.phase = .running := by
      cases hphase : st.phase <;> simp_all [Fails]
    exact ⟨.kill, by decide, transition_healthLost hrunning⟩
  | spawned | running | depRestarting | runningStable | tick | healthOk =>
    cases hphase : st.phase <;> simp_all [Fails]

/-- A reset clears the counters. -/
theorem transition_resets (h : Resets spec st.phase ev = true) :
    (transition spec st ev t).1 = {} ∧
      (transition spec st ev t).2.restartsInWindow = 0 ∧
      (transition spec st ev t).2.backoffStep = 0 ∧
      ((transition spec st ev t).2.phase = .stopped ∨
        (transition spec st ev t).2.phase = .running) := by
  unfold transition
  cases hphase : st.phase <;> cases ev <;> simp_all [Resets, finish]

/-- `fatal` absorbs every event. -/
theorem transition_fatal (h : st.phase = .fatal) : transition spec st ev t = ({}, st) := by
  unfold transition
  rw [h]

/-- What every other event leaves alone: the two counters, and everything while the child is
down. -/
structure Keeps (st : ChildState) (ev : Event) (t : Int) (a : Action) (st' : ChildState) : Prop where
  kind : a.kind ≠ .markFatal
  restartsInWindow : st'.restartsInWindow = st.restartsInWindow
  backoffStep : st'.backoffStep = st.backoffStep
  down : st'.phase = .backoff ∨ st'.phase = .fatal → st' = st
  resume : st.phase = .backoff → st'.phase = .starting → ev = .tick ∧ st.resumeAtNs ≤ t

theorem Keeps.same (st : ChildState) (ev : Event) (t : Int) : Keeps st ev t {} st :=
  ⟨nofun, rfl, rfl, fun _ => rfl, fun hbackoff hstarting => by simp [hbackoff] at hstarting⟩

/-- Into another phase, out of `backoff` when its time has come. -/
theorem Keeps.move {a : Action} {phase : Phase} (ha : a.kind ≠ .markFatal)
    (hup : phase ≠ .backoff ∧ phase ≠ .fatal)
    (hresume : st.phase = .backoff → phase = .starting → ev = .tick ∧ st.resumeAtNs ≤ t) :
    Keeps st ev t a { st with phase := phase, phaseSinceNs := t } :=
  ⟨ha, rfl, rfl, fun hdown => (hdown.elim hup.1 hup.2).elim, hresume⟩

/-- Any other event keeps the counters and enters neither `backoff` nor `fatal`. -/
theorem transition_keeps (hf : Fails spec st.phase ev = false)
    (hr : Resets spec st.phase ev = false) :
    Keeps st ev t (transition spec st ev t).1 (transition spec st ev t).2 := by
  unfold transition
  cases hphase : st.phase with
  | stopped =>
    cases ev with
    | spawned => exact .move nofun ⟨nofun, nofun⟩ fun hbackoff => by simp [hphase] at hbackoff
    | _ => exact .same st _ t
  | starting =>
    cases ev with
    | running | healthOk => exact .move nofun ⟨nofun, nofun⟩ nofun
    | depRestarting => exact .move nofun ⟨nofun, nofun⟩ nofun
    | exitedOk | exitedCrash | startTimeout => simp_all [Fails, Resets]
    | _ => exact .same st _ t
  | running =>
    cases ev with
    | depRestarting => exact .move nofun ⟨nofun, nofun⟩ nofun
    | exitedOk | exitedCrash | healthLost | runningStable => simp_all [Fails, Resets]
    | _ => exact .same st _ t
  | backoff =>
    cases ev with
    | depRestarting => exact .move nofun ⟨nofun, nofun⟩ nofun
    | tick =>
      dsimp only
      split
      · exact .move nofun ⟨nofun, nofun⟩ fun _ _ => ⟨rfl, ‹_›⟩
      · exact .same st _ t
    | _ => exact .same st _ t
  | fatal => exact .same st ev t

/-! ## Any events

The argument is the same for all events, since there are three kinds of transitions: those that
count a failure, those that reset the counters, and those that leave them alone. -/

/-- The counters of a child and the failures since its last reset. Both counters count the same
failures until the budget is spent, when the backoff step is no longer kept. -/
structure Counted (spec : ChildSpec) (st : ChildState) (times : List Int) : Prop where
  restarts : st.restartsInWindow = times.length
  backoffStep : st.phase ≠ .fatal → st.backoffStep = st.restartsInWindow
  budget : st.phase ≠ .fatal → st.restartsInWindow ≤ spec.policy.maxRestarts

/-- One failure more. -/
theorem Counted.enterBackoff {times : List Int} (hc : Counted spec st times)
    (hlive : st.phase ≠ .fatal) (t : Int) (kind : ActionKind) :
    Counted spec (enterBackoff spec.policy st t kind).2 (t :: times) := by
  by_cases hover : st.restartsInWindow + 1 > spec.policy.maxRestarts
  · rw [enterBackoff_fatal t kind hover]
    exact ⟨by simp [hc.restarts], fun h => absurd rfl h, fun h => absurd rfl h⟩
  · rw [enterBackoff_backoff t kind hover]
    exact ⟨by simp [hc.restarts], fun _ => by simp [hc.backoffStep hlive],
      fun _ => Int.not_lt.mp hover⟩

/-- The counters are those of the failures since the last reset. -/
theorem counted (hmax : 0 ≤ spec.policy.maxRestarts) (h : List (Event × Int)) :
    Counted spec (fed spec h) (failuresSinceReset spec h) := by
  induction h with
  | nil => exact ⟨rfl, fun _ => rfl, fun _ => hmax⟩
  | cons e h ih =>
    rw [fed, failuresSinceReset]
    cases hf : Fails spec (fed spec h).phase e.1 with
    | true =>
      obtain ⟨kind, -, heq⟩ := transition_fails (t := e.2) hf
      rw [heq]
      exact ih.enterBackoff (Phase.ne_fatal_of_live (fails_live hf)) e.2 kind
    | false =>
      cases hr : Resets spec (fed spec h).phase e.1 with
      | true =>
        obtain ⟨-, hrestarts, hstep, -⟩ := transition_resets (t := e.2) hr
        exact ⟨hrestarts, fun _ => hstep.trans hrestarts.symm, fun _ => hrestarts.symm ▸ hmax⟩
      | false =>
        have hk : Keeps (fed spec h) e.1 e.2 _ _ := transition_keeps hf hr
        have hup : (transition spec (fed spec h) e.1 e.2).2.phase ≠ .fatal →
            (fed spec h).phase ≠ .fatal := by
          intro hne hfatal
          rw [transition_fatal hfatal] at hne
          exact hne hfatal
        simp only [Bool.false_eq_true, if_false]
        refine ⟨hk.restartsInWindow.trans ih.restarts, fun hne => ?_, fun hne => ?_⟩
        · rw [hk.backoffStep, hk.restartsInWindow]
          exact ih.backoffStep (hup hne)
        · rw [hk.restartsInWindow]
          exact ih.budget (hup hne)

/-- Giving a child up is for a failure over budget. -/
theorem enterBackoff_phase_eq_fatal {kind : ActionKind} :
    (enterBackoff spec.policy st t kind).2.phase = .fatal ↔
      spec.policy.maxRestarts < st.restartsInWindow + 1 := by
  by_cases hover : st.restartsInWindow + 1 > spec.policy.maxRestarts
  · simp [enterBackoff_fatal t kind hover, hover]
  · simpa [enterBackoff_backoff t kind hover] using hover

theorem enterBackoff_markFatal {kind : ActionKind} (hkind : kind ≠ .markFatal) :
    (enterBackoff spec.policy st t kind).1.kind = .markFatal ↔
      spec.policy.maxRestarts < st.restartsInWindow + 1 := by
  by_cases hover : st.restartsInWindow + 1 > spec.policy.maxRestarts
  · simp [enterBackoff_fatal t kind hover, hover]
  · simpa [enterBackoff_backoff t kind hover, hkind] using hover

/-- An event gives the child up when it is a failure over budget. -/
theorem enters_fatal_iff (hup : st.phase ≠ .fatal) :
    (transition spec st ev t).2.phase = .fatal ↔
      Fails spec st.phase ev = true ∧ spec.policy.maxRestarts < st.restartsInWindow + 1 := by
  cases hf : Fails spec st.phase ev with
  | true =>
    obtain ⟨kind, -, heq⟩ := transition_fails (t := t) hf
    simp [heq, enterBackoff_phase_eq_fatal]
  | false =>
    refine iff_of_false (fun hfatal => ?_) (fun h => Bool.false_ne_true h.1)
    cases hr : Resets spec st.phase ev with
    | true =>
      obtain ⟨-, -, -, hstopped | hrunning⟩ := transition_resets (t := t) hr
      · simp [hstopped] at hfatal
      · simp [hrunning] at hfatal
    | false =>
      have hsame := (transition_keeps (t := t) hf hr).down (.inr hfatal)
      exact hup (hsame ▸ hfatal)

theorem markFatal_iff :
    (transition spec st ev t).1.kind = .markFatal ↔
      Fails spec st.phase ev = true ∧ spec.policy.maxRestarts < st.restartsInWindow + 1 := by
  cases hf : Fails spec st.phase ev with
  | true =>
    obtain ⟨kind, hkind, heq⟩ := transition_fails (t := t) hf
    simp [heq, enterBackoff_markFatal hkind]
  | false =>
    refine iff_of_false (fun hfatal => ?_) (fun h => Bool.false_ne_true h.1)
    cases hr : Resets spec st.phase ev with
    | true => simp [(transition_resets (t := t) hr).1] at hfatal
    | false => exact (transition_keeps (t := t) hf hr).kind hfatal

/-- A child in `backoff` entered it by some failure, and nothing has changed since. -/
theorem backoff_entered {h : List (Event × Int)} (hphase : (fed spec h).phase = .backoff) :
    ∃ newer e older, h = newer ++ e :: older ∧ Fails spec (fed spec older).phase e.1 = true ∧
      fed spec h = fed spec (e :: older) ∧
      (fed spec h).resumeAtNs = e.2 + backoffNs spec.policy (fed spec older).backoffStep := by
  induction h with
  | nil => cases hphase
  | cons e h ih =>
    cases hf : Fails spec (fed spec h).phase e.1 with
    | true =>
      refine ⟨[], e, h, rfl, hf, rfl, ?_⟩
      rw [fed] at hphase ⊢
      obtain ⟨kind, -, heq⟩ := transition_fails (t := e.2) hf
      rw [heq] at hphase ⊢
      by_cases hover : (fed spec h).restartsInWindow + 1 > spec.policy.maxRestarts
      · simp [enterBackoff_fatal e.2 kind hover] at hphase
      · rw [enterBackoff_backoff e.2 kind hover]
    | false =>
      rw [fed] at hphase ⊢
      cases hr : Resets spec (fed spec h).phase e.1 with
      | true =>
        obtain ⟨-, -, -, hstopped | hrunning⟩ := transition_resets (t := e.2) hr
        · simp [hstopped] at hphase
        · simp [hrunning] at hphase
      | false =>
        have hsame := (transition_keeps (t := e.2) hf hr).down (.inl hphase)
        rw [hsame] at hphase ⊢
        obtain ⟨newer, e', older, rfl, hrest⟩ := ih hphase
        exact ⟨e :: newer, e', older, rfl, hrest⟩

/-- Late news do nothing to a child without a process. -/
theorem transition_late (hdown : st.phase.live = false)
    (hev : ev ∈ [Event.exitedOk, .exitedCrash, .startTimeout, .healthOk, .healthLost]) :
    transition spec st ev t = ({}, st) := by
  unfold transition
  cases hphase : st.phase <;> simp_all [Phase.live] <;> obtain rfl | rfl | rfl | rfl | rfl := hev <;>
    rfl

/-- **The budget.** After any events at any times: a child that is not given up has as many
restarts as backoff steps, and no more than its budget; it is given up at the failure after
`maxRestarts` others since the last reset, for good; it leaves `backoff` for `starting` by a tick
only, when the backoff of its step has passed since the failure; and late news change nothing.
The counters are those of the failures since the last reset, by induction over the history; the
rest is about the last event. -/
theorem restart_budget (spec : ChildSpec) (hmax : 0 ≤ spec.policy.maxRestarts)
    (h : List (Event × Int)) :
    ((fed spec h).phase ≠ .fatal →
      (fed spec h).backoffStep = (fed spec h).restartsInWindow ∧
        (fed spec h).restartsInWindow ≤ spec.policy.maxRestarts) ∧
    (∀ ev t, (fed spec h).phase ≠ .fatal →
      ((fed spec ((ev, t) :: h)).phase = .fatal ↔ Fails spec (fed spec h).phase ev = true ∧
        (failuresSinceReset spec ((ev, t) :: h)).length = spec.policy.maxRestarts + 1)) ∧
    (∀ ev t, (fed spec h).phase = .fatal → fed spec ((ev, t) :: h) = fed spec h) ∧
    ((fed spec h).phase = .backoff → ∃ newer e older, h = newer ++ e :: older ∧
      Fails spec (fed spec older).phase e.1 = true ∧ fed spec h = fed spec (e :: older) ∧
      ∀ ev t, (fed spec ((ev, t) :: h)).phase = .starting → ev = .tick ∧
        e.2 + backoffNs spec.policy (fed spec older).backoffStep ≤ t) ∧
    (∀ ev t, ev ∈ [Event.exitedOk, .exitedCrash, .startTimeout, .healthOk, .healthLost] →
      (fed spec h).phase ∈ [Phase.stopped, .backoff, .fatal] →
        fed spec ((ev, t) :: h) = fed spec h) := by
  have hc := counted hmax h
  refine ⟨fun hup => ⟨hc.backoffStep hup, hc.budget hup⟩, fun ev t hup => ?_, fun ev t hfatal => ?_,
    fun hbackoff => ?_, fun ev t hev hdown => ?_⟩
  · have hbudget := hc.budget hup
    rw [fed, enters_fatal_iff hup]
    refine and_congr_right fun hf => ?_
    rw [failuresSinceReset, if_pos hf, List.length_cons]
    have hrestarts := hc.restarts
    omega
  · rw [fed, transition_fatal hfatal]
  · obtain ⟨newer, e, older, hsplit, hf, hsame, hresume⟩ := backoff_entered hbackoff
    refine ⟨newer, e, older, hsplit, hf, hsame, fun ev t hstarting => ?_⟩
    rw [← hresume]
    rw [fed] at hstarting
    have hnf : Fails spec (fed spec h).phase ev = false := by simp [hbackoff, Fails]
    have hnr : Resets spec (fed spec h).phase ev = false := by simp [hbackoff, Resets]
    exact (transition_keeps (t := t) hnf hnr).resume hbackoff hstarting
  · have hlive : (fed spec h).phase.live = false := by
      cases hphase : (fed spec h).phase <;> simp_all [Phase.live]
    rw [fed, transition_late hlive hev]

/-- A crash after the first, in the second phase `running`. -/
theorem restart_budget_crash :
    (fed { name := "base", policy := { maxRestarts := 1 } } [(.exitedCrash, 9), (.running, 2),
      (.spawned, 1)]).backoffStep =
    (fed { name := "base", policy := { maxRestarts := 1 } } [(.exitedCrash, 9), (.running, 2),
      (.spawned, 1)]).restartsInWindow :=
  ((restart_budget { name := "base", policy := { maxRestarts := 1 } } (by decide)
    [(.exitedCrash, 9), (.running, 2), (.spawned, 1)]).1 (by decide)).1

/-! ## The window

The declaration says that failures count within a window of time. The state machine counts those
since the last reset, so the two agree at an event exactly when the first of these is recent. -/

/-- Giving up at this event is for more failures within the window than the budget. -/
def InWindow (spec : ChildSpec) (e : Event × Int) (h : List (Event × Int)) : Prop :=
  (transition spec (fed spec h) e.1 e.2).1.kind = .markFatal →
    spec.policy.maxRestarts <
      ((failures spec (e :: h)).countP fun f => e.2 - f ≤ spec.policy.windowNs : Nat)

/-- When the budget is spent by this event, the first failure since the last reset is
no older than the window. -/
def Recent (spec : ChildSpec) (e : Event × Int) (h : List (Event × Int)) : Prop :=
  0 ≤ spec.policy.maxRestarts → Fails spec (fed spec h).phase e.1 = true →
    spec.policy.maxRestarts ≤ (failuresSinceReset spec h).length →
    ∀ first ∈ (failuresSinceReset spec (e :: h)).getLast?, e.2 - first ≤ spec.policy.windowNs

/-- The failures since the last reset are the latest of all. -/
theorem failuresSinceReset_prefix (spec : ChildSpec) (h : List (Event × Int)) :
    failuresSinceReset spec h <+: failures spec h := by
  induction h with
  | nil => exact List.prefix_refl _
  | cons e h ih =>
    rw [failuresSinceReset, failures]
    split
    · exact List.prefix_cons_inj e.2 |>.mpr ih
    · split
      · exact List.nil_prefix
      · exact ih

theorem failures_sublist (spec : ChildSpec) (h : List (Event × Int)) :
    (failures spec h).Sublist (h.map Prod.snd) := by
  induction h with
  | nil => exact .slnil
  | cons e h ih =>
    rw [failures, List.map_cons]
    split
    · exact ih.cons_cons e.2
    · exact ih.cons e.2

/-- In a list of times, newest first, more than `n` are late when the oldest of the `n + 1`
latest is. As the times are sorted, those that are late are a prefix. -/
theorem lt_countP_iff {times pre : List Int} {last : Int} (bound : Int)
    (hsorted : times.Pairwise (· ≥ ·)) (hpre : pre ++ [last] <+: times) :
    pre.length < times.countP (bound ≤ ·) ↔ bound ≤ last := by
  obtain ⟨rest, rfl⟩ := hpre
  rw [List.append_assoc, List.pairwise_append] at hsorted
  obtain ⟨-, hsorted, hpre⟩ := hsorted
  have hrest := (List.pairwise_cons.mp hsorted).1
  constructor
  · intro hcount
    by_contra hlate
    have hnone : (last :: rest).countP (bound ≤ ·) = 0 := by
      rw [List.countP_eq_zero]
      intro f hf
      have hle : f ≤ last := by
        obtain rfl | hmem := List.mem_cons.mp hf
        · exact Int.le_refl _
        · exact hrest f hmem
      simp only [decide_eq_true_eq]
      omega
    have hbound := List.countP_le_length (p := fun f => decide (bound ≤ f)) (l := pre)
    rw [List.append_assoc, List.countP_append] at hcount
    simp only [List.cons_append, List.nil_append] at hcount
    omega
  · intro hlate
    have hall : (pre ++ [last]).countP (bound ≤ ·) = (pre ++ [last]).length := by
      rw [List.countP_eq_length]
      intro f hf
      have hle : last ≤ f := by
        obtain hmem | hmem := List.mem_append.mp hf
        · exact hpre f hmem last (List.mem_append_left _ (List.mem_singleton_self _))
        · exact Int.le_of_eq (List.mem_singleton.mp hmem).symm
      simp only [decide_eq_true_eq]
      omega
    rw [List.countP_append, hall, List.length_append, List.length_singleton]
    omega

/-- At one event, after others no later. The failures since the last reset are the latest of all
failures, so counting those in the window is looking at the oldest of them. -/
theorem inWindow_iff (spec : ChildSpec) {e : Event × Int} {h : List (Event × Int)}
    (hmono : (e :: h).Pairwise fun a b => b.2 ≤ a.2) : InWindow spec e h ↔ Recent spec e h := by
  rw [InWindow, Recent, markFatal_iff, and_imp]
  obtain hneg | hmax := Int.lt_or_le spec.policy.maxRestarts 0
  · refine iff_of_true (fun _ _ => ?_) fun hmax => absurd hmax (Int.not_le.mpr hneg)
    exact Int.lt_of_lt_of_le hneg (Int.natCast_nonneg _)
  · have hc := counted hmax h
    have hrestarts := hc.restarts
    rw [forall_prop_of_true hmax]
    refine forall_congr' fun hf => ?_
    have hbudget := hc.budget (Phase.ne_fatal_of_live (fails_live hf))
    have hspent : spec.policy.maxRestarts < (fed spec h).restartsInWindow + 1 ↔
        spec.policy.maxRestarts ≤ (failuresSinceReset spec h).length := by omega
    rw [hspent]
    refine forall_congr' fun hmany => ?_
    -- the failures since the last reset are one more than the budget
    have hsince : failuresSinceReset spec (e :: h) = e.2 :: failuresSinceReset spec h := by
      rw [failuresSinceReset, if_pos hf]
    obtain ⟨pre, last, hlast⟩ : ∃ pre last, failuresSinceReset spec (e :: h) = pre ++ [last] :=
      ⟨_, _, (List.dropLast_append_getLast (hsince ▸ List.cons_ne_nil _ _)).symm⟩
    have hlength : pre.length = (failuresSinceReset spec h).length := by
      have hboth := congrArg List.length (hsince.symm.trans hlast)
      simpa using hboth.symm
    have hsorted : (failures spec (e :: h)).Pairwise (· ≥ ·) :=
      (List.pairwise_map.mpr hmono).sublist (failures_sublist spec (e :: h))
    have hcount : (failures spec (e :: h)).countP (fun f => e.2 - f ≤ spec.policy.windowNs) =
        (failures spec (e :: h)).countP (e.2 - spec.policy.windowNs ≤ ·) := by
      apply List.countP_congr
      intro f _
      simp only [decide_eq_true_eq]
      omega
    have hiff := lt_countP_iff (e.2 - spec.policy.windowNs) hsorted
      (hlast ▸ failuresSinceReset_prefix spec (e :: h))
    rw [hcount, hlast]
    simp only [List.getLast?_concat, Option.mem_some_iff, forall_eq']
    omega

/-- **The window.** In any run with times that do not decrease: every child is given
up for more failures within the window than its budget, exactly when at every
failure that spends the budget the first one since the last reset is no older than
the window. -/
theorem window_iff_recent (spec : ChildSpec) (h : List (Event × Int))
    (hmono : h.Pairwise fun a b => b.2 ≤ a.2) :
    Always (InWindow spec) h ↔ Always (Recent spec) h := by
  induction h with
  | nil => exact Iff.rfl
  | cons e h ih => exact and_congr (inWindow_iff spec hmono) (ih hmono.of_cons)

/-- A budget of one restart, and crashes in two stretches of not quite 300 s. -/
def slowCrashes : List (Event × Int) :=
  [(.exitedCrash, 581000000000), (.running, 282000000000), (.tick, 281000000000),
    (.exitedCrash, 280000000000), (.running, 1000000000), (.spawned, 0)]

theorem window_iff_recent_slow :
    Always (InWindow { name := "base", policy := { maxRestarts := 1 } }) slowCrashes ↔
      Always (Recent { name := "base", policy := { maxRestarts := 1 } }) slowCrashes :=
  window_iff_recent _ slowCrashes (by decide)

/-- The child is given up at the second crash, 301 s after the first. -/
theorem slow_crashes_fatal :
    ¬ ∀ (spec : ChildSpec) (h : List (Event × Int)), (h.Pairwise fun a b => b.2 ≤ a.2) →
      Always (InWindow spec) h := by
  intro hall
  have hwindow := (hall { name := "base", policy := { maxRestarts := 1 } } slowCrashes
    (by decide)).1 (by decide)
  exact absurd hwindow (by decide)

end AmrFramework.Monitoring
