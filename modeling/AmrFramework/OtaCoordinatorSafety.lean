import AmrFramework.OtaCoordinator

/-!
# Safety of the OTA coordinator over whole call sequences

Any order of public calls, any outcome (or absence) of the injected
operations. The proof has the usual three layers:

* `Effect` — what one public call can do, read off the code once
  (`perform_effect`); no later proof unfolds a call;
* `Opened` / `Written` — the history invariant: a coordinator that is inside an
  update was opened for its candidate, and past `installing` it has written
  that candidate to the inactive slot, in this very update;
* `coordinator_safe` — the run theorem assembled from the two.

`runUpdate` is then looked at on its own: it restores `idle` on every failing
branch but one, the failed switch of the boot marker.
-/

namespace AmrFramework.Ota

open Runs

universe u

variable {ω : Type u}

/-! ## The effect of one call

The cases of `Effect` are what a call can look like from outside: refused, a bare transition, a
write or a switch that succeeds or not, a verdict, and the facade in its variants. -/

/-- What one public call makes of coordinator `c`: its result, the operations
it invoked (newest first) and the coordinator it leaves. -/
inductive Effect (c : OtaCoordinator) :
    Call → Result → List OpCall → OtaCoordinator → Prop
  /-- refused (which a verdict in the health gate is not): nothing invoked,
  nothing changed -/
  | reject {call : Call} {r : Result} (hr : r.isRejected = true)
      (hh : call = .onHealth true → c.state ≠ .healthGate) : Effect c call r [] c
  | request {v : Int} (hs : c.state = .idle) (hv : c.securityCounter ≤ v) :
      Effect c (.requestUpdate v true) .accepted []
        { c with candidateVersion := v, state := .downloading }
  | downloaded (hs : c.state = .downloading) :
      Effect c .onDownloadComplete .accepted [] { c with state := .downloaded }
  | install (hs : c.state = .downloaded) :
      Effect c .beginInstall .accepted
        [.write (otherSlot c.activeSlot) c.candidateVersion true]
        { c with state := .installing }
  | installFailed (hs : c.state = .downloaded) {l : List OpCall}
      (hl : l = [] ∨ l = [.write (otherSlot c.activeSlot) c.candidateVersion false]) :
      Effect c .beginInstall .aborted l { c with state := .idle }
  | installed (hs : c.state = .installing) :
      Effect c .onInstallComplete .accepted [] { c with state := .switching }
  | switch (hs : c.state = .switching) :
      Effect c .switchBootTarget .accepted [.setBootTarget (otherSlot c.activeSlot) true]
        { c with state := .healthGate }
  | switchFailed (hs : c.state = .switching) {l : List OpCall}
      (hl : l = [] ∨ l = [.setBootTarget (otherSlot c.activeSlot) false]) :
      Effect c .switchBootTarget .aborted l c
  | commit (hs : c.state = .healthGate) :
      Effect c (.onHealth true) .accepted []
        { c with
          activeSlot := otherSlot c.activeSlot
          activeVersion := c.candidateVersion
          securityCounter :=
            if c.candidateVersion > c.securityCounter then c.candidateVersion
            else c.securityCounter
          state := .committed }
  | rollback (hs : c.state = .healthGate) {call : Call}
      (hc : call = .onHealth false ∨ call = .forceRollback) {l : List OpCall}
      (hl : l = [] ∨ l = [.rollbackMarker]) :
      Effect c call .accepted l { c with state := .rolledBack }
  /-- the facade, stopped by the fetch -/
  | updateNoFetch {v : Int} (hs : c.state = .idle) (hv : c.securityCounter ≤ v) :
      Effect c (.runUpdate v true) .aborted [.fetch v false]
        { c with candidateVersion := v, state := .idle }
  /-- the facade, stopped by the write -/
  | updateNoWrite {v : Int} (hs : c.state = .idle) (hv : c.securityCounter ≤ v)
      {f l : List OpCall} (hf : f = [] ∨ f = [.fetch v true])
      (hl : l = [] ∨ l = [.write (otherSlot c.activeSlot) v false]) :
      Effect c (.runUpdate v true) .aborted (l ++ f)
        { c with candidateVersion := v, state := .idle }
  /-- the facade, stopped by the switch of the boot marker -/
  | updateNoSwitch {v : Int} (hs : c.state = .idle) (hv : c.securityCounter ≤ v)
      {f l : List OpCall} (hf : f = [] ∨ f = [.fetch v true])
      (hl : l = [] ∨ l = [.setBootTarget (otherSlot c.activeSlot) false]) :
      Effect c (.runUpdate v true) .aborted
        (l ++ .write (otherSlot c.activeSlot) v true :: f)
        { c with candidateVersion := v, state := .switching }
  /-- the facade, all the way to the health gate -/
  | update {v : Int} (hs : c.state = .idle) (hv : c.securityCounter ≤ v)
      {f : List OpCall} (hf : f = [] ∨ f = [.fetch v true]) :
      Effect c (.runUpdate v true) .accepted
        (.setBootTarget (otherSlot c.activeSlot) true ::
          .write (otherSlot c.activeSlot) v true :: f)
        { c with candidateVersion := v, state := .healthGate }

/-- Inversion for an accepted request: all three checks have passed, and the candidate is noted.
Nothing else about the coordinator has changed. -/
theorem requestUpdate_accepted {c c' : OtaCoordinator} {v : Int} {sig : Bool}
    (h : c.requestUpdate v sig = (.accepted, c')) :
    sig = true ∧ c.state = .idle ∧ c.securityCounter ≤ v ∧
      c' = { c with candidateVersion := v, state := .downloading } := by
  simp only [OtaCoordinator.requestUpdate] at h
  split_ifs at h with hs hsig hv
  · cases h
  · cases h
  · cases h
  · simp only [Prod.mk.injEq, true_and] at h
    exact ⟨by simpa using hsig, by simpa using hs, by omega, h.symm⟩

/-- A request that is not accepted is rejected, and changes nothing. There is no third kind of
answer, since no operation is invoked. -/
theorem requestUpdate_rejected {c c' : OtaCoordinator} {v : Int} {sig : Bool} {r : Result}
    (h : c.requestUpdate v sig = (r, c')) (hr : r ≠ .accepted) :
    r.isRejected = true ∧ c' = c := by
  simp only [OtaCoordinator.requestUpdate] at h
  split_ifs at h <;> cases h
  · exact ⟨rfl, rfl⟩
  · exact ⟨rfl, rfl⟩
  · exact ⟨rfl, rfl⟩
  · exact absurd rfl hr

/-- What the logged write amounts to: it succeeds and is noted, or it fails, noted or not. It is
not noted if there is no such operation. -/
theorem callOrFail_write (ops : SlotOps ω) (slot : Char) (v : Int) (l : List OpCall) (w : ω) :
    ∃ ok l' w', callOrFail (ops.logged.write.map fun f => f slot v) (l, w) = (ok, l', w') ∧
      (ok = true ∧ l' = .write slot v true :: l ∨
        ok = false ∧ (l' = l ∨ l' = .write slot v false :: l)) := by
  rcases hf : ops.write with _ | f
  · exact ⟨false, l, w, by simp [callOrFail, SlotOps.logged, hf], Or.inr ⟨rfl, Or.inl rfl⟩⟩
  · refine ⟨(f slot v w).1, .write slot v (f slot v w).1 :: l, (f slot v w).2,
      by simp [callOrFail, SlotOps.logged, hf], ?_⟩
    cases (f slot v w).1
    · exact Or.inr ⟨rfl, Or.inr rfl⟩
    · exact Or.inl ⟨rfl, rfl⟩

/-- What the logged switch of the boot marker amounts to, by the same three cases. -/
theorem callOrFail_setBootTarget (ops : SlotOps ω) (slot : Char) (l : List OpCall) (w : ω) :
    ∃ ok l' w', callOrFail (ops.logged.setBootTarget.map fun f => f slot) (l, w) = (ok, l', w') ∧
      (ok = true ∧ l' = .setBootTarget slot true :: l ∨
        ok = false ∧ (l' = l ∨ l' = .setBootTarget slot false :: l)) := by
  rcases hf : ops.setBootTarget with _ | f
  · exact ⟨false, l, w, by simp [callOrFail, SlotOps.logged, hf], Or.inr ⟨rfl, Or.inl rfl⟩⟩
  · refine ⟨(f slot w).1, .setBootTarget slot (f slot w).1 :: l, (f slot w).2,
      by simp [callOrFail, SlotOps.logged, hf], ?_⟩
    cases (f slot w).1
    · exact Or.inr ⟨rfl, Or.inr rfl⟩
    · exact Or.inl ⟨rfl, rfl⟩

/-- What the logged rollback amounts to. Its outcome is of no consequence, so there are two cases
only. -/
theorem callRollback_logged (ops : SlotOps ω) (w : ω) :
    ∃ l w', OtaCoordinator.callRollback ops.logged ([], w) = (l, w') ∧
      (l = [] ∨ l = [.rollbackMarker]) := by
  rcases hf : ops.rollbackMarker with _ | f
  · exact ⟨[], w, by simp [OtaCoordinator.callRollback, SlotOps.logged, hf], Or.inl rfl⟩
  · exact ⟨[.rollbackMarker], f w, by simp [OtaCoordinator.callRollback, SlotOps.logged, hf],
      Or.inr rfl⟩

/-- `beginInstall` in `downloaded`: the write decides whether the state goes on to `installing`
or the call is aborted. -/
theorem beginInstall_downloaded (ops : SlotOps ω) {c : OtaCoordinator}
    (hs : c.state = .downloaded) (l : List OpCall) (w : ω) :
    ∃ l' w',
      (c.beginInstall ops.logged (l, w) = (.accepted, { c with state := .installing }, l', w') ∧
        l' = .write (otherSlot c.activeSlot) c.candidateVersion true :: l) ∨
      (c.beginInstall ops.logged (l, w) = (.aborted, { c with state := .idle }, l', w') ∧
        (l' = l ∨ l' = .write (otherSlot c.activeSlot) c.candidateVersion false :: l)) := by
  obtain ⟨ok, l', w', he, h | h⟩ :=
    callOrFail_write ops (otherSlot c.activeSlot) c.candidateVersion l w
  · exact ⟨l', w', Or.inl ⟨by simp [OtaCoordinator.beginInstall, hs, he, h.1], h.2⟩⟩
  · exact ⟨l', w', Or.inr ⟨by simp [OtaCoordinator.beginInstall, hs, he, h.1], h.2⟩⟩

/-- `switchBootTarget` in `switching`: the marker decides whether the state goes on to
`healthGate`. If it cannot be switched, the coordinator stays where it is. -/
theorem switchBootTarget_switching (ops : SlotOps ω) {c : OtaCoordinator}
    (hs : c.state = .switching) (l : List OpCall) (w : ω) :
    ∃ l' w',
      (c.switchBootTarget ops.logged (l, w) =
          (.accepted, { c with state := .healthGate }, l', w') ∧
        l' = .setBootTarget (otherSlot c.activeSlot) true :: l) ∨
      (c.switchBootTarget ops.logged (l, w) = (.aborted, c, l', w') ∧
        (l' = l ∨ l' = .setBootTarget (otherSlot c.activeSlot) false :: l)) := by
  obtain ⟨ok, l', w', he, h | h⟩ :=
    callOrFail_setBootTarget ops (otherSlot c.activeSlot) l w
  · exact ⟨l', w', Or.inl ⟨by simp [OtaCoordinator.switchBootTarget, hs, he, h.1], h.2⟩⟩
  · exact ⟨l', w', Or.inr ⟨by simp [OtaCoordinator.switchBootTarget, hs, he, h.1], h.2⟩⟩

/-- The facade past an accepted request and a fetch that has left `(f, w)`. The four plumbing
calls are each in the state that they ask for, so only the write and the switch can end it early. -/
theorem runUpdate_fetched (ops : SlotOps ω) {c : OtaCoordinator} {v : Int} {sig : Bool}
    (hreq : c.requestUpdate v sig =
      (.accepted, { c with candidateVersion := v, state := .downloading }))
    {f : List OpCall} {x w : ω}
    (hfetch : callOrSkip (ops.logged.fetch.map fun g => g v) ([], x) = (true, f, w)) :
    ∃ l w',
      (c.runUpdate ops.logged v sig ([], x) =
          (.aborted, { c with candidateVersion := v, state := .idle }, l ++ f, w') ∧
        (l = [] ∨ l = [.write (otherSlot c.activeSlot) v false])) ∨
      (c.runUpdate ops.logged v sig ([], x) =
          (.aborted, { c with candidateVersion := v, state := .switching },
            l ++ .write (otherSlot c.activeSlot) v true :: f, w') ∧
        (l = [] ∨ l = [.setBootTarget (otherSlot c.activeSlot) false])) ∨
      (c.runUpdate ops.logged v sig ([], x) =
          (.accepted, { c with candidateVersion := v, state := .healthGate },
            .setBootTarget (otherSlot c.activeSlot) true ::
              .write (otherSlot c.activeSlot) v true :: f, w')) := by
  obtain ⟨l₁, w₁, ⟨hi, hl₁⟩ | ⟨hi, hl₁⟩⟩ := beginInstall_downloaded ops
    (c := { c with candidateVersion := v, state := .downloaded }) rfl f w
  · obtain ⟨l₂, w₂, ⟨hs, hl₂⟩ | ⟨hs, hl₂⟩⟩ := switchBootTarget_switching ops
      (c := { c with candidateVersion := v, state := .switching }) rfl l₁ w₁
    · refine ⟨[], w₂, Or.inr (Or.inr ?_)⟩
      subst hl₁ hl₂
      dsimp only at hi hs
      simp [OtaCoordinator.runUpdate, hreq, hfetch, OtaCoordinator.onDownloadComplete, hi,
        OtaCoordinator.onInstallComplete, hs]
    · subst hl₁
      have hrun : c.runUpdate ops.logged v sig ([], x) =
          (.aborted, { c with candidateVersion := v, state := .switching }, l₂, w₂) := by
        simp [OtaCoordinator.runUpdate, hreq, hfetch, OtaCoordinator.onDownloadComplete, hi,
          OtaCoordinator.onInstallComplete, hs]
      obtain rfl | rfl := hl₂
      · exact ⟨[], w₂, Or.inr (Or.inl ⟨hrun, Or.inl rfl⟩)⟩
      · exact ⟨[_], w₂, Or.inr (Or.inl ⟨hrun, Or.inr rfl⟩)⟩
  · have hrun : c.runUpdate ops.logged v sig ([], x) =
        (.aborted, { c with candidateVersion := v, state := .idle }, l₁, w₁) := by
      simp [OtaCoordinator.runUpdate, hreq, hfetch, OtaCoordinator.onDownloadComplete, hi]
    obtain rfl | rfl := hl₁
    · exact ⟨[], w₁, Or.inl ⟨hrun, Or.inl rfl⟩⟩
    · exact ⟨[_], w₁, Or.inl ⟨hrun, Or.inr rfl⟩⟩

/-- The facade's effect. It is one call for the caller, and yet up to three operations are
invoked in it. -/
theorem runUpdate_effect (ops : SlotOps ω) (c : OtaCoordinator) (v : Int) (sig : Bool) (w : ω) :
    ∃ r c' l w', c.runUpdate ops.logged v sig ([], w) = (r, c', l, w') ∧
      Effect c (.runUpdate v sig) r l c' := by
  rcases hreq : c.requestUpdate v sig with ⟨r, c₁⟩
  by_cases hr : r = .accepted
  · subst hr
    obtain ⟨rfl, hs, hv, rfl⟩ := requestUpdate_accepted hreq
    rcases hg : ops.logged.fetch with _ | g
    · obtain ⟨l, w', ⟨he, hl⟩ | ⟨he, hl⟩ | he⟩ :=
        runUpdate_fetched (f := []) (x := w) (w := w) ops hreq (by rw [hg]; rfl)
      · exact ⟨_, _, _, _, he, .updateNoWrite hs hv (Or.inl rfl) hl⟩
      · exact ⟨_, _, _, _, he, .updateNoSwitch hs hv (Or.inl rfl) hl⟩
      · exact ⟨_, _, _, _, he, .update hs hv (Or.inl rfl)⟩
    · obtain ⟨g₀, hg₀, rfl⟩ := Option.map_eq_some_iff.mp hg
      rcases hok : g₀ v w with ⟨ok, w₁⟩
      cases ok
      · refine ⟨_, _, _, w₁, ?_, .updateNoFetch hs hv⟩
        simp [OtaCoordinator.runUpdate, hreq, hg, callOrSkip, hok]
      · obtain ⟨l, w', ⟨he, hl⟩ | ⟨he, hl⟩ | he⟩ :=
          runUpdate_fetched (f := [.fetch v true]) (x := w) (w := w₁) ops hreq
            (by rw [hg]; simp [callOrSkip, hok])
        · exact ⟨_, _, _, _, he, .updateNoWrite hs hv (Or.inr rfl) hl⟩
        · exact ⟨_, _, _, _, he, .updateNoSwitch hs hv (Or.inr rfl) hl⟩
        · exact ⟨_, _, _, _, he, .update hs hv (Or.inr rfl)⟩
  · obtain ⟨hrej, rfl⟩ := requestUpdate_rejected hreq hr
    refine ⟨r, _, [], w, ?_, .reject hrej Call.noConfusion⟩
    simp [OtaCoordinator.runUpdate, hreq, hr]

/-- **Every public call has one of the listed effects.** One case for each call and for each
point at which it can stop; nothing below looks into the calls again. -/
theorem perform_effect (ops : SlotOps ω) (call : Call) (c : OtaCoordinator) (w : ω) :
    ∃ r c' l w', perform ops.logged call c ([], w) = (r, c', l, w') ∧ Effect c call r l c' := by
  cases call with
  | runUpdate v sig => exact runUpdate_effect ops c v sig w
  | requestUpdate v sig =>
    rcases hreq : c.requestUpdate v sig with ⟨r, c₁⟩
    refine ⟨r, c₁, [], w, by simp [perform, hreq], ?_⟩
    by_cases hr : r = .accepted
    · subst hr
      obtain ⟨rfl, hs, hv, rfl⟩ := requestUpdate_accepted hreq
      exact .request hs hv
    · obtain ⟨hrej, rfl⟩ := requestUpdate_rejected hreq hr
      exact .reject hrej Call.noConfusion
  | onDownloadComplete =>
    by_cases hs : c.state = .downloading
    · exact ⟨_, _, _, w, by simp only [perform, OtaCoordinator.onDownloadComplete, hs]; rfl,
        .downloaded hs⟩
    · exact ⟨.rejectedState, c, [], w, by simp [perform, OtaCoordinator.onDownloadComplete, hs],
        .reject rfl Call.noConfusion⟩
  | beginInstall =>
    by_cases hs : c.state = .downloaded
    · obtain ⟨l, w', ⟨he, rfl⟩ | ⟨he, hl⟩⟩ := beginInstall_downloaded ops hs [] w
      · exact ⟨_, _, _, w', he, .install hs⟩
      · exact ⟨_, _, l, w', he, .installFailed hs hl⟩
    · exact ⟨.rejectedState, c, [], w, by simp [perform, OtaCoordinator.beginInstall, hs],
        .reject rfl Call.noConfusion⟩
  | onInstallComplete =>
    by_cases hs : c.state = .installing
    · exact ⟨_, _, _, w, by simp only [perform, OtaCoordinator.onInstallComplete, hs]; rfl,
        .installed hs⟩
    · exact ⟨.rejectedState, c, [], w, by simp [perform, OtaCoordinator.onInstallComplete, hs],
        .reject rfl Call.noConfusion⟩
  | switchBootTarget =>
    by_cases hs : c.state = .switching
    · obtain ⟨l, w', ⟨he, rfl⟩ | ⟨he, hl⟩⟩ := switchBootTarget_switching ops hs [] w
      · exact ⟨_, _, _, w', he, .switch hs⟩
      · exact ⟨_, _, l, w', he, .switchFailed hs hl⟩
    · exact ⟨.rejectedState, c, [], w, by simp [perform, OtaCoordinator.switchBootTarget, hs],
        .reject rfl Call.noConfusion⟩
  | onHealth ok =>
    by_cases hs : c.state = .healthGate
    · cases ok
      · obtain ⟨l, w', he, hl⟩ := callRollback_logged ops w
        exact ⟨_, _, l, w', by simp only [perform, OtaCoordinator.onHealth, hs, he]; rfl,
          .rollback hs (Or.inl rfl) hl⟩
      · exact ⟨_, _, [], w, by simp only [perform, OtaCoordinator.onHealth, hs]; rfl,
          .commit hs⟩
    · exact ⟨.rejectedState, c, [], w, by simp [perform, OtaCoordinator.onHealth, hs],
        .reject rfl fun _ => hs⟩
  | forceRollback =>
    by_cases hs : c.state = .healthGate
    · obtain ⟨l, w', he, hl⟩ := callRollback_logged ops w
      exact ⟨_, _, l, w', by simp only [perform, OtaCoordinator.forceRollback, hs, he]; rfl,
        .rollback hs (Or.inr rfl) hl⟩
    · exact ⟨.rejectedState, c, [], w, by simp [perform, OtaCoordinator.forceRollback, hs],
        .reject rfl Call.noConfusion⟩

/-! ## Histories at the level of single operations

A call may invoke several operations, and what an operation must satisfy depends on those before
it in the same call. So the history of calls is flattened to one of operations. -/

/-- One entry of the flattened history, in which the calls of operations stand between the
openings of updates. -/
inductive LogEntry : Type where
  /-- an update was opened for this version, with this signature flag -/
  | opened (version : Int) (signatureValid : Bool)
  /-- an operation was invoked by a call on the coordinator `before` -/
  | op (before : OtaCoordinator) (o : OpCall)

/-- The update a call opened, if its request was not rejected. The facade opens one even if it is
aborted later. -/
def Exchange.opens (e : Exchange) : List LogEntry :=
  match e.call with
  | .requestUpdate v sig | .runUpdate v sig =>
    if e.result.isRejected then [] else [.opened v sig]
  | _ => []

/-- A call in the flattened history: what it invoked, after what it opened. The list is newest
first, so the opening stands behind the operations. -/
def Exchange.entries (e : Exchange) : List LogEntry :=
  e.invoked.map (.op e.before) ++ e.opens

/-- The flattened history, newest first. -/
def log (h : List Exchange) : List LogEntry := h.flatMap Exchange.entries

@[simp] theorem log_cons (e : Exchange) (h : List Exchange) :
    log (e :: h) = e.entries ++ log h := rfl

/-- Not the opening of an update: still the same update. -/
def sameUpdate (a : LogEntry) : Prop := ∀ v sig, a ≠ .opened v sig

/-- A successful write of version `v` to `slot`, by whatever state of the coordinator. -/
def wrote (slot : Char) (v : Int) (a : LogEntry) : Prop := ∃ c, a = .op c (.write slot v true)

@[simp] theorem sameUpdate_op (c : OtaCoordinator) (o : OpCall) : sameUpdate (.op c o) :=
  fun _ _ => LogEntry.noConfusion

@[simp] theorem wrote_op {slot : Char} {v : Int} {c : OtaCoordinator} {o : OpCall} :
    wrote slot v (.op c o) ↔ o = .write slot v true := by
  simp [wrote]

/-- What an invoked operation must satisfy, given everything older. A write
goes to the inactive slot, at or above the security counter, in an update
opened for that version with a valid signature; the marker is switched only to
the inactive slot, after a successful write there, in the same update, of the
version it was opened for. -/
def OpSafe : LogEntry → List LogEntry → Prop
  | .op c (.write slot v _), older =>
    slot = otherSlot c.activeSlot ∧ c.securityCounter ≤ v ∧
      Since sameUpdate (· = .opened v true) older
  | .op c (.setBootTarget slot _), older =>
    slot = otherSlot c.activeSlot ∧
      ∃ v, Since sameUpdate (· = .opened v true) older ∧ Since sameUpdate (wrote slot v) older
  | _, _ => True

/-- What a whole call must satisfy, given the calls before it. Each field is one of the rules of
the update protocol. -/
structure ExchangeSafe (e : Exchange) (older : List Exchange) : Prop where
  /-- slot, version and counter change only when health is confirmed -/
  fields : (e.after.activeSlot, e.after.activeVersion, e.after.securityCounter) ≠
      (e.before.activeSlot, e.before.activeVersion, e.before.securityCounter) →
    e.call = .onHealth true ∧ e.before.state = .healthGate
  /-- and then to the slot and the version written in this update -/
  commit : e.call = .onHealth true → e.before.state = .healthGate →
    e.after.activeVersion = e.before.candidateVersion ∧
      e.after.securityCounter = e.before.candidateVersion ∧
      Since sameUpdate (wrote e.after.activeSlot e.before.candidateVersion) (log older)
  /-- the counter never decreases -/
  counter : e.before.securityCounter ≤ e.after.securityCounter
  /-- a rejected call does nothing -/
  rejected : e.result.isRejected = true → e.invoked = [] ∧ e.after = e.before
  /-- the terminal states absorb -/
  absorbing : e.before.state = .committed ∨ e.before.state = .rolledBack →
    e.after.state = e.before.state

/-! ## The history invariant

Both halves speak of the update in progress: everything since the latest opening. -/

/-- Inside an update. -/
def State.inUpdate : State → Bool
  | .downloading | .downloaded | .installing | .switching | .healthGate => true
  | .idle | .committed | .rolledBack => false

/-- Inside an update, past the write. -/
def State.hasWritten : State → Bool
  | .installing | .switching | .healthGate => true
  | .idle | .downloading | .downloaded | .committed | .rolledBack => false

/-- A coordinator inside an update was opened for its candidate, which passed
the counter check. -/
def Opened (h : List Exchange) (c : OtaCoordinator) : Prop :=
  c.state.inUpdate = true →
    Since sameUpdate (· = .opened c.candidateVersion true) (log h) ∧
      c.securityCounter ≤ c.candidateVersion

/-- Past the write, the candidate sits in the inactive slot: it was written there since the
update was opened. This is what a commit relies on. -/
def Written (h : List Exchange) (c : OtaCoordinator) : Prop :=
  c.state.hasWritten = true →
    Since sameUpdate (wrote (otherSlot c.activeSlot) c.candidateVersion) (log h)

/-- Operations do not end an update, so what has held since its opening still does after some of
them. -/
theorem since_ops {Q : LogEntry → Prop} {l : List LogEntry} (hl : Since sameUpdate Q l)
    (c : OtaCoordinator) (os : List OpCall) : Since sameUpdate Q (os.map (.op c) ++ l) := by
  apply hl.append
  intro a ha
  obtain ⟨o, -, rfl⟩ := List.mem_map.mp ha
  exact sameUpdate_op c o

/-- A call that opens no update keeps what held since the last opening. -/
theorem since_entries {Q : LogEntry → Prop} {h : List Exchange} {e : Exchange}
    (hl : Since sameUpdate Q (log h)) (he : e.opens = []) :
    Since sameUpdate Q (log (e :: h)) := by
  rw [log_cons, Exchange.entries, he, List.append_nil]
  exact since_ops hl _ _

variable {h : List Exchange} {c c' : OtaCoordinator} {call : Call} {r : Result}
  {l : List OpCall}

/-- A rejected call adds nothing to the flattened history: it opens nothing, and invokes nothing. -/
theorem entries_of_rejected (hr : r.isRejected = true) :
    Exchange.entries ⟨call, c, r, [], c'⟩ = [] := by
  cases call <;> simp [Exchange.entries, Exchange.opens, hr]

/-- The facade in the flattened history. -/
theorem log_runUpdate {v : Int} (hr : r.isRejected = false) :
    log (⟨.runUpdate v true, c, r, l, c'⟩ :: h) =
      l.map (.op c) ++ .opened v true :: log h := by
  simp [Exchange.entries, Exchange.opens, hr]

/-- `Opened` survives every call. Only a request can open an update, and only in `idle`. -/
theorem effect_opened (ho : Opened h c) (he : Effect c call r l c') :
    Opened (⟨call, c, r, l, c'⟩ :: h) c' := by
  intro hs
  cases he with
  | reject hr _ =>
    rw [log_cons, entries_of_rejected hr]
    exact ho hs
  | request _ hv => exact ⟨Or.inl rfl, hv⟩
  | downloaded hd =>
    obtain ⟨h₁, h₂⟩ := ho (by rw [hd]; rfl)
    exact ⟨since_entries h₁ rfl, h₂⟩
  | install hd =>
    obtain ⟨h₁, h₂⟩ := ho (by rw [hd]; rfl)
    exact ⟨since_entries h₁ rfl, h₂⟩
  | installed hd =>
    obtain ⟨h₁, h₂⟩ := ho (by rw [hd]; rfl)
    exact ⟨since_entries h₁ rfl, h₂⟩
  | switch hd =>
    obtain ⟨h₁, h₂⟩ := ho (by rw [hd]; rfl)
    exact ⟨since_entries h₁ rfl, h₂⟩
  | switchFailed hd =>
    obtain ⟨h₁, h₂⟩ := ho (by rw [hd]; rfl)
    exact ⟨since_entries h₁ rfl, h₂⟩
  | @updateNoSwitch v _ hv =>
    refine ⟨?_, hv⟩
    rw [log_runUpdate rfl]
    exact since_ops (Since.head (Q := (· = .opened v true)) (l := log h) rfl) _ _
  | @update v _ hv =>
    refine ⟨?_, hv⟩
    rw [log_runUpdate rfl]
    exact since_ops (Since.head (Q := (· = .opened v true)) (l := log h) rfl) _ _
  | _ => cases hs

/-- `Written` survives every call. The one that makes it true is the write; afterwards the slots
and the candidate stay as they are until the update ends. -/
theorem effect_written (hw : Written h c) (he : Effect c call r l c') :
    Written (⟨call, c, r, l, c'⟩ :: h) c' := by
  intro hs
  cases he with
  | reject hr _ =>
    rw [log_cons, entries_of_rejected hr]
    exact hw hs
  | install hd => exact Or.inl (wrote_op.mpr rfl)
  | installed hd => exact since_entries (hw (by rw [hd]; rfl)) rfl
  | switch hd => exact since_entries (hw (by rw [hd]; rfl)) rfl
  | switchFailed hd => exact since_entries (hw (by rw [hd]; rfl)) rfl
  | @updateNoSwitch v _ _ f l _ _ =>
    rw [log_runUpdate rfl, List.map_append, List.append_assoc]
    exact since_ops (Since.head (wrote_op.mpr rfl)) _ _
  | update => exact Or.inr ⟨sameUpdate_op _ _, Or.inl (wrote_op.mpr rfl)⟩
  | _ => cases hs

/-- A fetch in front of a safe history. Fetching is safe at any time, since it touches no slot. -/
theorem always_fetch {f : List OpCall} {v : Int} {ok : Bool} {older : List LogEntry}
    (hl : Always OpSafe older) (hf : f = [] ∨ f = [.fetch v ok]) :
    Always OpSafe (f.map (.op c) ++ older) := by
  obtain rfl | rfl := hf
  · exact hl
  · exact ⟨trivial, hl⟩

/-- Every operation a call invokes is safe. The plumbing calls rely on the invariant for what
happened earlier in the update; the facade opens an update itself. -/
theorem effect_opSafe (ho : Opened h c) (hw : Written h c) (he : Effect c call r l c')
    (hl : Always OpSafe (log h)) : Always OpSafe (log (⟨call, c, r, l, c'⟩ :: h)) := by
  cases he with
  | reject hr _ =>
    rw [log_cons, entries_of_rejected hr]
    exact hl
  | request => exact ⟨trivial, hl⟩
  | downloaded => exact hl
  | install hd =>
    obtain ⟨h₁, h₂⟩ := ho (by rw [hd]; rfl)
    exact ⟨⟨rfl, h₂, h₁⟩, hl⟩
  | installFailed hd hf =>
    obtain ⟨h₁, h₂⟩ := ho (by rw [hd]; rfl)
    obtain rfl | rfl := hf
    · exact hl
    · exact ⟨⟨rfl, h₂, h₁⟩, hl⟩
  | installed => exact hl
  | switch hd =>
    exact ⟨⟨rfl, _, (ho (by rw [hd]; rfl)).1, hw (by rw [hd]; rfl)⟩, hl⟩
  | switchFailed hd hf =>
    obtain rfl | rfl := hf
    · exact hl
    · exact ⟨⟨rfl, _, (ho (by rw [hd]; rfl)).1, hw (by rw [hd]; rfl)⟩, hl⟩
  | commit => exact hl
  | rollback _ hc hf =>
    obtain rfl | rfl := hc <;> rcases hf with rfl | rfl
    · exact hl
    · exact ⟨trivial, hl⟩
    · exact hl
    · exact ⟨trivial, hl⟩
  | updateNoFetch => exact ⟨trivial, trivial, hl⟩
  | @updateNoWrite v _ hv f l hf hg =>
    rw [log_runUpdate rfl, List.map_append, List.append_assoc]
    have hopen : Always OpSafe (.opened v true :: log h) := ⟨trivial, hl⟩
    have hsince := since_ops (Q := (· = .opened v true)) (Since.head (l := log h) rfl) c f
    have hwrite := always_fetch (c := c) hopen hf
    obtain rfl | rfl := hg
    · exact hwrite
    · exact ⟨⟨rfl, hv, hsince⟩, hwrite⟩
  | @updateNoSwitch v _ hv f l hf hg =>
    rw [log_runUpdate rfl, List.map_append, List.append_assoc]
    have hopen : Always OpSafe (.opened v true :: log h) := ⟨trivial, hl⟩
    have hsince := since_ops (Q := (· = .opened v true)) (Since.head (l := log h) rfl) c f
    have hwrite := always_fetch (c := c) hopen hf
    obtain rfl | rfl := hg
    · exact ⟨⟨rfl, hv, hsince⟩, hwrite⟩
    · exact ⟨⟨rfl, v, Or.inr ⟨sameUpdate_op _ _, hsince⟩, Since.head (wrote_op.mpr rfl)⟩,
        ⟨rfl, hv, hsince⟩, hwrite⟩
  | @update v _ hv f hf =>
    rw [log_runUpdate rfl]
    have hopen : Always OpSafe (.opened v true :: log h) := ⟨trivial, hl⟩
    have hsince := since_ops (Q := (· = .opened v true)) (Since.head (l := log h) rfl) c f
    exact ⟨⟨rfl, v, Or.inr ⟨sameUpdate_op _ _, hsince⟩, Since.head (wrote_op.mpr rfl)⟩,
      ⟨rfl, hv, hsince⟩, always_fetch hopen hf⟩

/-- A call that leaves slot, version and counter alone, is not a confirmation
in the health gate, and does not move a terminal state is safe as a whole. -/
theorem ExchangeSafe.of_fields (hs : c'.activeSlot = c.activeSlot)
    (hv : c'.activeVersion = c.activeVersion) (hk : c'.securityCounter = c.securityCounter)
    (hc : call = .onHealth true → c.state ≠ .healthGate)
    (hr : r.isRejected = true → l = [] ∧ c' = c)
    (ht : c.state = .committed ∨ c.state = .rolledBack → c'.state = c.state) :
    ExchangeSafe ⟨call, c, r, l, c'⟩ h where
  fields hne := absurd (by rw [hs, hv, hk]) hne
  commit he hg := absurd hg (hc he)
  counter := Int.le_of_eq hk.symm
  rejected := hr
  absorbing := ht

/-- Every call is safe as a whole, by cases on its effect. Only the confirmation of the health
gate changes fields, and `Written` says what it commits. -/
theorem effect_exchangeSafe (ho : Opened h c) (hw : Written h c) (he : Effect c call r l c') :
    ExchangeSafe ⟨call, c, r, l, c'⟩ h := by
  cases he with
  | reject _ hh => exact .of_fields rfl rfl rfl hh (fun _ => ⟨rfl, rfl⟩) fun _ => rfl
  | commit hd =>
    have hle : c.securityCounter ≤ c.candidateVersion := (ho (by rw [hd]; rfl)).2
    have hcounter : (if c.candidateVersion > c.securityCounter then c.candidateVersion
        else c.securityCounter) = c.candidateVersion := by
      split
      · rfl
      · omega
    exact
      { fields := fun _ => ⟨rfl, hd⟩
        commit := fun _ _ => ⟨rfl, hcounter, hw (by rw [hd]; rfl)⟩
        counter := by rw [hcounter]; exact hle
        rejected := Bool.noConfusion
        absorbing := fun ht => by rw [hd] at ht; simp at ht }
  | rollback hd hc =>
    refine .of_fields rfl rfl rfl (fun he => ?_) Bool.noConfusion fun ht => ?_
    · obtain rfl | rfl := hc <;> cases he
    · rw [hd] at ht
      simp at ht
  | switchFailed hd =>
    exact .of_fields rfl rfl rfl Call.noConfusion Bool.noConfusion fun _ => rfl
  | request hd | downloaded hd | install hd | installFailed hd | installed hd | switch hd
  | updateNoFetch hd | updateNoWrite hd | updateNoSwitch hd | update hd =>
    refine .of_fields rfl rfl rfl Call.noConfusion Bool.noConfusion fun ht => ?_
    rw [hd] at ht
    simp at ht

/-! ## The run theorem

Histories of calls that are safe one by one, from any coordinator that is idle at the start. -/

/-- A history in which every invoked operation and every call is safe. Operations are judged in
the flattened history, where "since the update was opened" can be said. -/
structure CoordinatorSafe (h : List Exchange) : Prop where
  ops : Always OpSafe (log h)
  calls : Always ExchangeSafe h

/-- **The coordinator is safe over every call sequence**, whatever the slot, version and counter
it starts with and whatever the operations do. Calls out of order are part of the runs: they are
rejected, and do nothing. -/
theorem coordinator_safe (ops : SlotOps ω) (activeSlot : Char)
    (activeVersion securityCounter : Int) (w : ω) {h : List Exchange}
    {s : OtaCoordinator × ω}
    (hr : Run (Step ops) (OtaCoordinator.new activeSlot activeVersion securityCounter, w) h s) :
    CoordinatorSafe h := by
  have hinv : CoordinatorSafe h ∧ Opened h s.1 ∧ Written h s.1 := by
    refine hr.invariant (I := fun h s => CoordinatorSafe h ∧ Opened h s.1 ∧ Written h s.1)
      ⟨⟨trivial, trivial⟩, Bool.noConfusion, Bool.noConfusion⟩ ?_
    rintro h ⟨c, w⟩ ⟨call, before, r, l, after⟩ ⟨c', w'⟩ ⟨⟨hops, hcalls⟩, ho, hw⟩
      ⟨rfl, rfl, hp⟩
    obtain ⟨r', c'', l', w'', hp', he⟩ := perform_effect ops call before w
    obtain ⟨rfl, rfl, rfl, rfl⟩ : r = r' ∧ after = c'' ∧ l = l' ∧ w' = w'' := by
      rw [hp'] at hp
      simp only [Prod.mk.injEq] at hp
      exact ⟨hp.1.symm, hp.2.1.symm, hp.2.2.1.symm, hp.2.2.2.symm⟩
    exact ⟨⟨effect_opSafe ho hw he hops, effect_exchangeSafe ho hw he, hcalls⟩,
      effect_opened ho he, effect_written hw he⟩
  exact hinv.1

/-- Slot operations that always succeed. -/
def reliableOps : SlotOps Unit where
  fetch := none
  write := some fun _ _ w => (true, w)
  setBootTarget := some fun _ w => (true, w)
  rollbackMarker := some id

/-- An update that is confirmed. -/
theorem coordinator_safe_commit :
    CoordinatorSafe
      [{ call := .onHealth true
         before := { state := .healthGate, activeSlot := 'A', activeVersion := 1,
                     securityCounter := 1, candidateVersion := 2 }
         result := .accepted
         invoked := []
         after := { state := .committed, activeSlot := 'B', activeVersion := 2,
                    securityCounter := 2, candidateVersion := 2 } },
       { call := .runUpdate 2 true
         before := .new 'A' 1 1
         result := .accepted
         invoked := [.setBootTarget 'B' true, .write 'B' 2 true]
         after := { state := .healthGate, activeSlot := 'A', activeVersion := 1,
                    securityCounter := 1, candidateVersion := 2 } }] :=
  coordinator_safe reliableOps 'A' 1 1 ()
    (.snoc (t := (_, ())) (.snoc (t := (_, ())) .start ⟨rfl, rfl, rfl⟩) ⟨rfl, rfl, rfl⟩)

/-! ## The facade

`runUpdate` goes through all states of an update in one call, so it could hide everything that
goes wrong in between. It does so but for one state. -/

/-- The outcome of `runUpdate` on an idle coordinator: in the health gate with
the boot marker switched, or back to `idle` as if nothing had been asked. -/
def AtomicOutcome (c : OtaCoordinator) (r : Result) (c' : OtaCoordinator) (l : List OpCall) :
    Prop :=
  (r = .accepted ∧ c'.state = .healthGate ∧ .setBootTarget (otherSlot c.activeSlot) true ∈ l) ∨
  (r ≠ .accepted ∧ c'.state = .idle ∧ (∀ slot, .setBootTarget slot true ∉ l) ∧
    c'.activeSlot = c.activeSlot ∧ c'.activeVersion = c.activeVersion ∧
    c'.securityCounter = c.securityCounter ∧
    ∀ v, c.securityCounter ≤ v → (c'.requestUpdate v true).1 = .accepted)

/-- `runUpdate` called on `c` in world `w` has such an outcome. -/
def UpdateAtomic (ops : SlotOps ω) (c : OtaCoordinator) (v : Int) (sig : Bool) (w : ω) : Prop :=
  let out := c.runUpdate ops.logged v sig ([], w)
  AtomicOutcome c out.1 out.2.1 out.2.2.1

/-- The image is fetched and written, and then the marker cannot be switched: the one way to
leave the facade in the middle of an update. -/
def switchFails (ops : SlotOps ω) (c : OtaCoordinator) (v : Int) (w : ω) : Bool :=
  let (fetched, w) := callOrSkip (ops.fetch.map fun f => f v) w
  let (written, w) := callOrFail (ops.write.map fun f => f (otherSlot c.activeSlot) v) w
  let (switched, _) := callOrFail (ops.setBootTarget.map fun f => f (otherSlot c.activeSlot)) w
  fetched && written && !switched

/-- The one way the facade can leave the coordinator in `switching`: everything before the switch
has succeeded, and the switch has not. -/
theorem runUpdate_switching_iff (ops : SlotOps ω) {c : OtaCoordinator} (hs : c.state = .idle)
    (v : Int) (sig : Bool) (w : ω) :
    (c.runUpdate ops v sig w).2.1.state = .switching ↔
      sig = true ∧ c.securityCounter ≤ v ∧ switchFails ops c v w = true := by
  by_cases hreq : sig = true ∧ c.securityCounter ≤ v
  · obtain ⟨rfl, hv⟩ := hreq
    have hnot : ¬ v < c.securityCounter := by omega
    rcases hf : callOrSkip (ops.fetch.map fun f => f v) w with ⟨fetched, w₁⟩
    rcases hw : callOrFail (ops.write.map fun f => f (otherSlot c.activeSlot) v) w₁ with
      ⟨written, w₂⟩
    rcases hb : callOrFail (ops.setBootTarget.map fun f => f (otherSlot c.activeSlot)) w₂ with
      ⟨switched, w₃⟩
    cases fetched <;> cases written <;> cases switched <;>
      simp [OtaCoordinator.runUpdate, OtaCoordinator.requestUpdate, hs, hnot, hv, hf, hw, hb,
        OtaCoordinator.onDownloadComplete, OtaCoordinator.beginInstall,
        OtaCoordinator.onInstallComplete, OtaCoordinator.switchBootTarget, switchFails]
  · rcases hout : c.requestUpdate v sig with ⟨r, c'⟩
    have hr : r ≠ .accepted := by
      rintro rfl
      obtain ⟨hsig, -, hv, -⟩ := requestUpdate_accepted hout
      exact hreq ⟨hsig, hv⟩
    obtain ⟨-, rfl⟩ := requestUpdate_rejected hout hr
    simp only [OtaCoordinator.runUpdate, hout, if_pos hr, hs]
    refine iff_of_false State.noConfusion fun h => hreq ⟨h.1, h.2.1⟩

/-- An idle coordinator accepts whatever its counter allows. -/
theorem requestUpdate_idle {c : OtaCoordinator} (hs : c.state = .idle) {v : Int}
    (hv : c.securityCounter ≤ v) : (c.requestUpdate v true).1 = .accepted := by
  have hnot : ¬ v < c.securityCounter := by omega
  simp [OtaCoordinator.requestUpdate, hs, hnot]

/-- Every outcome is atomic but the one that stays in `switching`. By cases on the effect of the
facade. -/
theorem effect_atomic_iff {c c' : OtaCoordinator} {v : Int} {sig : Bool} {r : Result}
    {l : List OpCall} (hs : c.state = .idle) (he : Effect c (.runUpdate v sig) r l c') :
    AtomicOutcome c r c' l ↔ c'.state ≠ .switching := by
  cases he with
  | reject hr _ =>
    refine iff_of_true (Or.inr ⟨?_, hs, by simp, rfl, rfl, rfl, ?_⟩) (by rw [hs]; decide)
    · rintro rfl
      cases hr
    · exact fun _ => requestUpdate_idle hs
  | rollback _ hc => rcases hc with hc | hc <;> cases hc
  | @updateNoFetch v =>
    exact iff_of_true
      (Or.inr ⟨Result.noConfusion, rfl, by simp, rfl, rfl, rfl,
        fun _ => requestUpdate_idle (c := { c with candidateVersion := v, state := .idle }) rfl⟩)
      State.noConfusion
  | @updateNoWrite v _ _ _ _ hf hl =>
    refine iff_of_true
      (Or.inr ⟨Result.noConfusion, rfl, ?_, rfl, rfl, rfl,
        fun _ => requestUpdate_idle (c := { c with candidateVersion := v, state := .idle }) rfl⟩)
      State.noConfusion
    obtain rfl | rfl := hf <;> rcases hl with rfl | rfl <;> simp
  | updateNoSwitch _ _ _ _ =>
    refine iff_of_false ?_ (by simp)
    rintro (⟨h, -⟩ | ⟨-, h, -⟩)
    · cases h
    · cases h
  | update _ _ _ =>
    exact iff_of_true (Or.inl ⟨rfl, rfl, List.mem_cons_self ..⟩) (by simp)

/-- **The facade is atomic exactly when the switch of the boot marker does not
fail** after an accepted request, a good fetch and a good write. In that one
case the coordinator stays in `switching`. -/
theorem runUpdate_atomic_iff (ops : SlotOps ω) {c : OtaCoordinator} (hs : c.state = .idle)
    (v : Int) (sig : Bool) (w : ω) :
    UpdateAtomic ops c v sig w ↔
      ¬ (sig = true ∧ c.securityCounter ≤ v ∧ switchFails ops c v w = true) := by
  obtain ⟨r, c', l, w', hrun, he⟩ := runUpdate_effect ops c v sig w
  have hraw : (c.runUpdate ops v sig w).2.1 = c' := by
    rw [← runUpdate_logged ops v sig c ([], w), hrun]
    rfl
  rw [← runUpdate_switching_iff ops hs, hraw]
  simp only [UpdateAtomic]
  rw [hrun]
  exact effect_atomic_iff hs he

/-- An update to version 2 with operations that succeed. -/
theorem runUpdate_atomic_iff_reliable :
    UpdateAtomic reliableOps (.new 'A' 1 1) 2 true () ↔
      ¬ (true = true ∧ (1 : Int) ≤ 2 ∧ switchFails reliableOps (.new 'A' 1 1) 2 () = true) :=
  runUpdate_atomic_iff reliableOps rfl 2 true ()

/-- Operations whose switch of the boot marker fails. -/
def stuckMarkerOps : SlotOps Unit := { reliableOps with setBootTarget := some fun _ w => (false, w) }

/-- With them the same update leaves the coordinator in `switching`, where the
next one is refused. -/
theorem runUpdate_stuck :
    ¬ UpdateAtomic stuckMarkerOps (.new 'A' 1 1) 2 true () ∧
      ((OtaCoordinator.new 'A' 1 1).runUpdate stuckMarkerOps 2 true ()).2.1.state = .switching ∧
      (((OtaCoordinator.new 'A' 1 1).runUpdate stuckMarkerOps 2 true ()).2.1.runUpdate
        reliableOps 2 true ()).1 = .rejectedState := by
  refine ⟨?_, rfl, rfl⟩
  rintro (⟨h, -⟩ | ⟨-, h, -⟩)
  · cases h
  · cases h

end AmrFramework.Ota
