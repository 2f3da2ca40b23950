import Mathlib.Algebra.Group.Int.Defs
import Mathlib.Order.Basic
import AmrFramework.Runs

/-!
# The OTA coordinator

`OtaCoordinator` is the decision half of an A/B update: a state machine

`idle → downloading → downloaded → installing → switching → healthGate →
committed / rolledBack`

that never touches a partition itself. The physical operations (fetch, write a
slot, switch the boot marker, put it back) are injected; here they are
functions on a world `ω` of the caller's choosing, so that every outcome and
every side effect an implementation can have is some choice of `ω` and of the
four functions. An absent `std::function` is `none`.

`perform` runs one public call; `Exchange` records what a call did, and
`Step` is the labelled step relation whose runs are the call sequences.
-/

namespace AmrFramework.Ota

universe u

variable {ω : Type u}

/-- The coordinator's states, in the order of an update. One is opened in `idle` only, and ends
in `committed` or `rolledBack`. -/
inductive State : Type where
  | idle | downloading | downloaded | installing | switching | healthGate
  | committed | rolledBack
  deriving DecidableEq, Repr

/-- What a call returns. -/
inductive Result : Type where
  | accepted
  /-- signature check failed, nothing touched -/
  | rejectedSignature
  /-- candidate below the security counter -/
  | rejectedVersion
  /-- wrong state for this call -/
  | rejectedState
  /-- an operation failed; the old system is intact -/
  | aborted
  deriving DecidableEq, Repr

/-- A `REJECTED_*` result. `aborted` is not one: it may come after operations have been invoked. -/
def Result.isRejected : Result → Bool
  | .rejectedSignature | .rejectedVersion | .rejectedState => true
  | .accepted | .aborted => false

/-- The injected slot operations, acting on a world `ω`. Each may fail, and may do anything to
the world. `fetch` may be absent; without `write` or `setBootTarget` their step fails. -/
structure SlotOps (ω : Type u) : Type u where
  /-- download the image of a version; absent = already in place -/
  fetch : Option (Int → ω → Bool × ω)
  /-- write a version to a slot -/
  write : Option (Char → Int → ω → Bool × ω)
  /-- point the boot marker at a slot -/
  setBootTarget : Option (Char → ω → Bool × ω)
  /-- put the boot marker back to the old slot -/
  rollbackMarker : Option (ω → ω)

/-- The coordinator's fields (`ops_` is passed to the calls instead). -/
structure OtaCoordinator : Type where
  state : State := .idle
  activeSlot : Char
  activeVersion : Int
  securityCounter : Int
  candidateVersion : Int := 0
  deriving DecidableEq, Repr

/-- The other one of the two slots. Anything that is not `A` has `A` as the other one. -/
def otherSlot (s : Char) : Char := if s = 'A' then 'B' else 'A'

theorem otherSlot_ne (s : Char) : otherSlot s ≠ s := by
  simp only [otherSlot]
  split
  · next h => rw [h]; decide
  · next h => exact Ne.symm h

/-- `!op || !op(...)` read positively: an absent operation counts as failed. -/
def callOrFail (op : Option (ω → Bool × ω)) (w : ω) : Bool × ω :=
  match op with
  | none => (false, w)
  | some f => f w

/-- `op && !op(...)` read positively: an absent operation counts as done. -/
def callOrSkip (op : Option (ω → Bool × ω)) (w : ω) : Bool × ω :=
  match op with
  | none => (true, w)
  | some f => f w

namespace OtaCoordinator

/-- Open an update: state, signature and anti-rollback checks, in that order. The version may be
the one that is installed. -/
def requestUpdate (candidateVersion : Int) (signatureValid : Bool) (c : OtaCoordinator) :
    Result × OtaCoordinator :=
  if c.state ≠ .idle then (.rejectedState, c)
  else if !signatureValid then (.rejectedSignature, c)
  else if candidateVersion < c.securityCounter then (.rejectedVersion, c)
  else (.accepted, { c with candidateVersion := candidateVersion, state := .downloading })

/-- The image has arrived. -/
def onDownloadComplete (c : OtaCoordinator) : Result × OtaCoordinator :=
  if c.state ≠ .downloading then (.rejectedState, c)
  else (.accepted, { c with state := .downloaded })

/-- Write the candidate to the inactive slot. A failure leaves the coordinator in `downloaded`,
from where it may be tried again. -/
def beginInstall (ops : SlotOps ω) (c : OtaCoordinator) (w : ω) :
    Result × OtaCoordinator × ω :=
  if c.state ≠ .downloaded then (.rejectedState, c, w)
  else
    let inactive := otherSlot c.activeSlot
    let (ok, w) := callOrFail (ops.write.map fun f => f inactive c.candidateVersion) w
    if !ok then (.aborted, { c with state := .idle }, w)
    else (.accepted, { c with state := .installing }, w)

/-- The write has been confirmed. -/
def onInstallComplete (c : OtaCoordinator) : Result × OtaCoordinator :=
  if c.state ≠ .installing then (.rejectedState, c)
  else (.accepted, { c with state := .switching })

/-- Point the boot marker at the candidate's slot. A failure leaves the state
as it is. -/
def switchBootTarget (ops : SlotOps ω) (c : OtaCoordinator) (w : ω) :
    Result × OtaCoordinator × ω :=
  if c.state ≠ .switching then (.rejectedState, c, w)
  else
    let inactive := otherSlot c.activeSlot
    let (ok, w) := callOrFail (ops.setBootTarget.map fun f => f inactive) w
    if !ok then (.aborted, c, w)
    else (.accepted, { c with state := .healthGate }, w)

/-- `if (ops_.rollback_marker) ops_.rollback_marker()`. What it returns is not looked at, since
it returns nothing. -/
def callRollback (ops : SlotOps ω) (w : ω) : ω :=
  match ops.rollbackMarker with
  | none => w
  | some f => f w

/-- The health verdict after the reboot: commit or roll back. This is the only call that changes
the active slot, its version or the security counter. -/
def onHealth (ops : SlotOps ω) (ok : Bool) (c : OtaCoordinator) (w : ω) :
    Result × OtaCoordinator × ω :=
  if c.state ≠ .healthGate then (.rejectedState, c, w)
  else if ok then
    (.accepted,
      { c with
        activeSlot := otherSlot c.activeSlot
        activeVersion := c.candidateVersion
        securityCounter :=
          if c.candidateVersion > c.securityCounter then c.candidateVersion
          else c.securityCounter
        state := .committed }, w)
  else (.accepted, { c with state := .rolledBack }, callRollback ops w)

/-- The health gate timed out. The same end as a negative verdict. -/
def forceRollback (ops : SlotOps ω) (c : OtaCoordinator) (w : ω) :
    Result × OtaCoordinator × ω :=
  if c.state ≠ .healthGate then (.rejectedState, c, w)
  else (.accepted, { c with state := .rolledBack }, callRollback ops w)

/-- The one-call facade: request, fetch, and the four plumbing calls, leaving
at the first one that is not accepted. -/
def runUpdate (ops : SlotOps ω) (candidateVersion : Int) (signatureValid : Bool)
    (c : OtaCoordinator) (w : ω) : Result × OtaCoordinator × ω :=
  let (r, c) := requestUpdate candidateVersion signatureValid c
  if r ≠ .accepted then (r, c, w)
  else
    let (ok, w) := callOrSkip (ops.fetch.map fun f => f candidateVersion) w
    if !ok then (.aborted, { c with state := .idle }, w)
    else
      let (r, c) := onDownloadComplete c
      if r ≠ .accepted then (r, c, w)
      else
        let (r, c, w) := beginInstall ops c w
        if r ≠ .accepted then (r, c, w)
        else
          let (r, c) := onInstallComplete c
          if r ≠ .accepted then (r, c, w)
          else switchBootTarget ops c w

end OtaCoordinator

/-! ## Call sequences

The calls can come in any order. Each is performed with operations that note that they were
invoked, which changes nothing else (`perform_logged`). -/

/-- A public call of the coordinator. -/
inductive Call : Type where
  | runUpdate (candidateVersion : Int) (signatureValid : Bool)
  | requestUpdate (candidateVersion : Int) (signatureValid : Bool)
  | onDownloadComplete
  | beginInstall
  | onInstallComplete
  | switchBootTarget
  | onHealth (ok : Bool)
  | forceRollback
  deriving DecidableEq, Repr

/-- Perform one public call. Calls that invoke no operation leave the world as it is. -/
def perform (ops : SlotOps ω) (call : Call) (c : OtaCoordinator) (w : ω) :
    Result × OtaCoordinator × ω :=
  match call with
  | .runUpdate v sig => c.runUpdate ops v sig w
  | .requestUpdate v sig => let (r, c) := c.requestUpdate v sig; (r, c, w)
  | .onDownloadComplete => let (r, c) := c.onDownloadComplete; (r, c, w)
  | .beginInstall => c.beginInstall ops w
  | .onInstallComplete => let (r, c) := c.onInstallComplete; (r, c, w)
  | .switchBootTarget => c.switchBootTarget ops w
  | .onHealth ok => c.onHealth ops ok w
  | .forceRollback => c.forceRollback ops w

/-- An invocation of an injected operation, with its outcome. -/
inductive OpCall : Type where
  | fetch (version : Int) (ok : Bool)
  | write (slot : Char) (version : Int) (ok : Bool)
  | setBootTarget (slot : Char) (ok : Bool)
  | rollbackMarker
  deriving DecidableEq, Repr

/-- The same operations, noting every invocation in front of a list. An absent operation stays
absent, so that it is not noted either. -/
def SlotOps.logged (ops : SlotOps ω) : SlotOps (List OpCall × ω) where
  fetch := ops.fetch.map fun f v lw =>
    let (ok, w) := f v lw.2
    (ok, .fetch v ok :: lw.1, w)
  write := ops.write.map fun f slot v lw =>
    let (ok, w) := f slot v lw.2
    (ok, .write slot v ok :: lw.1, w)
  setBootTarget := ops.setBootTarget.map fun f slot lw =>
    let (ok, w) := f slot lw.2
    (ok, .setBootTarget slot ok :: lw.1, w)
  rollbackMarker := ops.rollbackMarker.map fun f lw => (.rollbackMarker :: lw.1, f lw.2)

/-- A logged outcome without its log. -/
def unlogged (x : Result × OtaCoordinator × List OpCall × ω) : Result × OtaCoordinator × ω :=
  (x.1, x.2.1, x.2.2.2)

theorem beginInstall_logged (ops : SlotOps ω) (c : OtaCoordinator) (lw : List OpCall × ω) :
    unlogged (c.beginInstall ops.logged lw) = c.beginInstall ops lw.2 := by
  simp only [OtaCoordinator.beginInstall]
  split
  · rfl
  · rcases hf : ops.write with _ | f
    · simp [SlotOps.logged, hf, callOrFail, unlogged]
    · rcases hok : f (otherSlot c.activeSlot) c.candidateVersion lw.2 with ⟨ok, w⟩
      cases ok <;> simp [SlotOps.logged, hf, callOrFail, unlogged, hok]

theorem switchBootTarget_logged (ops : SlotOps ω) (c : OtaCoordinator)
    (lw : List OpCall × ω) :
    unlogged (c.switchBootTarget ops.logged lw) = c.switchBootTarget ops lw.2 := by
  simp only [OtaCoordinator.switchBootTarget]
  split
  · rfl
  · rcases hf : ops.setBootTarget with _ | f
    · simp [SlotOps.logged, hf, callOrFail, unlogged]
    · rcases hok : f (otherSlot c.activeSlot) lw.2 with ⟨ok, w⟩
      cases ok <;> simp [SlotOps.logged, hf, callOrFail, unlogged, hok]

theorem callOrSkip_fetch_logged (ops : SlotOps ω) (v : Int) (lw : List OpCall × ω) :
    ∃ l, callOrSkip (ops.logged.fetch.map fun f => f v) lw =
      ((callOrSkip (ops.fetch.map fun f => f v) lw.2).1, l,
        (callOrSkip (ops.fetch.map fun f => f v) lw.2).2) := by
  rcases hf : ops.fetch with _ | f
  · exact ⟨lw.1, by simp [SlotOps.logged, hf, callOrSkip]⟩
  · exact ⟨.fetch v (f v lw.2).1 :: lw.1, by simp [SlotOps.logged, hf, callOrSkip]⟩

theorem runUpdate_logged (ops : SlotOps ω) (v : Int) (sig : Bool) (c : OtaCoordinator)
    (lw : List OpCall × ω) :
    unlogged (c.runUpdate ops.logged v sig lw) = c.runUpdate ops v sig lw.2 := by
  simp only [OtaCoordinator.runUpdate]
  obtain ⟨r, c⟩ := c.requestUpdate v sig
  dsimp only
  split
  · rfl
  · obtain ⟨l, hfetch⟩ := callOrSkip_fetch_logged ops v lw
    rcases hraw : callOrSkip (ops.fetch.map fun f => f v) lw.2 with ⟨ok, w⟩
    rw [hraw] at hfetch
    rw [hfetch, hraw]
    dsimp only
    split
    · rfl
    · obtain ⟨r, c⟩ := c.onDownloadComplete
      dsimp only
      split
      · rfl
      · rw [← beginInstall_logged ops c (l, w)]
        obtain ⟨r, c, lw⟩ := c.beginInstall ops.logged (l, w)
        by_cases hr : r = .accepted
        · subst hr
          by_cases hc : c.onInstallComplete.1 = .accepted
          · simpa [unlogged, hc] using switchBootTarget_logged ops c.onInstallComplete.2 lw
          · simp [unlogged, hc]
        · simp [unlogged, hr]

/-- **Logging changes nothing but the log**: what is proved about calls with logged operations
holds of the calls themselves. -/
theorem perform_logged (ops : SlotOps ω) (call : Call) (c : OtaCoordinator)
    (lw : List OpCall × ω) :
    unlogged (perform ops.logged call c lw) = perform ops call c lw.2 := by
  have hrollback : (OtaCoordinator.callRollback ops.logged lw).2 =
      OtaCoordinator.callRollback ops lw.2 := by
    rcases hf : ops.rollbackMarker with _ | f <;>
      simp [OtaCoordinator.callRollback, SlotOps.logged, hf]
  cases call with
  | runUpdate v sig => exact runUpdate_logged ops v sig c lw
  | requestUpdate v sig => rfl
  | onDownloadComplete => rfl
  | beginInstall => exact beginInstall_logged ops c lw
  | onInstallComplete => rfl
  | switchBootTarget => exact switchBootTarget_logged ops c lw
  | onHealth ok =>
    by_cases hs : c.state = .healthGate
    · cases ok
      · simp [perform, OtaCoordinator.onHealth, hs, unlogged, hrollback]
      · simp [perform, OtaCoordinator.onHealth, hs, unlogged]
    · simp [perform, OtaCoordinator.onHealth, hs, unlogged]
  | forceRollback =>
    by_cases hs : c.state = .healthGate
    · simp [perform, OtaCoordinator.forceRollback, hs, unlogged, hrollback]
    · simp [perform, OtaCoordinator.forceRollback, hs, unlogged]

/-- One public call and what it did: the history that the properties are about is a list of
these. -/
structure Exchange : Type where
  call : Call
  /-- the coordinator before the call -/
  before : OtaCoordinator
  result : Result
  /-- the operations the call invoked, newest first -/
  invoked : List OpCall
  /-- the coordinator after the call -/
  after : OtaCoordinator
  deriving DecidableEq, Repr

/-- One call as a labelled step on the coordinator and the world. The label has both states of
the coordinator in it, so that a history can be read without the run. -/
def Step (ops : SlotOps ω) (s : OtaCoordinator × ω) (e : Exchange) (s' : OtaCoordinator × ω) :
    Prop :=
  e.before = s.1 ∧ e.after = s'.1 ∧
    perform ops.logged e.call s.1 ([], s.2) = (e.result, s'.1, e.invoked, s'.2)

/-- A freshly constructed coordinator. -/
def OtaCoordinator.new (activeSlot : Char) (activeVersion securityCounter : Int) :
    OtaCoordinator where
  activeSlot := activeSlot
  activeVersion := activeVersion
  securityCounter := securityCounter

end AmrFramework.Ota
