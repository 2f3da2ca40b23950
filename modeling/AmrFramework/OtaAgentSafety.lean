import AmrFramework.OtaAgent
import AmrFramework.OtaCoordinatorSafety

/-!
# The OTA agent over a device's whole life

Two properties of the journal, over every sequence of ticks:

* `SlotSafe` — the slot that holds the last committed image is not written, and
  every rollback leaves `boot_target` naming it;
* `NoDowngrade` — nothing older than a committed version is written to a slot
  or made the boot target.

Neither holds of every run. The agent replaces a coordinator that waits in the
health gate, taking the slot under test for the active one; and a restarted
agent starts from the launch parameter, not from the counter it persisted.
Each theorem says under which condition on the ticks the property does hold;
each counterexample is the shortest run that breaks it.
-/

namespace AmrFramework.Ota

open Runs

/-! ## What one tick does

A tick has two halves, and each can end in a few ways. Everything that is proved of whole lives
goes by these cases, and by what a write of the marker leaves to be read. -/

/-- What `boot_target` reads after it was written: the new slot, or nothing if the text did not
get far enough, or what it read before if the file could not be opened. -/
theorem readBootTarget_writeFile (o : WriteOutcome) (slot : Char) (old : Option Text) :
    readBootTarget (writeFile o [slot, '\n'] old).2 = some slot ∨
      readBootTarget (writeFile o [slot, '\n'] old).2 = none ∨
      o.opened = false ∧ (writeFile o [slot, '\n'] old).2 = old := by
  obtain ⟨_ | _, reported, kept⟩ := o
  · exact Or.inr (Or.inr ⟨rfl, rfl⟩)
  · obtain _ | _ | kept := kept
    · exact Or.inr (Or.inl rfl)
    · by_cases h : isSpace slot = true
      · exact Or.inr (Or.inl (by simp [writeFile, readBootTarget, h]))
      · exact Or.inl (by simp [writeFile, readBootTarget, h])
    · have hnewline : isSpace '\n' = true := rfl
      by_cases h : isSpace slot = true
      · exact Or.inr (Or.inl (by simp [writeFile, readBootTarget, h, hnewline]))
      · exact Or.inl (by simp [writeFile, readBootTarget, h])

/-- A marker write that lands names the slot. It lands when the file was opened and at least its
first character was kept. -/
theorem readBootTarget_lands {o : WriteOutcome} (ho : o.lands = true) {slot : Char}
    (hslot : isSpace slot = false) (old : Option Text) :
    readBootTarget (writeFile o [slot, '\n'] old).2 = some slot := by
  obtain ⟨opened, reported, kept⟩ := o
  simp only [WriteOutcome.lands, Bool.and_eq_true, decide_eq_true_eq] at ho
  obtain ⟨rfl, hkept⟩ := ho
  obtain _ | kept := kept
  · omega
  · simp [writeFile, readBootTarget, hslot]

/-- A marker write that does not land names nothing, unless it could not even
open the file. -/
theorem readBootTarget_not_lands {o : WriteOutcome} (ho : o.lands = false) (slot : Char)
    (old : Option Text) :
    readBootTarget (writeFile o [slot, '\n'] old).2 = none ∨
      (writeFile o [slot, '\n'] old).2 = old := by
  obtain ⟨_ | _, reported, kept⟩ := o
  · exact Or.inr rfl
  · obtain _ | kept := kept
    · exact Or.inl rfl
    · simp [WriteOutcome.lands] at ho

/-- The first character of a token is not white space. -/
theorem isSpace_of_readBootTarget {file : Option Text} {slot : Char}
    (h : readBootTarget file = some slot) : isSpace slot = false := by
  obtain ⟨s, -, hs⟩ := Option.bind_eq_some_iff.mp h
  obtain ⟨rest, hrest⟩ := List.head?_eq_some_iff.mp hs
  have := List.head?_dropWhile_not isSpace s
  rw [hrest] at this
  simpa using this

variable {crypto : Crypto} {i : PollInput} {s : Device}

/-- The boot marker after `runUpdate`, by the state it leaves. In the health gate it is on the
slot that was written; in `switching` nothing is known of it; else it is where it was. -/
theorem runUpdate_bootTarget (crypto : Crypto) (i : PollInput) (key : String) (active : Char)
    {c : OtaCoordinator} (hs : c.state = .idle) (v : Int) (d : Disk) :
    let out := c.runUpdate (agentOps crypto i key active) v true d
    let marker := writeFile i.markerWrite [otherSlot c.activeSlot, '\n'] d.bootTarget
    (out.2.1.state = .idle ∧ out.2.2.bootTarget = d.bootTarget) ∨
      (out.2.1.state = .switching ∧ marker.1 = false ∧ out.2.2.bootTarget = marker.2) ∨
      (out.2.1.state = .healthGate ∧ marker.1 = true ∧ out.2.2.bootTarget = marker.2) := by
  by_cases hv : v < c.securityCounter
  · refine Or.inl ⟨?_, ?_⟩ <;>
      simp [OtaCoordinator.runUpdate, OtaCoordinator.requestUpdate, hs, hv]
  · rcases hw : writeFile i.slotWrite (numberLine v)
      (d.version (otherSlot c.activeSlot)) with ⟨written, file⟩
    rcases hm : writeFile i.markerWrite [otherSlot c.activeSlot, '\n'] d.bootTarget with
      ⟨switched, marker⟩
    rcases hf : fetch crypto i key v with _ | _ <;> cases written <;> cases switched <;>
      simp [OtaCoordinator.runUpdate, OtaCoordinator.requestUpdate, hs, hv, agentOps, callOrSkip,
        callOrFail, OtaCoordinator.onDownloadComplete, OtaCoordinator.beginInstall,
        OtaCoordinator.onInstallComplete, OtaCoordinator.switchBootTarget, hf, hw, hm]

/-- The tick starts an update: its target is new and positive, and
`boot_target` can be read. -/
def startsUpdate (i : PollInput) (s : Device) : Option Char :=
  if i.targetVersion ≠ s.agent.lastTarget ∧ 0 < i.targetVersion then
    readBootTarget s.disk.bootTarget
  else none

/-- The tick brings a new verdict. -/
def newVerdict (i : PollInput) (s : Device) : Prop :=
  i.healthReport ≠ "" ∧ i.healthReport ≠ s.agent.lastReport

/-- The coordinator waits in the health gate, for the verdict on the slot that was just written. -/
def Device.inHealthGate (s : Device) : Prop :=
  ∃ x, s.agent.ota = some x ∧ x.coord.state = .healthGate

/-- The update that a tick has run: from which state, with which calls of the slot operations,
and what it left in the agent and in the journal. -/
structure Updated (crypto : Crypto) (i : PollInput) (s : Device) (active : Char)
    (c : OtaCoordinator) (l : List OpCall) (s' : Device) : Prop where
  starts : startsUpdate i s = some active
  effect : ∃ r, Effect (newCoordinator s active) (.runUpdate i.targetVersion true) r l c
  run : ∃ r, (newCoordinator s active).runUpdate
    (agentOps crypto i s.agent.pinnedPublicKey active) i.targetVersion true s.disk =
      (r, c, s'.disk)
  ota : s'.agent.ota = some ⟨active, c⟩
  counter : s'.agent.securityCounter = s.agent.securityCounter
  journal : s'.journal = l.map .op ++ s.journal

/-- What the update has found: a positive target, and a marker to read. -/
theorem Updated.found {active : Char} {c : OtaCoordinator} {l : List OpCall} {s' : Device}
    (hu : Updated crypto i s active c l s') :
    0 < i.targetVersion ∧ readBootTarget s.disk.bootTarget = some active := by
  have hstarts := hu.starts
  simp only [startsUpdate] at hstarts
  split at hstarts
  · next hnew => exact ⟨hnew.2, hstarts⟩
  · cases hstarts

/-- An update that ends in the health gate leaves the marker on the slot it has
written, if it can still be read. -/
theorem Updated.marker {active : Char} {c : OtaCoordinator} {l : List OpCall} {s' : Device}
    (hu : Updated crypto i s active c l s') (hgate : c.state = .healthGate) {slot : Char}
    (hslot : readBootTarget s'.disk.bootTarget = some slot) : slot = otherSlot active := by
  obtain ⟨r, hrun⟩ := hu.run
  have hmarker := runUpdate_bootTarget crypto i s.agent.pinnedPublicKey active
    (c := newCoordinator s active) rfl i.targetVersion s.disk
  rw [hrun] at hmarker
  obtain ⟨hstate, -⟩ | ⟨hstate, -⟩ | ⟨-, hdone, hdisk⟩ := hmarker
  · cases hstate.symm.trans hgate
  · cases hstate.symm.trans hgate
  · rw [hdisk] at hslot
    rcases readBootTarget_writeFile i.markerWrite (otherSlot active) s.disk.bootTarget with
      hn | hn | ⟨hopened, -⟩
    · exact (Option.some.inj (hn.symm.trans hslot)).symm
    · cases hn.symm.trans hslot
    · rw [writeFile, hopened] at hdone
      cases hdone

/-- Inversion for the first half of a tick: it starts no update, and at most notes the target, or
it runs one. -/
theorem pollTarget_cases (crypto : Crypto) (i : PollInput) (s : Device) :
    (startsUpdate i s = none ∧
        ∃ t, pollTarget crypto i s = { s with agent := { s.agent with lastTarget := t } }) ∨
      ∃ active c l, Updated crypto i s active c l (pollTarget crypto i s) := by
  by_cases hnew : i.targetVersion ≠ s.agent.lastTarget
  · by_cases hpos : i.targetVersion > 0
    · rcases hboot : readBootTarget s.disk.bootTarget with _ | active
      · refine Or.inl ⟨?_, i.targetVersion, ?_⟩
        · rw [startsUpdate, if_pos ⟨hnew, hpos⟩, hboot]
        · simp [pollTarget, hnew, hpos, onParamChange, hboot]
      · obtain ⟨r, c, l, d, hrun, heffect⟩ := runUpdate_effect
          (agentOps crypto i s.agent.pinnedPublicKey active) (newCoordinator s active)
          i.targetVersion true s.disk
        have hpoll : pollTarget crypto i s =
            { agent := { s.agent with lastTarget := i.targetVersion, ota := some ⟨active, c⟩ }
              disk := d
              journal := l.map .op ++ s.journal } := by
          have hsame : newCoordinator
              { s with agent := { s.agent with lastTarget := i.targetVersion } } active =
                newCoordinator s active := rfl
          simp only [pollTarget, if_pos hnew, if_pos hpos, onParamChange, hboot, hsame, hrun]
        refine Or.inr ⟨active, c, l, ?_⟩
        rw [hpoll]
        refine ⟨?_, ⟨r, heffect⟩, ⟨r, ?_⟩, rfl, rfl, rfl⟩
        · rw [startsUpdate, if_pos ⟨hnew, hpos⟩, hboot]
        · rw [← runUpdate_logged _ _ _ _ ([], s.disk), hrun]
          rfl
    · refine Or.inl ⟨if_neg fun h => hpos h.2, i.targetVersion, ?_⟩
      simp only [pollTarget, if_pos hnew, if_neg hpos]
  · refine Or.inl ⟨if_neg fun h => hnew h.1, s.agent.lastTarget, ?_⟩
    simp only [pollTarget, if_neg hnew]

/-- The coordinator in the health gate, confirmed. It is the result of `on_health` with a good
verdict, written out. -/
def commit (c : OtaCoordinator) : OtaCoordinator :=
  { c with
    activeSlot := otherSlot c.activeSlot
    activeVersion := c.candidateVersion
    securityCounter :=
      if c.candidateVersion > c.securityCounter then c.candidateVersion else c.securityCounter
    state := .committed }

/-- Inversion for the second half of a tick: no new verdict or no health gate,
a commit, or a rollback. -/
theorem pollReport_cases (crypto : Crypto) (i : PollInput) (s : Device) :
    (∃ t, pollReport crypto i s = { s with agent := { s.agent with lastReport := t } }) ∨
      (newVerdict i s ∧ ∃ captured c, s.agent.ota = some ⟨captured, c⟩ ∧ c.state = .healthGate ∧
        ((i.healthReport = "ok" ∧
            (pollReport crypto i s).agent.securityCounter =
              max c.candidateVersion s.agent.securityCounter ∧
            (pollReport crypto i s).agent.ota = some ⟨captured, commit c⟩ ∧
            (pollReport crypto i s).disk.bootTarget = s.disk.bootTarget ∧
            (pollReport crypto i s).journal =
              .committed (otherSlot c.activeSlot) c.candidateVersion :: s.journal) ∨
          (i.healthReport ≠ "ok" ∧
            (pollReport crypto i s).agent.securityCounter = s.agent.securityCounter ∧
            (pollReport crypto i s).agent.ota = some ⟨captured, { c with state := .rolledBack }⟩ ∧
            (pollReport crypto i s).disk.bootTarget =
              (writeFile i.rollbackWrite [captured, '\n'] s.disk.bootTarget).2 ∧
            (pollReport crypto i s).journal =
              .rolledBack (readBootTarget (pollReport crypto i s).disk.bootTarget) ::
                .op .rollbackMarker :: s.journal))) := by
  by_cases hnew : i.healthReport ≠ "" ∧ i.healthReport ≠ s.agent.lastReport
  · rcases hota : s.agent.ota with _ | ⟨captured, c⟩
    · refine Or.inl ⟨i.healthReport, ?_⟩
      simp only [pollReport, if_pos hnew, onHealthReport, hota]
    · by_cases hs : c.state = .healthGate
      · refine Or.inr ⟨hnew, captured, c, rfl, hs, ?_⟩
        by_cases hok : i.healthReport = "ok"
        · refine Or.inl ⟨hok, ?_⟩
          have hcounter : (if c.candidateVersion > s.agent.securityCounter then c.candidateVersion
              else s.agent.securityCounter) = max c.candidateVersion s.agent.securityCounter := by
            split <;> omega
          simp only [pollReport, if_pos hnew]
          simp [onHealthReport, hota, hs, hok, OtaCoordinator.onHealth, commit, hcounter]
        · refine Or.inr ⟨hok, ?_⟩
          simp only [pollReport, if_pos hnew]
          simp [onHealthReport, hota, hs, hok, OtaCoordinator.onHealth,
            OtaCoordinator.callRollback, SlotOps.logged, agentOps]
      · refine Or.inl ⟨i.healthReport, ?_⟩
        simp [pollReport, hnew, onHealthReport, hota, hs]
  · exact Or.inl ⟨s.agent.lastReport, by simp only [pollReport, if_neg hnew]⟩

/-! ## The known-good slot

The coordinator takes the slot that `boot_target` names for the active one. That is the
known-good slot as long as no update is under test, and as long as no failed write has moved the
marker. -/

/-- The slot of the last commit; `good` before the first one. Rollbacks do not change which slot
is known to be good. -/
def knownGood (good : Char) : List Entry → Char
  | [] => good
  | .committed slot _ :: _ => slot
  | .op _ :: l | .rolledBack _ :: l => knownGood good l

/-- What an entry must satisfy, given everything older: no write to the
known-good slot, and a rollback that leaves `boot_target` naming it. -/
def SlotSafe (good : Char) : Entry → List Entry → Prop
  | .op (.write slot _ _), older => slot ≠ knownGood good older
  | .rolledBack boot, older => boot = some (knownGood good older)
  | _, _ => True

/-- The condition on a tick under which the known-good slot stays known. Each field rules out one
way in which the device forgets it, all of them on the state before the tick and on what becomes
of its writes. -/
structure Orderly (crypto : Crypto) (s : Device) (i : PollInput) : Prop where
  /-- no update starts while another one waits in the health gate -/
  overlap : startsUpdate i s ≠ none → ¬ s.inHealthGate
  /-- a switch of the marker that is reported as failed has not happened -/
  abort : ∀ active, startsUpdate i s = some active → s.agent.securityCounter ≤ i.targetVersion →
    switchFails (agentOps crypto i s.agent.pinnedPublicKey active) (newCoordinator s active)
      i.targetVersion s.disk = true →
    i.markerWrite.lands = false
  /-- the marker write of a rollback lands -/
  rollback : (pollTarget crypto i s).inHealthGate → newVerdict i (pollTarget crypto i s) →
    i.healthReport ≠ "ok" → i.rollbackWrite.lands = true

/-- Slot operations do not change which slot is known good. -/
theorem knownGood_ops (good : Char) (l : List OpCall) (older : List Entry) :
    knownGood good (l.map .op ++ older) = knownGood good older := by
  induction l with
  | nil => rfl
  | cons o l ih => exact ih

/-- Slot operations that stay off the known-good slot. Those of an update do, as long as the
known-good slot is the active one. -/
theorem slotSafe_ops {good : Char} {older : List Entry} (h : Always (SlotSafe good) older)
    {l : List OpCall} (hl : ∀ slot v ok, .write slot v ok ∈ l → slot ≠ knownGood good older) :
    Always (SlotSafe good) (l.map .op ++ older) := by
  induction l with
  | nil => exact h
  | cons o l ih =>
    refine ⟨?_, ih fun slot v ok ho => hl slot v ok (List.mem_cons_of_mem _ ho)⟩
    cases o with
    | write slot v ok =>
      change slot ≠ knownGood good (l.map .op ++ older)
      rw [knownGood_ops]
      exact hl slot v ok (List.mem_cons_self ..)
    | fetch v ok => exact trivial
    | setBootTarget slot ok => exact trivial
    | rollbackMarker => exact trivial

/-- An update leaves the coordinator's active slot, and writes only the other. By cases on the
effect of the facade. -/
theorem update_writes {c c' : OtaCoordinator} {v : Int} {r : Result} {l : List OpCall}
    (he : Effect c (.runUpdate v true) r l c') :
    c'.activeSlot = c.activeSlot ∧
      ∀ slot w ok, .write slot w ok ∈ l → slot = otherSlot c.activeSlot := by
  cases he with
  | reject => exact ⟨rfl, by simp⟩
  | rollback _ hc => rcases hc with hc | hc <;> cases hc
  | updateNoFetch => exact ⟨rfl, by simp⟩
  | updateNoWrite _ _ hf hl =>
    refine ⟨rfl, fun slot w ok ho => ?_⟩
    obtain rfl | rfl := hf <;> rcases hl with rfl | rfl <;> simp at ho
    · exact ho.1
    · exact ho.1
  | updateNoSwitch _ _ hf hl =>
    refine ⟨rfl, fun slot w ok ho => ?_⟩
    obtain rfl | rfl := hf <;> rcases hl with rfl | rfl <;> simp at ho <;> exact ho.1
  | update _ _ hf =>
    refine ⟨rfl, fun slot w ok ho => ?_⟩
    obtain rfl | rfl := hf <;> simp at ho <;> exact ho.1

/-- The invariant: outside the health gate `boot_target` names the known-good slot, inside it the
slot under test, unless it cannot be read. If it cannot, no update starts. -/
structure GoodKept (good : Char) (s : Device) : Prop where
  journal : Always (SlotSafe good) s.journal
  outside : ¬ s.inHealthGate → ∀ slot, readBootTarget s.disk.bootTarget = some slot →
    slot = knownGood good s.journal
  inside : ∀ x, s.agent.ota = some x → x.coord.state = .healthGate →
    x.captured = knownGood good s.journal ∧ x.coord.activeSlot = knownGood good s.journal ∧
      isSpace x.captured = false ∧
      ∀ slot, readBootTarget s.disk.bootTarget = some slot →
        slot = otherSlot (knownGood good s.journal)

/-- The first half of an orderly tick keeps the invariant: no update that waits in the health
gate is forgotten, and if one is run, it writes the slot that is not good. -/
theorem GoodKept.pollTarget {good : Char} (h : GoodKept good s) (ho : Orderly crypto s i) :
    GoodKept good (pollTarget crypto i s) := by
  obtain ⟨-, t, ht⟩ | ⟨active, c, l, hu⟩ := pollTarget_cases crypto i s
  · rw [ht]
    exact ⟨h.journal, h.outside, h.inside⟩
  -- the marker names the known-good slot: nothing is in the health gate
  have hgate : ¬ s.inHealthGate := ho.overlap (by rw [hu.starts]; exact Option.some_ne_none _)
  have hboot : readBootTarget s.disk.bootTarget = some active := hu.found.2
  have hactive : active = knownGood good s.journal := h.outside hgate active hboot
  obtain ⟨r, heffect⟩ := hu.effect
  obtain ⟨hslot, hwrites⟩ := update_writes heffect
  have hgood : knownGood good (Ota.pollTarget crypto i s).journal = active := by
    rw [hu.journal, knownGood_ops, hactive]
  have hjournal : Always (SlotSafe good) (Ota.pollTarget crypto i s).journal := by
    rw [hu.journal]
    refine slotSafe_ops h.journal fun slot v ok hw => ?_
    rw [hwrites slot v ok hw, ← hactive]
    exact otherSlot_ne active
  obtain ⟨r', hrun⟩ := hu.run
  have hmarker := runUpdate_bootTarget crypto i s.agent.pinnedPublicKey active
    (c := newCoordinator s active) rfl i.targetVersion s.disk
  have hswitching := runUpdate_switching_iff (agentOps crypto i s.agent.pinnedPublicKey active)
    (c := newCoordinator s active) rfl i.targetVersion true s.disk
  rw [hrun] at hmarker hswitching
  have hsession : ∀ {x}, (Ota.pollTarget crypto i s).agent.ota = some x → x = ⟨active, c⟩ := by
    intro x hx
    rw [hu.ota] at hx
    exact (Option.some.inj hx).symm
  -- the marker was left alone, failed to be switched, or was switched
  obtain ⟨hstate, hdisk⟩ | ⟨hstate, hfailed, hdisk⟩ | ⟨hstate, hdone, hdisk⟩ := hmarker
  · refine ⟨hjournal, fun _ slot hs => ?_, fun x hx hg => ?_⟩
    · rw [hdisk, hboot] at hs
      rw [hgood]
      exact (Option.some.inj hs).symm
    · rw [hsession hx, hstate] at hg
      cases hg
  · obtain ⟨-, hcounter, hfails⟩ := hswitching.mp hstate
    have hlands := ho.abort active hu.starts hcounter hfails
    refine ⟨hjournal, fun _ slot hs => ?_, fun x hx hg => ?_⟩
    · rw [hdisk] at hs
      rw [hgood]
      obtain hn | hold := readBootTarget_not_lands hlands (otherSlot active) s.disk.bootTarget
      · rw [show (newCoordinator s active).activeSlot = active from rfl, hn] at hs
        cases hs
      · rw [show (newCoordinator s active).activeSlot = active from rfl, hold, hboot] at hs
        exact (Option.some.inj hs).symm
    · rw [hsession hx, hstate] at hg
      cases hg
  · refine ⟨hjournal, fun hnot => ?_, fun x hx _ => ?_⟩
    · exact absurd ⟨_, hu.ota, hstate⟩ hnot
    · rw [hsession hx, hgood]
      exact ⟨rfl, hslot, isSpace_of_readBootTarget hboot, fun slot hs => hu.marker hstate hs⟩

/-- The second half of an orderly tick keeps the invariant. A good verdict makes the written slot
the known-good one, and a bad one puts the marker back. -/
theorem GoodKept.pollReport {good : Char} (h : GoodKept good s)
    (ho : s.inHealthGate → newVerdict i s → i.healthReport ≠ "ok" →
      i.rollbackWrite.lands = true) :
    GoodKept good (pollReport crypto i s) := by
  obtain ⟨t, ht⟩ |
    ⟨hnew, captured, c, hota, hstate, ⟨-, -, hota', hdisk, hj⟩ | ⟨hfail, -, hota', hdisk, hj⟩⟩ :=
    pollReport_cases crypto i s
  · rw [ht]
    exact ⟨h.journal, h.outside, h.inside⟩
  · obtain ⟨-, hactive, -, hboot⟩ := h.inside _ hota hstate
    refine ⟨?_, fun _ slot hs => ?_, fun x hx hg => ?_⟩
    · rw [hj]
      exact ⟨trivial, h.journal⟩
    · rw [hdisk] at hs
      rw [hj]
      exact (hboot slot hs).trans (congrArg otherSlot hactive.symm)
    · rw [hota'] at hx
      cases hx
      cases hg
  · obtain ⟨hcaptured, -, hspace, -⟩ := h.inside _ hota hstate
    have hlands := readBootTarget_lands (ho ⟨_, hota, hstate⟩ hnew hfail) hspace
      s.disk.bootTarget
    have hgood : readBootTarget (Ota.pollReport crypto i s).disk.bootTarget =
        some (knownGood good s.journal) := by
      rw [hdisk, hlands, ← hcaptured]
    refine ⟨?_, fun _ slot hs => ?_, fun x hx hg => ?_⟩
    · rw [hj]
      exact ⟨hgood, trivial, h.journal⟩
    · rw [hgood] at hs
      rw [hj]
      exact (Option.some.inj hs).symm
    · rw [hota'] at hx
      cases hx
      cases hg

/-- **The known-good slot is kept over every run of orderly ticks**: never
written before another slot is committed, and named by `boot_target` after
every rollback. -/
theorem known_good_kept (crypto : Crypto) (launch : LaunchParams) {disk : Disk} {good : Char}
    (hgood : readBootTarget disk.bootTarget = some good) {h : List PollInput} {s : Device}
    (hr : Run (only (Orderly crypto) (PollStep crypto)) (Device.boot launch disk) h s) :
    Always (SlotSafe good) s.journal := by
  have hstart : GoodKept good (Device.boot launch disk) :=
    { journal := trivial
      outside := fun _ slot hs => Option.some.inj (hs.symm.trans hgood)
      inside := fun x hx => by cases hx }
  have hinv : GoodKept good s := by
    refine hr.invariant (I := fun _ s => GoodKept good s) hstart ?_
    rintro h s i s' hk ⟨ho, rfl⟩
    exact (hk.pollTarget ho).pollReport ho.rollback
  exact hinv.journal

/-- A write that succeeds. -/
def landed : WriteOutcome := ⟨true, true, 8⟩

/-- A tick whose image is there and whose writes succeed. -/
def quietTick (targetVersion : Int) (healthReport : String) : PollInput where
  targetVersion := targetVersion
  healthReport := healthReport
  targetSignature := "c2ln"
  image := fun _ => some [0x7f]
  slotWrite := landed
  markerWrite := landed
  rollbackWrite := landed
  counterWrite := landed
  counterRenamed := true

/-- The signature check of an image that was properly signed. -/
def signedCrypto : Crypto where
  sha256Hex := fun _ => "620bfdaa346b088fb49998d92f19a7eaf6bfc2fb0aee015753966da1028cb731"
  verify := fun _ _ _ => true

/-- Slot `A` active and slot `B` to be written. -/
def freshDisk : Disk where
  bootTarget := some "A\n".toList
  version := fun slot => if slot = 'A' then some "10\n".toList else some "9\n".toList

/-- One tick that updates and rolls back. -/
theorem known_good_kept_rollback :
    Always (SlotSafe 'A')
      (poll signedCrypto (quietTick 12 "fail") (Device.boot {} freshDisk)).journal := by
  have horderly : Orderly signedCrypto (Device.boot {} freshDisk) (quietTick 12 "fail") :=
    { overlap := fun _ ⟨_, hx, _⟩ => by cases hx
      abort := fun _ ha _ hs => by cases ha; cases hs
      rollback := fun _ _ _ => rfl }
  have hgood : readBootTarget freshDisk.bootTarget = some 'A' := rfl
  exact known_good_kept signedCrypto {} hgood (.snoc .start ⟨horderly, rfl⟩)

/-- A second target while the first one waits in the health gate: the slot
under test is taken for the active one, and the known-good slot is written. -/
theorem known_good_overwritten :
    ∃ s, Run (PollStep signedCrypto) (Device.boot {} freshDisk)
        [quietTick 13 "", quietTick 12 ""] s ∧
      ¬ Always (SlotSafe 'A') s.journal := by
  refine ⟨_, .snoc (.snoc .start rfl) rfl, fun h => ?_⟩
  exact h.2.1 rfl

/-! ## No downgrade

The counter of the agent is raised by a commit, and the coordinator refuses what is below it. So
the counter has to be at least every version that was committed, which a restart can undo. -/

/-- No committed version exceeds `n`. -/
def CommittedLe (n : Int) (older : List Entry) : Prop :=
  ∀ slot v, .committed slot v ∈ older → v ≤ n

/-- The version a slot holds: that of the latest write to it, if it succeeded. After a failed
write nothing is known of it. -/
def slotVersion (slot : Char) : List Entry → Option Int
  | [] => none
  | .op (.write slot' v ok) :: l =>
    if slot' = slot then (if ok then some v else none) else slotVersion slot l
  | _ :: l => slotVersion slot l

/-- Once anything has been committed, the slot holds a version at least as new as all committed
ones. -/
def NotDowngraded (slot : Char) (older : List Entry) : Prop :=
  ∀ slot' v', .committed slot' v' ∈ older → ∃ v, slotVersion slot older = some v ∧ v' ≤ v

/-- What an entry must satisfy, given everything older: no committed version
exceeds the one that is written, or the one in the slot that becomes the boot
target. -/
def NoDowngrade : Entry → List Entry → Prop
  | .op (.write _ v _), older => CommittedLe v older
  | .op (.setBootTarget slot _), older => NotDowngraded slot older
  | .rolledBack (some slot), older => NotDowngraded slot older
  | _, _ => True

theorem mem_committed_ops {slot : Char} {v : Int} {l : List OpCall} {older : List Entry} :
    .committed slot v ∈ l.map Entry.op ++ older ↔ .committed slot v ∈ older := by
  simp

/-- A slot that holds a version no committed one exceeds. This is how a switch is shown not to
downgrade: the version was written in the same update, and had passed the security counter. -/
theorem NotDowngraded.of_slotVersion {slot : Char} {v : Int} {older : List Entry}
    (hv : slotVersion slot older = some v) (hle : CommittedLe v older) :
    NotDowngraded slot older :=
  fun slot' v' hm => ⟨v, hv, hle slot' v' hm⟩

/-- A fetch changes nothing the journal is asked for: no slot, and no commit. -/
theorem fetched_noDowngrade {f : List OpCall} {v : Int} {older : List Entry}
    (hf : f = [] ∨ f = [.fetch v true]) (h : Always NoDowngrade older) :
    Always NoDowngrade (f.map .op ++ older) ∧
      (∀ slot, slotVersion slot (f.map .op ++ older) = slotVersion slot older) ∧
      ∀ n, CommittedLe n older → CommittedLe n (f.map .op ++ older) := by
  obtain rfl | rfl := hf
  · exact ⟨h, fun _ => rfl, fun _ hn => hn⟩
  · exact ⟨⟨trivial, h⟩, fun _ => rfl, fun n hn slot w hm => hn slot w (mem_committed_ops.mp hm)⟩

/-- What an update adds to the journal: safe entries, after which the active
slot holds what it held, and the written one holds the candidate if the marker
may have been switched. -/
theorem update_noDowngrade {c c' : OtaCoordinator} {v : Int} {r : Result} {l : List OpCall}
    {older : List Entry} (he : Effect c (.runUpdate v true) r l c') (hs : c.state = .idle)
    (hle : c.securityCounter ≤ v → CommittedLe v older) (h : Always NoDowngrade older) :
    Always NoDowngrade (l.map .op ++ older) ∧
      slotVersion c.activeSlot (l.map .op ++ older) = slotVersion c.activeSlot older ∧
      (c'.state ≠ .idle → c.securityCounter ≤ v ∧ c'.candidateVersion = v ∧
        slotVersion (otherSlot c.activeSlot) (l.map .op ++ older) = some v) := by
  have hne : otherSlot c.activeSlot ≠ c.activeSlot := otherSlot_ne c.activeSlot
  cases he with
  | reject => exact ⟨h, rfl, fun hc => absurd hs hc⟩
  | rollback _ hc => rcases hc with hc | hc <;> cases hc
  | updateNoFetch => exact ⟨⟨trivial, h⟩, rfl, fun hc => absurd rfl hc⟩
  | updateNoWrite _ hv hf hl =>
    obtain ⟨hfetch, hversion, hcommitted⟩ := fetched_noDowngrade hf h
    obtain rfl | rfl := hl
    · exact ⟨hfetch, hversion _, fun hc => absurd rfl hc⟩
    · exact ⟨⟨hcommitted v (hle hv), hfetch⟩, (if_neg hne).trans (hversion _),
        fun hc => absurd rfl hc⟩
  | @updateNoSwitch _ _ hv f l hf hl =>
    obtain ⟨hfetch, hversion, hcommitted⟩ := fetched_noDowngrade hf h
    have hwrite : Always NoDowngrade
        (.op (.write (otherSlot c.activeSlot) v true) :: (f.map .op ++ older)) :=
      ⟨hcommitted v (hle hv), hfetch⟩
    obtain rfl | rfl := hl
    · exact ⟨hwrite, (if_neg hne).trans (hversion _), fun _ => ⟨hv, rfl, if_pos rfl⟩⟩
    · refine ⟨⟨?_, hwrite⟩, (if_neg hne).trans (hversion _), fun _ => ⟨hv, rfl, if_pos rfl⟩⟩
      refine NotDowngraded.of_slotVersion (v := v) (if_pos rfl) fun slot w hm => hle hv slot w ?_
      exact (mem_committed_ops (l := .write (otherSlot c.activeSlot) v true :: f)).mp hm
  | @update _ _ hv f hf =>
    obtain ⟨hfetch, hversion, hcommitted⟩ := fetched_noDowngrade hf h
    refine ⟨⟨?_, hcommitted v (hle hv), hfetch⟩, (if_neg hne).trans (hversion _),
      fun _ => ⟨hv, rfl, if_pos rfl⟩⟩
    refine NotDowngraded.of_slotVersion (v := v) (if_pos rfl) fun slot w hm => hle hv slot w ?_
    exact (mem_committed_ops (l := .write (otherSlot c.activeSlot) v true :: f)).mp hm

/-- The invariant: the counter is at least every committed version, and so is
what the slots that may be booted hold. -/
structure Fresh (s : Device) : Prop where
  journal : Always NoDowngrade s.journal
  /-- a target is positive, so a counter below 1 refuses no more than 1 does -/
  counter : CommittedLe (max s.agent.securityCounter 1) s.journal
  marker : ∀ slot, readBootTarget s.disk.bootTarget = some slot → NotDowngraded slot s.journal
  gate : ∀ x, s.agent.ota = some x → x.coord.state = .healthGate →
    x.coord.activeSlot = x.captured ∧
      NotDowngraded x.captured s.journal ∧
      CommittedLe x.coord.candidateVersion s.journal ∧
      slotVersion (otherSlot x.captured) s.journal = some x.coord.candidateVersion ∧
      ∀ slot, readBootTarget s.disk.bootTarget = some slot → slot = otherSlot x.captured

/-- The first half of a tick keeps the invariant. The update is refused if its version is below
the security counter, which no committed version exceeds. -/
theorem Fresh.pollTarget (h : Fresh s) (crypto : Crypto) (i : PollInput) :
    Fresh (pollTarget crypto i s) := by
  obtain ⟨-, t, ht⟩ | ⟨active, c, l, hu⟩ := pollTarget_cases crypto i s
  · rw [ht]
    exact ⟨h.journal, h.counter, h.marker, h.gate⟩
  obtain ⟨hpos, hboot⟩ := hu.found
  have hle : s.agent.securityCounter ≤ i.targetVersion →
      CommittedLe i.targetVersion s.journal := by
    intro hv slot v hm
    have := h.counter slot v hm
    omega
  obtain ⟨r, heffect⟩ := hu.effect
  obtain ⟨hsafe, hactive, hother⟩ := update_noDowngrade heffect rfl hle h.journal
  obtain ⟨hslot, -⟩ := update_writes heffect
  rw [← hu.journal] at hsafe hactive hother
  have hcommitted {slot : Char} {v : Int} :
      .committed slot v ∈ (Ota.pollTarget crypto i s).journal ↔ .committed slot v ∈ s.journal := by
    rw [hu.journal]
    exact mem_committed_ops
  have hkept : NotDowngraded active (Ota.pollTarget crypto i s).journal := by
    intro slot v hm
    obtain ⟨w, hw, hvw⟩ := h.marker active hboot slot v (hcommitted.mp hm)
    exact ⟨w, hactive.trans hw, hvw⟩
  have htested (hstate : c.state ≠ .idle) :
      NotDowngraded (otherSlot active) (Ota.pollTarget crypto i s).journal := by
    obtain ⟨hv, -, hw⟩ := hother hstate
    exact .of_slotVersion hw fun slot v hm => hle hv slot v (hcommitted.mp hm)
  -- the marker names the slot it named, or the one that was written
  have hwritten (hstate : c.state ≠ .idle) {slot : Char}
      (hs : readBootTarget (writeFile i.markerWrite [otherSlot active, '\n']
        s.disk.bootTarget).2 = some slot) :
      NotDowngraded slot (Ota.pollTarget crypto i s).journal := by
    rcases readBootTarget_writeFile i.markerWrite (otherSlot active) s.disk.bootTarget with
      hn | hn | ⟨-, hold⟩
    · exact Option.some.inj (hn.symm.trans hs) ▸ htested hstate
    · cases hn.symm.trans hs
    · exact Option.some.inj (hboot.symm.trans (hold ▸ hs)) ▸ hkept
  obtain ⟨r', hrun⟩ := hu.run
  have hmarker := runUpdate_bootTarget crypto i s.agent.pinnedPublicKey active
    (c := newCoordinator s active) rfl i.targetVersion s.disk
  rw [hrun] at hmarker
  refine
    { journal := hsafe
      counter := fun slot v hm => by
        rw [hu.counter]
        exact h.counter slot v (hcommitted.mp hm)
      marker := fun slot hs => ?_
      gate := fun x hx hg => ?_ }
  · obtain ⟨-, hdisk⟩ | ⟨hstate, -, hdisk⟩ | ⟨hstate, -, hdisk⟩ := hmarker <;> rw [hdisk] at hs
    · rw [hboot] at hs
      exact Option.some.inj hs ▸ hkept
    · exact hwritten (by rw [hstate]; decide) hs
    · exact hwritten (by rw [hstate]; decide) hs
  · obtain rfl : (⟨active, c⟩ : Session) = x := Option.some.inj (hu.ota.symm.trans hx)
    obtain ⟨hv, hcandidate, hw⟩ := hother (by rw [hg]; decide)
    refine ⟨hslot, hkept, fun slot v hm => ?_, ?_, fun slot hs => hu.marker hg hs⟩
    · rw [hcandidate]
      exact hle hv slot v (hcommitted.mp hm)
    · rw [hcandidate]
      exact hw

/-- The second half of a tick keeps the invariant. A commit raises the counter to the version
committed, so no committed version exceeds it afterwards either. -/
theorem Fresh.pollReport (h : Fresh s) (crypto : Crypto) (i : PollInput) :
    Fresh (pollReport crypto i s) := by
  obtain ⟨t, ht⟩ |
    ⟨-, captured, c, hota, hstate, ⟨-, hcounter, hota', hdisk, hj⟩ |
      ⟨-, hcounter, hota', hdisk, hj⟩⟩ := pollReport_cases crypto i s
  · rw [ht]
    exact ⟨h.journal, h.counter, h.marker, h.gate⟩
  · obtain ⟨hactive, -, hle, hversion, hboot⟩ := h.gate _ hota hstate
    -- the candidate is now the greatest committed version
    have hmax : CommittedLe c.candidateVersion (Ota.pollReport crypto i s).journal := by
      rw [hj]
      rintro slot v (_ | ⟨_, hm⟩)
      · exact Int.le_refl _
      · exact hle slot v hm
    refine
      { journal := by rw [hj]; exact ⟨trivial, h.journal⟩
        counter := fun slot v hm => ?_
        marker := fun slot hs => ?_
        gate := fun x hx hg => by rw [hota'] at hx; cases hx; cases hg }
    · have := hmax slot v hm
      rw [hcounter]
      omega
    · rw [hdisk] at hs
      refine .of_slotVersion ?_ hmax
      rw [hj, hboot slot hs]
      exact hversion
  · obtain ⟨-, hcaptured, -, -, -⟩ := h.gate _ hota hstate
    have hmarker (slot : Char)
        (hs : readBootTarget (Ota.pollReport crypto i s).disk.bootTarget = some slot) :
        NotDowngraded slot s.journal := by
      rw [hdisk] at hs
      rcases readBootTarget_writeFile i.rollbackWrite captured s.disk.bootTarget with
        hn | hn | ⟨-, hold⟩
      · exact Option.some.inj (hn.symm.trans hs) ▸ hcaptured
      · cases hn.symm.trans hs
      · exact h.marker slot (hold ▸ hs)
    have hcommitted {slot : Char} {v : Int} :
        .committed slot v ∈ (Ota.pollReport crypto i s).journal ↔
          .committed slot v ∈ s.journal := by
      rw [hj]
      simp
    have hkept {slot : Char} (hs : NotDowngraded slot s.journal) :
        NotDowngraded slot (Ota.pollReport crypto i s).journal := by
      intro slot' v hm
      obtain ⟨w, hw, hvw⟩ := hs slot' v (hcommitted.mp hm)
      exact ⟨w, by rw [hj]; exact hw, hvw⟩
    refine
      { journal := ?_
        counter := fun slot v hm => by
          rw [hcounter]
          exact h.counter slot v (hcommitted.mp hm)
        marker := fun slot hs => hkept (hmarker slot hs)
        gate := fun x hx hg => by rw [hota'] at hx; cases hx; cases hg }
    rw [hj]
    refine ⟨?_, trivial, h.journal⟩
    rcases hread : readBootTarget (Ota.pollReport crypto i s).disk.bootTarget with _ | slot
    · exact trivial
    · exact fun slot' v hm => hmarker slot hread slot' v
        (mem_committed_ops (l := [.rollbackMarker]).mp hm)

/-- The condition on a restart under which the counter loses nothing: every
committed version is at most the launch parameter (or 1). -/
def CounterCovers (launch : LaunchParams) (s : Device) : LifeEvent → Prop
  | .poll _ => True
  | .restart => CommittedLe (max launch.securityCounter 1) s.journal

/-- **No downgrade over a device's whole life**, as long as no restart forgets a committed
version: nothing older than one is written to a slot or made the boot target. By induction over
the life of the device, with `Fresh` as the invariant. -/
theorem no_downgrade (crypto : Crypto) (launch : LaunchParams) (disk : Disk)
    {h : List LifeEvent} {s : Device}
    (hr : Run (only (CounterCovers launch) (LifeStep crypto launch)) (Device.boot launch disk) h
      s) : Always NoDowngrade s.journal := by
  have hnone (n : Int) : CommittedLe n [] := fun _ _ hm => by cases hm
  have hstart : Fresh (Device.boot launch disk) :=
    { journal := trivial
      counter := hnone _
      marker := fun _ _ _ _ hm => by cases hm
      gate := fun x hx => by cases hx }
  have hinv : Fresh s := by
    refine hr.invariant (I := fun _ s => Fresh s) hstart ?_
    rintro h s e s' hf ⟨hcovers, hstep⟩
    cases e with
    | poll i =>
      cases hstep
      exact (hf.pollTarget crypto i).pollReport crypto i
    | restart =>
      cases hstep
      exact ⟨hf.journal, hcovers, hf.marker, fun x hx => by cases hx⟩
  exact hinv.journal

/-- Commit version 12, restart with a launch parameter of 12, update to 13. -/
theorem no_downgrade_restart :
    Always NoDowngrade
      (poll signedCrypto (quietTick 13 "") (restart { securityCounter := 12 }
        (poll signedCrypto (quietTick 12 "ok")
          (Device.boot { securityCounter := 12 } freshDisk)))).journal := by
  have hcovers : CommittedLe (max 12 1) (poll signedCrypto (quietTick 12 "ok")
      (Device.boot { securityCounter := 12 } freshDisk)).journal := by
    have hjournal : (poll signedCrypto (quietTick 12 "ok")
        (Device.boot { securityCounter := 12 } freshDisk)).journal =
          [.committed 'B' 12, .op (.setBootTarget 'B' true), .op (.write 'B' 12 true),
            .op (.fetch 12 true)] := rfl
    rw [hjournal]
    intro slot v hm
    simp only [List.mem_cons, Entry.committed.injEq, reduceCtorEq, or_false, List.not_mem_nil] at hm
    omega
  exact no_downgrade signedCrypto { securityCounter := 12 } freshDisk
    (h := [.poll (quietTick 13 ""), .restart, .poll (quietTick 12 "ok")])
    (.snoc (.snoc (.snoc .start ⟨trivial, rfl⟩) ⟨hcovers, rfl⟩) ⟨trivial, rfl⟩)

/-- Commit version 12, restart with the default launch parameter 8, and version
9 is written. -/
theorem downgrade_after_restart :
    ∃ s, Run (LifeStep signedCrypto {}) (Device.boot {} freshDisk)
        [.poll (quietTick 9 ""), .restart, .poll (quietTick 12 "ok")] s ∧
      ¬ Always NoDowngrade s.journal := by
  refine ⟨_, .snoc (.snoc (.snoc .start rfl) rfl) rfl, fun h => ?_⟩
  have := h.2.1 'B' 12 (by decide)
  revert this
  decide

end AmrFramework.Ota
