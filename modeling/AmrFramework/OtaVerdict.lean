import AmrFramework.OtaAgentSafety

/-!
# Delivery of health verdicts

The operator confirms or refuses an update by setting `ota.health_report`. The
poll timer acts on that parameter when its text differs from the last one it
has seen, whichever update that one was about, and it looks at a new target
first.

`verdict_applied_iff` says, for every state that a device can be in, when the
next tick applies a verdict to the update that waits in the health gate.
-/

namespace AmrFramework.Ota

open Runs

variable {crypto : Crypto} {i : PollInput} {s : Device} {x : Session}

/-- The update `x`, decided by the verdict of the tick: committed on `"ok"`,
rolled back on anything else. -/
def decided (i : PollInput) (x : Session) : Session :=
  { x with
    coord :=
      if i.healthReport = "ok" then commit x.coord else { x.coord with state := .rolledBack } }

/-- A decided update has left the health gate. -/
theorem decided_ne (hgate : x.coord.state = .healthGate) : decided i x ≠ x := by
  intro h
  have hstate : (decided i x).coord.state = .healthGate := by rw [h, hgate]
  simp only [decided] at hstate
  split at hstate <;> cases hstate

/-- A new verdict decides the update in the health gate, one way or the other. -/
theorem pollReport_decides (hnew : newVerdict i s) (hota : s.agent.ota = some x)
    (hgate : x.coord.state = .healthGate) :
    (pollReport crypto i s).agent.ota = some (decided i x) := by
  obtain ⟨captured, c⟩ := x
  have hstate : c.state = .healthGate := hgate
  have hreport : pollReport crypto i s = onHealthReport crypto i i.healthReport
      { s with agent := { s.agent with lastReport := i.healthReport } } := if_pos hnew
  rw [hreport]
  by_cases hok : i.healthReport = "ok"
  · simp [onHealthReport, hota, hstate, hok, OtaCoordinator.onHealth, commit, decided]
  · simp [onHealthReport, hota, hstate, hok, OtaCoordinator.onHealth, decided]

/-- A verdict changes neither whether there is a session nor its captured slot. -/
theorem pollReport_captured (crypto : Crypto) (i : PollInput) (s : Device) :
    (pollReport crypto i s).agent.ota.map Session.captured =
      s.agent.ota.map Session.captured := by
  obtain ⟨t, ht⟩ |
    ⟨-, captured, c, hota, -, ⟨-, -, hota', -⟩ | ⟨-, -, hota', -⟩⟩ := pollReport_cases crypto i s
  · rw [ht]
  · rw [hota, hota']
    rfl
  · rw [hota, hota']
    rfl

/-- A tick that starts no update keeps the session in its first half. -/
theorem pollTarget_ota (crypto : Crypto) (h : startsUpdate i s = none) :
    (pollTarget crypto i s).agent.ota = s.agent.ota ∧
      (pollTarget crypto i s).agent.lastReport = s.agent.lastReport := by
  obtain ⟨-, t, ht⟩ | ⟨active, c, l, hu⟩ := pollTarget_cases crypto i s
  · rw [ht]
    exact ⟨rfl, rfl⟩
  · cases h.symm.trans hu.starts

/-! ## The slot under test

The session remembers the slot that it captured, and the marker is on the other one. Both halves
of a tick keep it so, and so it holds in every state. -/

/-- While an update waits in the health gate, `boot_target` names the slot it
has written, unless it cannot be read. -/
def GateMarked (s : Device) : Prop :=
  ∀ x, s.agent.ota = some x → x.coord.state = .healthGate →
    ∀ slot, readBootTarget s.disk.bootTarget = some slot → slot = otherSlot x.captured

/-- The first half of a tick keeps the marker on the slot under test. -/
theorem GateMarked.pollTarget (h : GateMarked s) (crypto : Crypto) (i : PollInput) :
    GateMarked (pollTarget crypto i s) := by
  obtain ⟨-, t, ht⟩ | ⟨active, c, l, hu⟩ := pollTarget_cases crypto i s
  · rw [ht]
    exact h
  · intro x hx hgate slot hslot
    obtain rfl : (⟨active, c⟩ : Session) = x := Option.some.inj (hu.ota.symm.trans hx)
    exact hu.marker hgate hslot

/-- The second half ends the wait, or changes nothing. -/
theorem GateMarked.pollReport (h : GateMarked s) (crypto : Crypto) (i : PollInput) :
    GateMarked (pollReport crypto i s) := by
  obtain ⟨t, ht⟩ |
    ⟨-, captured, c, -, -, ⟨-, -, hota, -⟩ | ⟨-, -, hota, -⟩⟩ := pollReport_cases crypto i s
  · rw [ht]
    exact h
  · intro x hx hgate
    obtain rfl := Option.some.inj (hota.symm.trans hx)
    cases hgate
  · intro x hx hgate
    obtain rfl := Option.some.inj (hota.symm.trans hx)
    cases hgate

/-- In every state of a device's life the marker is on the slot under test. -/
theorem run_gateMarked {launch : LaunchParams} {disk : Disk} {h : List LifeEvent}
    (hr : Run (LifeStep crypto launch) (Device.boot launch disk) h s) : GateMarked s := by
  refine hr.invariant (I := fun _ s => GateMarked s) (fun x hx => by cases hx) ?_
  intro h s e s' hmarked hstep
  cases e with
  | poll i =>
    cases hstep
    exact (hmarked.pollTarget crypto i).pollReport crypto i
  | restart =>
    cases hstep
    exact fun x hx => by cases hx

/-! ## Delivery

A verdict is applied when it is new and the update is still there. The first half of a tick may
replace the update that the second half would have decided. -/

/-- **Exactly when the next tick applies a verdict** to the update that waits in
the health gate, in every state of a device's life: its text is not the last
one seen, and the tick does not start another update. -/
theorem verdict_applied_iff (crypto : Crypto) (launch : LaunchParams) (disk : Disk)
    {h : List LifeEvent} (hr : Run (LifeStep crypto launch) (Device.boot launch disk) h s)
    (hota : s.agent.ota = some x) (hgate : x.coord.state = .healthGate)
    (hverdict : i.healthReport ≠ "") :
    (poll crypto i s).agent.ota = some (decided i x) ↔
      i.healthReport ≠ s.agent.lastReport ∧ startsUpdate i s = none := by
  rcases hstarts : startsUpdate i s with _ | active
  · obtain ⟨hkept, hlast⟩ := pollTarget_ota crypto hstarts
    rw [hota] at hkept
    constructor
    · intro happlied
      refine ⟨?_, rfl⟩
      intro hold
      have hsame : poll crypto i s = pollTarget crypto i s :=
        if_neg fun hnew => hnew.2 (hold.trans hlast.symm)
      rw [hsame, hkept] at happlied
      exact decided_ne hgate (Option.some.inj happlied).symm
    · rintro ⟨hnew, -⟩
      exact pollReport_decides ⟨hverdict, hlast ▸ hnew⟩ hkept hgate
  · -- the new update has captured the slot under test, so that it is another one
    refine iff_of_false ?_ fun hnone => by cases hnone.2
    intro happlied
    obtain ⟨hnone, -⟩ | ⟨active', c, l, hu⟩ := pollTarget_cases crypto i s
    · cases hnone.symm.trans hstarts
    · have hcaptured := pollReport_captured crypto i (pollTarget crypto i s)
      rw [show pollReport crypto i (pollTarget crypto i s) = poll crypto i s from rfl, happlied,
        hu.ota] at hcaptured
      have hsame : x.captured = active' := Option.some.inj hcaptured
      have hslot : active' = otherSlot x.captured :=
        run_gateMarked hr x hota hgate active' hu.found.2
      exact otherSlot_ne x.captured (hslot.symm.trans hsame.symm)

/-- The verdict on a first update. -/
theorem verdict_applied_first :
    (poll signedCrypto (quietTick 12 "ok")
        (poll signedCrypto (quietTick 12 "") (Device.boot {} freshDisk))).agent.ota =
      some (decided (quietTick 12 "ok") ⟨'A', ⟨.healthGate, 'A', 10, 8, 12⟩⟩) :=
  (verdict_applied_iff signedCrypto {} freshDisk (h := [.poll (quietTick 12 "")])
    (x := ⟨'A', ⟨.healthGate, 'A', 10, 8, 12⟩⟩) (.snoc .start rfl) rfl rfl (by decide)).mpr
      ⟨by decide, by decide⟩

/-- The same verdict on the next update is not seen: the update stays in the
health gate. -/
theorem verdict_not_applied :
    ∃ s x, Run (LifeStep signedCrypto {}) (Device.boot {} freshDisk)
        [.poll (quietTick 13 "ok"), .poll (quietTick 12 "ok"), .poll (quietTick 12 "")] s ∧
      s.agent.ota = some x ∧ x.coord.state = .healthGate ∧
      (poll signedCrypto (quietTick 13 "ok") s).agent.ota ≠
        some (decided (quietTick 13 "ok") x) := by
  refine ⟨_, _, .snoc (.snoc (.snoc .start rfl) rfl) rfl, rfl, rfl, ?_⟩
  decide

end AmrFramework.Ota
