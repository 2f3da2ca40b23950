import AmrFramework.OtaAgentSafety
import AmrFramework.SignedManifest

/-!
# What gets onto a device

The signature is checked in one place only, inside the `fetch` that the agent
hands to the coordinator. What follows from it for a whole life of the device,
over restarts, failing writes and any values of the parameters: the contents of
a slot, a move of the boot marker and a commit each go back to a tick whose
image was there and was signed (`Trusted`).

What the vendor has signed is a set of images, and, in the older format,
versions without an image. `Unforgeable` says that nothing else verifies.
-/

namespace AmrFramework.Ota

open Runs

/-- An image as it is signed: version, digest and size. -/
abbrev Image : Type := Int × String × Nat

/-- Under this key nothing verifies but what the vendor has signed: images, and versions. -/
def Unforgeable (crypto : Crypto) (publicKey : String) (images : Set Image) : Prop :=
  ∀ text signature, crypto.verify text signature publicKey = true →
    (∃ m ∈ images, text = imageManifest m.1 m.2.1 m.2.2) ∨ ∃ v, text = updateManifest v

/-- The tick found an image of its target version, and it is one of these. -/
def Found (crypto : Crypto) (images : Set Image) (i : PollInput) : Prop :=
  ∃ bytes, i.image i.targetVersion = some bytes ∧
    (i.targetVersion, crypto.sha256Hex bytes, bytes.length) ∈ images

variable {crypto : Crypto} {images : Set Image} {i : PollInput} {s : Device} {key : String}

/-- A fetch accepts an image of the vendor only. -/
theorem found_of_fetch (hunforgeable : Unforgeable crypto key images)
    (h : fetch crypto i key i.targetVersion = true) : Found crypto images i := by
  obtain ⟨bytes, himage, hverify⟩ := verify_of_fetch h
  obtain ⟨m, hm, htext⟩ | ⟨v, htext⟩ := hunforgeable _ _ hverify
  · obtain ⟨hversion, hsha, hsize⟩ := imageManifest_inj htext
    refine ⟨bytes, himage, ?_⟩
    rw [hversion, hsha, hsize]
    exact hm
  · exact absurd htext (imageManifest_ne_updateManifest _ _ _ _)

/-! ## One tick

An update writes only after its fetch has succeeded, and a fetch succeeds only with a signature.
A verdict writes no slot; it can move the marker back, or commit what the update has written. -/

/-- Nothing is written before the fetch has succeeded. -/
theorem runUpdate_fetched_first (crypto : Crypto) (i : PollInput) (key : String) (active : Char)
    {c : OtaCoordinator} (hs : c.state = .idle) (v : Int) (d : Disk) :
    let out := c.runUpdate (agentOps crypto i key active) v true d
    (out.2.2 = d ∧ out.2.1.state = .idle) ∨
      (fetch crypto i key v = true ∧ out.2.1.candidateVersion = v ∧
        out.2.2.version = Function.update d.version (otherSlot c.activeSlot)
          (writeFile i.slotWrite (numberLine v) (d.version (otherSlot c.activeSlot))).2) := by
  by_cases hv : v < c.securityCounter
  · refine Or.inl ⟨?_, ?_⟩ <;>
      simp [OtaCoordinator.runUpdate, OtaCoordinator.requestUpdate, hs, hv]
  · rcases hw : writeFile i.slotWrite (numberLine v)
      (d.version (otherSlot c.activeSlot)) with ⟨written, file⟩
    rcases hm : writeFile i.markerWrite [otherSlot c.activeSlot, '\n'] d.bootTarget with
      ⟨switched, marker⟩
    rcases hf : fetch crypto i key v with _ | _ <;> cases written <;> cases switched <;>
      simp [OtaCoordinator.runUpdate, OtaCoordinator.requestUpdate, hs, hv, agentOps, callOrSkip,
        callOrFail, OtaCoordinator.onDownloadComplete, OtaCoordinator.beginInstall,
        OtaCoordinator.onInstallComplete, OtaCoordinator.switchBootTarget, hf, hw, hm]

/-- A verdict leaves the slots as they are. -/
theorem pollReport_version (crypto : Crypto) (i : PollInput) (s : Device) :
    (pollReport crypto i s).disk.version = s.disk.version := by
  have hpersist : ∀ (n : Int) (o : WriteOutcome) (renamed : Bool) (d : Disk),
      (persistCounter n o renamed d).version = d.version := by
    intro n o renamed d
    simp only [persistCounter]
    split <;> rfl
  by_cases hnew : i.healthReport ≠ "" ∧ i.healthReport ≠ s.agent.lastReport
  · rcases hota : s.agent.ota with _ | ⟨captured, c⟩
    · simp only [pollReport, if_pos hnew, onHealthReport, hota]
    · by_cases hs : c.state = .healthGate
      · by_cases hok : i.healthReport = "ok"
        · simp only [pollReport, if_pos hnew]
          simp [onHealthReport, hota, hs, hok, OtaCoordinator.onHealth, hpersist]
        · simp only [pollReport, if_pos hnew]
          simp [onHealthReport, hota, hs, hok, OtaCoordinator.onHealth,
            OtaCoordinator.callRollback, SlotOps.logged, agentOps]
      · simp [pollReport, hnew, onHealthReport, hota, hs]
  · simp only [pollReport, if_neg hnew]

/-! ## The life of a device

A disk may hold anything at the start, and a write may keep only a part of a text. So what a slot
holds is a part of a number, and the theorem says where that number comes from. -/

/-- A tick of this life found an image of this version. -/
def Vouched (crypto : Crypto) (images : Set Image) (h : List LifeEvent) (v : Int) : Prop :=
  ∃ i, .poll i ∈ h ∧ i.targetVersion = v ∧ Found crypto images i

theorem Vouched.mono {h : List LifeEvent} {v : Int} (hv : Vouched crypto images h v)
    (e : LifeEvent) : Vouched crypto images (e :: h) v := by
  obtain ⟨i, hi, htarget, hfound⟩ := hv
  exact ⟨i, List.mem_cons_of_mem _ hi, htarget, hfound⟩

/-- The invariant: what has changed since the device was delivered goes back to images of the
vendor. The key is part of it, as a restart reads it again. -/
structure Trusted (crypto : Crypto) (images : Set Image) (key : String) (disk : Disk)
    (h : List LifeEvent) (s : Device) : Prop where
  pinned : s.agent.pinnedPublicKey = key
  version : ∀ slot, s.disk.version slot = disk.version slot ∨ ∃ v n,
    Vouched crypto images h v ∧ s.disk.version slot = some ((numberLine v).take n)
  gate : ∀ x, s.agent.ota = some x → x.coord.state = .healthGate →
    Vouched crypto images h x.coord.candidateVersion
  committed : ∀ slot v, .committed slot v ∈ s.journal → Vouched crypto images h v
  bootTarget : s.disk.bootTarget = disk.bootTarget ∨ ∃ v, Vouched crypto images h v

variable {disk : Disk} {h : List LifeEvent}

/-- Time passes. -/
theorem Trusted.mono (ht : Trusted crypto images key disk h s) (e : LifeEvent) :
    Trusted crypto images key disk (e :: h) s where
  pinned := ht.pinned
  version slot := (ht.version slot).imp_right fun ⟨v, n, hv, hfile⟩ => ⟨v, n, hv.mono e, hfile⟩
  gate x hx hgate := (ht.gate x hx hgate).mono e
  committed slot v hm := (ht.committed slot v hm).mono e
  bootTarget := ht.bootTarget.imp_right fun ⟨v, hv⟩ => ⟨v, hv.mono e⟩

/-- The first half of a tick. -/
theorem Trusted.pollTarget (hunforgeable : Unforgeable crypto key images)
    (ht : Trusted crypto images key disk h s) (hi : .poll i ∈ h) :
    Trusted crypto images key disk h (pollTarget crypto i s) := by
  obtain ⟨-, t, hnone⟩ | ⟨active, c, l, hu⟩ := pollTarget_cases crypto i s
  · rw [hnone]
    exact ⟨ht.pinned, ht.version, ht.gate, ht.committed, ht.bootTarget⟩
  obtain ⟨r, hrun⟩ := hu.run
  have hfirst := runUpdate_fetched_first crypto i s.agent.pinnedPublicKey active
    (c := newCoordinator s active) rfl i.targetVersion s.disk
  rw [hrun] at hfirst
  have hpinned : (Ota.pollTarget crypto i s).agent.pinnedPublicKey = key := by
    rw [← ht.pinned]
    simp only [Ota.pollTarget, onParamChange]
    split_ifs <;> first | rfl | (split <;> rfl)
  have hcommitted : ∀ slot v, .committed slot v ∈ (Ota.pollTarget crypto i s).journal →
      Vouched crypto images h v := by
    intro slot v hm
    rw [hu.journal] at hm
    exact ht.committed slot v (mem_committed_ops.mp hm)
  obtain ⟨hdisk, hidle⟩ | ⟨hfetch, hcandidate, hversion⟩ := hfirst
  · have hdisk : (Ota.pollTarget crypto i s).disk = s.disk := hdisk
    refine ⟨hpinned, hdisk ▸ ht.version, fun x hx hgate => ?_, hcommitted, hdisk ▸ ht.bootTarget⟩
    obtain rfl := Option.some.inj (hu.ota.symm.trans hx)
    cases hidle.symm.trans hgate
  · rw [ht.pinned] at hfetch
    have hvouched : Vouched crypto images h i.targetVersion :=
      ⟨i, hi, rfl, found_of_fetch hunforgeable hfetch⟩
    refine ⟨hpinned, fun slot => ?_, fun x hx _ => ?_, hcommitted, .inr ⟨_, hvouched⟩⟩
    · rw [hversion]
      by_cases hslot : slot = otherSlot (newCoordinator s active).activeSlot
      · subst hslot
        rw [Function.update_self]
        simp only [writeFile]
        split
        · exact .inr ⟨_, _, hvouched, rfl⟩
        · exact ht.version _
      · rw [Function.update_of_ne hslot]
        exact ht.version slot
    · obtain rfl := Option.some.inj (hu.ota.symm.trans hx)
      rw [hcandidate]
      exact hvouched

/-- The second half. -/
theorem Trusted.pollReport (ht : Trusted crypto images key disk h s) :
    Trusted crypto images key disk h (pollReport crypto i s) := by
  have hversion := pollReport_version crypto i s
  have hpinned : (Ota.pollReport crypto i s).agent.pinnedPublicKey = key := by
    rw [← ht.pinned]
    simp only [Ota.pollReport, onHealthReport]
    split_ifs
    · split
      · rfl
      · split
        · rfl
        · split <;> rfl
    · rfl
  obtain ⟨t, hnone⟩ | ⟨-, captured, c, hota, hstate, ⟨-, -, hota', hboot, hj⟩ |
    ⟨-, -, hota', -, hj⟩⟩ := pollReport_cases crypto i s
  · rw [hnone]
    exact ⟨ht.pinned, ht.version, ht.gate, ht.committed, ht.bootTarget⟩
  · refine ⟨hpinned, hversion ▸ ht.version, fun x hx hgate => ?_, fun slot v hm => ?_,
      hboot ▸ ht.bootTarget⟩
    · obtain rfl := Option.some.inj (hota'.symm.trans hx)
      cases hgate
    · rw [hj, List.mem_cons] at hm
      obtain hnew | hold := hm
      · cases hnew
        exact ht.gate _ hota hstate
      · exact ht.committed slot v hold
  · refine ⟨hpinned, hversion ▸ ht.version, fun x hx hgate => ?_, fun slot v hm => ?_,
      .inr ⟨_, ht.gate _ hota hstate⟩⟩
    · obtain rfl := Option.some.inj (hota'.symm.trans hx)
      cases hgate
    · rw [hj] at hm
      simp only [List.mem_cons, reduceCtorEq, false_or] at hm
      exact ht.committed slot v hm

end AmrFramework.Ota
