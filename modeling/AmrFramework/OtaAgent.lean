import AmrFramework.OtaCoordinator

/-!
# The OTA agent

`OtaAgentNode` drives an `OtaCoordinator` from two polled parameters,
`ota.target_version` and `ota.health_report`, over a slot directory:

* `boot_target` — one token, whose first character names the slot to boot;
* `slots/slotX/version.txt` — the version written to slot `X`;
* the security counter, persisted under `$HOME` by a write and a rename.

`Disk` is that directory. A write goes through an `ofstream` that truncates,
so its outcome (`WriteOutcome`) is more than a flag: whether the file could be
opened, what the stream reported, and how much of the text reached the file.
What OpenSSL computes is a parameter (`Crypto`).

`poll` is one tick of the 1 Hz timer and `restart` a new agent process on the
same disk. The `journal` is what the properties of whole lives speak of: it
notes every slot operation, commit and rollback, newest first.
-/

namespace AmrFramework.Ota

/-! ## The slot directory

A file is a text or absent. What is read from it is what the stream operators read, with
everything that they forgive: white space before a token, and anything after it. -/

/-- The contents of a file. -/
abbrev Text := List Char

/-- What becomes of one `write_file`. The stream reports before the flush, so it may say that all
is well while nothing has reached the file. -/
structure WriteOutcome : Type where
  /-- the file could be opened, which empties it -/
  opened : Bool
  /-- the state of the stream after `f << content`, not after the flush -/
  reported : Bool
  /-- how many characters reach the file -/
  kept : Nat
  deriving DecidableEq, Repr

/-- At least the first character reaches the file. -/
def WriteOutcome.lands (o : WriteOutcome) : Bool := o.opened && 0 < o.kept

/-- `write_file`: the returned flag, and what the file then holds. -/
def writeFile (o : WriteOutcome) (content : Text) (old : Option Text) : Bool × Option Text :=
  if o.opened then (o.reported, some (content.take o.kept)) else (false, old)

/-- White space of the C locale. -/
def isSpace (c : Char) : Bool := c = ' ' || (9 ≤ c.toNat && c.toNat ≤ 13)

/-- `read_boot_target`: the first character of the first token. -/
def readBootTarget (file : Option Text) : Option Char :=
  file.bind fun s => (s.dropWhile isSpace).head?

/-- The number a run of decimal digits denotes. -/
def digitsToNat (ds : Text) : Nat := ds.foldl (fun n d => 10 * n + (d.toNat - '0'.toNat)) 0

/-- `read_version`: `f >> v` into an `int64_t`, absent when that fails. -/
def readVersion (file : Option Text) : Option Int :=
  file.bind fun s =>
    let s := s.dropWhile isSpace
    let (negative, s) :=
      match s with
      | '-' :: s => (true, s)
      | '+' :: s => (false, s)
      | s => (false, s)
    let ds := s.takeWhile Char.isDigit
    let v : Int := if negative then -(digitsToNat ds : Int) else digitsToNat ds
    if ds.isEmpty || v < -2 ^ 63 || 2 ^ 63 ≤ v then none else some v

/-- `std::to_string(n) + "\n"`. -/
def numberLine (n : Int) : Text := (toString n ++ "\n").toList

/-- The files the agent reads and writes. They survive a restart, and nothing else does. -/
structure Disk : Type where
  bootTarget : Option Text
  /-- `slots/slotX/version.txt` -/
  version : Char → Option Text
  /-- `security_counter` and its temporary file -/
  counterFile : Option Text := none
  counterTmp : Option Text := none

/-- Persist the counter: write the temporary file, then rename it. Neither
outcome is looked at. -/
def persistCounter (counter : Int) (tmpWrite : WriteOutcome) (renamed : Bool) (d : Disk) : Disk :=
  let tmp := (writeFile tmpWrite (numberLine counter) d.counterTmp).2
  if renamed && tmp.isSome then { d with counterFile := tmp, counterTmp := none }
  else { d with counterTmp := tmp }

@[simp] theorem persistCounter_bootTarget (counter : Int) (o : WriteOutcome) (renamed : Bool)
    (d : Disk) : (persistCounter counter o renamed d).bootTarget = d.bootTarget := by
  simp only [persistCounter]
  split <;> rfl

/-! ## The agent

One tick looks at the target first and at the verdict then. The two parameters are polled, so
what counts is whether a value differs from the one seen last. -/

/-- What the signer takes from OpenSSL. -/
structure Crypto : Type where
  sha256Hex : List UInt8 → String
  /-- manifest, signature, public key -/
  verify : String → String → String → Bool

/-- The signed text: version, digest and size of the image together. -/
def imageManifest (version : Int) (sha256 : String) (size : Nat) : String :=
  "amr-ota:v" ++ toString version ++ ";sha256=" ++ sha256 ++ ";size=" ++ toString size

/-- Launch parameters. -/
structure LaunchParams : Type where
  securityCounter : Int := 8
  targetVersion : Int := 0
  /-- the contents of `ota.public_key_file`, empty when it cannot be read -/
  publicKey : String := ""
  deriving DecidableEq, Repr

/-- The coordinator of the latest update, with the slot that its
`rollback_marker` has captured. -/
structure Session : Type where
  captured : Char
  coord : OtaCoordinator
  deriving DecidableEq, Repr

/-- The agent's fields, which a restart sets anew from the launch parameters and the disk. -/
structure OtaAgent : Type where
  securityCounter : Int
  lastTarget : Int
  lastReport : String := ""
  pinnedPublicKey : String
  ota : Option Session := none
  deriving DecidableEq, Repr

/-- The constructor. The persisted counter is not read. -/
def OtaAgent.new (launch : LaunchParams) : OtaAgent where
  securityCounter := launch.securityCounter
  lastTarget := launch.targetVersion
  pinnedPublicKey := launch.publicKey

/-- What one tick of the poll timer finds, and what becomes of its writes. All of it is
arbitrary: a property of all lives holds under any of these. -/
structure PollInput : Type where
  targetVersion : Int
  healthReport : String
  targetSignature : String
  /-- the images that can be read -/
  image : Int → Option (List UInt8)
  slotWrite : WriteOutcome
  markerWrite : WriteOutcome
  rollbackWrite : WriteOutcome
  counterWrite : WriteOutcome
  counterRenamed : Bool

/-- An entry of the journal. -/
inductive Entry : Type where
  /-- a slot operation was invoked -/
  | op (o : OpCall)
  /-- an update was committed -/
  | committed (slot : Char) (version : Int)
  /-- an update was rolled back, which left `boot_target` reading this -/
  | rolledBack (bootTarget : Option Char)
  deriving DecidableEq, Repr

/-- The agent, its disk, and the journal. -/
structure Device : Type where
  agent : OtaAgent
  disk : Disk
  journal : List Entry := []

/-- A freshly started agent on a disk. -/
def Device.boot (launch : LaunchParams) (disk : Disk) : Device where
  agent := .new launch
  disk := disk

/-- The `fetch` operation: hash the image and check the signature over
version, digest and size. -/
def fetch (crypto : Crypto) (i : PollInput) (publicKey : String) (v : Int) : Bool :=
  match i.image v with
  | none => false
  | some bytes =>
    if bytes.isEmpty then false
    else
      crypto.verify (imageManifest v (crypto.sha256Hex bytes) bytes.length) i.targetSignature
        publicKey

/-- The slot operations the agent injects: `captured` is the active slot at the
time they are made. -/
def agentOps (crypto : Crypto) (i : PollInput) (publicKey : String) (captured : Char) :
    SlotOps Disk where
  fetch := some fun v d => (fetch crypto i publicKey v, d)
  write := some fun slot v d =>
    let (ok, file) := writeFile i.slotWrite (numberLine v) (d.version slot)
    (ok, { d with version := Function.update d.version slot file })
  setBootTarget := some fun slot d =>
    let (ok, file) := writeFile i.markerWrite [slot, '\n'] d.bootTarget
    (ok, { d with bootTarget := file })
  rollbackMarker := some fun d =>
    { d with bootTarget := (writeFile i.rollbackWrite [captured, '\n'] d.bootTarget).2 }

/-- The coordinator that a new target gets. -/
def newCoordinator (s : Device) (active : Char) : OtaCoordinator :=
  .new active ((readVersion (s.disk.version active)).getD 0) s.agent.securityCounter

/-- A new target version: replace the coordinator and run the update. -/
def onParamChange (crypto : Crypto) (i : PollInput) (target : Int) (s : Device) : Device :=
  match readBootTarget s.disk.bootTarget with
  | none => s
  | some active =>
    let ops := agentOps crypto i s.agent.pinnedPublicKey active
    let (_, c, invoked, disk) :=
      (newCoordinator s active).runUpdate ops.logged target true ([], s.disk)
    { agent := { s.agent with ota := some ⟨active, c⟩ }
      disk := disk
      journal := invoked.map .op ++ s.journal }

/-- A health verdict, ignored outside the health gate. -/
def onHealthReport (crypto : Crypto) (i : PollInput) (report : String) (s : Device) : Device :=
  match s.agent.ota with
  | none => s
  | some ⟨captured, c⟩ =>
    if c.state ≠ .healthGate then s
    else
      let ops := agentOps crypto i s.agent.pinnedPublicKey captured
      let (_, c, invoked, disk) := c.onHealth ops.logged (report = "ok") ([], s.disk)
      let journal := invoked.map .op ++ s.journal
      if c.state = .committed then
        let counter :=
          if c.activeVersion > s.agent.securityCounter then c.activeVersion
          else s.agent.securityCounter
        { agent := { s.agent with securityCounter := counter, ota := some ⟨captured, c⟩ }
          disk := persistCounter counter i.counterWrite i.counterRenamed disk
          journal := .committed c.activeSlot c.activeVersion :: journal }
      else
        { agent := { s.agent with ota := some ⟨captured, c⟩ }
          disk := disk
          journal := .rolledBack (readBootTarget disk.bootTarget) :: journal }

/-- The tick's first half: a changed target, if it is positive. -/
def pollTarget (crypto : Crypto) (i : PollInput) (s : Device) : Device :=
  if i.targetVersion ≠ s.agent.lastTarget then
    let s := { s with agent := { s.agent with lastTarget := i.targetVersion } }
    if i.targetVersion > 0 then onParamChange crypto i i.targetVersion s else s
  else s

/-- The tick's second half: a changed verdict, if there is one. -/
def pollReport (crypto : Crypto) (i : PollInput) (s : Device) : Device :=
  if i.healthReport ≠ "" ∧ i.healthReport ≠ s.agent.lastReport then
    onHealthReport crypto i i.healthReport
      { s with agent := { s.agent with lastReport := i.healthReport } }
  else s

/-- One tick of the poll timer. -/
def poll (crypto : Crypto) (i : PollInput) (s : Device) : Device :=
  pollReport crypto i (pollTarget crypto i s)

/-- The agent process is started again, with the same launch parameters, on
the disk that the old one has left. -/
def restart (launch : LaunchParams) (s : Device) : Device :=
  { s with agent := .new launch }

/-- Something that happens in a device's life. The device may be switched off at any time between
two ticks. -/
inductive LifeEvent : Type where
  | poll (i : PollInput)
  | restart

/-- One tick as a labelled step. -/
def PollStep (crypto : Crypto) (s : Device) (i : PollInput) (s' : Device) : Prop :=
  s' = poll crypto i s

/-- One event of a device's life as a labelled step. -/
def LifeStep (crypto : Crypto) (launch : LaunchParams) (s : Device) (e : LifeEvent)
    (s' : Device) : Prop :=
  match e with
  | .poll i => s' = poll crypto i s
  | .restart => s' = Ota.restart launch s

end AmrFramework.Ota
