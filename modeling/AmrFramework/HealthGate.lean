import AmrFramework.SupervisorDeps

/-!
# The health gate

A health-gated child is confirmed only by the health feed, and the feed knows
nothing of restarts: its views and its aggregates outlive the processes they
were reported for.

* `Reflects` ties the feed to the log: a node's view is the last word on it.
* `SupStep.logs`, `HealthStep.logs`, `TearStep.logs` — what the steps add to
  the log, in particular when they confirm a child.
* `confirmed_fresh` — a confirmation rests on reports about the latest process,
  if no process is spawned while a node's last word is OK. A child with a
  single node needs no such condition, for its confirmation is a flip of that
  node. Otherwise an OK from before the restart still counts
  (`confirmed_stale`).
-/

namespace AmrFramework.Monitoring

open DependencyOrder Runs

variable {r : Roster} {env : Env} {s s' : Procs} {n : String}

/-! ## Reports in the log

The log records reports, spawns and changes of phase in one order. So whether a confirmation is
fresh is a question about the log, and each kind of step is described by what it adds there. -/

/-- The view an entry of the log gives of a node. -/
def loggedView (a : String) : Rec → Option NodeView
  | .status st => if st.nodeName = a then nodeView st.status else none
  | .phase _ _ _ | .completed _ | .spawnChild _ _ _ _ | .gone _ _ | .killed _ _ => none

/-- The last word on a node, according to the log. The newest entry stands first, so it is the
first view found. -/
def loggedWord (a : String) (l : List Rec) : Option NodeView := l.findSome? (loggedView a)

/-- Entries without reports do not change it: the log grows at the front, and what is put there
has no view of any node. -/
theorem loggedWord_append {new : List Rec} (hnew : ∀ e ∈ new, ∀ st, e ≠ .status st) (a : String)
    (l : List Rec) : loggedWord a (new ++ l) = loggedWord a l := by
  induction new with
  | nil => rfl
  | cons e new ih =>
    have he : loggedView a e = none := by
      have hnot := hnew e (List.mem_cons_self ..)
      cases e <;> first | rfl | exact absurd rfl (hnot _)
    rw [List.cons_append, loggedWord, List.findSome?_cons, he]
    exact ih fun e he => hnew e (List.mem_cons_of_mem _ he)

/-- A message that has been noted speaks before all that was logged, and its own last entry on a
node speaks before the others. -/
theorem loggedWord_noteReport (a : String) (s : Procs) (msg : List HealthStatus) :
    loggedWord a (s.noteReport msg).log = (lastWord a msg.reverse).or (loggedWord a s.log) := by
  have hmap (l : List HealthStatus) : (l.map Rec.status).findSome? (loggedView a) = lastWord a l := by
    rw [List.findSome?_map]
    rfl
  have hlog : (s.noteReport msg).log = msg.reverse.map Rec.status ++ s.log := by
    rw [List.map_reverse]
    rfl
  rw [hlog, loggedWord, List.findSome?_append, hmap]
  rfl

/-- The process of `n` is spawned. -/
def Rec.Spawns (n : String) (e : Rec) : Prop :=
  ∃ recorded deps pid, e = .spawnChild n recorded deps (some pid)

instance (n : String) : (e : Rec) → Decidable (e.Spawns n)
  | .spawnChild m recorded deps (some pid) =>
    decidable_of_iff (m = n)
      ⟨fun h => h ▸ ⟨recorded, deps, pid, rfl⟩, fun ⟨_, _, _, h⟩ => by cases h; rfl⟩
  | .spawnChild _ _ _ none | .phase _ _ _ | .completed _ | .gone _ _ | .killed _ _ | .status _ =>
    .isFalse fun ⟨_, _, _, h⟩ => by cases h

/-- An entry that a sequence of supervision steps may add to the log. What matters here is who
may confirm a gated child, which takes a report; no step writes a report of its own. -/
def Rec.OfSteps (r : Roster) (byReport : Prop) : Rec → Prop
  | .phase m before after =>
    before = .starting ∧ after = .running → (r.decl m).healthGated = false ∨ byReport
  | .status _ => False
  | .completed _ | .spawnChild _ _ _ _ | .gone _ _ | .killed _ _ => True

/-- An entry that the handling of signals may add to the log. A confirmation is for a child that
was signalled alive, and nothing is spawned. -/
def Rec.OfSignals (confirmed : String → Prop) : Rec → Prop
  | .phase m before after => before = .starting ∧ after = .running → confirmed m
  | .killed _ _ => True
  | .status _ | .completed _ | .spawnChild _ _ _ _ | .gone _ _ => False

theorem Rec.OfFall.ofSteps {respawns byReport : Prop} {e : Rec} (h : e.OfFall r n respawns) :
    e.OfSteps r byReport := by
  cases e with
  | phase m before after =>
    rintro ⟨-, rfl⟩
    cases h.2
  | status st => exact h
  | completed m => trivial
  | spawnChild m recorded deps pid => trivial
  | gone m pid => trivial
  | killed m pid => trivial

/-- **What a supervision step adds to the log**: no report, and a confirmation of a gated child
only where a report may confirm. -/
theorem SupStep.logs {byReport : Prop} (hstep : SupStep r byReport s s') :
    s.Logs (Rec.OfSteps r byReport) s' := by
  have hfall {n : String} {kind : ActionKind} {t : Procs} (h : Falls r n kind t s') :
      t.Logs (Rec.OfSteps r byReport) s' := h.logs.imp fun _ he => he.ofSteps
  have hforget (n : String) : s.Logs (Rec.OfSteps r byReport) (s.forget n) :=
    .cons (Procs.forget_log s n) trivial
  have hlaunch {n : String} {t : Int} {pid : Option Int} :
      s.Logs (Rec.OfSteps r byReport) ((announce s n t).spawn r n pid) := by
    refine (s.setState_logs ?_).trans (.cons (Procs.spawn_log ..) trivial)
    intro _ h
    cases h.2
  cases hstep with
  | idle hsame => exact .of_eq hsame.log
  | stable hn hphase hsame =>
    refine (s.setState_logs ?_).trans_same hsame
    intro _ h
    cases hphase.symm.trans h.1
  | @late n hn hlive hpid hsame =>
    obtain hsame | ⟨-, hsame⟩ := hsame
    · exact (hforget n).trans_same hsame
    · exact ((hforget n).trans (.cons (Procs.complete_log ..) trivial)).trans_same hsame
  | launched hn hready hpid hsame => exact hlaunch.trans_same hsame
  | stillborn hn hready hfalls => exact hlaunch.trans (hfall hfalls)
  | confirm hn hphase hwhy hsame =>
    exact (s.setState_logs fun _ _ => hwhy.imp_left And.left).trans_same hsame
  | @finished n t hn hlive hpid honeshot hsame =>
    refine (((hforget n).trans (Procs.setState_logs _ ?_)).trans
      (.cons (Procs.complete_log ..) trivial)).trans_same hsame
    intro _ h
    cases h.2
  | @exited n hn hpid hfalls => exact (hforget n).trans (hfall hfalls)
  | timedOut hn hpid hphase hfalls => exact (s.kill_logs trivial).trans (hfall hfalls)
  | lost hn hphase hfalls => exact hfall hfalls

/-- **What a health step adds to the log**: no report, no spawn, and a
confirmation only of the child that is signalled alive. -/
theorem HealthStep.logs {signal : String × Bool} (hstep : HealthStep r signal s s') :
    s.Logs (Rec.OfSignals fun m => signal = (m, true)) s' := by
  cases hstep with
  | confirm hn hphase hsame => exact (s.setState_logs fun _ _ => rfl).trans_same hsame
  | lost hn hphase hfalls =>
    apply hfalls.logs.imp
    intro e he
    cases e with
    | phase m before after =>
      rintro ⟨-, rfl⟩
      cases he.2
    | killed m pid => trivial
    | spawnChild m recorded deps pid => cases he.2.1
    | status st => exact he
    | completed m => exact he
    | gone m pid => exact he
  | ignored hwhy hsame => exact .of_eq hsame.log

/-- What a teardown adds to the log. No gated child is confirmed by it, and no report is written. -/
theorem TearStep.logs (hstep : TearStep s s') : s.Logs (Rec.OfSteps r False) s' := by
  cases hstep with
  | idle hsame => exact .of_eq hsame.log
  | @forget n hpid hsame => exact .cons hsame.log trivial
  | kill hsame => exact (s.kill_logs trivial).trans_same hsame

/-! ## The feed and the log

The feed holds a view for each node, under the child that the node is routed to. It is the last
word on the node, whatever has happened to the processes since. -/

/-- The feed is settled, and a node's view is the last word on it in the log. The log goes back
to the configuration, so views survive deactivations and restarts of the children alike. -/
structure Reflects (r : Roster) (f : HealthFeed) (l : List Rec) : Prop where
  settled : f.Settled
  index : f.nodeToChild = (HealthFeed.new r.healthMap).nodeToChild
  nodes : ∀ c, (f.views c).nodes = ((HealthFeed.new r.healthMap).views c).nodes
  status : ∀ c a, (f.views c).status a = if f.nodeToChild a = some c then loggedWord a l else none

/-- No entries but reports change the last word. -/
theorem Procs.Logs.loggedWord {φ : Rec → Prop} (hφ : ∀ e, φ e → ∀ st, e ≠ .status st)
    (h : s.Logs φ s') (a : String) : loggedWord a s'.log = loggedWord a s.log := by
  obtain ⟨new, hnew, he⟩ := h
  rw [hnew]
  exact loggedWord_append (fun e hmem => hφ e (he e hmem)) a s.log

theorem Rec.OfSteps.not_status {byReport : Prop} {e : Rec} (h : e.OfSteps r byReport)
    (st : HealthStatus) : e ≠ .status st := by
  rintro rfl
  exact h

theorem Rec.OfSignals.not_status {confirmed : String → Prop} {e : Rec}
    (h : e.OfSignals confirmed) (st : HealthStatus) : e ≠ .status st := by
  rintro rfl
  exact h

theorem Rec.OfSignals.mono {p q : String → Prop} (hpq : ∀ m, p m → q m) {e : Rec}
    (h : e.OfSignals p) : e.OfSignals q := by
  cases e with
  | phase m before after => exact fun hphase => hpq m (h hphase)
  | killed m pid => trivial
  | status st => exact h
  | completed m => exact h
  | spawnChild m recorded deps pid => exact h
  | gone m pid => exact h

/-- What the handling of all signals of a message adds to the log. A confirmation among it
belongs to a signal of the message. -/
theorem HealthSteps.logs {signals : List (String × Bool)} (h : HealthSteps r signals s s') :
    s.Logs (Rec.OfSignals fun m => (m, true) ∈ signals) s' := by
  induction h with
  | done hsame => exact .of_eq hsame.log
  | signal hstep _ ih =>
    refine (hstep.logs.imp ?_).trans (ih.imp ?_)
    · intro e he
      exact he.mono fun m hm => hm ▸ List.mem_cons_self ..
    · intro e he
      exact he.mono fun m hm => List.mem_cons_of_mem _ hm

variable {f : HealthFeed} {l : List Rec}

/-- Entries that are no reports keep feed and log together, since the feed only changes with a
message. -/
theorem Reflects.of_logs {φ : Rec → Prop} (h : Reflects r f s.log)
    (hφ : ∀ e, φ e → ∀ st, e ≠ .status st) (hlogs : s.Logs φ s') : Reflects r f s'.log := by
  refine ⟨h.settled, h.index, h.nodes, ?_⟩
  intro c a
  rw [h.status, hlogs.loggedWord hφ]

/-- A message that is noted and dispatched does so, too: the feed takes the last view of each
node from the message, and so does the log. -/
theorem Reflects.report (h : Reflects r f s.log) (msg : List HealthStatus) :
    Reflects r (dispatch f msg).1 (s.noteReport msg).log := by
  have hd := dispatch_spec h.settled msg
  refine ⟨hd.settled, hd.index.trans h.index, fun c => (hd.nodes c).trans (h.nodes c),
    ?_⟩
  intro c a
  rw [hd.status, hd.index, h.status, loggedWord_noteReport]
  split <;> rfl

/-- **Every callback keeps feed and log together.** A report is noted in both; everything else
adds entries to the log that are no reports. -/
theorem nodeStep_reflects {node node' : SupervisorNode} {cb : Callback}
    (h : Reflects r node.healthFeed node.procs.log) (hstep : NodeStep r env node cb node') :
    Reflects r node'.healthFeed node'.procs.log := by
  have hsup (hsteps : SupSteps r False node.procs node'.procs) :
      Reflects r node.healthFeed node'.procs.log :=
    h.of_logs (fun _ he => he.not_status) (.of_steps (fun _ _ hstep => hstep.logs) hsteps)
  obtain ⟨-, -, -, hfeed, hsteps⟩ | ⟨-, -, hfeed, hsteps, -⟩ |
    ⟨-, -, -, hfeed, hsteps⟩ | ⟨msg, -, -, hfeed, hsteps⟩ :=
    nodeStep_cases hstep <;> rw [hfeed]
  · exact hsup hsteps
  · exact h.of_logs (fun _ he => he.not_status)
      (.of_steps (fun _ _ hstep => hstep.logs (r := r)) hsteps)
  · exact hsup hsteps
  · exact (h.report msg).of_logs (fun _ he => he.not_status) hsteps.logs

/-- At the start nothing has been reported, and the feed has no view of any node. -/
theorem configured_reflects (r : Roster) : Reflects r (.new r.healthMap) [] := by
  refine ⟨new_settled _, rfl, fun _ => rfl, ?_⟩
  intro c a
  have hnone : ((HealthFeed.new r.healthMap).views c).status a = none := by
    simp only [HealthFeed.new]
    split <;> rfl
  rw [hnone]
  split <;> rfl

/-- In every run feed and log agree: after every callback the feed's view of a node is the last
word that the log has on it. -/
theorem run_reflects {h : List Callback} {node : SupervisorNode}
    (hr : Run (NodeStep r env) (.configured r) h node) :
    Reflects r node.healthFeed node.procs.log :=
  hr.invariant (I := fun _ node => Reflects r node.healthFeed node.procs.log)
    (configured_reflects r) fun _ _ _ _ h hstep => nodeStep_reflects h hstep

/-- The children known to the feed are the gated ones. The others are confirmed by the tick and
never asked about. -/
theorem mem_healthMap (r : Roster) :
    n ∈ r.healthMap.children ↔ n ∈ r.names ∧ (r.decl n).healthGated = true := by
  rw [r.gated]
  exact List.mem_filter

/-- The feed's nodes of a gated child. -/
theorem Reflects.nodes_of_gated (h : Reflects r f l) (hn : n ∈ r.names)
    (hgated : (r.decl n).healthGated = true) : (f.views n).nodes = (r.decl n).healthNodes :=
  (h.nodes n).trans (new_nodes _ ((mem_healthMap r).mpr ⟨hn, hgated⟩))

/-- Alive means: every node is routed to the child, and the last word on it is OK. The first half
can fail when two children share a node, since the mapping keeps one child for each. -/
theorem Reflects.alive_iff (h : Reflects r f l) (hn : n ∈ r.names)
    (hgated : (r.decl n).healthGated = true) :
    (f.views n).alive = true ↔ ∀ a ∈ (r.decl n).healthNodes,
      f.nodeToChild a = some n ∧ loggedWord a l = some .ok := by
  have hnodes := h.nodes_of_gated hn hgated
  have hne : (r.decl n).healthNodes.isEmpty = false := by
    rw [r.gated] at hgated
    simpa using hgated
  rw [h.settled.alive, hnodes, hne, Bool.not_false, Bool.true_and, ChildView.aggregate, hnodes,
    List.all_eq_true]
  apply forall₂_congr
  intro a ha
  rw [decide_eq_true_iff, h.status]
  split
  · next hroute => simp [hroute]
  · next hroute => simp [hroute]

/-- Only gated children are ever alive: no view is kept of a child that the mapping does not
have. -/
theorem Reflects.gated_of_alive (h : Reflects r f l) (halive : (f.views n).alive = true) :
    n ∈ r.names ∧ (r.decl n).healthGated = true := by
  by_contra hnot
  have hnone : n ∉ r.healthMap.children := fun hn => hnot ((mem_healthMap r).mp hn)
  rw [h.settled.alive, h.nodes] at halive
  simp [HealthFeed.new, hnone] at halive

/-- The signals of a message: the flips. A child is signalled when it is alive after the message
and was not before, or the other way round. -/
theorem mem_signals (hf : f.Settled) (msg : List HealthStatus) (b : Bool) :
    (n, b) ∈ (dispatch f msg).2 ↔
      b = ((dispatch f msg).1.views n).alive ∧ b ≠ (f.views n).alive := by
  refine ⟨dispatch_called hf, fun ⟨hnew, hold⟩ => ?_⟩
  have hcallbacks := (dispatch_spec hf msg).callbacks n
  rw [if_neg (hnew ▸ hold)] at hcallbacks
  have hmem : b ∈ callbacksOf n (dispatch f msg).2 := by
    rw [hcallbacks, hnew]
    exact List.mem_singleton_self _
  obtain ⟨⟨c, b'⟩, hc, he⟩ := List.mem_filterMap.mp hmem
  dsimp only at he
  split at he
  · next heq =>
    obtain rfl := Option.some.inj he
    exact heq ▸ hc
  · cases he

/-! ## Safety

A signal is made when the aggregate of a child becomes alive, which the last missing OK brings
about. The other OKs may be older than the process; they are not if no node was OK when it was
spawned. -/

/-- A confirmation of `n` at this point rests on its latest process: since it
was spawned every node has been reported OK, and not ERROR or FATAL after that. -/
def Confirmable (r : Roster) (n : String) (l : List Rec) : Prop :=
  ∀ a ∈ (r.decl n).healthNodes,
    Since (fun e => ¬ e.Spawns n) (fun e => loggedView a e = some .ok) l ∧
      Since (fun e => loggedView a e ≠ some .bad) (fun e => loggedView a e = some .ok) l

/-- If the entry is a confirmation of a gated child, it rests on its latest process: every health
node has reported OK since that process was spawned. -/
def FreshlyConfirmed (r : Roster) (e : Rec) (older : List Rec) : Prop :=
  ∀ n, e = .phase n .starting .running → (r.decl n).healthGated = true → Confirmable r n older

/-- If the entry is a spawn, no node's last word is OK, unless the child has
but one node. -/
def SpawnedFresh (r : Roster) (e : Rec) (older : List Rec) : Prop :=
  ∀ n, e.Spawns n →
    (∀ a ∈ (r.decl n).healthNodes, ∀ b ∈ (r.decl n).healthNodes, a = b) ∨
      ∀ a ∈ (r.decl n).healthNodes, loggedWord a older ≠ some .ok

instance (r : Roster) : (e : Rec) → (older : List Rec) → Decidable (SpawnedFresh r e older)
  | .spawnChild n recorded deps (some pid), older =>
    decidable_of_iff
      ((∀ a ∈ (r.decl n).healthNodes, ∀ b ∈ (r.decl n).healthNodes, a = b) ∨
        ∀ a ∈ (r.decl n).healthNodes, loggedWord a older ≠ some .ok)
      ⟨fun h m ⟨_, _, _, hm⟩ => by cases hm; exact h, fun h => h n ⟨recorded, deps, pid, rfl⟩⟩
  | .spawnChild _ _ _ none, _ | .phase _ _ _, _ | .completed _, _ | .gone _ _, _ | .killed _ _, _
  | .status _, _ => .isTrue fun _ ⟨_, _, _, h⟩ => by cases h

/-- With fresh spawns, a last word that is OK is about the latest process. Between the two there
can be no other spawn, since at that one the last word would have been OK already. -/
theorem since_spawn {a : String} (ha : a ∈ (r.decl n).healthNodes)
    (hmany : ¬ ∀ a ∈ (r.decl n).healthNodes, ∀ b ∈ (r.decl n).healthNodes, a = b)
    (hfresh : Always (SpawnedFresh r) l)
    (hword : loggedWord a l = some .ok) :
    Since (fun e => ¬ e.Spawns n) (fun e => loggedView a e = some .ok) l := by
  induction l with
  | nil => cases hword
  | cons e l ih =>
    rw [loggedWord, List.findSome?_cons] at hword
    rcases hview : loggedView a e with _ | v <;> rw [hview] at hword
    · refine Or.inr ⟨?_, ih hfresh.2 hword⟩
      intro hspawn
      exact ((hfresh.1 n hspawn).resolve_left hmany) a ha hword
    · exact .head (hview.trans hword)

/-- A single node whose last word has become OK was reported OK by this very
message, and nothing has been spawned since. -/
theorem since_report {a : String} {confirmed : String → Prop} {msg : List HealthStatus}
    (hold : loggedWord a s.log ≠ some .ok)
    (hlogs : (s.noteReport msg).Logs (Rec.OfSignals confirmed) s')
    (hword : loggedWord a s'.log = some .ok) :
    Since (fun e => ¬ e.Spawns n) (fun e => loggedView a e = some .ok) s'.log := by
  rw [hlogs.loggedWord fun _ he => he.not_status, loggedWord_noteReport] at hword
  have hlast : lastWord a msg.reverse = some .ok := by
    rcases hlast : lastWord a msg.reverse with _ | v <;> rw [hlast] at hword
    · exact absurd hword hold
    · exact hword
  obtain ⟨st, hst, hview⟩ := List.exists_of_findSome?_eq_some hlast
  have hview : loggedView a (.status st) = some .ok := hview
  obtain ⟨new, hnew, hof⟩ := hlogs
  have hlog : s'.log = (new ++ (msg.map Rec.status).reverse) ++ s.log := by
    rw [hnew, List.append_assoc]
    rfl
  have hmem : .status st ∈ new ++ (msg.map Rec.status).reverse :=
    List.mem_append_right _
      (List.mem_reverse.mpr (List.mem_map_of_mem (List.mem_reverse.mp hst)))
  rw [hlog]
  refine Since.of_mem (Q := fun e => loggedView a e = some .ok) hview ?_ hmem
  intro e he
  rintro ⟨recorded, deps, pid, rfl⟩
  obtain he | he := List.mem_append.mp he
  · exact hof _ he
  · obtain ⟨st, -, hst⟩ := List.mem_map.mp (List.mem_reverse.mp he)
    cases hst

/-- **A confirmation rests on the latest process**, when the spawns were fresh: an alive signal
needs a last word OK of every node, and a fresh spawn has seen to it that no such word was left
from an earlier process. -/
theorem confirmable_of_signal (h : Reflects r f s.log) {msg : List HealthStatus}
    {confirmed : String → Prop} (hsignal : (n, true) ∈ (dispatch f msg).2)
    (hlogs : (s.noteReport msg).Logs (Rec.OfSignals confirmed) s')
    (hfresh : Always (SpawnedFresh r) s'.log) : Confirmable r n s'.log := by
  obtain ⟨hnew, hold⟩ := (mem_signals h.settled msg true).mp hsignal
  -- feed and log agree before the message, and at the moment of the confirmation
  have h' := (h.report msg).of_logs (fun _ he => he.not_status) hlogs
  obtain ⟨hn, hgated⟩ := h'.gated_of_alive hnew.symm
  intro a ha
  obtain ⟨hroute, hword⟩ := (h'.alive_iff hn hgated).mp hnew.symm a ha
  refine ⟨?_, (since_of_findSome? hword).imp ?_ fun _ => id⟩
  · by_cases hsingle : ∀ a ∈ (r.decl n).healthNodes, ∀ b ∈ (r.decl n).healthNodes, a = b
    · -- the flip is one of this node
      refine since_report (fun hok => hold ?_) hlogs hword
      refine ((h.alive_iff hn hgated).mpr ?_).symm
      intro b hb
      rw [← hsingle a ha b hb]
      exact ⟨by rw [← hroute, (dispatch_spec h.settled msg).index], hok⟩
    · exact since_spawn ha hsingle hfresh hword
  · intro e he
    rw [he]
    exact fun hbad => by cases hbad

/-- Entries that confirm no gated child are all right, whatever stands behind them. -/
theorem freshlyConfirmed_append {φ : Rec → Prop} (hlogs : s.Logs φ s')
    (hφ : ∀ e, φ e → ∀ l, FreshlyConfirmed r e l) (h : Always (FreshlyConfirmed r) s.log) :
    Always (FreshlyConfirmed r) s'.log := by
  obtain ⟨new, hnew, he⟩ := hlogs
  rw [hnew]
  exact h.append fun e hmem => hφ e (he e hmem)

/-- Fresh spawns so far were fresh spawns before. The log only grows, so a condition on all of it
holds of every earlier log. -/
theorem Procs.Logs.always {φ : Rec → Prop} {ψ : Rec → List Rec → Prop} (hlogs : s.Logs φ s')
    (h : Always ψ s'.log) : Always ψ s.log := by
  obtain ⟨new, hnew, -⟩ := hlogs
  rw [hnew] at h
  exact h.of_append

/-- The signals of a message confirm freshly, as long as the spawns were fresh: what was not OK
at the spawn has turned OK since. -/
theorem HealthSteps.freshlyConfirmed (h : Reflects r f s.log) {msg : List HealthStatus}
    {signals : List (String × Bool)} (hsignals : ∀ signal ∈ signals, signal ∈ (dispatch f msg).2)
    {t u : Procs} (hlogs : (s.noteReport msg).Logs (Rec.OfSignals fun _ => True) t)
    (hsteps : HealthSteps r signals t u) (hfresh : Always (SpawnedFresh r) u.log)
    (ht : Always (FreshlyConfirmed r) t.log) : Always (FreshlyConfirmed r) u.log := by
  induction hsteps with
  | done hsame =>
    rw [hsame.log]
    exact ht
  | @signal t t₁ u signal signals hstep hrest ih =>
    have hlogs₁ := hstep.logs
    refine ih (fun signal hmem => hsignals signal (List.mem_cons_of_mem _ hmem))
      (hlogs.trans (hlogs₁.imp fun e he => he.mono fun _ _ => trivial)) hfresh ?_
    have hfresh₁ : Always (SpawnedFresh r) t.log := hlogs₁.always (hrest.logs.always hfresh)
    cases hstep with
    | @confirm _ _ m time hm hphase hsame =>
      rw [hsame.log, Procs.setState_log_ne hphase (by simp)]
      refine ⟨?_, ht⟩
      intro n hn _
      cases hn
      exact confirmable_of_signal h (hsignals _ (List.mem_cons_self ..)) hlogs hfresh₁
    | @lost _ _ m hm hphase hfalls =>
      refine freshlyConfirmed_append hlogs₁ ?_ ht
      intro e he l n hn _
      subst hn
      cases he ⟨rfl, rfl⟩
    | ignored hwhy hsame =>
      rw [hsame.log]
      exact ht

/-- **A gated child is confirmed for its latest process**, in every run whose spawns are fresh:
every node has been reported OK since that process was spawned, and not ERROR or FATAL after
that. By induction over the run; a callback that reports may confirm, and no other one does. -/
theorem confirmed_fresh (r : Roster) (env : Env) {h : List Callback} {node : SupervisorNode}
    (hr : Run (NodeStep r env) (.configured r) h node)
    (hfresh : Always (SpawnedFresh r) node.procs.log) :
    Always (FreshlyConfirmed r) node.procs.log := by
  have hplain {s s' : Procs} (hlogs : s.Logs (Rec.OfSteps r False) s')
      (h : Always (SpawnedFresh r) s.log → Always (FreshlyConfirmed r) s.log)
      (hfresh : Always (SpawnedFresh r) s'.log) : Always (FreshlyConfirmed r) s'.log := by
    refine freshlyConfirmed_append hlogs ?_ (h (hlogs.always hfresh))
    intro e he l n hn hgated
    subst hn
    obtain hopen | hnever := he ⟨rfl, rfl⟩
    · rw [hgated] at hopen
      cases hopen
    · exact hnever.elim
  have hinv : Always (SpawnedFresh r) node.procs.log →
      Always (FreshlyConfirmed r) node.procs.log := by
    have hstart : Always (FreshlyConfirmed r) (SupervisorNode.configured r).procs.log := trivial
    have hboth := hr.invariant (I := fun _ node => Reflects r node.healthFeed node.procs.log ∧
      (Always (SpawnedFresh r) node.procs.log → Always (FreshlyConfirmed r) node.procs.log))
      ⟨configured_reflects r, fun _ => hstart⟩ ?_
    · exact hboth.2
    · rintro h node cb node' ⟨hreflects, hconfirmed⟩ hstep
      refine ⟨nodeStep_reflects hreflects hstep, ?_⟩
      obtain ⟨-, -, -, -, hsteps⟩ | ⟨-, -, -, hsteps, -⟩ |
        ⟨-, -, -, -, hsteps⟩ | ⟨msg, -, -, -, hsteps⟩ := nodeStep_cases hstep
      · exact hplain (.of_steps (fun _ _ hstep => hstep.logs) hsteps) hconfirmed
      · exact hplain (.of_steps (fun _ _ hstep => hstep.logs) hsteps) hconfirmed
      · exact hplain (.of_steps (fun _ _ hstep => hstep.logs) hsteps) hconfirmed
      · intro hfresh
        have hnoted : node.procs.Logs (fun e => ∃ st, e = .status st)
            (node.procs.noteReport msg) := by
          refine ⟨(msg.map Rec.status).reverse, rfl, ?_⟩
          intro e he
          obtain ⟨st, -, rfl⟩ := List.mem_map.mp (List.mem_reverse.mp he)
          exact ⟨st, rfl⟩
        refine hsteps.freshlyConfirmed hreflects (fun _ => id) (.of_eq rfl) hfresh ?_
        refine freshlyConfirmed_append hnoted ?_
          (hconfirmed (hnoted.always (hsteps.logs.always hfresh)))
        rintro e ⟨st, rfl⟩ l n hn
        cases hn
  exact hinv hfresh

/-- A child with two health nodes. -/
def twoNodes : Roster :=
  (loadChildrenFromParams
    [{ name := "nav", cmd := ["/bin/nav"], healthNodes := ["planner", "control"] }]).get rfl

/-- All nodes fail, the child is restarted, and all nodes recover. The second process is spawned
with no OK left in the feed, so its confirmation rests on reports of its own. -/
theorem confirmed_fresh_recovered :
    ∃ node, Run (NodeStep twoNodes (scripted [])) (.configured twoNodes)
        [.healthReport [⟨"control", "OK"⟩, ⟨"planner", "OK"⟩], .tick, .tick,
          .healthReport [⟨"planner", "FATAL"⟩, ⟨"control", "ERROR"⟩],
          .healthReport [⟨"planner", "OK"⟩, ⟨"control", "OK"⟩], .onActivate] node ∧
      (node.procs.child "nav").phase = .running ∧
      Always (FreshlyConfirmed twoNodes) node.procs.log := by
  obtain ⟨node, hr, hnode⟩ := Run.of_exec_any (advance_step twoNodes (scripted []))
    (.configured twoNodes)
    [.onActivate, .healthReport [⟨"planner", "OK"⟩, ⟨"control", "OK"⟩],
      .healthReport [⟨"planner", "FATAL"⟩, ⟨"control", "ERROR"⟩], .tick, .tick,
      .healthReport [⟨"control", "OK"⟩, ⟨"planner", "OK"⟩]]
    (fun node => (node.procs.child "nav").phase = .running ∧
      Always (SpawnedFresh twoNodes) node.procs.log) (by decide)
  obtain ⟨hphase, hfresh⟩ := of_decide_eq_true hnode
  exact ⟨node, hr, hphase, confirmed_fresh twoNodes (scripted []) hr hfresh⟩

/-- One node fails, the child is restarted, and that node recovers: the child
is confirmed, though the other node of the new process has said nothing. -/
theorem confirmed_stale :
    ∃ node, Run (NodeStep twoNodes (scripted [])) (.configured twoNodes)
        [.healthReport [⟨"control", "OK"⟩], .tick, .tick, .healthReport [⟨"control", "ERROR"⟩],
          .healthReport [⟨"planner", "OK"⟩, ⟨"control", "OK"⟩], .onActivate] node ∧
      ¬ Always (FreshlyConfirmed twoNodes) node.procs.log := by
  obtain ⟨node, hr, hnode⟩ := Run.of_exec_any (advance_step twoNodes (scripted []))
    (.configured twoNodes)
    [.onActivate, .healthReport [⟨"planner", "OK"⟩, ⟨"control", "OK"⟩],
      .healthReport [⟨"control", "ERROR"⟩], .tick, .tick, .healthReport [⟨"control", "OK"⟩]]
    (fun node => node.procs.log.head? = some (.phase "nav" .starting .running) ∧
      ¬ Since (fun e => ¬ e.Spawns "nav") (fun e => loggedView "planner" e = some .ok)
        node.procs.log.tail) (by decide)
  obtain ⟨hhead, hstale⟩ := of_decide_eq_true hnode
  refine ⟨node, hr, fun h => hstale ?_⟩
  rcases hlog : node.procs.log with _ | ⟨e, l⟩ <;> rw [hlog] at hhead h
  · cases hhead
  · obtain rfl := Option.some.inj hhead
    exact (h.1 "nav" rfl (by decide) "planner" (by decide)).1

end AmrFramework.Monitoring
