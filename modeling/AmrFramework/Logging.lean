import AmrFramework.LogWorker
import AmrFramework.RingBuffer

/-!
# From the log macro to the output

`Logging` is a ring buffer of 4096 events and a thread that empties it: the
thread looks whether it is still to run, pops, and writes a line; when it has
been stopped it pops until nothing is left. The thread that logs goes on all the
while, access by access.

Every access to the buffer is one of the ring buffer's, so that what comes out
is what the queue gave (`logging_ring`); the rest is in which phase the thread
popped it.
-/

namespace AmrFramework.Observability

open Runs BoundedFifo

/-- Where `LogWorker::run` is. Only its accesses to shared data are steps, so these are the
places between two of them. -/
inductive WorkerThread
  /-- before it looks at `running_` -/
  | looping
  /-- in a `pop` of the loop -/
  | popping
  | draining
  | exited

/-- `Logging`, with its buffer and its worker, as the producers and the worker thread share it. -/
structure Logging where
  buffer : RingBuffer LogEvent
  running : Bool := true
  thread : WorkerThread := .looping
  worker : LogWorker := {}

/-- `kBufferSize - 1`. -/
def kBufferMask : Nat := 2 ^ 12 - 1

/-- What a `pop` returns, once it does. -/
def Event.returned {α : Type} : Event α → Option (Option α)
  | .popped item => some (some item)
  | .nothing => some none
  | _ => none

/-- What the thread does after an access of its `pop`: with an event it is at `after`, without one
at `empty`. -/
def Logging.answer (s : Logging) (empty after : WorkerThread)
    (out : Event LogEvent × RingBuffer LogEvent) : Option (Event LogEvent) × Logging :=
  match out.1.returned with
  | some (some ev) => (some out.1,
      { s with buffer := out.2, worker := s.worker.writeJson ev, thread := after })
  | some none => (some out.1, { s with buffer := out.2, thread := empty })
  | none => (some out.1, { s with buffer := out.2 })

/-- The next access of a pop, which may have to be called first. -/
def Logging.pop (s : Logging) (empty after : WorkerThread) :
    Option (Option (Event LogEvent) × Logging) :=
  match s.buffer.consumer with
  | .idle => (s.buffer.move kBufferMask .pop).map (s.answer empty after)
  | _ => (s.buffer.move kBufferMask .consume).map (s.answer empty after)

/-- What the thread does next: `run`, with `drain_remaining` at its end. -/
def Logging.work (s : Logging) : Option (Option (Event LogEvent) × Logging) :=
  match s.thread with
  | .looping => some (none, { s with thread := if s.running then .popping else .draining })
  -- an empty buffer lets the thread sleep, and look again
  | .popping => s.pop .looping .looping
  | .draining => s.pop .exited .draining
  | .exited => none

inductive LogMove
  /-- `Logging::push` is called -/
  | push (ev : LogEvent)
  /-- the next access of a `push` -/
  | produce
  | work
  /-- `LogWorker::stop` -/
  | stop

def Logging.move (s : Logging) : LogMove → Option (Option (Event LogEvent) × Logging)
  | .push ev => (s.buffer.move kBufferMask (.tryPush ev)).map fun out =>
      (some out.1, { s with buffer := out.2 })
  | .produce => (s.buffer.move kBufferMask .produce).map fun out =>
      (some out.1, { s with buffer := out.2 })
  | .work => s.work
  | .stop => some (none, { s with running := false })

/-- The steps of the two threads, in any interleaving. A label is the access to the buffer, if it
was one. -/
def LogStep (s : Logging) (e : Option (Event LogEvent)) (s' : Logging) : Prop :=
  ∃ m, s.move m = some (e, s')

/-- What the calls on the buffer returned. -/
def calls (h : List (Option (Event LogEvent))) : List (Act LogEvent) :=
  (h.filterMap id).filterMap Event.shows

/-- The events that `push` accepted, oldest first. -/
def accepted (h : List (Option (Event LogEvent))) : List LogEvent := pushed (calls h)

/-- The events that the thread popped, oldest first. -/
def taken (h : List (Option (Event LogEvent))) : List LogEvent := popped (calls h)

variable {s s' : Logging} {h : List (Option (Event LogEvent))} {e : Option (Event LogEvent)}

/-! ## What a step can do

The steps are functions of where the two threads are. The inversion gives the four kinds that
matter: an access of the thread that logs, one of the worker in its loop, one at its end, and a
look. -/

/-- What the thread can do at an access of its `pop`: the call returns an event, which is
written, or it returns none, or it has not returned yet. -/
inductive Answered (s : Logging) (empty after : WorkerThread) : Event LogEvent → Logging → Prop
  | took {access : Event LogEvent} {buffer : RingBuffer LogEvent} {ev : LogEvent}
      (hring : RingStep kBufferMask s.buffer access buffer)
      (hreturned : access.returned = some (some ev)) :
      Answered s empty after access
        { s with buffer := buffer, worker := s.worker.writeJson ev, thread := after }
  | foundNone {access : Event LogEvent} {buffer : RingBuffer LogEvent}
      (hring : RingStep kBufferMask s.buffer access buffer)
      (hreturned : access.returned = some none) :
      Answered s empty after access { s with buffer := buffer, thread := empty }
  | goesOn {access : Event LogEvent} {buffer : RingBuffer LogEvent}
      (hring : RingStep kBufferMask s.buffer access buffer)
      (hreturned : access.returned = none) :
      Answered s empty after access { s with buffer := buffer }

theorem Logging.answer_cases {empty after : WorkerThread} {access : Event LogEvent}
    {buffer : RingBuffer LogEvent} (hring : RingStep kBufferMask s.buffer access buffer)
    (hout : s.answer empty after (access, buffer) = (e, s')) :
    e = some access ∧ Answered s empty after access s' := by
  rw [answer] at hout
  split at hout
  case h_1 ev hreturned =>
    obtain ⟨rfl, rfl⟩ := Prod.mk.inj hout
    exact ⟨rfl, .took hring hreturned⟩
  case h_2 hreturned =>
    obtain ⟨rfl, rfl⟩ := Prod.mk.inj hout
    exact ⟨rfl, .foundNone hring hreturned⟩
  case h_3 hreturned =>
    obtain ⟨rfl, rfl⟩ := Prod.mk.inj hout
    exact ⟨rfl, .goesOn hring hreturned⟩

/-- Whatever it finds, it is an access of the ring buffer. -/
theorem Answered.ring {empty after : WorkerThread} {access : Event LogEvent}
    (ha : Answered s empty after access s') : RingStep kBufferMask s.buffer access s'.buffer := by
  cases ha with
  | took hring hreturned => exact hring
  | foundNone hring hreturned => exact hring
  | goesOn hring hreturned => exact hring

theorem Logging.pop_cases {empty after : WorkerThread} (hpop : s.pop empty after = some (e, s')) :
    ∃ access, e = some access ∧ Answered s empty after access s' := by
  have hanswer : ∀ m, (s.buffer.move kBufferMask m).map (s.answer empty after) = some (e, s') →
      ∃ access, e = some access ∧ Answered s empty after access s' := by
    intro m hm
    obtain ⟨⟨access, buffer⟩, hmove, hout⟩ := Option.map_eq_some_iff.mp hm
    exact ⟨access, answer_cases ⟨m, hmove⟩ hout⟩
  rw [pop] at hpop
  split at hpop
  · exact hanswer _ hpop
  · exact hanswer _ hpop

/-- Inversion for the steps: an access of the logging thread, an access of the worker in its loop
or at its end, or a look at `running_`. -/
inductive LogStepCases (s : Logging) : Option (Event LogEvent) → Logging → Prop
  | logs {access : Event LogEvent} {buffer : RingBuffer LogEvent}
      (hring : RingStep kBufferMask s.buffer access buffer)
      (hside : access.returned = none) :
      LogStepCases s (some access) { s with buffer := buffer }
  | pops {access : Event LogEvent} {s' : Logging} (hthread : s.thread = .popping)
      (ha : Answered s .looping .looping access s') : LogStepCases s (some access) s'
  | drains {access : Event LogEvent} {s' : Logging} (hthread : s.thread = .draining)
      (ha : Answered s .exited .draining access s') : LogStepCases s (some access) s'
  | looks (hthread : s.thread = .looping) :
      LogStepCases s none { s with thread := if s.running then .popping else .draining }
  | stops : LogStepCases s none { s with running := false }

/-- A `pop` returns at an access of the consumer. -/
theorem returned_produce {r r' : RingBuffer LogEvent} {access : Event LogEvent}
    (h : r.produce kBufferMask = some (access, r')) : access.returned = none := by
  simp only [RingBuffer.produce] at h
  split at h
  · cases h
  · cases h
    rfl
  · split at h <;> cases h <;> rfl
  · cases h
    rfl
  · cases h
    rfl

theorem LogStep.cases (hstep : LogStep s e s') : LogStepCases s e s' := by
  obtain ⟨m, hm⟩ := hstep
  cases m with
  | push ev =>
    obtain ⟨⟨access, buffer⟩, hmove, hout⟩ := Option.map_eq_some_iff.mp hm
    cases hout
    refine .logs ⟨_, hmove⟩ ?_
    simp only [RingBuffer.move] at hmove
    split at hmove
    · cases hmove
      rfl
    · cases hmove
  | produce =>
    obtain ⟨⟨access, buffer⟩, hmove, hout⟩ := Option.map_eq_some_iff.mp hm
    cases hout
    exact .logs ⟨_, hmove⟩ (returned_produce hmove)
  | work =>
    simp only [Logging.move, Logging.work] at hm
    split at hm
    case h_1 hthread =>
      cases hm
      exact .looks hthread
    case h_2 hthread =>
      obtain ⟨access, rfl, ha⟩ := Logging.pop_cases hm
      exact .pops hthread ha
    case h_3 hthread =>
      obtain ⟨access, rfl, ha⟩ := Logging.pop_cases hm
      exact .drains hthread ha
    case h_4 => cases hm
  | stop =>
    cases hm
    exact .stops

/-! ## The queue behind it

Whatever the threads do to the buffer are steps of the ring buffer, so its simulation of a queue
applies, and with it the conservation of what was pushed. -/

/-- Every access to the buffer is one of the ring buffer's. -/
theorem LogStepCases.ring (hstep : LogStepCases s e s') :
    (e = none ∧ s'.buffer = s.buffer) ∨
      ∃ access, e = some access ∧ RingStep kBufferMask s.buffer access s'.buffer := by
  cases hstep with
  | logs hring hside => exact .inr ⟨_, rfl, hring⟩
  | pops hthread ha => exact .inr ⟨_, rfl, ha.ring⟩
  | drains hthread ha => exact .inr ⟨_, rfl, ha.ring⟩
  | looks hthread => exact .inl ⟨rfl, rfl⟩
  | stops => exact .inl ⟨rfl, rfl⟩

theorem logging_ring {buffer : Nat → LogEvent}
    (hr : Run LogStep { buffer := { buffer := buffer } } h s) :
    Run (RingStep kBufferMask) { buffer := buffer } (h.filterMap id) s.buffer := by
  have hstep : ∀ (s : Logging) e s' r, s.buffer = r → LogStep s e s' →
      (id e = none ∧ s'.buffer = r) ∨
        ∃ a r', id e = some a ∧ RingStep kBufferMask r a r' ∧ s'.buffer = r' := by
    rintro s e s' _ rfl hstep
    obtain ⟨rfl, hbuffer⟩ | ⟨access, rfl, hring⟩ := hstep.cases.ring
    · exact .inl ⟨rfl, hbuffer⟩
    · exact .inr ⟨access, _, rfl, hring, rfl⟩
  obtain ⟨r, hring, hbuffer⟩ := hr.simulates id (fun s r => s.buffer = r) rfl hstep
  exact hbuffer ▸ hring

/-- The queue that the buffer is. -/
theorem logging_queue {buffer : Nat → LogEvent}
    (hr : Run LogStep { buffer := { buffer := buffer } } h s) :
    ∃ m, Sim (2 ^ 12) s.buffer m ∧ accepted h = taken h ++ m.held ∧ m.held.length ≤ 4095 := by
  obtain ⟨m, hm, hsim⟩ := run_cursor (logging_ring hr)
  obtain ⟨hpushed, hbound⟩ := run_pushed (run_fifo hm)
  exact ⟨m, hsim, hpushed, hbound⟩

/-! ## What the thread writes

Every event that is popped is written, at once and in the phase that popped it. -/

@[simp] theorem taken_none : taken (none :: h) = taken h := rfl

/-- An access takes what it returns. -/
theorem taken_some (access : Event LogEvent) :
    taken (some access :: h) = taken h ++ access.returned.join.toList := by
  cases access with
  | popped ev => rfl
  | _ => exact (List.append_nil _).symm

theorem LogWorker.drain_concat (w : LogWorker) (events : List LogEvent) (ev : LogEvent) :
    w.drain (events ++ [ev]) = (w.drain events).writeJson ev :=
  List.foldl_concat ..

/-- What the thread takes, it writes. -/
theorem Answered.worker {empty after : WorkerThread} {access : Event LogEvent}
    (ha : Answered s empty after access s')
    (hw : s.worker = ({} : LogWorker).drain (taken h)) :
    s'.worker = ({} : LogWorker).drain (taken (some access :: h)) := by
  rw [taken_some]
  cases ha with
  | took hring hreturned =>
    dsimp only
    rw [hreturned, hw]
    exact (LogWorker.drain_concat ..).symm
  | foundNone hring hreturned =>
    rw [hreturned]
    exact hw.trans (congrArg _ (List.append_nil _).symm)
  | goesOn hring hreturned =>
    rw [hreturned]
    exact hw.trans (congrArg _ (List.append_nil _).symm)

theorem LogStepCases.worker (hstep : LogStepCases s e s')
    (hw : s.worker = ({} : LogWorker).drain (taken h)) :
    s'.worker = ({} : LogWorker).drain (taken (e :: h)) := by
  cases hstep with
  | logs hring hside =>
    rw [taken_some, hside]
    exact hw.trans (congrArg _ (List.append_nil _).symm)
  | pops hthread ha => exact ha.worker hw
  | drains hthread ha => exact ha.worker hw
  | looks hthread => exact hw
  | stops => exact hw

theorem run_worker {buffer : Nat → LogEvent}
    (hr : Run LogStep { buffer := { buffer := buffer } } h s) :
    s.worker = ({} : LogWorker).drain (taken h) := by
  induction hr with
  | start => rfl
  | snoc _ hstep ih => exact hstep.cases.worker ih

/-! ## The end of the thread

The thread leaves when a pop finds nothing, after it has seen that it is to stop. What was
accepted before that pop had been popped, or it would have been found. -/

/-- As long as the log is running the thread is in its loop. -/
def Logging.InLoop (s : Logging) : Prop :=
  s.running = true → s.thread = .looping ∨ s.thread = .popping

theorem LogStepCases.inLoop (hstep : LogStepCases s e s') (hs : s.InLoop) : s'.InLoop := by
  intro hrunning
  cases hstep with
  | logs hring hside => exact hs hrunning
  | pops hthread ha =>
    cases ha with
    | took hring hreturned => exact .inl rfl
    | foundNone hring hreturned => exact .inl rfl
    | goesOn hring hreturned => exact .inr hthread
  | drains hthread ha =>
    have hran : s.running = true := by
      cases ha <;> exact hrunning
    obtain h | h := hs hran
    · cases hthread.symm.trans h
    · cases hthread.symm.trans h
  | looks hthread => exact .inr (if_pos hrunning)
  | stops => cases hrunning

/-- A `pop` that returns nothing found nothing held. -/
theorem foundNone_held {buffer buffer' : RingBuffer LogEvent} {m : Cursor LogEvent}
    {access : Event LogEvent} (hsim : Sim (2 ^ 12) buffer m)
    (hring : RingStep kBufferMask buffer access buffer')
    (hreturned : access.returned = some none) : access = .nothing ∧ m.held = [] := by
  cases access with
  | nothing =>
    obtain ⟨m', hm', -⟩ := hsim.step hring
    cases hm' with
    | nothing hempty => exact ⟨rfl, hempty⟩
  | _ => cases hreturned

/-- The last `pop` of the thread found nothing, after `before`; what had been accepted until then
is written. -/
def WroteAll (h h₀ : List (Option (Event LogEvent))) (out : List UInt8) : Prop :=
  ∃ after before, h = after ++ some .nothing :: before ∧
    out = (accepted (before ++ h₀)).flatMap LogEvent.line

/-- **The step that ends the thread.** The buffer was empty at its last access, so everything
accepted until then had been taken. -/
theorem exit_wroteAll {buffer : Nat → LogEvent} {h₀ : List (Option (Event LogEvent))}
    (hr : Run LogStep { buffer := { buffer := buffer } } (h ++ h₀) s)
    (ih : s.thread = .exited → WroteAll h h₀ s.worker.out) (hstep : LogStepCases s e s')
    (hexited : s'.thread = .exited) : WroteAll (e :: h) h₀ s'.worker.out := by
  -- a step after the end leaves what is written
  have hlater : s.thread = .exited → s'.worker = s.worker → WroteAll (e :: h) h₀ s'.worker.out := by
    intro hthread hworker
    obtain ⟨after, before, rfl, hout⟩ := ih hthread
    exact ⟨e :: after, before, rfl, hworker ▸ hout⟩
  cases hstep with
  | logs hring hside => exact hlater hexited rfl
  | pops hthread ha =>
    cases ha with
    | took hring hreturned => cases hexited
    | foundNone hring hreturned => cases hexited
    | goesOn hring hreturned => exact hlater hexited rfl
  | drains hthread ha =>
    cases ha with
    | took hring hreturned => cases hexited
    | goesOn hring hreturned => exact hlater hexited rfl
    | foundNone hring hreturned =>
      obtain ⟨m, hsim, haccepted, -⟩ := logging_queue hr
      obtain ⟨rfl, hheld⟩ := foundNone_held hsim hring hreturned
      refine ⟨[], h, rfl, ?_⟩
      rw [haccepted, hheld, List.append_nil]
      exact congrArg LogWorker.out ((run_worker hr).trans (LogWorker.drain_eq ..))
  | looks hthread =>
    cases hrunning : s.running with
    | true => rw [hrunning] at hexited; cases hexited
    | false => rw [hrunning] at hexited; cases hexited
  | stops => exact hlater hexited rfl

/-- What was accepted first stays first. -/
theorem accepted_append (later h : List (Option (Event LogEvent))) :
    accepted (later ++ h) = accepted h ++ accepted later := by
  simp only [accepted, calls, List.filterMap_append]
  exact pushed_append ..

/-- When the thread has left a log that was running, it has written all. -/
theorem run_wroteAll {buffer : Nat → LogEvent} {h₀ : List (Option (Event LogEvent))}
    {s₀ : Logging} (hr₀ : Run LogStep { buffer := { buffer := buffer } } h₀ s₀)
    (hrunning : s₀.running = true) (hr : Run LogStep s₀ h s) (hexited : s.thread = .exited) :
    WroteAll h h₀ s.worker.out := by
  have hloop : s₀.InLoop := hr₀.invariant (I := fun _ s => s.InLoop) (fun _ => .inl rfl)
    fun _ _ _ _ hs hstep => hstep.cases.inLoop hs
  induction hr with
  | start =>
    obtain hthread | hthread := hloop hrunning
    · cases hexited.symm.trans hthread
    · cases hexited.symm.trans hthread
  | snoc hr hstep ih => exact exit_wroteAll (hr₀.trans hr) ih hstep.cases hexited

/-- **From the log macro to the output.** In any interleaving of the two threads no event is
counted as dropped, and what is written are the lines of the events accepted, in their order,
less at most 4095 at the end. Once the thread has left, what was accepted while the log was
running is written, and whatever was accepted until it last looked. Events that are accepted
after that stay in the buffer. -/
theorem logging_written {buffer : Nat → LogEvent} {h₀ : List (Option (Event LogEvent))}
    {s₀ : Logging} (hr₀ : Run LogStep { buffer := { buffer := buffer } } h₀ s₀)
    (hrunning : s₀.running = true) (hr : Run LogStep s₀ h s) :
    s.worker.dropped = 0 ∧
    (∃ written waiting, accepted (h ++ h₀) = written ++ waiting ∧ waiting.length ≤ 4095 ∧
      s.worker.out = written.flatMap LogEvent.line) ∧
    (s.thread = .exited → WroteAll h h₀ s.worker.out ∧
      (accepted h₀).flatMap LogEvent.line <+: s.worker.out) := by
  have hworker := (run_worker (hr₀.trans hr)).trans (LogWorker.drain_eq ..)
  obtain ⟨m, -, haccepted, hbound⟩ := logging_queue (hr₀.trans hr)
  refine ⟨congrArg LogWorker.dropped hworker, ⟨_, m.held, haccepted, hbound,
    congrArg LogWorker.out hworker⟩, fun hexited => ?_⟩
  have hall := run_wroteAll hr₀ hrunning hr hexited
  refine ⟨hall, ?_⟩
  obtain ⟨after, before, -, hout⟩ := hall
  rw [hout, accepted_append, List.flatMap_append]
  exact List.prefix_append ..

def cycleDone : LogEvent := .make 0 .info (literal "fusion") (literal "cycle done") 230 5

/-- An event is logged, and the log is stopped before the thread has looked once. -/
theorem logging_written_stopped :
    ∃ h s, Run LogStep { buffer := { buffer := fun _ => cycleDone } } h s ∧ s.thread = .exited ∧
      [cycleDone].flatMap LogEvent.line <+: s.worker.out := by
  have hpush : Run LogStep { buffer := { buffer := fun _ => cycleDone } } _ _ :=
    ((((Run.start.snoc ⟨.push cycleDone, rfl⟩).snoc ⟨.produce, rfl⟩).snoc ⟨.produce, rfl⟩).snoc
      ⟨.produce, rfl⟩).snoc ⟨.produce, rfl⟩
  have hhere : ∀ {s₀ s : Logging} {h}, Run LogStep s₀ h s → Run LogStep s [] s := fun _ => .start
  have hlook : Run LogStep _ _ _ := ((hhere hpush).snoc ⟨.stop, rfl⟩).snoc ⟨.work, rfl⟩
  have hpop : Run LogStep _ _ _ := (hlook.snoc ⟨.work, rfl⟩).snoc ⟨.work, rfl⟩
  have hread : Run LogStep _ _ _ := (hpop.snoc ⟨.work, rfl⟩).snoc ⟨.work, rfl⟩
  have htook : Run LogStep _ _ _ := (hread.snoc ⟨.work, rfl⟩).snoc ⟨.work, rfl⟩
  have hdone : Run LogStep _ _ _ := (htook.snoc ⟨.work, rfl⟩).snoc ⟨.work, rfl⟩
  exact ⟨_, _, hpush.trans hdone, rfl, ((logging_written hpush rfl hdone).2.2 rfl).2⟩

end AmrFramework.Observability
