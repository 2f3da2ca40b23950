import AmrFramework.Runs
import Mathlib.Logic.Function.Basic

/-!
# Trace contexts

Every thread has a trace context and a counter of spans, and all threads draw their
trace ids from one atomic counter. `ScopedSpan` saves the context of its thread,
makes one for the span, and restores what it saved when its scope is left. Scopes
nest, so what is restored is what was saved last.

* `Traced` — what a thread has saved are the contexts of its open spans.
* `spans_unique` — no two spans, of whatever threads, have the same ids.
-/

namespace AmrFramework.Observability

open Runs

/-- The thread-local context; a trace id of 0 is none. -/
structure TraceContext : Type where
  traceId : Nat := 0
  spanId : Nat := 0
  parentSpanId : Nat := 0
  deriving DecidableEq, Repr

/-- What a thread has of its own: the context, its `span_counter`, and what the open spans have
saved, innermost first. -/
structure Thread : Type where
  ctx : TraceContext := {}
  spanCounter : Nat := 1
  saved : List TraceContext := []
  deriving DecidableEq, Repr

/-- The threads, by number, and the counter of `next_trace_id`, which all of them draw from. -/
structure Tracer : Type where
  counter : Nat := 1
  thread : Nat → Thread := fun _ => {}

/-- The constructor of `ScopedSpan`. -/
def Tracer.enter (s : Tracer) (t : Nat) : Tracer :=
  let th := s.thread t
  if th.ctx.traceId = 0 then
    { counter := s.counter + 1
      thread := Function.update s.thread t
        { th with
          ctx := { th.ctx with traceId := s.counter, spanId := 1 }
          saved := th.ctx :: th.saved } }
  else
    { s with
      thread := Function.update s.thread t
        { ctx := { th.ctx with parentSpanId := th.ctx.spanId, spanId := th.spanCounter + 1 }
          spanCounter := th.spanCounter + 1
          saved := th.ctx :: th.saved } }

/-- Its destructor, for the innermost span. -/
def Tracer.leave (s : Tracer) (t : Nat) : Option Tracer :=
  match (s.thread t).saved with
  | [] => none
  | ctx :: saved =>
    some { s with thread := Function.update s.thread t { s.thread t with ctx, saved } }

/-- A span is opened, with the context that it runs in, or the innermost one is closed. Scopes of
different threads may interleave in any way. -/
inductive Scope : Type where
  | enter (t : Nat) (ctx : TraceContext)
  | leave (t : Nat)
  deriving DecidableEq, Repr

def TraceStep (s : Tracer) : Scope → Tracer → Prop
  | .enter t ctx, s' => s' = s.enter t ∧ ctx = (s'.thread t).ctx
  | .leave t, s' => s.leave t = some s'

/-- All spans, newest first, with their threads. -/
def spans : List Scope → List (Nat × TraceContext)
  | [] => []
  | .enter t ctx :: h => (t, ctx) :: spans h
  | .leave _ :: h => spans h

/-- The spans that are open in a thread, innermost first. -/
def openSpans (t : Nat) : List Scope → List TraceContext
  | [] => []
  | .enter t' ctx :: h => if t' = t then ctx :: openSpans t h else openSpans t h
  | .leave t' :: h => if t' = t then (openSpans t h).tail else openSpans t h

/-- What identifies a span. -/
def TraceContext.ids (ctx : TraceContext) : Nat × Nat := (ctx.traceId, ctx.spanId)

/-- Every span is in the trace of the one around it, which is its parent; the outermost one has
none. -/
def Linked : List TraceContext → Prop
  | [] => True
  | [root] => root.spanId = 1 ∧ root.parentSpanId = 0
  | inner :: outer :: rest =>
    inner.traceId = outer.traceId ∧ inner.parentSpanId = outer.spanId ∧ Linked (outer :: rest)

theorem Linked.tail {l : List TraceContext} (h : Linked l) : Linked l.tail := by
  match l with
  | [] => trivial
  | [_] => trivial
  | _ :: _ :: _ => exact h.2.2

/-! ## One step

A thread that enters a span saves its context and makes another one; leaving restores the
innermost. So the contexts of a thread and what it has saved are those of its open spans,
whatever the other threads do. -/

variable {s s' : Tracer} {e : Scope} {h : List Scope} {t : Nat}

/-- What holds at any time. The spans that a thread has open form a stack, whose bottom is the
context in which there is none. -/
structure Traced (h : List Scope) (s : Tracer) : Prop where
  counter : 0 < s.counter
  spanCounter : ∀ t, 1 ≤ (s.thread t).spanCounter
  /-- the context of a thread and those saved are those of its open spans, and none outside -/
  stack : ∀ t, (s.thread t).ctx :: (s.thread t).saved = openSpans t h ++ [({} : TraceContext)]
  linked : ∀ t, Linked (openSpans t h)
  opened : ∀ t, ∀ ctx ∈ openSpans t h, (t, ctx) ∈ spans h
  traceId : ∀ p ∈ spans h, 0 < p.2.traceId ∧ p.2.traceId < s.counter
  spanId : ∀ p ∈ spans h, p.2.spanId ≤ (s.thread p.1).spanCounter
  own : ∀ p ∈ spans h, ∀ q ∈ spans h, p.2.traceId = q.2.traceId → p.1 = q.1
  unique : ((spans h).map fun p => p.2.ids).Nodup

/-- The context of a thread is that of its innermost open span. -/
theorem Traced.ctx_eq (hs : Traced h s) (t : Nat) :
    (s.thread t).ctx = (openSpans t h).headD {} := by
  have hstack := hs.stack t
  cases hopen : openSpans t h with
  | nil =>
    rw [hopen] at hstack
    exact (List.cons.inj hstack).1
  | cons ctx rest =>
    rw [hopen] at hstack
    exact (List.cons.inj hstack).1

/-- A thread has a trace exactly when a span is open in it. -/
theorem Traced.traceId_eq_zero_iff (hs : Traced h s) (t : Nat) :
    (s.thread t).ctx.traceId = 0 ↔ openSpans t h = [] := by
  rw [hs.ctx_eq]
  cases hopen : openSpans t h with
  | nil => exact iff_of_true rfl rfl
  | cons ctx rest =>
    have hmem := hs.opened t ctx (hopen ▸ List.mem_cons_self ..)
    have hpos := (hs.traceId (t, ctx) hmem).1
    exact iff_of_false (Nat.ne_of_gt hpos) nofun

/-- A new context extends what is known of the old ones: its ids are new, and the rest of the
tracer is as it was. -/
theorem Traced.push (hs : Traced h s) {ctx : TraceContext} {counter spanCounter : Nat}
    (hcounter : s.counter ≤ counter) (hspanCounter : (s.thread t).spanCounter ≤ spanCounter)
    (hlinked : Linked (ctx :: openSpans t h))
    (htrace : 0 < ctx.traceId ∧ ctx.traceId < counter) (hspan : ctx.spanId ≤ spanCounter)
    (hown : ∀ p ∈ spans h, p.2.traceId = ctx.traceId → p.1 = t)
    (hfresh : ∀ p ∈ spans h, p.2.ids ≠ ctx.ids) :
    Traced (.enter t ctx :: h)
      { counter := counter
        thread := Function.update s.thread t
          { ctx := ctx, spanCounter := spanCounter
            saved := (s.thread t).ctx :: (s.thread t).saved } } := by
  have hle : ∀ t', (s.thread t').spanCounter ≤ (Function.update s.thread t
      { ctx := ctx, spanCounter := spanCounter
        saved := (s.thread t).ctx :: (s.thread t).saved } t').spanCounter := by
    intro t'
    rw [Function.update_apply]
    split
    · next heq => exact heq ▸ hspanCounter
    · exact Nat.le_refl _
  refine ⟨Nat.lt_of_lt_of_le hs.counter hcounter,
    fun t' => Nat.le_trans (hs.spanCounter t') (hle t'), fun t' => ?_, fun t' => ?_,
    fun t' => ?_, fun p hp => ?_, fun p hp => ?_, fun p hp q hq heq => ?_, ?_⟩
  · dsimp only
    rw [openSpans, Function.update_apply]
    by_cases heq : t' = t
    · subst heq
      rw [if_pos rfl, if_pos rfl, hs.stack]
      rfl
    · rw [if_neg heq, if_neg (Ne.symm heq)]
      exact hs.stack t'
  · rw [openSpans]
    split
    · next heq => exact heq ▸ hlinked
    · exact hs.linked t'
  · rw [openSpans]
    split
    · next heq =>
      subst heq
      exact List.forall_mem_cons.mpr ⟨List.mem_cons_self .., fun c hc =>
        List.mem_cons_of_mem _ (hs.opened _ c hc)⟩
    · exact fun c hc => List.mem_cons_of_mem _ (hs.opened t' c hc)
  · obtain rfl | hold := List.mem_cons.mp hp
    · exact htrace
    · exact ⟨(hs.traceId p hold).1, Nat.lt_of_lt_of_le (hs.traceId p hold).2 hcounter⟩
  · obtain rfl | hold := List.mem_cons.mp hp
    · dsimp only
      rw [Function.update_self]
      exact hspan
    · exact Nat.le_trans (hs.spanId p hold) (hle p.1)
  · obtain rfl | hp := List.mem_cons.mp hp
    · obtain rfl | hq := List.mem_cons.mp hq
      · rfl
      · exact (hown q hq heq.symm).symm
    · obtain rfl | hq := List.mem_cons.mp hq
      · exact hown p hp heq
      · exact hs.own p hp q hq heq
  · refine List.nodup_cons.mpr ⟨fun hmem => ?_, hs.unique⟩
    obtain ⟨p, hp, heq⟩ := List.mem_map.mp hmem
    exact hfresh p hp heq

/-- **A span is opened.** Without a trace it begins one, with a number that no thread has got
before; in a trace it goes on with it, with the next number of the thread. -/
theorem Traced.enter (hs : Traced h s) (t : Nat) :
    Traced (.enter t ((s.enter t).thread t).ctx :: h) (s.enter t) := by
  rw [Tracer.enter]
  dsimp only
  split
  · next hnone =>
    have hclosed := (hs.traceId_eq_zero_iff t).mp hnone
    have hctx : (s.thread t).ctx = {} := by
      rw [hs.ctx_eq, hclosed]
      rfl
    simp only [Function.update_self]
    refine hs.push (Nat.le_succ _) (Nat.le_refl _) ?_ ⟨hs.counter, Nat.lt_succ_self _⟩
      (hs.spanCounter t) (fun p hp heq => ?_) fun p hp heq => ?_
    · rw [hclosed, hctx]
      exact ⟨rfl, rfl⟩
    · exact absurd heq (Nat.ne_of_lt (hs.traceId p hp).2)
    · exact absurd (congrArg Prod.fst heq) (Nat.ne_of_lt (hs.traceId p hp).2)
  · next hsome =>
    have hopen : openSpans t h ≠ [] := fun hnil => hsome ((hs.traceId_eq_zero_iff t).mpr hnil)
    obtain ⟨outer, rest, hsplit⟩ := List.exists_cons_of_ne_nil hopen
    have hctx : (s.thread t).ctx = outer := by
      rw [hs.ctx_eq, hsplit]
      rfl
    have houter : (t, outer) ∈ spans h := hs.opened t outer (hsplit ▸ List.mem_cons_self ..)
    -- the trace is that of the thread, and in it no span has a number as high
    have hown : ∀ p ∈ spans h, p.2.traceId = outer.traceId → p.1 = t :=
      fun p hp heq => hs.own p hp (t, outer) houter heq
    rw [← hctx] at hsplit houter hown
    simp only [Function.update_self]
    refine hs.push (Nat.le_refl _) (Nat.le_succ _) ?_ (hs.traceId _ houter) (Nat.le_refl _) hown
      fun p hp heq => ?_
    · rw [hsplit]
      exact ⟨rfl, rfl, hsplit ▸ hs.linked t⟩
    · obtain ⟨htrace, hspan⟩ := Prod.mk.inj heq
      have hle := hs.spanId p hp
      rw [hown p hp htrace, hspan] at hle
      exact absurd hle (Nat.not_succ_le_self _)

/-- **A span is closed.** Nothing is drawn; the context of the span around it is back, as it was
when that span was entered. -/
theorem Traced.leave (hs : Traced h s) (hleave : s.leave t = some s') :
    Traced (.leave t :: h) s' := by
  rw [Tracer.leave] at hleave
  cases hsaved : (s.thread t).saved with
  | nil =>
    rw [hsaved] at hleave
    cases hleave
  | cons ctx saved =>
    rw [hsaved] at hleave
    obtain rfl := Option.some.inj hleave
    have hcounter : ∀ t',
        (Function.update s.thread t { s.thread t with ctx, saved } t').spanCounter =
          (s.thread t').spanCounter := by
      intro t'
      rw [Function.update_apply]
      split
      · next heq => rw [heq]
      · rfl
    refine ⟨hs.counter, fun t' => (hcounter t').symm ▸ hs.spanCounter t', fun t' => ?_,
      fun t' => ?_, fun t' => ?_, hs.traceId, fun p hp => (hcounter p.1).symm ▸ hs.spanId p hp,
      hs.own, hs.unique⟩
    · dsimp only
      rw [openSpans, Function.update_apply]
      by_cases heq : t' = t
      · subst heq
        have hstack := hs.stack t'
        rw [hsaved] at hstack
        rw [if_pos rfl, if_pos rfl]
        cases hopen : openSpans t' h with
        | nil =>
          rw [hopen] at hstack
          cases (List.cons.inj hstack).2
        | cons inner rest =>
          rw [hopen] at hstack
          exact (List.cons.inj hstack).2
      · rw [if_neg heq, if_neg (Ne.symm heq)]
        exact hs.stack t'
    · rw [openSpans]
      split
      · exact (hs.linked t').tail
      · exact hs.linked t'
    · rw [openSpans]
      split
      · exact fun c hc => hs.opened t' c (List.mem_of_mem_tail hc)
      · exact hs.opened t'

/-- **The spans of all threads.** In any interleaving of scopes: no two spans have the same ids, a
trace is in one thread, the context of a thread is that of its innermost open span, if there is one,
and every open span has the one around it as its parent, in the same trace. -/
theorem spans_unique (hr : Run TraceStep {} h s) :
    ((spans h).map fun p => p.2.ids).Nodup ∧
    (∀ p ∈ spans h, ∀ q ∈ spans h, p.2.traceId = q.2.traceId → p.1 = q.1) ∧
    ∀ t, (s.thread t).ctx = (openSpans t h).headD {} ∧ Linked (openSpans t h) := by
  have hs : Traced h s := by
    refine hr.invariant (I := Traced) ?_ ?_
    · exact ⟨Nat.one_pos, fun _ => Nat.le_refl 1, fun _ => rfl, fun _ => trivial, nofun, nofun,
        nofun, nofun, List.nodup_nil⟩
    · rintro h s (⟨t, ctx⟩ | ⟨t⟩) s' hs hstep
      · obtain ⟨rfl, rfl⟩ := hstep
        exact hs.enter t
      · exact hs.leave hstep
  exact ⟨hs.unique, hs.own, fun t => ⟨hs.ctx_eq t, hs.linked t⟩⟩

/-- Two threads, and a span in a span. -/
theorem spans_unique_threads :
    ∃ h s, Run TraceStep {} h s ∧ spans h = [(0, ⟨1, 2, 1⟩), (1, ⟨2, 1, 0⟩), (0, ⟨1, 1, 0⟩)] ∧
      ((spans h).map fun p => p.2.ids).Nodup := by
  have henter (s : Tracer) (t : Nat) :
      TraceStep s (.enter t ((s.enter t).thread t).ctx) (s.enter t) := ⟨rfl, rfl⟩
  have hopened : Run TraceStep {} _ _ :=
    ((Run.start.snoc (henter _ 0)).snoc (henter _ 1)).snoc (henter _ 0)
  have hrun : Run TraceStep {} (.leave 0 :: _) _ := hopened.snoc rfl
  exact ⟨_, _, hrun, rfl, (spans_unique hrun).1⟩

end AmrFramework.Observability
