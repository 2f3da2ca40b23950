import Mathlib.Data.List.Basic
import Mathlib.Logic.Function.Basic
import AmrFramework.Runs

/-!
# The health feed

`HealthFeed` turns node statuses from `/health/report` into signals about
child processes. A child is alive when **all** the health nodes mapped to it
are OK; ERROR and FATAL are bad news at once, anything else (WARN, STALE)
leaves the node's view as it is. The child's callback is called only when the
aggregate flips.

* `Mapping` is the constructor's argument, a map from children to health
  nodes; `HealthFeed.new` derives the reverse index from it.
* `dispatch` absorbs one message and then evaluates the children it touched.
* `Settled` is the invariant between two messages, `dispatch_spec` what one
  message does.

The reverse index holds one child per node. So the feed computes the aggregate
it is meant to compute exactly when no node is listed under two children
(`feed_correct_iff`).
-/

namespace AmrFramework.Monitoring

open Runs

/-! ## The feed

Two maps: from a node to the child it is routed to, and from a child to the views of its nodes
and the aggregate that was called back last. The first is made by the constructor and never
changes. -/

/-- Children, in the order of a `std::map`, and their health nodes. A node may be named under
several children. -/
structure Mapping : Type where
  children : List String
  nodes : String → List String
  sorted : children.Pairwise (· < ·)

/-- One entry of a `/health/report` message. -/
structure HealthStatus : Type where
  nodeName : String
  status : String
  deriving DecidableEq, Repr

/-- A node's view; a node without one is unknown. An unknown node keeps its child from being
alive, as a bad one does. -/
inductive NodeView : Type where
  | ok | bad
  deriving DecidableEq, Repr

/-- The view a status gives; WARN, STALE and the like give none, and leave the view that there
was. -/
def nodeView (status : String) : Option NodeView :=
  if status = "OK" then some .ok
  else if status = "ERROR" ∨ status = "FATAL" then some .bad
  else none

/-- The aggregate view of one child, from the views of its nodes. -/
structure ChildView : Type where
  nodes : List String := []
  status : String → Option NodeView := fun _ => none
  /-- the aggregate last called back -/
  alive : Bool := false

/-- The feed's two maps: to which child a node is routed, which is the last child that names it,
and the views. -/
structure HealthFeed : Type where
  nodeToChild : String → Option String
  views : String → ChildView

/-- Enter a child's nodes in the reverse index, over what an earlier child has entered for them. -/
def indexNodes (m : Mapping) (index : String → Option String) (child : String) :
    String → Option String :=
  (m.nodes child).foldl (fun index n => Function.update index n (some child)) index

/-- The constructor: a later child takes a node over from an earlier one. All views are unknown
and no child is alive. -/
def HealthFeed.new (m : Mapping) : HealthFeed where
  nodeToChild := m.children.foldl (indexNodes m) fun _ => none
  views := fun child => if child ∈ m.children then { nodes := m.nodes child } else {}

/-- Record a view. -/
def HealthFeed.setStatus (f : HealthFeed) (child node : String) (v : NodeView) : HealthFeed where
  nodeToChild := f.nodeToChild
  views := Function.update f.views child
    { f.views child with status := Function.update (f.views child).status node (some v) }

/-- Record an aggregate. -/
def HealthFeed.setAlive (f : HealthFeed) (child : String) (alive : Bool) : HealthFeed where
  nodeToChild := f.nodeToChild
  views := Function.update f.views child { f.views child with alive := alive }

theorem HealthFeed.setStatus_views_of_ne (f : HealthFeed) (node : String) (v : NodeView)
    {child c : String} (hc : c ≠ child) : (f.setStatus child node v).views c = f.views c :=
  Function.update_of_ne hc _ _

theorem HealthFeed.setAlive_views_of_ne (f : HealthFeed) (alive : Bool) {child c : String}
    (hc : c ≠ child) : (f.setAlive child alive).views c = f.views c :=
  Function.update_of_ne hc _ _

@[simp] theorem HealthFeed.setStatus_status_self (f : HealthFeed) (child node : String)
    (v : NodeView) : ((f.setStatus child node v).views child).status =
      Function.update (f.views child).status node (some v) := by
  simp [setStatus]

@[simp] theorem HealthFeed.setAlive_alive_self (f : HealthFeed) (child : String) (alive : Bool) :
    ((f.setAlive child alive).views child).alive = alive := by
  simp [setAlive]

/-- A view is recorded in `status` only. -/
@[simp] theorem HealthFeed.setStatus_nodes (f : HealthFeed) (child node : String) (v : NodeView)
    (c : String) : ((f.setStatus child node v).views c).nodes = (f.views c).nodes := by
  by_cases hc : c = child
  · simp [setStatus, hc]
  · rw [f.setStatus_views_of_ne node v hc]

@[simp] theorem HealthFeed.setStatus_alive (f : HealthFeed) (child node : String) (v : NodeView)
    (c : String) : ((f.setStatus child node v).views c).alive = (f.views c).alive := by
  by_cases hc : c = child
  · simp [setStatus, hc]
  · rw [f.setStatus_views_of_ne node v hc]

/-- An aggregate is recorded in `alive` only. -/
@[simp] theorem HealthFeed.setAlive_nodes (f : HealthFeed) (child : String) (alive : Bool)
    (c : String) : ((f.setAlive child alive).views c).nodes = (f.views c).nodes := by
  by_cases hc : c = child
  · simp [setAlive, hc]
  · rw [f.setAlive_views_of_ne alive hc]

@[simp] theorem HealthFeed.setAlive_status (f : HealthFeed) (child : String) (alive : Bool)
    (c : String) : ((f.setAlive child alive).views c).status = (f.views c).status := by
  by_cases hc : c = child
  · simp [setAlive, hc]
  · rw [f.setAlive_views_of_ne alive hc]

/-- All nodes OK. A child without nodes is never evaluated, so it does not matter that this is
true of it. -/
def ChildView.aggregate (view : ChildView) : Bool :=
  view.nodes.all fun n => view.status n = some .ok

/-- `dispatch`'s loop body: note a changed view, and the child it belongs to. A child may be
noted several times. -/
def absorb (x : HealthFeed × List String) (st : HealthStatus) : HealthFeed × List String :=
  match x.1.nodeToChild st.nodeName with
  -- not mapped to any child
  | none => x
  | some child =>
    match nodeView st.status with
    -- WARN and STALE
    | none => x
    | some v =>
      if (x.1.views child).status st.nodeName = some v then x
      else (x.1.setStatus child st.nodeName v, x.2 ++ [child])

/-- `evaluate`: call back if the aggregate has flipped. Evaluating a child twice is harmless, as
it cannot have flipped again in between. -/
def evaluate (x : HealthFeed × List (String × Bool)) (child : String) :
    HealthFeed × List (String × Bool) :=
  let view := x.1.views child
  let alive := view.aggregate
  if alive = view.alive then x
  else (x.1.setAlive child alive, x.2 ++ [(child, alive)])

/-- One message: the feed after it, and the callbacks in the order they are
made. -/
def dispatch (f : HealthFeed) (msg : List HealthStatus) : HealthFeed × List (String × Bool) :=
  let (f, touched) := msg.foldl absorb (f, [])
  touched.foldl evaluate (f, [])

/-! ## The reverse index

A node goes to the last child that lists it. This is where a mapping loses a node that two
children share. -/

theorem indexNodes_apply (m : Mapping) (index : String → Option String) (child n : String) :
    indexNodes m index child n = if n ∈ m.nodes child then some child else index n := by
  simp only [indexNodes]
  induction m.nodes child generalizing index with
  | nil => simp
  | cons a l ih =>
    rw [List.foldl_cons, ih]
    by_cases hn : n ∈ l
    · simp [hn]
    · by_cases ha : n = a
      · subst ha
        simp
      · simp [hn, ha]

/-- What the index holds, it got from one of the children, or it was there before. -/
theorem index_sound {m : Mapping} {l : List String} {index : String → Option String}
    {n child : String} (h : l.foldl (indexNodes m) index n = some child) :
    (child ∈ l ∧ n ∈ m.nodes child) ∨ index n = some child := by
  induction l generalizing index with
  | nil => exact Or.inr h
  | cons a l ih =>
    obtain ⟨hc, hn⟩ | h := ih h
    · exact Or.inl ⟨List.mem_cons_of_mem _ hc, hn⟩
    · rw [indexNodes_apply] at h
      split at h
      · next hn =>
        obtain rfl := Option.some.inj h
        exact Or.inl ⟨List.mem_cons_self .., hn⟩
      · exact Or.inr h

/-- A node that a child lists, or that is in the index, stays in the index, if not with the same
child. -/
theorem index_complete (m : Mapping) (l : List String) (index : String → Option String)
    {n : String} (h : (∃ child ∈ l, n ∈ m.nodes child) ∨ index n ≠ none) :
    l.foldl (indexNodes m) index n ≠ none := by
  induction l generalizing index with
  | nil =>
    obtain ⟨_, hc, _⟩ | h := h
    · cases hc
    · exact h
  | cons a l ih =>
    refine ih _ ?_
    rw [indexNodes_apply]
    obtain ⟨child, hc, hn⟩ | h := h
    · obtain rfl | hc := List.mem_cons.mp hc
      · exact Or.inr (by simp [hn])
      · exact Or.inl ⟨child, hc, hn⟩
    · right
      split
      · exact Option.some_ne_none _
      · exact h

/-- A mapped node is routed to a child that lists it. To which of them depends on the order of
the map. -/
theorem nodeToChild_of_mem {m : Mapping} {n child : String} (hc : child ∈ m.children)
    (hn : n ∈ m.nodes child) :
    ∃ child' ∈ m.children, n ∈ m.nodes child' ∧ (HealthFeed.new m).nodeToChild n = some child' := by
  obtain ⟨child', h⟩ := Option.ne_none_iff_exists'.mp
    (index_complete m m.children (fun _ => none) (Or.inl ⟨child, hc, hn⟩))
  obtain ⟨hc', hn'⟩ | h := index_sound h
  · exact ⟨child', hc', hn', h⟩
  · cases h

/-! ## One message

A message is absorbed entry by entry, and then every child that was touched is evaluated once.
The lemmas say what that does to one child and to one node, whatever the others do. -/

/-- The view a node's latest telling status gives, in a newest-first list. Statuses that give no
view are passed over. -/
def lastWord (n : String) (l : List HealthStatus) : Option NodeView :=
  l.findSome? fun st => if st.nodeName = n then nodeView st.status else none

theorem lastWord_append (n : String) (l l' : List HealthStatus) :
    lastWord n (l ++ l') = (lastWord n l).or (lastWord n l') := by
  simp only [lastWord]
  rw [List.findSome?_append]

theorem lastWord_cons (n : String) (st : HealthStatus) (l : List HealthStatus) :
    lastWord n (st :: l) = (lastWord n [st]).or (lastWord n l) :=
  lastWord_append n [st] l

/-- The callbacks for one child. -/
def callbacksOf (child : String) (l : List (String × Bool)) : List Bool :=
  l.filterMap fun cb => if cb.1 = child then some cb.2 else none

/-- The state of `dispatch`'s first loop, once the entries `seen` (newest
first) have been absorbed into `f`. -/
structure Absorbed (f : HealthFeed) (seen : List HealthStatus)
    (x : HealthFeed × List String) : Prop where
  index : x.1.nodeToChild = f.nodeToChild
  nodes : ∀ c, (x.1.views c).nodes = (f.views c).nodes
  alive : ∀ c, (x.1.views c).alive = (f.views c).alive
  status : ∀ c n, (x.1.views c).status n =
    if f.nodeToChild n = some c then (lastWord n seen).or ((f.views c).status n)
    else (f.views c).status n
  untouched : ∀ c, c ∉ x.2 → (x.1.views c).status = (f.views c).status
  touched : ∀ c ∈ x.2, ∃ n, f.nodeToChild n = some c

/-- An entry that changes no view: its node is not routed, or its status gives
no view, or the view it already has. -/
theorem Absorbed.skip {f : HealthFeed} {seen : List HealthStatus} {x : HealthFeed × List String}
    (h : Absorbed f seen x) {st : HealthStatus}
    (hst : ∀ c, f.nodeToChild st.nodeName = some c → ∀ v, nodeView st.status = some v →
      (x.1.views c).status st.nodeName = some v) :
    Absorbed f (st :: seen) x := by
  refine { h with status := ?_ }
  intro c n
  by_cases hc : f.nodeToChild n = some c
  · rw [if_pos hc, lastWord_cons]
    have hold := h.status c n
    rw [if_pos hc] at hold
    by_cases hn : st.nodeName = n
    · subst hn
      rcases hv : nodeView st.status with _ | v
      · simp [lastWord, hv, hold]
      · simp [lastWord, hv, hst c hc v hv]
    · simp [lastWord, hn, hold]
  · rw [if_neg hc, h.status c n, if_neg hc]

/-- Absorbing one more entry. Only the view of its node is written, and only if the status gives
one and it differs. -/
theorem Absorbed.step {f : HealthFeed} {seen : List HealthStatus} {x : HealthFeed × List String}
    (h : Absorbed f seen x) (st : HealthStatus) : Absorbed f (st :: seen) (absorb x st) := by
  simp only [absorb]
  rcases hroute : x.1.nodeToChild st.nodeName with _ | child
  · apply h.skip
    intro c hc
    rw [← h.index, hroute] at hc
    cases hc
  rcases hview : nodeView st.status with _ | v
  · apply h.skip
    intro c _ v hv
    rw [hview] at hv
    cases hv
  dsimp only
  split
  · next hsame =>
    apply h.skip
    intro c hc w hw
    rw [← h.index, hroute] at hc
    rw [hview] at hw
    rw [← Option.some.inj hc, ← Option.some.inj hw]
    exact hsame
  · -- the view changes: of this node, under the child it is routed to
    rw [h.index] at hroute
    refine ⟨h.index, fun c => ?_, fun c => ?_, fun c n => ?_, ?_, ?_⟩
    · rw [HealthFeed.setStatus_nodes]
      exact h.nodes c
    · rw [HealthFeed.setStatus_alive]
      exact h.alive c
    · rw [lastWord_cons]
      by_cases hc : c = child
      · subst hc
        rw [HealthFeed.setStatus_status_self]
        by_cases hn : n = st.nodeName
        · subst hn
          simp [hroute, lastWord, hview]
        · simp [Function.update_of_ne hn, h.status, lastWord, Ne.symm hn]
      · rw [x.1.setStatus_views_of_ne _ _ hc, h.status]
        by_cases hn : n = st.nodeName
        · subst hn
          simp [hroute, Ne.symm hc]
        · simp [lastWord, Ne.symm hn]
    · intro c hc
      rw [List.mem_append, List.mem_singleton, not_or] at hc
      rw [x.1.setStatus_views_of_ne _ _ hc.2]
      exact h.untouched c hc.1
    · intro c hc
      obtain hc | hc := List.mem_append.mp hc
      · exact h.touched c hc
      · exact ⟨st.nodeName, by rw [hroute, List.mem_singleton.mp hc]⟩

/-- Absorbing a whole message, by induction on its entries. -/
theorem absorb_all {f : HealthFeed} (msg : List HealthStatus) {seen : List HealthStatus}
    {x : HealthFeed × List String} (h : Absorbed f seen x) :
    Absorbed f (msg.reverse ++ seen) (msg.foldl absorb x) := by
  induction msg generalizing seen x with
  | nil => exact h
  | cons st msg ih => simpa using ih (h.step st)

/-- The state of `dispatch`'s second loop on `f`, once the children `done` have
been evaluated. -/
structure Evaluated (f : HealthFeed) (done : List String)
    (x : HealthFeed × List (String × Bool)) : Prop where
  index : x.1.nodeToChild = f.nodeToChild
  nodes : ∀ c, (x.1.views c).nodes = (f.views c).nodes
  status : ∀ c, (x.1.views c).status = (f.views c).status
  alive : ∀ c, (x.1.views c).alive =
    if c ∈ done then (f.views c).aggregate else (f.views c).alive
  callbacks : ∀ c, callbacksOf c x.2 =
    if (x.1.views c).alive = (f.views c).alive then [] else [(x.1.views c).alive]

/-- Evaluating one more child. A child that is done already has its aggregate as last called
back, so nothing happens. -/
theorem Evaluated.step {f : HealthFeed} {done : List String}
    {x : HealthFeed × List (String × Bool)} (h : Evaluated f done x) (child : String) :
    Evaluated f (child :: done) (evaluate x child) := by
  have haggregate : (x.1.views child).aggregate = (f.views child).aggregate := by
    simp only [ChildView.aggregate]
    rw [h.nodes, h.status]
  unfold evaluate
  dsimp only
  rw [haggregate]
  split
  · next hsame =>
    refine { h with alive := ?_ }
    intro c
    by_cases hc : c = child
    · subst hc
      simp [← hsame]
    · simp [h.alive, hc]
  · next hflip =>
    -- the first evaluation of the child: it had not been called back
    have hold : (x.1.views child).alive = (f.views child).alive := by
      rw [h.alive] at hflip ⊢
      split
      · next hdone => simp [hdone] at hflip
      · rfl
    refine ⟨h.index, fun c => ?_, fun c => ?_, fun c => ?_, fun c => ?_⟩
    · rw [HealthFeed.setAlive_nodes]
      exact h.nodes c
    · rw [HealthFeed.setAlive_status]
      exact h.status c
    · by_cases hc : c = child
      · subst hc
        simp
      · rw [x.1.setAlive_views_of_ne _ hc, h.alive]
        simp [hc]
    · have happend : callbacksOf c (x.2 ++ [(child, (f.views child).aggregate)]) =
          callbacksOf c x.2 ++ if child = c then [(f.views child).aggregate] else [] := by
        simp only [callbacksOf]
        rw [List.filterMap_append]
        split <;> simp [*]
      dsimp only
      rw [happend, h.callbacks]
      by_cases hc : c = child
      · subst hc
        rw [HealthFeed.setAlive_alive_self, if_pos hold, if_pos rfl]
        rw [hold] at hflip
        simp [hflip]
      · rw [x.1.setAlive_views_of_ne _ hc, if_neg (Ne.symm hc), List.append_nil]

/-- Evaluating all the touched children. -/
theorem evaluate_all {f : HealthFeed} (touched : List String) {done : List String}
    {x : HealthFeed × List (String × Bool)} (h : Evaluated f done x) :
    Evaluated f (touched.reverse ++ done) (touched.foldl evaluate x) := by
  induction touched generalizing done x with
  | nil => exact h
  | cons c touched ih => simpa using ih (h.step c)

/-- The invariant between two messages: a routed node is one of the child's
own, and every aggregate has been called back. -/
structure HealthFeed.Settled (f : HealthFeed) : Prop where
  routed : ∀ n child, f.nodeToChild n = some child → n ∈ (f.views child).nodes
  alive : ∀ child, (f.views child).alive =
    (!(f.views child).nodes.isEmpty && (f.views child).aggregate)

/-- What one message does to a settled feed. All entries are absorbed before any aggregate is
evaluated, so what counts is the last word on each node, and an aggregate flips at most once. -/
structure Dispatched (f : HealthFeed) (msg : List HealthStatus)
    (out : HealthFeed × List (String × Bool)) : Prop where
  settled : out.1.Settled
  index : out.1.nodeToChild = f.nodeToChild
  nodes : ∀ c, (out.1.views c).nodes = (f.views c).nodes
  /-- a view changes only under the child the node is routed to -/
  status : ∀ c n, (out.1.views c).status n =
    if f.nodeToChild n = some c then (lastWord n msg.reverse).or ((f.views c).status n)
    else (f.views c).status n
  /-- one callback for a child whose aggregate has flipped, none for the others -/
  callbacks : ∀ c, callbacksOf c out.2 =
    if (out.1.views c).alive = (f.views c).alive then [] else [(out.1.views c).alive]

/-- **What one message does**, for any message: nodes nobody has named, statuses nobody
understands and repeated entries included. -/
theorem dispatch_spec {f : HealthFeed} (hf : f.Settled) (msg : List HealthStatus) :
    Dispatched f msg (dispatch f msg) := by
  have habsorb : Absorbed f (msg.reverse ++ []) (msg.foldl absorb (f, [])) := by
    refine absorb_all msg ⟨rfl, fun _ => rfl, fun _ => rfl, ?_, fun _ _ => rfl, ?_⟩
    · intro c n
      simp [lastWord]
    · simp
  rw [List.append_nil] at habsorb
  simp only [dispatch]
  generalize msg.foldl absorb (f, []) = x at habsorb ⊢
  obtain ⟨g, touched⟩ := x
  have hevaluate : Evaluated g (touched.reverse ++ []) (touched.foldl evaluate (g, [])) := by
    refine evaluate_all touched ⟨rfl, fun _ => rfl, fun _ => rfl, ?_, ?_⟩
    · intro _
      simp
    · intro _
      simp [callbacksOf]
  rw [List.append_nil] at hevaluate
  dsimp only
  generalize touched.foldl evaluate (g, []) = y at hevaluate ⊢
  obtain ⟨f', out⟩ := y
  have hnodes (c : String) : (f'.views c).nodes = (f.views c).nodes :=
    (hevaluate.nodes c).trans (habsorb.nodes c)
  have haggregate (c : String) : (f'.views c).aggregate = (g.views c).aggregate := by
    simp only [ChildView.aggregate]
    rw [hevaluate.nodes, hevaluate.status]
  refine ⟨⟨?_, ?_⟩, hevaluate.index.trans habsorb.index, hnodes,
    ?_, ?_⟩
  · intro n c hc
    rw [hnodes]
    exact hf.routed n c (by rw [← habsorb.index, ← hevaluate.index]; exact hc)
  · intro c
    rw [hevaluate.alive, haggregate, hnodes]
    by_cases hc : c ∈ touched
    · -- a touched child has a node
      obtain ⟨n, hn⟩ := habsorb.touched c hc
      have hne : (f.views c).nodes.isEmpty = false :=
        List.isEmpty_eq_false_iff.mpr (List.ne_nil_of_mem (hf.routed n c hn))
      simp [hc, hne]
    · have hsame : (g.views c).aggregate = (f.views c).aggregate := by
        simp only [ChildView.aggregate]
        rw [habsorb.nodes, habsorb.untouched c hc]
      have hold : (g.views c).alive =
          (!(f.views c).nodes.isEmpty && (f.views c).aggregate) :=
        (habsorb.alive c).trans (hf.alive c)
      simp [hc, hold, hsame]
  · intro c n
    rw [hevaluate.status, habsorb.status]
  · intro c
    rw [hevaluate.callbacks, habsorb.alive]

/-! ## Whole histories

What holds after any messages, as an invariant, and from it when the feed is as it is meant to
be. -/

/-- The feed after a history of messages (newest first), and all the callbacks
it has made, newest first. -/
def feedRun (m : Mapping) : List (List HealthStatus) → HealthFeed × List (String × Bool)
  | [] => (.new m, [])
  | msg :: h =>
    let (f, callbacks) := feedRun m h
    let (f, out) := dispatch f msg
    (f, out.reverse ++ callbacks)

/-- The entries of a history of messages, newest first. -/
def reported (h : List (List HealthStatus)) : List HealthStatus := h.flatMap List.reverse

/-- Strict alternation that began with `true`, in a newest-first list. A feed begins with no
child alive, so the first callback of each is `true`. -/
def Alternates : List Bool → Prop
  | [] => True
  | b :: bs => b = !bs.headD false ∧ Alternates bs

/-- An entry that can change something: of a mapped node, neither WARN nor STALE. The others may
be left out of a message. -/
def telling (m : Mapping) (st : HealthStatus) : Bool :=
  m.children.any (fun child => st.nodeName ∈ m.nodes child) && (nodeView st.status).isSome

/-- The feed as it is meant to be, after a history of messages: aggregates, flips, and what may
be left out of a message without any difference. -/
structure FeedCorrect (m : Mapping) (h : List (List HealthStatus)) : Prop where
  /-- alive when the last word on every node is OK -/
  aggregate : ∀ child ∈ m.children, m.nodes child ≠ [] →
    (((feedRun m h).1.views child).alive = true ↔
      ∀ n ∈ m.nodes child, lastWord n (reported h) = some .ok)
  /-- the callbacks for a child alternate, starting with `true` -/
  alternate : ∀ child, Alternates (callbacksOf child (feedRun m h).2)
  /-- each callback carries the new aggregate -/
  called : ∀ msg child b, (child, b) ∈ (dispatch (feedRun m h).1 msg).2 →
    b = ((dispatch (feedRun m h).1 msg).1.views child).alive
  /-- entries that tell nothing might as well not be there -/
  ignored : ∀ msg, dispatch (feedRun m h).1 (msg.filter (telling m)) =
    dispatch (feedRun m h).1 msg

theorem new_nodes (m : Mapping) {child : String} (hc : child ∈ m.children) :
    ((HealthFeed.new m).views child).nodes = m.nodes child := by
  simp [HealthFeed.new, hc]

/-- A new feed is settled. -/
theorem new_settled (m : Mapping) : (HealthFeed.new m).Settled where
  routed n child h := by
    obtain ⟨hc, hn⟩ | h := index_sound h
    · rw [new_nodes m hc]
      exact hn
    · cases h
  alive child := by
    by_cases hc : child ∈ m.children
    · rcases hn : m.nodes child with _ | ⟨n, l⟩ <;>
        simp [HealthFeed.new, hc, ChildView.aggregate, hn]
    · simp [HealthFeed.new, hc, ChildView.aggregate]

/-- The state after a history, whatever the mapping: the views are determined by the last words,
and the callbacks so far alternate. -/
structure Tracked (m : Mapping) (h : List (List HealthStatus)) : Prop where
  settled : (feedRun m h).1.Settled
  index : (feedRun m h).1.nodeToChild = (HealthFeed.new m).nodeToChild
  nodes : ∀ c, ((feedRun m h).1.views c).nodes = ((HealthFeed.new m).views c).nodes
  /-- a node's view is its last word, kept under the child it is routed to -/
  status : ∀ c n, ((feedRun m h).1.views c).status n =
    if (HealthFeed.new m).nodeToChild n = some c then lastWord n (reported h) else none
  alternate : ∀ c, Alternates (callbacksOf c (feedRun m h).2) ∧
    ((feedRun m h).1.views c).alive = (callbacksOf c (feedRun m h).2).headD false

/-- Every history is tracked, by induction on its messages. An entry is absorbed under the child
that its node is routed to. -/
theorem feedRun_tracked (m : Mapping) (h : List (List HealthStatus)) : Tracked m h := by
  induction h with
  | nil =>
    refine ⟨new_settled m, rfl, fun _ => rfl, ?_, fun c => ⟨trivial, ?_⟩⟩
    · intro c n
      simp only [feedRun, HealthFeed.new]
      split <;> simp [reported, lastWord]
    · simp only [feedRun, HealthFeed.new]
      split <;> rfl
  | cons msg h ih =>
    have hd := dispatch_spec ih.settled msg
    refine ⟨hd.settled, hd.index.trans ih.index, fun c => (hd.nodes c).trans (ih.nodes c),
      ?_, ?_⟩
    · intro c n
      have hreported : reported (msg :: h) = msg.reverse ++ reported h := rfl
      change ((dispatch (feedRun m h).1 msg).1.views c).status n = _
      rw [hd.status, ih.index, hreported, lastWord_append, ih.status]
      split <;> rfl
    · intro c
      have hsplit : callbacksOf c (feedRun m (msg :: h)).2 =
          (callbacksOf c (dispatch (feedRun m h).1 msg).2).reverse ++
            callbacksOf c (feedRun m h).2 := by
        simp [feedRun, callbacksOf, List.filterMap_append, List.filterMap_reverse]
      change _ ∧ ((dispatch (feedRun m h).1 msg).1.views c).alive = _
      rw [hsplit, hd.callbacks]
      obtain ⟨halt, halive⟩ := ih.alternate c
      by_cases hsame : ((dispatch (feedRun m h).1 msg).1.views c).alive =
          ((feedRun m h).1.views c).alive
      · rw [if_pos hsame]
        exact ⟨halt, hsame.trans halive⟩
      · -- a flip: the new aggregate is the negation of the one called back last
        rw [if_neg hsame]
        exact ⟨⟨(Bool.eq_not_of_ne hsame).trans (congrArg not halive), halt⟩, rfl⟩

/-- A callback carries the new aggregate, and there is one only if it differs from the old one. -/
theorem dispatch_called {f : HealthFeed} (hf : f.Settled) {msg : List HealthStatus}
    {child : String} {b : Bool} (h : (child, b) ∈ (dispatch f msg).2) :
    b = ((dispatch f msg).1.views child).alive ∧ b ≠ (f.views child).alive := by
  have hmem : b ∈ callbacksOf child (dispatch f msg).2 :=
    List.mem_filterMap.mpr ⟨(child, b), h, by simp⟩
  rw [(dispatch_spec hf msg).callbacks] at hmem
  split at hmem
  · cases hmem
  · next hflip =>
    obtain rfl := List.mem_singleton.mp hmem
    exact ⟨rfl, hflip⟩

/-- Absorbing an entry that tells nothing. -/
theorem absorb_of_not_telling {m : Mapping} {x : HealthFeed × List String}
    (hx : x.1.nodeToChild = (HealthFeed.new m).nodeToChild) {st : HealthStatus}
    (hst : telling m st = false) : absorb x st = x := by
  simp only [absorb]
  rcases hroute : x.1.nodeToChild st.nodeName with _ | child
  · rfl
  rw [hx] at hroute
  obtain ⟨hc, hn⟩ | h := index_sound hroute
  · have hmapped : m.children.any (fun child => st.nodeName ∈ m.nodes child) = true :=
      List.any_eq_true.mpr ⟨child, hc, by simpa using hn⟩
    rw [telling, hmapped, Bool.true_and, Option.isSome_eq_false_iff, Option.isNone_iff_eq_none]
      at hst
    rw [hst]
  · cases h

/-- Absorbing leaves the reverse index alone. -/
theorem absorb_nodeToChild (x : HealthFeed × List String) (st : HealthStatus) :
    (absorb x st).1.nodeToChild = x.1.nodeToChild := by
  simp only [absorb]
  split
  · rfl
  · split
    · rfl
    · split <;> rfl

/-- A message without the entries that tell nothing does the same, callbacks included. -/
theorem dispatch_filter {m : Mapping} {f : HealthFeed}
    (hf : f.nodeToChild = (HealthFeed.new m).nodeToChild) (msg : List HealthStatus) :
    dispatch f (msg.filter (telling m)) = dispatch f msg := by
  have hfold (msg : List HealthStatus) (x : HealthFeed × List String)
      (hx : x.1.nodeToChild = (HealthFeed.new m).nodeToChild) :
      (msg.filter (telling m)).foldl absorb x = msg.foldl absorb x := by
    induction msg generalizing x with
    | nil => rfl
    | cons st msg ih =>
      rcases hst : telling m st with _ | _
      · rw [List.filter_cons_of_neg (by simp [hst]), List.foldl_cons,
          absorb_of_not_telling hx hst]
        exact ih x hx
      · rw [List.filter_cons_of_pos hst, List.foldl_cons, List.foldl_cons]
        exact ih _ ((absorb_nodeToChild x st).trans hx)
  simp only [dispatch]
  rw [hfold msg (f, []) hf]

/-- A node listed by one child only is routed to it. Under this condition the feed keeps what its
header promises. -/
theorem nodeToChild_of_unique {m : Mapping}
    (hm : ∀ c ∈ m.children, ∀ c' ∈ m.children, ∀ n, n ∈ m.nodes c → n ∈ m.nodes c' → c = c')
    {child n : String} (hc : child ∈ m.children) (hn : n ∈ m.nodes child) :
    (HealthFeed.new m).nodeToChild n = some child := by
  obtain ⟨child', hc', hn', h⟩ := nodeToChild_of_mem hc hn
  rw [hm child hc child' hc' n hn hn']
  exact h

/-- In a list of OK entries, the last word on a node that occurs is OK. -/
theorem lastWord_of_all_ok {l : List HealthStatus} (hl : ∀ st ∈ l, st.status = "OK") {n : String}
    (hn : ∃ st ∈ l, st.nodeName = n) : lastWord n l = some .ok := by
  induction l with
  | nil =>
    obtain ⟨_, hst, _⟩ := hn
    cases hst
  | cons st l ih =>
    have hok : nodeView st.status = some .ok := by
      rw [hl st (List.mem_cons_self ..)]
      rfl
    rw [lastWord_cons]
    by_cases hst : st.nodeName = n
    · simp [lastWord, hst, hok]
    · obtain ⟨st', hmem, hst'⟩ := hn
      have hmem : st' ∈ l := by
        obtain rfl | hmem := List.mem_cons.mp hmem
        · exact absurd hst' hst
        · exact hmem
      rw [ih (fun st h => hl st (List.mem_cons_of_mem _ h)) ⟨st', hmem, hst'⟩]
      simp [lastWord, hst]

/-- A child that has lost a node to another one never becomes alive, whatever
is reported. -/
theorem not_alive_of_lost {m : Mapping} {c c' n : String} (hc : c ∈ m.children)
    (hn : n ∈ m.nodes c) (hroute : (HealthFeed.new m).nodeToChild n = some c') (hne : c ≠ c')
    (h : List (List HealthStatus)) : ((feedRun m h).1.views c).alive = false := by
  have ht := feedRun_tracked m h
  have hstatus : ((feedRun m h).1.views c).status n = none := by
    rw [ht.status, if_neg (by rw [hroute]; exact fun he => hne (Option.some.inj he).symm)]
  have hnodes := (ht.nodes c).trans (new_nodes m hc)
  have haggregate : ((feedRun m h).1.views c).aggregate = false := by
    rw [ChildView.aggregate, hnodes, List.all_eq_false]
    exact ⟨n, hn, by simp [hstatus]⟩
  rw [ht.settled.alive, haggregate, Bool.and_false]

/-- **The feed is correct after every history exactly when no node is listed under two
children.** (Listing it twice under one child does no harm.) A node is routed to the last child
that lists it, so an earlier one waits for a word that never reaches it. -/
theorem feed_correct_iff (m : Mapping) :
    (∀ h, FeedCorrect m h) ↔
      ∀ c ∈ m.children, ∀ c' ∈ m.children, ∀ n, n ∈ m.nodes c → n ∈ m.nodes c' → c = c' := by
  constructor
  · -- all the nodes of a child report OK; one of them is routed to another child
    have hlost (h : ∀ h, FeedCorrect m h) {c c' : String} (hc : c ∈ m.children) {n : String}
        (hn : n ∈ m.nodes c) (hroute : (HealthFeed.new m).nodeToChild n = some c') : c = c' := by
      by_contra hne
      have hlast (n : String) (hn : n ∈ m.nodes c) :
          lastWord n (reported [(m.nodes c).map fun n => ⟨n, "OK"⟩]) = some .ok := by
        refine lastWord_of_all_ok ?_ ⟨⟨n, "OK"⟩, ?_, rfl⟩
        · intro st hst
          simp only [reported, List.flatMap_cons, List.flatMap_nil, List.append_nil,
            List.mem_reverse, List.mem_map] at hst
          obtain ⟨_, _, rfl⟩ := hst
          rfl
        · simpa [reported] using hn
      have halive := ((h _).aggregate c hc (List.ne_nil_of_mem hn)).mpr hlast
      rw [not_alive_of_lost hc hn hroute hne] at halive
      cases halive
    intro h c hc c' hc' n hn hn'
    obtain ⟨d, -, -, hroute⟩ := nodeToChild_of_mem hc hn
    rw [hlost h hc hn hroute, hlost h hc' hn' hroute]
  · intro hm h
    have ht := feedRun_tracked m h
    refine ⟨?_, fun c => (ht.alternate c).1,
      fun msg c b hb => (dispatch_called ht.settled hb).1, fun msg => dispatch_filter ht.index msg⟩
    intro c hc hne
    have hnodes := (ht.nodes c).trans (new_nodes m hc)
    rw [ht.settled.alive, hnodes, List.isEmpty_eq_false_iff.mpr hne, Bool.not_false,
      Bool.true_and, ChildView.aggregate, hnodes, List.all_eq_true]
    apply forall₂_congr
    intro n hn
    rw [ht.status, if_pos (nodeToChild_of_unique hm hc hn), decide_eq_true_iff]

/-- One node under two children. -/
def sharedMapping : Mapping where
  children := ["base", "nav2"]
  nodes := fun _ => ["hb"]
  sorted := by decide

/-- The earlier child does not become alive when the node is reported OK. -/
theorem feed_incorrect_shared : ¬ FeedCorrect sharedMapping [[⟨"hb", "OK"⟩]] := by
  intro h
  have halive : ((feedRun sharedMapping [[⟨"hb", "OK"⟩]]).1.views "base").alive = true :=
    (h.aggregate "base" (by decide) (by decide)).mpr (by decide)
  revert halive
  decide

end AmrFramework.Monitoring
