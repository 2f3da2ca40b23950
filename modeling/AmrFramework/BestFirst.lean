import Mathlib.Algebra.BigOperators.Group.List.Basic
import Mathlib.Algebra.Order.Group.Defs
import Mathlib.Data.Finset.Card
import Mathlib.Data.List.Chain
import Mathlib.Data.List.Sort
import Mathlib.Data.Multiset.Basic

/-!
# Best-first search

A search with a priority queue that closes a vertex when it is first popped and
never opens it again. A vertex can be in the queue several times; what is popped
for a second time is skipped.

* `MinQueue` — what a priority queue promises. Which of several least elements it
  gives out is left open.
* `Problem.search` — the search, for as many pops as it is given.
* `Inv` — what holds between two pops: closed and open nodes are `Linked` to the
  closed nodes they were reached from, and every vertex that is reachable but not
  closed lies behind a node of the queue.
* `search_some`, `search_none`, `search_optimal` — what a search that ends says
  about the graph.

The queue is asked for nothing but a least element, so the results hold for any order among equal
ones. Vertices are told apart by a key, as in a hash set; that this is right is a hypothesis
about the vertices that can be reached.
-/

namespace BestFirst

universe u v w

/-- A bag that gives out an element of least rank. The bag is described by a multiset of its
items, so that nothing is said about the order in which they are kept. -/
structure MinQueue (α : Type u) {K : Type w} [LE K] (rank : α → K) : Type (u + 1) where
  Carrier : Type u
  empty : Carrier
  push : α → Carrier → Carrier
  pop : Carrier → Option (α × Carrier)
  /-- what is in the queue -/
  items : Carrier → Multiset α
  items_empty : items empty = 0
  items_push : ∀ a q, items (push a q) = a ::ₘ items q
  items_of_pop_none : ∀ {q}, pop q = none → items q = 0
  items_of_pop : ∀ {q a q'}, pop q = some (a, q') → items q = a ::ₘ items q'
  rank_le_of_pop : ∀ {q a q'}, pop q = some (a, q') → ∀ b ∈ items q', rank a ≤ rank b

/-- A sorted list. It is the queue that examples run with. -/
def MinQueue.sorted {α : Type u} {K : Type w} [LinearOrder K] (rank : α → K) :
    MinQueue α rank where
  Carrier := { l : List α // l.Pairwise (rank · ≤ rank ·) }
  empty := ⟨[], .nil⟩
  push a q :=
    have : Std.Total (α := α) (rank · ≤ rank ·) := ⟨fun a b => le_total (rank a) (rank b)⟩
    have : IsTrans α (rank · ≤ rank ·) := ⟨fun _ _ _ => le_trans⟩
    ⟨q.1.orderedInsert (rank · ≤ rank ·) a, q.2.orderedInsert a q.1⟩
  pop
    | ⟨[], _⟩ => none
    | ⟨a :: l, h⟩ => some (a, ⟨l, h.of_cons⟩)
  items q := q.1
  items_empty := rfl
  items_push a q := Multiset.coe_eq_coe.mpr (List.perm_orderedInsert _ a q.1)
  items_of_pop_none {q} h := by
    obtain ⟨_ | ⟨a, l⟩, hl⟩ := q
    · rfl
    · cases h
  items_of_pop {q a q'} h := by
    obtain ⟨_ | ⟨b, l⟩, hl⟩ := q
    · cases h
    · cases h
      rfl
  rank_le_of_pop {q a q'} h := by
    obtain ⟨_ | ⟨b, l⟩, hl⟩ := q
    · cases h
    · cases h
      exact fun c hc => List.rel_of_pairwise_cons hl hc

/-- A graph with step costs, where to start in it and what to look for. The graph is given by its
successors, and may be infinite; what has been visited is remembered by key. -/
structure Problem (V : Type u) (κ : Type v) (K : Type w) : Type (max u v w) where
  start : V
  isGoal : V → Bool
  succs : V → List V
  cost : V → V → K
  /-- the estimate of what is left -/
  heuristic : V → K
  /-- what tells the vertices apart -/
  key : V → κ

/-- A vertex, as it was reached: with the cost of the way there, the estimate of what is left,
and the node it was reached from. The same vertex may be in the queue several times. -/
structure Node (V : Type u) (K : Type w) : Type (max u w) where
  vertex : V
  g : K
  h : K
  /-- the index of the closed node it was reached from -/
  parent : Option Nat

def Node.f {V : Type u} {K : Type w} [Add K] (n : Node V K) : K := n.g + n.h

variable {V : Type u} {κ : Type v} {K : Type w}

/-- The vertices from the start to a closed node, following the parents. It is
`none` when the chain is longer than `fuel`. -/
def reconstruct (closed : List (Node V K)) : (fuel : Nat) → Option Nat → Option (List V)
  | _, none => some []
  | 0, some _ => none
  | fuel + 1, some i =>
    match closed[i]? with
    | none => some []
    | some n => (reconstruct closed fuel n.parent).map (· ++ [n.vertex])

namespace Problem

section Routes

variable [AddCommGroup K] (P : Problem V κ K)

/-- The start, as a node. -/
def startNode : Node V K := ⟨P.start, 0, P.heuristic P.start, none⟩

/-- A successor of the closed node at `ci`. -/
def child (u : Node V K) (ci : Nat) (v : V) : Node V K :=
  ⟨v, u.g + P.cost u.vertex v, P.heuristic v, some ci⟩

/-- A route from the start, and what it costs. This is the abstract notion that paths found by
following parents are compared with. -/
inductive Route : V → List V → K → Prop
  | start : Route P.start [P.start] 0
  | snoc {u v : V} {path : List V} {c : K} :
      Route u path c → v ∈ P.succs u → Route v (path ++ [v]) (c + P.cost u v)

def Reachable (v : V) : Prop := ∃ path c, P.Route v path c

/-- The key tells the vertices that can be reached apart. Others may share a key. -/
def KeyInj : Prop := Set.InjOn P.key { v | P.Reachable v }

/-- No step is cheaper than what it takes off the estimate. What the estimate of a goal is makes
no difference, as long as this holds. -/
def Consistent [LE K] : Prop :=
  ∀ u, ∀ v ∈ P.succs u, P.heuristic u ≤ P.cost u v + P.heuristic v

/-- The cost of the steps of a list of vertices. -/
def pathCost : List V → K
  | u :: v :: path => P.cost u v + pathCost (v :: path)
  | _ => 0

/-- A node that was reached as it says, from one of the closed nodes below `i`: its cost is that
of its parent and of the step. -/
def Linked (closed : List (Node V K)) (i : Nat) (n : Node V K) : Prop :=
  n.h = P.heuristic n.vertex ∧
    (n = P.startNode ∨ ∃ j < i, ∃ u, closed[j]? = some u ∧ n.vertex ∈ P.succs u.vertex ∧
      n = P.child u j n.vertex)

/-- Every closed node is linked to the ones before it: it is the start, or a successor of the
node that its parent index names. -/
def Chained (closed : List (Node V K)) : Prop :=
  ∀ i n, closed[i]? = some n → P.Linked closed i n

variable {P} {closed : List (Node V K)} {n m : Node V K} {i : Nat}

theorem pathCost_concat (path : List V) (u v : V) :
    P.pathCost (path ++ [u] ++ [v]) = P.pathCost (path ++ [u]) + P.cost u v := by
  induction path with
  | nil => simp [pathCost]
  | cons a path ih =>
    rcases path with _ | ⟨b, path⟩
    · simp [pathCost]
    · simp only [List.cons_append, pathCost] at ih ⊢
      rw [ih, add_assoc]

/-- A route is a list of vertices from the start, each a successor of the one before. The two
forms are used for the two directions: the inductive one for following the search, and this one
for routes that are given. -/
theorem route_iff {v : V} {path : List V} {c : K} :
    P.Route v path c ↔ path.head? = some P.start ∧ path.getLast? = some v ∧
      path.IsChain (fun u v => v ∈ P.succs u) ∧ c = P.pathCost path := by
  constructor
  · intro h
    induction h with
    | start => exact ⟨rfl, rfl, .singleton _, rfl⟩
    | @snoc u v path c hroute hsucc ih =>
      obtain ⟨hhead, hlast, hchain, rfl⟩ := ih
      obtain ⟨init, rfl⟩ : ∃ init, path = init ++ [u] := by
        exact ⟨path.dropLast, (List.dropLast_append_getLast? u hlast).symm⟩
      refine ⟨?_, List.getLast?_concat, ?_, (pathCost_concat init u v).symm⟩
      · rw [List.head?_append, hhead]
        rfl
      · refine List.isChain_append.mpr ⟨hchain, .singleton _, ?_⟩
        intro x hx y hy
        obtain rfl : u = x := by simpa using hx
        obtain rfl : v = y := by simpa using hy
        exact hsucc
  · rintro ⟨hhead, hlast, hchain, rfl⟩
    induction path using List.reverseRecOn generalizing v with
    | nil => cases hhead
    | append_singleton path w ih =>
      obtain rfl : w = v := by simpa using hlast
      rcases path.eq_nil_or_concat' with rfl | ⟨init, u, rfl⟩
      · obtain rfl : w = P.start := by simpa using hhead
        exact .start
      · rw [pathCost_concat]
        obtain ⟨hinit, -, hsucc⟩ := List.isChain_append.mp hchain
        refine (ih ?_ List.getLast?_concat hinit).snoc (hsucc u (by simp) w rfl)
        rw [List.head?_append_of_ne_nil _ (by simp)] at hhead
        exact hhead

theorem Linked.append (h : P.Linked closed i n) (hi : i ≤ closed.length) :
    P.Linked (closed ++ [m]) i n := by
  obtain ⟨hh, hstart | ⟨j, hj, u, hu, hsucc, hn⟩⟩ := h
  · exact ⟨hh, .inl hstart⟩
  · refine ⟨hh, .inr ⟨j, hj, u, ?_, hsucc, hn⟩⟩
    rw [List.getElem?_append_left (Nat.lt_of_lt_of_le hj hi)]
    exact hu

theorem Linked.mono {i' : Nat} (h : P.Linked closed i n) (hi : i ≤ i') :
    P.Linked closed i' n := by
  obtain ⟨hh, hstart | ⟨j, hj, hu⟩⟩ := h
  · exact ⟨hh, .inl hstart⟩
  · exact ⟨hh, .inr ⟨j, Nat.lt_of_lt_of_le hj hi, hu⟩⟩

theorem Chained.append (h : P.Chained closed) (hm : P.Linked closed closed.length m) :
    P.Chained (closed ++ [m]) := by
  intro i n hn
  rcases Nat.lt_or_ge i closed.length with hi | hi
  · rw [List.getElem?_append_left hi] at hn
    exact (h i n hn).append (Nat.le_of_lt hi)
  · rw [List.getElem?_append_right hi] at hn
    obtain ⟨hlt, rfl⟩ := List.getElem?_eq_some_iff.mp hn
    obtain rfl : i = closed.length := by
      rw [List.length_singleton] at hlt
      omega
    simpa using hm.append (Nat.le_refl closed.length)

/-- Parents are closed before their children, so following parents ends. -/
theorem Chained.parent_lt (h : P.Chained closed) (hn : closed[i]? = some n) :
    ∀ j, n.parent = some j → j < i := by
  intro j hj
  obtain ⟨-, hstart | ⟨k, hk, u, -, -, hchild⟩⟩ := h i n hn
  · rw [hstart] at hj
    cases hj
  · rw [hchild] at hj
    cases hj
    exact hk

/-- **The parent chain ends at the start**: it is a route of the node's own cost. By strong
induction on the index, as a parent is closed before its child. -/
theorem Chained.route (h : P.Chained closed) (hn : closed[i]? = some n) {fuel : Nat}
    (hfuel : i < fuel) :
    ∃ path, reconstruct closed fuel (some i) = some path ∧ P.Route n.vertex path n.g := by
  induction i using Nat.strongRecOn generalizing n fuel with
  | ind i ih =>
    obtain ⟨fuel, rfl⟩ : ∃ k, fuel = k + 1 := ⟨fuel - 1, by omega⟩
    rw [reconstruct, hn]
    obtain ⟨-, hstart | ⟨j, hj, u, hu, hsucc, hchild⟩⟩ := h i n hn
    · subst hstart
      refine ⟨[P.start], ?_, .start⟩
      cases fuel <;> rfl
    · obtain ⟨path, hpath, hroute⟩ := ih j hj hu (by omega : j < fuel)
      refine ⟨path ++ [n.vertex], ?_, ?_⟩
      · rw [hchild]
        simp only [child, hpath, Option.map_some]
      · rw [hchild]
        exact hroute.snoc hsucc

end Routes

end Problem

section Search

variable [AddCommGroup K] [LinearOrder K] [DecidableEq κ]
variable (P : Problem V κ K) (Q : MinQueue (Node V K) Node.f)

/-- What the search keeps from one pop to the next: the frontier, the keys that have been closed,
and the closed nodes in the order of their closing. -/
structure State (Q : MinQueue (Node V K) Node.f) (κ : Type v) : Type (max u v w) where
  frontier : Q.Carrier
  visited : Finset κ
  closed : List (Node V K)

namespace Problem

/-- The successors that are not visited yet enter the queue. One that is in the queue already
enters it again, with the new cost. -/
def expand (visited : Finset κ) (u : Node V K) (ci : Nat) (frontier : Q.Carrier) : Q.Carrier :=
  (P.succs u.vertex).foldl
    (fun q v => if P.key v ∈ visited then q else Q.push (P.child u ci v) q) frontier

/-- At most `fuel` pops. The closed nodes, when the last of them is a goal. A pop of a vertex
that is visited takes one unit of fuel like any other. -/
def run : (fuel : Nat) → State Q κ → Option (List (Node V K))
  | 0, _ => none
  | fuel + 1, s =>
    match Q.pop s.frontier with
    | none => none
    | some (cur, frontier) =>
      if P.key cur.vertex ∈ s.visited then run fuel { s with frontier := frontier }
      else
        let visited := insert (P.key cur.vertex) s.visited
        let closed := s.closed ++ [cur]
        if P.isGoal cur.vertex then some closed
        else run fuel ⟨P.expand Q visited cur s.closed.length frontier, visited, closed⟩

def search (fuel : Nat) : Option (List (Node V K)) :=
  P.run Q fuel ⟨Q.push P.startNode Q.empty, ∅, []⟩

/-! ## The invariant

Between two pops there are the closed nodes, the visited keys and the queue. The invariant says
how they go together; it has one lemma for each thing that a pop can do. -/

variable {P Q} {visited : Finset κ} {u m : Node V K} {ci : Nat} {frontier : Q.Carrier}

/-- What the expansion of a node puts into the queue, beside what was there. -/
theorem mem_expand :
    m ∈ Q.items (P.expand Q visited u ci frontier) ↔
      m ∈ Q.items frontier ∨ ∃ v ∈ P.succs u.vertex, P.key v ∉ visited ∧ m = P.child u ci v := by
  rw [expand]
  induction P.succs u.vertex generalizing frontier with
  | nil => simp
  | cons v vs ih =>
    rw [List.foldl_cons, ih]
    split_ifs with hv
    · simp [hv]
    · simp [Q.items_push, hv]
      tauto

theorem card_expand_le :
    (Q.items (P.expand Q visited u ci frontier)).card ≤
      (Q.items frontier).card + (P.succs u.vertex).length := by
  rw [expand]
  induction P.succs u.vertex generalizing frontier with
  | nil => simp
  | cons v vs ih =>
    rw [List.foldl_cons]
    refine ih.trans ?_
    split_ifs
    · simp
    · rw [Q.items_push, Multiset.card_cons, List.length_cons]
      omega

/-- What holds between two pops. The last field is the one that optimality rests on: an optimal
route that has left the closed nodes goes on through the queue, with the cost that it has there. -/
structure Inv (P : Problem V κ K) (s : State Q κ) : Prop where
  chained : P.Chained s.closed
  linked : ∀ n ∈ Q.items s.frontier, P.Linked s.closed s.closed.length n
  visited : ∀ k, k ∈ s.visited ↔ ∃ n ∈ s.closed, P.key n.vertex = k
  nodup : (s.closed.map (P.key ·.vertex)).Nodup
  searching : ∀ n ∈ s.closed, P.isGoal n.vertex = false
  start : P.key P.start ∈ s.visited ∨ P.startNode ∈ Q.items s.frontier
  /-- what is behind a closed node is visited, or it is in the queue and as cheap as that
  node makes it -/
  behind : ∀ u ∈ s.closed, ∀ v ∈ P.succs u.vertex, P.key v ∈ s.visited ∨
    ∃ m ∈ Q.items s.frontier, m.vertex = v ∧ m.g ≤ u.g + P.cost u.vertex v

omit [DecidableEq κ] in
theorem inv_start (P : Problem V κ K) (Q : MinQueue (Node V K) Node.f) :
    Inv P (⟨Q.push P.startNode Q.empty, ∅, []⟩ : State Q κ) where
  chained i n hn := by cases hn
  linked n hn := by
    rw [Q.items_push, Q.items_empty] at hn
    obtain rfl := Multiset.mem_singleton.mp hn
    exact ⟨rfl, .inl rfl⟩
  visited k := by simp
  nodup := .nil
  searching := nofun
  start := .inr (by simp [Q.items_push])
  behind := nofun

variable {s : State Q κ} {cur : Node V K}

omit [DecidableEq κ] in
/-- What is popped for a second time is skipped. It was of no use: the vertex is closed, and what
is behind it is in the queue through the closed node. -/
theorem Inv.skip (h : Inv P s) (hpop : Q.pop s.frontier = some (cur, frontier))
    (hcur : P.key cur.vertex ∈ s.visited) : Inv P { s with frontier := frontier } := by
  have hitems := Q.items_of_pop hpop
  refine { h with linked := ?_, start := ?_, behind := ?_ }
  · intro n hn
    exact h.linked n (hitems ▸ Multiset.mem_cons_of_mem hn)
  · rcases h.start with hvisited | hopen
    · exact .inl hvisited
    · rcases Multiset.mem_cons.mp (hitems ▸ hopen) with rfl | hopen
      · exact .inl hcur
      · exact .inr hopen
  · intro u hu v hv
    rcases h.behind u hu v hv with hvisited | ⟨m, hm, rfl, hle⟩
    · exact .inl hvisited
    · rcases Multiset.mem_cons.mp (hitems ▸ hm) with rfl | hm
      · exact .inl hcur
      · exact .inr ⟨m, hm, rfl, hle⟩

/-- What is popped for the first time is closed, and its successors are behind it. A successor
that is visited already is closed, so nothing is lost when it does not enter the queue. -/
theorem Inv.close (h : Inv P s) (hpop : Q.pop s.frontier = some (cur, frontier))
    (hcur : P.key cur.vertex ∉ s.visited) (hgoal : P.isGoal cur.vertex = false) :
    Inv P (⟨P.expand Q (insert (P.key cur.vertex) s.visited) cur s.closed.length frontier,
      insert (P.key cur.vertex) s.visited, s.closed ++ [cur]⟩ : State Q κ) := by
  have hitems := Q.items_of_pop hpop
  have hlinked : P.Linked s.closed s.closed.length cur :=
    h.linked cur (hitems ▸ Multiset.mem_cons_self _ _)
  refine ⟨h.chained.append hlinked, ?_, ?_, ?_, ?_, ?_, ?_⟩
  · intro n hn
    rw [List.length_append]
    rcases mem_expand.mp hn with hold | ⟨v, hv, -, rfl⟩
    · have hn := h.linked n (hitems ▸ Multiset.mem_cons_of_mem hold)
      exact (hn.append (Nat.le_refl _)).mono (Nat.le_add_right _ _)
    · refine ⟨rfl, .inr ⟨s.closed.length, Nat.lt_succ_self _, cur, ?_, hv, rfl⟩⟩
      exact List.getElem?_concat_length
  · intro k
    simp only [Finset.mem_insert, h.visited, List.mem_append, List.mem_singleton]
    constructor
    · rintro (rfl | ⟨n, hn, rfl⟩)
      · exact ⟨cur, .inr rfl, rfl⟩
      · exact ⟨n, .inl hn, rfl⟩
    · rintro ⟨n, hn | rfl, rfl⟩
      · exact .inr ⟨n, hn, rfl⟩
      · exact .inl rfl
  · rw [List.map_append, List.nodup_append]
    refine ⟨h.nodup, List.nodup_singleton _, ?_⟩
    rintro _ hn _ hk rfl
    obtain rfl := List.mem_singleton.mp hk
    obtain ⟨n, hn, hkey⟩ := List.mem_map.mp hn
    exact hcur ((h.visited _).mpr ⟨n, hn, hkey⟩)
  · intro n hn
    rcases List.mem_append.mp hn with hn | hn
    · exact h.searching n hn
    · obtain rfl := List.mem_singleton.mp hn
      exact hgoal
  · rcases h.start with hvisited | hopen
    · exact .inl (Finset.mem_insert_of_mem hvisited)
    · rcases Multiset.mem_cons.mp (hitems ▸ hopen) with rfl | hopen
      · exact .inl (Finset.mem_insert_self _ _)
      · exact .inr (mem_expand.mpr (.inl hopen))
  · intro u hu v hv
    rcases List.mem_append.mp hu with hu | hu
    · rcases h.behind u hu v hv with hvisited | ⟨m, hm, rfl, hle⟩
      · exact .inl (Finset.mem_insert_of_mem hvisited)
      · rcases Multiset.mem_cons.mp (hitems ▸ hm) with rfl | hm
        · exact .inl (Finset.mem_insert_self _ _)
        · exact .inr ⟨m, mem_expand.mpr (.inl hm), rfl, hle⟩
    · obtain rfl := List.mem_singleton.mp hu
      by_cases hvisited : P.key v ∈ insert (P.key u.vertex) s.visited
      · exact .inl hvisited
      · exact .inr ⟨_, mem_expand.mpr (.inr ⟨v, hv, hvisited, rfl⟩), rfl, le_rfl⟩

/-! ## Whole searches

`Kept` is the induction over the pops, for any property that each of them keeps. It is used for
the invariant, and for the invariant with the costs. -/

/-- A property that every pop keeps, unless it finds a goal. A pop either skips a node whose
vertex is closed already, or closes it and expands it. -/
structure Kept (P : Problem V κ K) (I : State Q κ → Prop) : Prop where
  skip : ∀ {s cur frontier}, I s → Q.pop s.frontier = some (cur, frontier) →
    P.key cur.vertex ∈ s.visited → I { s with frontier := frontier }
  close : ∀ {s cur frontier}, I s → Q.pop s.frontier = some (cur, frontier) →
    P.key cur.vertex ∉ s.visited → P.isGoal cur.vertex = false →
    I ⟨P.expand Q (insert (P.key cur.vertex) s.visited) cur s.closed.length frontier,
      insert (P.key cur.vertex) s.visited, s.closed ++ [cur]⟩

theorem kept_inv : Kept P (Q := Q) (Inv P) := ⟨Inv.skip, Inv.close⟩

variable {I : State Q κ → Prop} {fuel : Nat}

/-- A search that finds a goal pops it in a state with the property. This is the induction over
the whole search, made once. -/
theorem Kept.run_some (hI : Kept P I) (hs : I s) (hrun : P.run Q fuel s = some closed) :
    ∃ s' cur frontier, I s' ∧ Q.pop s'.frontier = some (cur, frontier) ∧
      P.key cur.vertex ∉ s'.visited ∧ P.isGoal cur.vertex = true ∧ closed = s'.closed ++ [cur] := by
  induction fuel generalizing s with
  | zero => cases hrun
  | succ fuel ih =>
    rw [run] at hrun
    split at hrun
    · cases hrun
    · next cur frontier hpop =>
      split_ifs at hrun with hcur hgoal
      · exact ih (hI.skip hs hpop hcur) hrun
      · exact ⟨s, cur, frontier, hs, hpop, hcur, hgoal, (Option.some.inj hrun).symm⟩
      · exact ih (hI.close hs hpop hcur (by simpa using hgoal)) hrun

/-- A search with enough pops, that finds no goal, empties its queue. No vertex has more than `b`
successors, and no more than `n` vertices can be closed. What is in the queue and what can still
be closed pay for the pops. -/
theorem Kept.run_none (hI : Kept P I) {b n : Nat} (hb : ∀ u, (P.succs u).length ≤ b)
    (hn : ∀ {s}, I s → s.closed.length ≤ n) (hs : I s)
    (hfuel : (Q.items s.frontier).card + b * n ≤ fuel + b * s.closed.length)
    (hrun : P.run Q fuel s = none) : ∃ s', I s' ∧ Q.items s'.frontier = 0 := by
  induction fuel generalizing s with
  | zero =>
    have hmul := Nat.mul_le_mul_left b (hn hs)
    exact ⟨s, hs, Multiset.card_eq_zero.mp (by omega)⟩
  | succ fuel ih =>
    rw [run] at hrun
    split at hrun
    · next hpop => exact ⟨s, hs, Q.items_of_pop_none hpop⟩
    · next cur frontier hpop =>
      rw [Q.items_of_pop hpop, Multiset.card_cons] at hfuel
      split_ifs at hrun with hcur hgoal
      · refine ih (hI.skip hs hpop hcur) ?_ hrun
        change (Q.items frontier).card + b * n ≤ fuel + b * s.closed.length
        omega
      · refine ih (hI.close hs hpop hcur (by simpa using hgoal)) ?_ hrun
        -- at most `b` nodes enter, and one more vertex is closed
        have hcard : (Q.items (P.expand Q (insert (P.key cur.vertex) s.visited) cur
            s.closed.length frontier)).card ≤ _ := card_expand_le
        have hdeg := hb cur.vertex
        rw [List.length_append, List.length_singleton, Nat.mul_succ]
        dsimp only
        omega

omit [DecidableEq κ] in
theorem Inv.reachable (h : Inv P s) {n : Node V K} (hn : n ∈ s.closed) : P.Reachable n.vertex := by
  obtain ⟨i, hi, rfl⟩ := List.mem_iff_getElem.mp hn
  obtain ⟨path, -, hroute⟩ := h.chained.route (List.getElem?_eq_getElem hi) (Nat.lt_succ_self i)
  exact ⟨path, _, hroute⟩

omit [DecidableEq κ] in
/-- A vertex that can be reached is visited when it is closed: no other vertex that can be
reached has its key. -/
theorem Inv.closed_of_visited (h : Inv P s) (hkey : P.KeyInj) {v : V} (hv : P.Reachable v)
    (hvisited : P.key v ∈ s.visited) : ∃ n ∈ s.closed, n.vertex = v := by
  obtain ⟨n, hn, heq⟩ := (h.visited _).mp hvisited
  exact ⟨n, hn, hkey (h.reachable hn) hv heq⟩

omit [DecidableEq κ] in
theorem Inv.length_closed_le [DecidableEq V] (h : Inv P s) {vs : Finset V}
    (hvs : ∀ v, P.Reachable v → v ∈ vs) : s.closed.length ≤ vs.card := by
  have hnodup : (s.closed.map (·.vertex)).Nodup := by
    refine List.Nodup.of_map P.key ?_
    rw [List.map_map]
    exact h.nodup
  rw [← List.length_map (·.vertex), ← List.toFinset_card_of_nodup hnodup]
  refine Finset.card_le_card fun v hv => ?_
  obtain ⟨n, hn, rfl⟩ := List.mem_map.mp (List.mem_toFinset.mp hv)
  exact hvs _ (h.reachable hn)

/-- **What is found is a route to a goal**, and the parents lead back along it. No assumption
about costs or estimates is needed for this half. -/
theorem search_some (hsearch : P.search Q fuel = some closed) :
    ∃ cur path, P.isGoal cur.vertex = true ∧ closed.getLast? = some cur ∧ P.Chained closed ∧
      reconstruct closed closed.length (some (closed.length - 1)) = some path ∧
      P.Route cur.vertex path cur.g := by
  obtain ⟨s, cur, frontier, hs, hpop, -, hgoal, rfl⟩ :=
    kept_inv.run_some (inv_start P Q) hsearch
  have hlinked : P.Linked s.closed s.closed.length cur :=
    hs.linked cur (Q.items_of_pop hpop ▸ Multiset.mem_cons_self _ _)
  obtain ⟨path, hpath, hroute⟩ := (hs.chained.append hlinked).route
    List.getElem?_concat_length (by simp : s.closed.length < (s.closed ++ [cur]).length)
  refine ⟨cur, path, hgoal, List.getLast?_concat, hs.chained.append hlinked, ?_, hroute⟩
  rw [← hpath, List.length_append, List.length_singleton, Nat.add_sub_cancel]

/-- **Nothing is overlooked**: a search with enough pops fails only if no goal can be reached.
Its queue is empty, so every vertex that can be reached is closed, and a goal that is popped ends
the search. -/
theorem search_none [DecidableEq V] (hkey : P.KeyInj) {b : Nat}
    (hb : ∀ u, (P.succs u).length ≤ b) {vs : Finset V} (hvs : ∀ v, P.Reachable v → v ∈ vs)
    (hfuel : b * vs.card + 1 ≤ fuel) (hsearch : P.search Q fuel = none) {v : V}
    (hv : P.Reachable v) : P.isGoal v = false := by
  obtain ⟨s, hs, hempty⟩ := kept_inv.run_none hb (fun h => h.length_closed_le hvs)
    (inv_start P Q) (by simp [Q.items_push, Q.items_empty]; omega) hsearch
  suffices hclosed : P.key v ∈ s.visited by
    obtain ⟨n, hn, rfl⟩ := hs.closed_of_visited hkey hv hclosed
    exact hs.searching n hn
  obtain ⟨path, c, hroute⟩ := hv
  induction hroute with
  | start => simpa [hempty] using hs.start
  | snoc hroute hsucc ih =>
    obtain ⟨n, hn, rfl⟩ := hs.closed_of_visited hkey ⟨_, _, hroute⟩ ih
    simpa [hempty] using hs.behind n hn _ hsucc

/-! ## The cheapest route

A closed vertex is never opened again, so it must be closed at its least cost. Under a consistent
estimate it is: on a cheaper route some node would still be in the queue, with a smaller rank. -/

/-- No route to a closed vertex is cheaper than the one it was closed with. -/
def Cheapest (P : Problem V κ K) (s : State Q κ) : Prop :=
  ∀ n ∈ s.closed, ∀ path c, P.Route n.vertex path c → n.g ≤ c

variable [IsOrderedAddMonoid K]

omit [DecidableEq κ] in
/-- On every route to a vertex that is not visited there is a node in the queue, with an estimate
that the route does not fall below. By induction on the route: its last vertex waits itself, or
one before it does, or the one before was closed and left a child. -/
theorem Inv.waiting (h : Inv P s) (hcheap : Cheapest P s) (hkey : P.KeyInj)
    (hcons : P.Consistent) {v : V} {path : List V} {c : K} (hroute : P.Route v path c)
    (hv : P.key v ∉ s.visited) :
    ∃ m ∈ Q.items s.frontier, m.f ≤ c + P.heuristic v := by
  induction hroute with
  | start =>
    rcases h.start with hvisited | hopen
    · exact absurd hvisited hv
    · exact ⟨_, hopen, le_rfl⟩
  | @snoc u v path c hroute hsucc ih =>
    by_cases hu : P.key u ∈ s.visited
    · -- the route leaves the closed vertices here
      obtain ⟨n, hn, rfl⟩ := h.closed_of_visited hkey ⟨_, _, hroute⟩ hu
      rcases h.behind n hn v hsucc with hvisited | ⟨m, hm, rfl, hle⟩
      · exact absurd hvisited hv
      · refine ⟨m, hm, ?_⟩
        rw [Node.f, (h.linked m hm).1]
        have hprefix : n.g + P.cost n.vertex m.vertex ≤ c + P.cost n.vertex m.vertex :=
          add_le_add_left (hcheap n hn path c hroute) _
        exact add_le_add_left (hle.trans hprefix) _
    · obtain ⟨m, hm, hle⟩ := ih hu
      refine ⟨m, hm, hle.trans ?_⟩
      rw [add_assoc]
      exact add_le_add_right (hcons u v hsucc) c

omit [DecidableEq κ] in
/-- No route to what is popped for the first time is cheaper. Such a route leaves the closed
nodes somewhere, through a node of the queue, whose `f` is no smaller than the one popped. -/
theorem Inv.le_of_route (h : Inv P s) (hcheap : Cheapest P s) (hkey : P.KeyInj)
    (hcons : P.Consistent) (hpop : Q.pop s.frontier = some (cur, frontier))
    (hcur : P.key cur.vertex ∉ s.visited) {path : List V} {c : K}
    (hroute : P.Route cur.vertex path c) : cur.g ≤ c := by
  obtain ⟨m, hm, hle⟩ := h.waiting hcheap hkey hcons hroute hcur
  have hitems := Q.items_of_pop hpop
  have hh : cur.h = P.heuristic cur.vertex :=
    (h.linked cur (hitems ▸ Multiset.mem_cons_self _ _)).1
  have hmin : cur.f ≤ m.f := by
    rcases Multiset.mem_cons.mp (hitems ▸ hm) with rfl | hm
    · exact le_rfl
    · exact Q.rank_le_of_pop hpop m hm
  rw [Node.f, hh] at hmin
  exact le_of_add_le_add_right (hmin.trans hle)

/-- Costs are least when they are closed, and closed nodes do not change, so they are least ever
after. -/
theorem kept_cheapest (hkey : P.KeyInj) (hcons : P.Consistent) :
    Kept P (Q := Q) fun s => Inv P s ∧ Cheapest P s where
  skip := fun ⟨h, hcheap⟩ hpop hcur => ⟨h.skip hpop hcur, hcheap⟩
  close := by
    rintro s cur frontier ⟨h, hcheap⟩ hpop hcur hgoal
    refine ⟨h.close hpop hcur hgoal, fun n hn path c hroute => ?_⟩
    rcases List.mem_append.mp hn with hn | hn
    · exact hcheap n hn path c hroute
    · obtain rfl := List.mem_singleton.mp hn
      exact h.le_of_route hcheap hkey hcons hpop hcur hroute

/-- **What is found is cheapest**, under a consistent estimate. The node popped has the smallest
`f` in the queue, and any other route to its vertex goes through a node of the queue whose `f` is
no larger than the cost of that route. -/
theorem search_optimal (hkey : P.KeyInj) (hcons : P.Consistent)
    (hsearch : P.search Q fuel = some closed) (hcur : closed.getLast? = some cur)
    {path : List V} {c : K} (hroute : P.Route cur.vertex path c) : cur.g ≤ c := by
  obtain ⟨s, n, frontier, ⟨hs, hcheap⟩, hpop, hn, -, rfl⟩ :=
    (kept_cheapest hkey hcons).run_some ⟨inv_start P Q, nofun⟩ hsearch
  obtain rfl : n = cur := by simpa using hcur
  exact hs.le_of_route hcheap hkey hcons hpop hn hroute

end Problem

end Search

end BestFirst
