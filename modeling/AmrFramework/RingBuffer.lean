import AmrFramework.BoundedFifo

/-!
# The log ring buffer

One producer and one consumer share an array and two cursors. Each call is a few
atomic accesses, and those of the two sides interleave in any order: a cursor
loaded may be out of date when it is used, and an element is written before it is
published and read before its slot is given back.

`CursorStep` is the same buffer with cursors that never wrap, and a queue in the
place of the array between them. The ring buffer takes its steps, and with them
those of a bounded queue.
-/

namespace AmrFramework.Observability

open Runs BoundedFifo

universe u

variable {α : Type u}

/-! ## The accesses

A call is a little program of loads, stores and copies, and where it is in it is part of the
state. What was loaded is part of it, too, since it may be out of date when it is used. -/

/-- Where a call of `try_push` is. Between two of its accesses to shared memory the other side
may do anything. -/
inductive Producer (α : Type u) : Type u
  | idle
  | called (item : α)
  /-- `head_` is loaded -/
  | loaded (item : α) (currentHead : Nat)
  /-- `tail_` was loaded, and there is room -/
  | room (item : α) (currentHead : Nat)
  /-- the slot is written -/
  | written (item : α) (currentHead : Nat)

/-- Where a call of `pop` is, by the same rule: one constructor between any two accesses, with
what has been loaded so far. -/
inductive Consumer (α : Type u) : Type u
  | idle
  | called
  /-- `tail_` is loaded -/
  | loaded (currentTail : Nat)
  /-- `head_` was loaded, and there is an element -/
  | ready (currentTail : Nat)
  /-- the slot is read -/
  | copied (item : α) (currentTail : Nat)

structure RingBuffer (α : Type u) : Type u where
  buffer : Nat → α
  head : Nat := 0
  tail : Nat := 0
  producer : Producer α := .idle
  consumer : Consumer α := .idle

/-- What an access shows: the slot it touches, or what the call returns. Loads of the cursors
show nothing. -/
inductive Event (α : Type u) : Type u
  | internal
  | wrote (slot : Nat)
  | pushed (item : α) (slot : Nat)
  | refused
  | read (slot : Nat)
  | popped (item : α)
  | nothing

/-- The next access of a `try_push` under way. With no call under way there is none. -/
def RingBuffer.produce (mask : Nat) (r : RingBuffer α) : Option (Event α × RingBuffer α) :=
  match r.producer with
  | .idle => none
  | .called item => some (.internal, { r with producer := .loaded item r.head })
  | .loaded item currentHead =>
    let nextHead := (currentHead + 1) &&& mask
    if nextHead = r.tail then some (.refused, { r with producer := .idle })
    else some (.internal, { r with producer := .room item currentHead })
  | .room item currentHead =>
    some (.wrote currentHead, { r with
      buffer := Function.update r.buffer currentHead item, producer := .written item currentHead })
  | .written item currentHead =>
    some (.pushed item currentHead, { r with
      head := (currentHead + 1) &&& mask, producer := .idle })

/-- The next access of a `pop` under way. With no call under way there is none. -/
def RingBuffer.consume (mask : Nat) (r : RingBuffer α) : Option (Event α × RingBuffer α) :=
  match r.consumer with
  | .idle => none
  | .called => some (.internal, { r with consumer := .loaded r.tail })
  | .loaded currentTail =>
    if currentTail = r.head then some (.nothing, { r with consumer := .idle })
    else some (.internal, { r with consumer := .ready currentTail })
  | .ready currentTail =>
    some (.read currentTail, { r with consumer := .copied (r.buffer currentTail) currentTail })
  | .copied item currentTail =>
    some (.popped item, { r with tail := (currentTail + 1) &&& mask, consumer := .idle })

/-- What happens next: a call, or an access of one of the two sides. -/
inductive Move (α : Type u) : Type u
  | tryPush (item : α)
  | pop
  | produce
  | consume

def RingBuffer.move (mask : Nat) (r : RingBuffer α) : Move α → Option (Event α × RingBuffer α)
  | .tryPush item =>
    match r.producer with
    | .idle => some (.internal, { r with producer := .called item })
    | _ => none
  | .pop =>
    match r.consumer with
    | .idle => some (.internal, { r with consumer := .called })
    | _ => none
  | .produce => r.produce mask
  | .consume => r.consume mask

/-- The steps of the ring buffer, in any interleaving: a side may be interrupted between any two
of its accesses, and the other may run as far as it likes. -/
def RingStep (mask : Nat) (r : RingBuffer α) (e : Event α) (r' : RingBuffer α) : Prop :=
  ∃ m, r.move mask m = some (e, r')

/-! ## Cursors that never wrap

With cursors that only grow there is no arithmetic to argue about, and a queue says which
elements are in between. A step shows the slot that it touches, so that the two buffers can be
compared. -/

/-- The elements published and not given back, the first of them the `first`-th
pushed; it may have been copied already. -/
structure Cursor (α : Type u) : Type u where
  first : Nat := 0
  held : List α := []
  copied : Bool := false

/-- The slot behind the elements held, where the next element goes. One slot stays free, so there
always is one. -/
def Cursor.free (c : Nat) (m : Cursor α) : Nat := (m.first + m.held.length) % c

/-- The steps of a buffer of `c` slots, of which one stays free. The cursors are counters that
never wrap, so that it is plain which elements a slot has held. -/
inductive CursorStep (c : Nat) (m : Cursor α) : Event α → Cursor α → Prop
  | internal : CursorStep c m .internal m
  | wrote : m.held.length + 1 < c → CursorStep c m (.wrote (m.free c)) m
  | pushed (item : α) : m.held.length + 1 < c →
      CursorStep c m (.pushed item (m.free c)) { m with held := m.held ++ [item] }
  | refused : m.held.length + 1 = c → CursorStep c m .refused m
  | read : m.held ≠ [] → CursorStep c m (.read (m.first % c)) { m with copied := true }
  | popped (item : α) (held : List α) : m.held = item :: held → m.copied = true →
      CursorStep c m (.popped item) { first := m.first + 1, held := held, copied := false }
  | nothing : m.held = [] → CursorStep c m .nothing m

/-! ## The ring buffer takes those steps

The simulation relation says what each side has seen and that it is still so. An access of one
side leaves what the other has seen true, because each cursor is moved by one side only. -/

/-- What the producer has seen is still so: only it moves the head, and the other
side only makes room. -/
def Producer.Sees (c : Nat) (buffer : Nat → α) (head n : Nat) : Producer α → Prop
  | .idle | .called _ => True
  | .loaded _ currentHead => currentHead = head
  | .room _ currentHead => currentHead = head ∧ n + 1 < c
  | .written item currentHead => currentHead = head ∧ n + 1 < c ∧ buffer currentHead = item

/-- What the consumer has seen is still so: only it moves the tail, and the other
side only adds behind. -/
def Consumer.Sees (tail : Nat) (held : List α) : Consumer α → Prop
  | .idle | .called => True
  | .loaded currentTail => currentTail = tail
  | .ready currentTail => currentTail = tail ∧ held ≠ []
  | .copied item currentTail => currentTail = tail ∧ held.head? = some item

def Consumer.isCopied : Consumer α → Bool
  | .copied _ _ => true
  | _ => false

/-- The ring buffer and the cursors that never wrap: the indices are the cursors modulo the
number of slots, and what each side has loaded is no newer than what it may rely on. -/
structure Sim (c : Nat) (r : RingBuffer α) (m : Cursor α) : Prop where
  cyclic : Cyclic c r.buffer m.first m.held
  head_eq : r.head = m.free c
  tail_eq : r.tail = m.first % c
  producer : r.producer.Sees c r.buffer r.head m.held.length
  consumer : r.consumer.Sees r.tail m.held
  copied : m.copied = r.consumer.isCopied

variable {c k : Nat} {r r' : RingBuffer α} {m : Cursor α} {e : Event α}

theorem Producer.Sees.mono {buffer : Nat → α} {head n n' : Nat} {p : Producer α} (hle : n' ≤ n)
    (h : p.Sees c buffer head n) : p.Sees c buffer head n' := by
  cases p with
  | idle => trivial
  | called item => trivial
  | loaded item currentHead => exact h
  | room item currentHead => exact ⟨h.1, by have := h.2; omega⟩
  | written item currentHead => exact ⟨h.1, by have := h.2.1; omega, h.2.2⟩

theorem Consumer.Sees.append {tail : Nat} {held : List α} {p : Consumer α} (item : α)
    (h : p.Sees tail held) : p.Sees tail (held ++ [item]) := by
  cases p with
  | idle => trivial
  | called => trivial
  | loaded currentTail => exact h
  | ready currentTail => exact ⟨h.1, List.append_ne_nil_of_left_ne_nil h.2 _⟩
  | copied front currentTail =>
    obtain ⟨rest, rfl⟩ := List.head?_eq_some_iff.mp h.2
    exact ⟨h.1, rfl⟩

/-- The mask wraps a cursor round. -/
theorem next_eq (currentHead k : Nat) :
    (currentHead + 1) &&& (2 ^ k - 1) = (currentHead + 1) % 2 ^ k :=
  Nat.and_two_pow_sub_one_eq_mod ..

theorem Cursor.next_free (c : Nat) (m : Cursor α) :
    (m.free c + 1) % c = (m.first + m.held.length + 1) % c :=
  Nat.mod_add_mod ..

/-- The producer finds the tail right behind the head when one slot is left. -/
theorem Sim.full_iff (h : Sim (2 ^ k) r m) :
    (r.head + 1) &&& (2 ^ k - 1) = r.tail ↔ m.held.length + 1 = 2 ^ k := by
  rw [next_eq, h.head_eq, h.tail_eq, Cursor.next_free]
  exact h.cyclic.full_iff

/-- The consumer finds the head at the tail when nothing is held. -/
theorem Sim.empty_iff (h : Sim c r m) : r.tail = r.head ↔ m.held = [] := by
  rw [h.head_eq, h.tail_eq]
  exact h.cyclic.empty_iff

/-- The slot at the tail has the first of the elements held. -/
theorem Sim.front (h : Sim c r m) {item : α} {held : List α} (hheld : m.held = item :: held) :
    r.buffer r.tail = item := by
  have hcyclic := h.cyclic
  rw [hheld] at hcyclic
  rw [h.tail_eq]
  exact hcyclic.head

/-- An access of the producer. Where the source tests for room, the tail that it loads may be
old: the consumer can only have made more room since. -/
theorem Sim.produce (h : Sim (2 ^ k) r m) (hmove : r.produce (2 ^ k - 1) = some (e, r')) :
    ∃ m', CursorStep (2 ^ k) m e m' ∧ Sim (2 ^ k) r' m' := by
  have hsees := h.producer
  rw [RingBuffer.produce] at hmove
  cases hproducer : r.producer with
  | idle =>
    rw [hproducer] at hmove
    cases hmove
  | called item =>
    rw [hproducer] at hmove
    cases hmove
    exact ⟨m, .internal, h.cyclic, h.head_eq, h.tail_eq, rfl, h.consumer, h.copied⟩
  | loaded item currentHead =>
    rw [hproducer] at hmove hsees
    obtain rfl : currentHead = r.head := hsees
    dsimp only at hmove
    split at hmove
    · next hmeet =>
      cases hmove
      exact ⟨m, .refused (h.full_iff.mp hmeet), h.cyclic, h.head_eq, h.tail_eq, trivial, h.consumer,
        h.copied⟩
    · next hmeet =>
      cases hmove
      have hroom : m.held.length + 1 < 2 ^ k :=
        Nat.lt_of_le_of_ne h.cyclic.length_lt fun heq => hmeet (h.full_iff.mpr heq)
      exact ⟨m, .internal, h.cyclic, h.head_eq, h.tail_eq, ⟨rfl, hroom⟩, h.consumer, h.copied⟩
  | room item currentHead =>
    rw [hproducer] at hmove hsees
    obtain ⟨rfl, hroom⟩ := hsees
    cases hmove
    have hwrote : CursorStep (2 ^ k) m (.wrote r.head) m := h.head_eq ▸ .wrote hroom
    have hcyclic : Cyclic (2 ^ k) (Function.update r.buffer r.head item) m.first m.held :=
      h.head_eq ▸ h.cyclic.write item
    exact ⟨m, hwrote, hcyclic, h.head_eq, h.tail_eq, ⟨rfl, hroom, Function.update_self ..⟩,
      h.consumer, h.copied⟩
  | written item currentHead =>
    rw [hproducer] at hmove hsees
    obtain ⟨rfl, hroom, hslot⟩ := hsees
    cases hmove
    have hpushed : CursorStep (2 ^ k) m (.pushed item r.head) { m with held := m.held ++ [item] } :=
      h.head_eq ▸ .pushed item hroom
    have hcyclic := h.cyclic.push hroom (h.head_eq ▸ hslot)
    refine ⟨_, hpushed, hcyclic, ?_, h.tail_eq, trivial, h.consumer.append item, h.copied⟩
    rw [next_eq, h.head_eq, Cursor.next_free, Cursor.free, List.length_append]
    rfl

/-- An access of the consumer. Where it tests for an element, the producer can only have added
some. -/
theorem Sim.consume (h : Sim (2 ^ k) r m) (hmove : r.consume (2 ^ k - 1) = some (e, r')) :
    ∃ m', CursorStep (2 ^ k) m e m' ∧ Sim (2 ^ k) r' m' := by
  have hsees := h.consumer
  have hcopied := h.copied
  rw [RingBuffer.consume] at hmove
  cases hconsumer : r.consumer with
  | idle =>
    rw [hconsumer] at hmove
    cases hmove
  | called =>
    rw [hconsumer] at hmove hcopied
    cases hmove
    exact ⟨m, .internal, h.cyclic, h.head_eq, h.tail_eq, h.producer, rfl, hcopied⟩
  | loaded currentTail =>
    rw [hconsumer] at hmove hsees hcopied
    obtain rfl : currentTail = r.tail := hsees
    dsimp only at hmove
    split at hmove
    · next hmeet =>
      cases hmove
      exact ⟨m, .nothing (h.empty_iff.mp hmeet), h.cyclic, h.head_eq, h.tail_eq, h.producer, trivial,
        hcopied⟩
    · next hmeet =>
      cases hmove
      exact ⟨m, .internal, h.cyclic, h.head_eq, h.tail_eq, h.producer,
        ⟨rfl, fun heq => hmeet (h.empty_iff.mpr heq)⟩, hcopied⟩
  | ready currentTail =>
    rw [hconsumer] at hmove hsees
    obtain ⟨rfl, hne⟩ := hsees
    cases hmove
    obtain ⟨front, held, hheld⟩ := List.exists_cons_of_ne_nil hne
    have hfront : r.buffer r.tail = front := h.front hheld
    have hread : CursorStep (2 ^ k) m (.read r.tail) { m with copied := true } :=
      h.tail_eq ▸ .read hne
    refine ⟨_, hread, h.cyclic, h.head_eq, h.tail_eq, h.producer, ⟨rfl, ?_⟩, rfl⟩
    rw [hfront, hheld]
    rfl
  | copied item currentTail =>
    rw [hconsumer] at hmove hsees hcopied
    obtain ⟨rfl, hfront⟩ := hsees
    cases hmove
    obtain ⟨held, hheld⟩ := List.head?_eq_some_iff.mp hfront
    have hcyclic := h.cyclic
    rw [hheld] at hcyclic
    refine ⟨_, .popped item held hheld hcopied, hcyclic.pop, ?_, ?_, ?_, trivial, rfl⟩
    · rw [h.head_eq, Cursor.free, Cursor.free, hheld, List.length_cons]
      dsimp only
      rw [Nat.add_right_comm, Nat.add_assoc]
    · rw [next_eq, h.tail_eq, Nat.mod_add_mod]
    · apply h.producer.mono
      rw [hheld]
      exact Nat.le_succ _

/-- **One access.** The ring buffer takes the steps of the cursors. Calls begin without touching
anything; the rest are the accesses of the two sides. -/
theorem Sim.step (h : Sim (2 ^ k) r m) (hstep : RingStep (2 ^ k - 1) r e r') :
    ∃ m', CursorStep (2 ^ k) m e m' ∧ Sim (2 ^ k) r' m' := by
  obtain ⟨move, hmove⟩ := hstep
  cases move with
  | tryPush item =>
    rw [RingBuffer.move] at hmove
    split at hmove
    · cases hmove
      exact ⟨m, .internal, h.cyclic, h.head_eq, h.tail_eq, trivial, h.consumer, h.copied⟩
    · cases hmove
  | pop =>
    have hcopied := h.copied
    rw [RingBuffer.move] at hmove
    split at hmove
    · next hidle =>
      rw [hidle] at hcopied
      cases hmove
      exact ⟨m, .internal, h.cyclic, h.head_eq, h.tail_eq, h.producer, trivial, hcopied⟩
    · cases hmove
  | produce => exact h.produce hmove
  | consume => exact h.consume hmove

theorem sim_init (k : Nat) (buffer : Nat → α) : Sim (2 ^ k) { buffer := buffer } {} :=
  ⟨⟨Nat.two_pow_pos k, nofun⟩, (Nat.zero_mod _).symm, (Nat.zero_mod _).symm, trivial, trivial, rfl⟩

/-- In any interleaving the ring buffer takes the steps of the cursors. -/
theorem run_cursor {buffer : Nat → α} {h : List (Event α)}
    (hr : Run (RingStep (2 ^ k - 1)) { buffer := buffer } h r) :
    ∃ m, Run (CursorStep (2 ^ k)) {} h m ∧ Sim (2 ^ k) r m := by
  have hstep : ∀ (r : RingBuffer α) e r' m, Sim (2 ^ k) r m → RingStep (2 ^ k - 1) r e r' →
      (some e = none ∧ Sim (2 ^ k) r' m) ∨
        ∃ a m', some e = some a ∧ CursorStep (2 ^ k) m a m' ∧ Sim (2 ^ k) r' m' := by
    intro r e r' m hsim hstep
    obtain ⟨m', hm', hsim'⟩ := hsim.step hstep
    exact .inr ⟨e, m', rfl, hm', hsim'⟩
  have hsim := hr.simulates some (Sim (2 ^ k)) (sim_init k buffer) hstep
  rw [List.filterMap_some] at hsim
  exact hsim

/-! ## A bounded queue

Only the access that publishes an element, or gives its slot back, or finds none, is to be seen.
The others are steps that show nothing. -/

/-- What a call returns; the other accesses are its own business. -/
def Event.shows : Event α → Option (Act α)
  | .internal | .wrote _ | .read _ => none
  | .pushed item _ => some (.push item)
  | .refused => some .refuse
  | .popped item => some (.pop item)
  | .nothing => some .nothing

/-- The elements held are a queue that one slot less bounds. -/
theorem CursorStep.fifo {m m' : Cursor α} (hs : CursorStep c m e m') :
    (e.shows = none ∧ m'.held = m.held) ∨
      ∃ a q, e.shows = some a ∧ Step (c - 1) m.held a q ∧ m'.held = q := by
  cases hs with
  | internal => exact .inl ⟨rfl, rfl⟩
  | wrote hroom => exact .inl ⟨rfl, rfl⟩
  | pushed item hroom => exact .inr ⟨_, _, rfl, .push item (by omega), rfl⟩
  | refused hfull => exact .inr ⟨_, _, rfl, .refuse (by omega), rfl⟩
  | read hne => exact .inl ⟨rfl, rfl⟩
  | popped item held hheld hcopied => exact .inr ⟨_, _, rfl, hheld ▸ .pop item, rfl⟩
  | nothing hempty =>
    have hstep : Step (c - 1) m.held .nothing [] := by
      rw [hempty]
      exact .nothing
    exact .inr ⟨_, [], rfl, hstep, hempty⟩

theorem run_fifo {h : List (Event α)} {m : Cursor α} (hr : Run (CursorStep c) {} h m) :
    Run (Step (c - 1)) [] (h.filterMap Event.shows) m.held := by
  have hstep : ∀ (m : Cursor α) e m' q, m.held = q → CursorStep c m e m' →
      (e.shows = none ∧ m'.held = q) ∨
        ∃ a q', e.shows = some a ∧ Step (c - 1) q a q' ∧ m'.held = q' := by
    rintro m e m' _ rfl hs
    exact hs.fifo
  obtain ⟨q, hq, hheld⟩ := hr.simulates Event.shows (fun m q => m.held = q) rfl hstep
  exact hheld ▸ hq

/-! ## Slots

A slot must not be written while its element has still to be read. This is about single accesses,
and the queue does not show it. -/

/-- The slot was published, and it has not been read since. -/
def Unread (slot : Nat) (h : List (Event α)) : Prop :=
  Since (fun e => e ≠ .read slot) (fun e => ∃ item, e = .pushed item slot) h

/-- The slots published and not read are among those held, and the one whose
element was copied is not one of them. -/
structure Published (c : Nat) (h : List (Event α)) (m : Cursor α) : Prop where
  held : ∀ slot, Unread slot h → ∃ j < m.held.length, slot = (m.first + j) % c
  length_lt : m.held.length < c
  copied : m.copied = true → m.held ≠ [] ∧ ¬ Unread (m.first % c) h

/-- An event that publishes another slot leaves this one unread, or reads it. -/
theorem Unread.of_cons {slot : Nat} {h : List (Event α)}
    (hpushed : ∀ item, e ≠ .pushed item slot) (hu : Unread slot (e :: h)) :
    e ≠ .read slot ∧ Unread slot h := by
  obtain ⟨item, hitem⟩ | hsince := hu
  · exact absurd hitem (hpushed item)
  · exact hsince

theorem Published.silent {h : List (Event α)} (hp : Published c h m)
    (hpushed : ∀ item slot, e ≠ .pushed item slot) : Published c (e :: h) m := by
  refine ⟨fun slot hu => ?_, hp.length_lt, fun hcopied => ⟨(hp.copied hcopied).1, fun hu => ?_⟩⟩
  · exact hp.held slot (hu.of_cons fun item => hpushed item slot).2
  · exact (hp.copied hcopied).2 (hu.of_cons fun item => hpushed item _).2

theorem Published.publish {h : List (Event α)} (hp : Published c h m) (item : α)
    (hroom : m.held.length + 1 < c) :
    Published c (.pushed item (m.free c) :: h) { m with held := m.held ++ [item] } := by
  have hlength : (m.held ++ [item]).length = m.held.length + 1 := List.length_append
  refine ⟨?_, hlength ▸ hroom, ?_⟩
  · rintro slot (⟨_, heq⟩ | ⟨-, hu⟩)
    · injection heq with _ hslot
      exact ⟨m.held.length, hlength ▸ Nat.lt_succ_self _, hslot.symm⟩
    · obtain ⟨j, hj, hslot⟩ := hp.held slot hu
      exact ⟨j, hlength ▸ Nat.lt_succ_of_lt hj, hslot⟩
  · intro hcopied
    obtain ⟨hne, hread⟩ := hp.copied hcopied
    refine ⟨List.append_ne_nil_of_left_ne_nil hne _, ?_⟩
    -- the slot published is not the one copied, as that is held
    rintro (⟨_, heq⟩ | ⟨-, hu⟩)
    · injection heq with _ hslot
      have hpos : 0 < c := Nat.zero_lt_of_lt hp.length_lt
      have hzero := slot_inj m.first (j := 0) hp.length_lt hpos hslot
      exact hne (List.length_eq_zero_iff.mp hzero)
    · exact hread hu

theorem Published.giveBack {h : List (Event α)} {item : α} {held : List α}
    (hp : Published c h m) (hheld : m.held = item :: held) (hcopied : m.copied = true) :
    Published c (.popped item :: h) { first := m.first + 1, held := held, copied := false } := by
  have hlength := hp.length_lt
  rw [hheld] at hlength
  refine ⟨fun slot hu => ?_, Nat.lt_of_succ_lt hlength, nofun⟩
  have hold : Unread slot h := (hu.of_cons nofun).2
  obtain ⟨j, hj, hslot⟩ := hp.held slot hold
  cases j with
  | zero => exact absurd (hslot ▸ hold) (hp.copied hcopied).2
  | succ j =>
    rw [hheld] at hj
    refine ⟨j, Nat.lt_of_succ_lt_succ hj, ?_⟩
    rw [hslot, Nat.add_right_comm, Nat.add_assoc]

/-- One step keeps that. A slot that is written is the free one behind the elements held, and
those are all that can be unread. -/
theorem Published.step {h : List (Event α)} {m m' : Cursor α} (hp : Published c h m)
    (hs : CursorStep c m e m') : Published c (e :: h) m' := by
  cases hs with
  | internal => exact hp.silent nofun
  | wrote hroom => exact hp.silent nofun
  | pushed item hroom => exact hp.publish item hroom
  | refused hfull => exact hp.silent nofun
  | read hne =>
    have hsilent : Published c (.read (m.first % c) :: h) m := hp.silent nofun
    refine ⟨hsilent.held, hsilent.length_lt, fun _ => ⟨hne, fun hu => ?_⟩⟩
    exact (hu.of_cons nofun).1 rfl
  | popped item held hheld hcopied => exact hp.giveBack hheld hcopied
  | nothing hempty => exact hp.silent nofun

theorem run_published (hc : 0 < c) {h : List (Event α)} (hr : Run (CursorStep c) {} h m) :
    Published c h m :=
  hr.invariant ⟨fun _ hu => hu.elim, hc, nofun⟩ fun _ _ _ _ hp hs => hp.step hs

/-- A slot is written when it is not one of those held. -/
theorem CursorStep.wrote_read {h : List (Event α)} {m' : Cursor α} {slot : Nat}
    (hp : Published c h m) (hs : CursorStep c m (.wrote slot) m') : ¬ Unread slot h := by
  intro hu
  cases hs with
  | wrote hroom =>
    obtain ⟨j, hj, hslot⟩ := hp.held _ hu
    have hsame := slot_inj m.first hp.length_lt (Nat.lt_trans hj hp.length_lt) hslot
    exact absurd hsame (Nat.ne_of_gt hj)

/-- In no run a slot is written between being published and being read. -/
theorem run_wrote (hc : 0 < c) {h : List (Event α)} (hr : Run (CursorStep c) {} h m) :
    Always (fun e older => ∀ slot, e = .wrote slot → ¬ Unread slot older) h := by
  induction hr with
  | start => trivial
  | snoc hr hs ih =>
    refine ⟨?_, ih⟩
    rintro slot rfl
    exact hs.wrote_read (run_published hc hr)

/-! ## The ring buffer is one

The two simulations are put together: the accesses of both threads are matched by the cursors,
and what the calls return is matched by the queue. Linearization points are the stores of the two
indices. -/

/-- **Refinement.** For any elements, any power of two of slots and any interleaving
of the accesses: what the calls return is what a queue bounded by one slot less
returns; so the elements popped are the first of those pushed, in their order, and
no more than the bound are held. No slot is written between being published and
being read. A push is refused when the queue is full, and a pop returns nothing
when it is empty. -/
theorem ring_refines_fifo (k : Nat) (buffer : Nat → α) {h : List (Event α)} {r : RingBuffer α}
    (hr : Run (RingStep (2 ^ k - 1)) { buffer := buffer } h r) :
    (∃ q, Run (Step (2 ^ k - 1)) [] (h.filterMap Event.shows) q) ∧
    popped (h.filterMap Event.shows) <+: pushed (h.filterMap Event.shows) ∧
    (pushed (h.filterMap Event.shows)).length ≤
      (popped (h.filterMap Event.shows)).length + (2 ^ k - 1) ∧
    Always (fun e older => ∀ slot, e = .wrote slot → ¬ Unread slot older) h ∧
    ∀ e r', RingStep (2 ^ k - 1) r e r' →
      (e = .refused → (pushed (h.filterMap Event.shows)).length =
        (popped (h.filterMap Event.shows)).length + (2 ^ k - 1)) ∧
      (e = .nothing → pushed (h.filterMap Event.shows) = popped (h.filterMap Event.shows)) := by
  obtain ⟨m, hm, hsim⟩ := run_cursor hr
  have hfifo := run_fifo hm
  obtain ⟨hpushed, hbound⟩ := run_pushed hfifo
  have hlength := congrArg List.length hpushed
  rw [List.length_append] at hlength
  refine ⟨⟨m.held, hfifo⟩, hpushed ▸ List.prefix_append _ _, by omega,
    run_wrote (Nat.two_pow_pos k) hm, fun e r' hstep => ⟨?_, ?_⟩⟩
  · rintro rfl
    obtain ⟨m', hm', -⟩ := hsim.step hstep
    cases hm' with
    | refused hfull => omega
  · rintro rfl
    obtain ⟨m', hm', -⟩ := hsim.step hstep
    cases hm' with
    | nothing hempty =>
      rw [hempty, List.append_nil] at hpushed
      exact hpushed

/-- Two slots: an element is pushed and popped while the next one is refused. -/
theorem ring_refines_fifo_two :
    popped ([.popped 7, .read 0, .refused, .internal, .internal, .internal, .internal, .internal,
        .pushed 7 0, .wrote 0, .internal, .internal, .internal].filterMap
        (Event.shows (α := Nat))) <+:
      pushed ([.popped 7, .read 0, .refused, .internal, .internal, .internal, .internal, .internal,
        .pushed 7 0, .wrote 0, .internal, .internal, .internal].filterMap Event.shows) :=
  have hpush : Run (RingStep (2 ^ 1 - 1)) { buffer := fun _ => 0 }
      [.pushed 7 0, .wrote 0, .internal, .internal, .internal] _ :=
    ((((Run.start.snoc ⟨.tryPush 7, rfl⟩).snoc ⟨.produce, rfl⟩).snoc ⟨.produce, rfl⟩).snoc
      ⟨.produce, rfl⟩).snoc ⟨.produce, rfl⟩
  have hboth := ((((hpush.snoc ⟨.pop, rfl⟩).snoc ⟨.consume, rfl⟩).snoc ⟨.consume, rfl⟩).snoc
    ⟨.tryPush 8, rfl⟩).snoc ⟨.produce, rfl⟩
  (ring_refines_fifo 1 (fun _ => 0) (((hboth.snoc ⟨.produce, rfl⟩).snoc ⟨.consume, rfl⟩).snoc
    ⟨.consume, rfl⟩)).2.1

end AmrFramework.Observability
