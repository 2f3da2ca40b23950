import Mathlib.Order.Basic
import Mathlib.Data.List.Basic
import Mathlib.Logic.Relation

/-!
# Runs of a labelled step relation, and past-time formulas over histories

Two small theories that every component below is stated with:

* `Run step s₀ h s` — the finite **runs** of a labelled step relation. The
  history `h` lists the labels newest first, so what "has happened so far" is
  literally the tail of the list. `only ok step` is the relation whose steps
  all meet a condition on the state they are taken in.
* `Since P Q l` / `Always φ l` — **past-time** formulas over a newest-first
  list: "some entry satisfies `Q`, and every newer one satisfies `P`", and
  "every entry satisfies `φ` of the entries older than itself".

Nothing here knows which system takes the steps.
-/

namespace Runs

universe u v

/-! ## Runs

Runs go one step after the other, and the histories are there for conditions that speak of the
past. -/

section Run

variable {σ : Type u} {ε : Type v} {step : σ → ε → σ → Prop} {s₀ : σ}

/-- The runs of `step` from `s₀`: the labels taken, newest first, and the
state they lead to. -/
inductive Run (step : σ → ε → σ → Prop) (s₀ : σ) : List ε → σ → Prop
  /-- nothing has happened yet -/
  | start : Run step s₀ [] s₀
  /-- one more step -/
  | snoc {h : List ε} {s : σ} {e : ε} {t : σ} :
      Run step s₀ h s → step s e t → Run step s₀ (e :: h) t

/-- **Invariant rule**: what holds at the start and survives every step holds at the end of every
run. The predicate may speak of the history. Every safety theorem below is an instance. -/
theorem Run.invariant {I : List ε → σ → Prop} (h₀ : I [] s₀)
    (hstep : ∀ h s e s', I h s → step s e s' → I (e :: h) s') {h : List ε} {s : σ}
    (hr : Run step s₀ h s) : I h s := by
  induction hr with
  | start => exact h₀
  | snoc _ hs ih => exact hstep _ _ _ _ ih hs

/-- A run goes on from where it got to. -/
theorem Run.trans {h h' : List ε} {s s' : σ} (hr : Run step s₀ h s) (hr' : Run step s h' s') :
    Run step s₀ (h' ++ h) s' := by
  induction hr' with
  | start => exact hr
  | snoc _ hs ih => exact ih.snoc hs

/-- **Simulation rule**: every step that shows something is a step of the simulating
relation on what it shows, and every other step leaves the simulating state. -/
theorem Run.simulates {τ : Type u} {α : Type v} {spec : τ → α → τ → Prop} {h : List ε} {s : σ}
    (hr : Run step s₀ h s) (shows : ε → Option α) (R : σ → τ → Prop) {t₀ : τ} (h₀ : R s₀ t₀)
    (hstep : ∀ s e s' t, R s t → step s e s' →
      (shows e = none ∧ R s' t) ∨ ∃ a t', shows e = some a ∧ spec t a t' ∧ R s' t') :
    ∃ t, Run spec t₀ (h.filterMap shows) t ∧ R s t := by
  induction hr with
  | start => exact ⟨t₀, .start, h₀⟩
  | snoc _ hs ih =>
    obtain ⟨t, ht, hR⟩ := ih
    obtain ⟨hnone, hR'⟩ | ⟨a, t', hsome, hspec, hR'⟩ := hstep _ _ _ t hR hs
    · rw [List.filterMap_cons_none hnone]
      exact ⟨t, ht, hR'⟩
    · rw [List.filterMap_cons_some hsome]
      exact ⟨t', ht.snoc hspec, hR'⟩

/-- The steps of `step` taken in a state that meets `ok`. -/
def only (ok : σ → ε → Prop) (step : σ → ε → σ → Prop) : σ → ε → σ → Prop :=
  fun s e s' => ok s e ∧ step s e s'

/-- The steps of `step` that lead to a state with the property `P`. -/
def within (P : σ → Prop) (step : σ → ε → σ → Prop) : σ → ε → σ → Prop :=
  fun s e s' => step s e s' ∧ P s'

/-- **Exact conditions.** A condition on the steps that a property of the states
survives exactly when it is met: the property holds all along a run exactly when
every step of the run meets the condition. -/
theorem Run.within_iff_only {P : σ → Prop} {ok : σ → ε → Prop} (h₀ : P s₀)
    (hiff : ∀ s e s', P s → step s e s' → (P s' ↔ ok s e)) {h : List ε} {s : σ} :
    Run (within P step) s₀ h s ↔ Run (only ok step) s₀ h s := by
  constructor
  · intro hr
    have hinv := hr.invariant (I := fun h s => Run (only ok step) s₀ h s ∧ P s) ⟨.start, h₀⟩
      fun _ _ _ _ ⟨hok, hP⟩ ⟨hs, hP'⟩ => ⟨hok.snoc ⟨(hiff _ _ _ hP hs).mp hP', hs⟩, hP'⟩
    exact hinv.1
  · intro hr
    have hinv := hr.invariant (I := fun h s => Run (within P step) s₀ h s ∧ P s) ⟨.start, h₀⟩
      fun _ _ _ _ ⟨hin, hP⟩ ⟨hok, hs⟩ =>
        have hP' := (hiff _ _ _ hP hs).mpr hok
        ⟨hin.snoc ⟨hs, hP'⟩, hP'⟩
    exact hinv.1

/-- A fold of partial functions that are sequences of `R`-steps is one, too. -/
theorem foldlM_steps {R : σ → σ → Prop} {f : σ → ε → Option σ} {l : List ε}
    (h : ∀ a ∈ l, ∀ s, ∃ s', f s a = some s' ∧ Relation.ReflTransGen R s s') (s : σ) :
    ∃ s', l.foldlM f s = some s' ∧ Relation.ReflTransGen R s s' := by
  induction l generalizing s with
  | nil => exact ⟨s, rfl, .refl⟩
  | cons a l ih =>
    obtain ⟨t, ht, hst⟩ := h a (List.mem_cons_self ..) s
    obtain ⟨u, hu, htu⟩ := ih (fun b hb => h b (List.mem_cons_of_mem _ hb)) t
    exact ⟨u, by rw [List.foldlM_cons, ht]; exact hu, hst.trans htu⟩

/-- What every `R`-step keeps, sequences of them keep. -/
theorem steps_invariant {R : σ → σ → Prop} {I : σ → Prop} (hI : ∀ s s', I s → R s s' → I s')
    {s s' : σ} (h : Relation.ReflTransGen R s s') (hs : I s) : I s' := by
  induction h with
  | refl => exact hs
  | tail _ hstep ih => exact hI _ _ ih hstep

/-- Execute a partial step function over labels listed oldest first. -/
def exec (f : σ → ε → Option σ) : σ → List ε → Option σ
  | s, [] => some s
  | s, e :: es => (f s e).bind fun s' => exec f s' es

/-- A successful execution is a run, when the function takes steps only. -/
theorem Run.of_exec {f : σ → ε → Option σ} (hf : ∀ s e s', f s e = some s' → step s e s')
    {es h : List ε} {s s' : σ} (hr : Run step s₀ h s) (he : exec f s es = some s') :
    Run step s₀ (es.reverse ++ h) s' := by
  induction es generalizing h s with
  | nil =>
    obtain rfl := Option.some.inj he
    exact hr
  | cons e es ih =>
    obtain ⟨t, ht, he⟩ := Option.bind_eq_some_iff.mp he
    rw [List.reverse_cons, List.append_assoc]
    exact ih (hr.snoc (hf s e t ht)) he

/-- Execute only the steps that meet a condition. -/
def restrict (ok : σ → ε → Prop) [∀ s e, Decidable (ok s e)] (f : σ → ε → Option σ) (s : σ)
    (e : ε) : Option σ :=
  if ok s e then f s e else none

theorem restrict_only (ok : σ → ε → Prop) [∀ s e, Decidable (ok s e)] {f : σ → ε → Option σ}
    (hf : ∀ s e s', f s e = some s' → step s e s') (s : σ) (e : ε) (s' : σ)
    (h : restrict ok f s e = some s') : only ok step s e s' := by
  simp only [restrict] at h
  split at h
  · next hok => exact ⟨hok, hf s e s' h⟩
  · cases h

/-- An execution that ends in a state with the property `p` is a run to it. -/
theorem Run.of_exec_any {f : σ → ε → Option σ} (hf : ∀ s e s', f s e = some s' → step s e s')
    (s₁ : σ) (es : List ε) (p : σ → Bool) (he : (exec f s₁ es).any p = true) :
    ∃ s, Run step s₁ es.reverse s ∧ p s = true := by
  obtain ⟨s, hs, hp⟩ := (Option.any_eq_true p _).mp he
  have hr := Run.of_exec hf .start hs
  rw [List.append_nil] at hr
  exact ⟨s, hr, hp⟩

end Run

/-! ## Past-time formulas

Formulas over a list whose head is the newest entry. Both are by recursion on the list, so that a
new entry is one unfolding. -/

section Past

variable {α : Type u} {β : Type v}

/-- `Q` held at some entry, and `P` at every newer one. -/
def Since (P Q : α → Prop) : List α → Prop
  | [] => False
  | a :: l => Q a ∨ (P a ∧ Since P Q l)

/-- Past-time formulas can be evaluated. -/
instance decidableSince (P Q : α → Prop) [DecidablePred P] [DecidablePred Q] :
    (l : List α) → Decidable (Since P Q l)
  | [] => .isFalse id
  | _ :: l =>
    have := decidableSince P Q l
    inferInstanceAs (Decidable (_ ∨ (_ ∧ _)))

@[simp] theorem since_nil {P Q : α → Prop} : ¬ Since P Q [] := id

@[simp] theorem since_cons {P Q : α → Prop} {a : α} {l : List α} :
    Since P Q (a :: l) ↔ Q a ∨ (P a ∧ Since P Q l) := Iff.rfl

/-- `Q` holds of the newest entry. -/
theorem Since.head {P Q : α → Prop} {a : α} {l : List α} (h : Q a) : Since P Q (a :: l) :=
  Or.inl h

/-- Newer entries that satisfy `P` do not end a `Since`. -/
theorem Since.append {P Q : α → Prop} {l : List α} (h : Since P Q l) :
    ∀ {new : List α}, (∀ a ∈ new, P a) → Since P Q (new ++ l)
  | [], _ => h
  | a :: _, hP => Or.inr
      ⟨hP a (List.mem_cons_self ..),
        h.append fun b hb => hP b (List.mem_cons_of_mem _ hb)⟩

/-- A new entry satisfies `Q`, and all new ones satisfy `P`. -/
theorem Since.of_mem {P Q : α → Prop} {l : List α} {a : α} (ha : Q a) :
    ∀ {new : List α}, (∀ b ∈ new, P b) → a ∈ new → Since P Q (new ++ l)
  | b :: new, hP, hmem => by
      obtain rfl | hmem := List.mem_cons.mp hmem
      · exact .head ha
      · exact Or.inr ⟨hP b (List.mem_cons_self ..),
          Since.of_mem ha (fun c hc => hP c (List.mem_cons_of_mem _ hc)) hmem⟩

/-- Weakening of both arguments. -/
theorem Since.imp {P P' Q Q' : α → Prop} (hP : ∀ a, P a → P' a) (hQ : ∀ a, Q a → Q' a) :
    ∀ {l : List α}, Since P Q l → Since P' Q' l
  | [], h => h
  | _ :: _, Or.inl h => Or.inl (hQ _ h)
  | _ :: _, Or.inr ⟨h, hl⟩ => Or.inr ⟨hP _ h, hl.imp hP hQ⟩

/-- The latest entry `f` answers on is one since which `f` answered nothing. -/
theorem since_of_findSome? {f : α → Option β} {b : β} :
    ∀ {l : List α}, l.findSome? f = some b →
      Since (fun a => f a = none) (fun a => f a = some b) l
  | [], h => by simp at h
  | a :: l, h => by
      rw [List.findSome?_cons] at h
      rcases hf : f a with _ | c <;> rw [hf] at h
      · exact Or.inr ⟨hf, since_of_findSome? h⟩
      · exact Or.inl (hf.trans h)

/-- Every entry satisfies `φ` of itself and the entries older than it. -/
def Always (φ : α → List α → Prop) : List α → Prop
  | [] => True
  | a :: l => φ a l ∧ Always φ l

instance decidableAlways (φ : α → List α → Prop) [∀ a l, Decidable (φ a l)] :
    (l : List α) → Decidable (Always φ l)
  | [] => .isTrue trivial
  | _ :: l =>
    have := decidableAlways φ l
    inferInstanceAs (Decidable (_ ∧ _))

@[simp] theorem always_nil {φ : α → List α → Prop} : Always φ [] := trivial

@[simp] theorem always_cons {φ : α → List α → Prop} {a : α} {l : List α} :
    Always φ (a :: l) ↔ φ a l ∧ Always φ l := Iff.rfl

/-- What always held still held before the newest entries. -/
theorem Always.of_append {φ : α → List α → Prop} :
    ∀ {new l : List α}, Always φ (new ++ l) → Always φ l
  | [], _, h => h
  | _ :: _, _, h => Always.of_append h.2

/-- Entries that satisfy `φ` whatever is older than them extend an `Always`. -/
theorem Always.append {φ : α → List α → Prop} {l : List α} (h : Always φ l) :
    ∀ {new : List α}, (∀ a ∈ new, ∀ l', φ a l') → Always φ (new ++ l)
  | [], _ => h
  | a :: _, hφ => ⟨hφ a (List.mem_cons_self ..) _,
      h.append fun b hb => hφ b (List.mem_cons_of_mem _ hb)⟩

end Past

end Runs
