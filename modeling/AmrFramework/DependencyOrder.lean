import Mathlib.Data.Fintype.EquivFin
import Mathlib.Data.Fintype.Sets
import Mathlib.Data.List.Basic
import Mathlib.Logic.Relation
import Mathlib.Order.WellFounded

/-!
# Dependency orders

A list of elements with their dependencies, in an order in which every
dependency comes first:

* `DepsFirst deps [] l` — the order itself, and that it has no repetition;
* `DepsFirst.irrefl` — such an order rules out cycles among its elements;
* `exists_ready` — without cycles, one can always go on;
* `scanAffected` — a single pass over the order that grows a set of affected
  elements; `mem_scanAffected` shows that it finds exactly the transitive
  dependents of the element it starts with.
-/

namespace DependencyOrder

universe u

variable {α : Type u}

/-- `l` lists elements not among the `seen` ones, without repetition, each
after its dependencies. -/
def DepsFirst (deps : α → List α) (seen : List α) : List α → Prop
  | [] => True
  | a :: l => a ∉ seen ∧ (∀ d ∈ deps a, d ∈ seen) ∧ DepsFirst deps (a :: seen) l

/-- `d` is a dependency of `a`. -/
def IsDep (deps : α → List α) (d a : α) : Prop := d ∈ deps a

variable {deps : α → List α} {seen l : List α}

/-- What is listed has not been seen. -/
theorem DepsFirst.not_mem_seen (h : DepsFirst deps seen l) {a : α} (ha : a ∈ l) : a ∉ seen := by
  induction l generalizing seen with
  | nil => cases ha
  | cons b l ih =>
    obtain ⟨hb, -, hl⟩ := h
    obtain rfl | ha := List.mem_cons.mp ha
    · exact hb
    · exact fun hs => ih hl ha (List.mem_cons_of_mem _ hs)

/-- Nothing is listed twice. -/
theorem DepsFirst.nodup (h : DepsFirst deps seen l) : l.Nodup := by
  induction l generalizing seen with
  | nil => exact List.nodup_nil
  | cons a l ih =>
    obtain ⟨-, -, hl⟩ := h
    exact List.nodup_cons.mpr ⟨fun ha => hl.not_mem_seen ha (List.mem_cons_self ..), ih hl⟩

/-- One more element at the end. It is how an order is built that appends what is ready. -/
theorem DepsFirst.concat (h : DepsFirst deps seen l) {a : α} (hs : a ∉ seen) (hl : a ∉ l)
    (hd : ∀ d ∈ deps a, d ∈ seen ∨ d ∈ l) : DepsFirst deps seen (l ++ [a]) := by
  induction l generalizing seen with
  | nil =>
    refine ⟨hs, fun d hda => ?_, trivial⟩
    obtain hds | hdl := hd d hda
    · exact hds
    · cases hdl
  | cons b l ih =>
    obtain ⟨hb, hbd, hbl⟩ := h
    rw [List.mem_cons, not_or] at hl
    refine ⟨hb, hbd, ih hbl ?_ hl.2 fun d hda => ?_⟩
    · rw [List.mem_cons, not_or]
      exact ⟨hl.1, hs⟩
    · obtain hds | hdl := hd d hda
      · exact Or.inl (List.mem_cons_of_mem _ hds)
      · obtain rfl | hdl := List.mem_cons.mp hdl
        · exact Or.inl (List.mem_cons_self ..)
        · exact Or.inr hdl

/-- A set that contains the dependencies of its elements contains the transitive ones. -/
theorem mem_of_transGen (hclosed : ∀ a ∈ seen, ∀ d ∈ deps a, d ∈ seen) {a d : α}
    (hd : Relation.TransGen (IsDep deps) d a) (ha : a ∈ seen) : d ∈ seen := by
  induction hd with
  | single hd => exact hclosed _ ha _ hd
  | tail _ hd ih => exact ih (hclosed _ ha _ hd)

variable [DecidableEq α]

/-- A dependency of a listed element was seen, or is listed earlier. -/
theorem DepsFirst.idxOf_lt (h : DepsFirst deps seen l) {a d : α} (ha : a ∈ l) (hd : d ∈ deps a) :
    d ∈ seen ∨ (d ∈ l ∧ l.idxOf d < l.idxOf a) := by
  induction l generalizing seen with
  | nil => cases ha
  | cons b l ih =>
    obtain ⟨-, hdeps, hl⟩ := h
    by_cases hab : b = a
    · subst hab
      exact Or.inl (hdeps d hd)
    have ha : a ∈ l := (List.mem_cons.mp ha).resolve_left (Ne.symm hab)
    by_cases hbd : b = d
    · subst hbd
      refine Or.inr ⟨List.mem_cons_self .., ?_⟩
      rw [List.idxOf_cons_self, List.idxOf_cons_ne _ hab]
      omega
    obtain hs | ⟨hdl, hlt⟩ := ih hl ha
    · exact Or.inl ((List.mem_cons.mp hs).resolve_left (Ne.symm hbd))
    · refine Or.inr ⟨List.mem_cons_of_mem _ hdl, ?_⟩
      rw [List.idxOf_cons_ne _ hab, List.idxOf_cons_ne _ hbd]
      omega

/-- A transitive dependency of a listed element is listed earlier. -/
theorem DepsFirst.idxOf_lt_of_transGen (h : DepsFirst deps [] l) {a d : α}
    (hd : Relation.TransGen (IsDep deps) d a) (ha : a ∈ l) :
    d ∈ l ∧ l.idxOf d < l.idxOf a := by
  induction hd with
  | single hd => exact (h.idxOf_lt ha hd).resolve_left List.not_mem_nil
  | tail _ hd ih =>
    obtain ⟨hb, hlt⟩ := (h.idxOf_lt ha hd).resolve_left List.not_mem_nil
    obtain ⟨hd', hlt'⟩ := ih hb
    exact ⟨hd', Nat.lt_trans hlt' hlt⟩

/-- **No cycle**: nothing that is listed depends on itself, however indirectly. Along a cycle the
index in the list would have to fall. -/
theorem DepsFirst.irrefl (h : DepsFirst deps [] l) {a : α} (ha : a ∈ l) :
    ¬ Relation.TransGen (IsDep deps) a a := by
  intro hd
  have := (h.idxOf_lt_of_transGen hd ha).2
  omega

/-- **Progress**: of elements without a cycle, one depends on none of them. If each depended on
another one, following the dependencies would lead around in a cycle, since there are finitely
many. -/
theorem exists_ready {rest : List α} (hne : rest ≠ [])
    (hacyclic : ∀ a ∈ rest, ¬ Relation.TransGen (IsDep deps) a a) :
    ∃ a ∈ rest, ∀ d ∈ deps a, d ∉ rest := by
  let before : {a // a ∈ rest} → {a // a ∈ rest} → Prop :=
    fun d a => Relation.TransGen (IsDep deps) d.1 a.1
  have htrans : IsTrans _ before := ⟨fun _ _ _ hab hbc => hab.trans hbc⟩
  have hirrefl : Std.Irrefl before := ⟨fun a => hacyclic a.1 a.2⟩
  have hwf : WellFounded before := Finite.wellFounded_of_trans_of_irrefl before
  obtain ⟨a, ha⟩ := List.exists_mem_of_ne_nil rest hne
  obtain ⟨m, -, hmin⟩ := hwf.has_min Set.univ ⟨⟨a, ha⟩, trivial⟩
  exact ⟨m.1, m.2, fun d hd hmem => hmin ⟨d, hmem⟩ trivial (.single hd)⟩

/-! ## The single pass

The pass looks at each element once. That is enough in an order in which dependencies come first,
and in no other: an affected dependency that came later would be missed. -/

/-- Walk along the list; an element with an affected dependency that is not
affected yet is reported, and affected from there on. -/
def scanAffected (deps : α → List α) : List α → List α → List α
  | [], _ => []
  | a :: l, affected =>
    if (deps a).any (· ∈ affected) && a ∉ affected then a :: scanAffected deps l (a :: affected)
    else scanAffected deps l affected

/-- The pass reports what it finds in the order of the list. -/
theorem scanAffected_sublist (l affected : List α) :
    (scanAffected deps l affected).Sublist l := by
  induction l generalizing affected with
  | nil => exact List.Sublist.slnil
  | cons a l ih =>
    simp only [scanAffected]
    split
    · exact (ih _).cons_cons a
    · exact (ih _).cons a

/-- What is affected already is not reported. -/
theorem not_mem_scanAffected {l affected : List α} {a : α} (ha : a ∈ affected) :
    a ∉ scanAffected deps l affected := by
  induction l generalizing affected with
  | nil => exact List.not_mem_nil
  | cons b l ih =>
    simp only [scanAffected]
    split
    · next hb =>
      rw [List.mem_cons, not_or]
      refine ⟨?_, ih (List.mem_cons_of_mem _ ha)⟩
      rintro rfl
      exact of_decide_eq_true (Bool.and_eq_true_iff.mp hb).2 ha
    · exact ih ha

/-- The affected set is right up to the elements seen so far. Elements that were not seen yet are
not in it, the start apart. -/
structure AffectedBy (deps : α → List α) (start : α) (seen affected : List α) : Prop where
  start_mem : start ∈ affected
  seen_iff : ∀ a ∈ seen, a ∈ affected ↔ Relation.ReflTransGen (IsDep deps) start a
  unseen : ∀ a ∈ affected, a ∉ seen → a = start

/-- The pass finds the transitive dependents among the elements still to come. By induction on
the list; the invariant `AffectedBy` moves on with each element. -/
theorem mem_scanAffected_of_affectedBy {start : α} {affected : List α}
    (h : DepsFirst deps seen l) (hstart : ¬ Relation.TransGen (IsDep deps) start start)
    (ha : AffectedBy deps start seen affected) {b : α} :
    b ∈ scanAffected deps l affected ↔ b ∈ l ∧ Relation.TransGen (IsDep deps) start b := by
  induction l generalizing seen affected with
  | nil => simp [scanAffected]
  | cons a l ih =>
    obtain ⟨hseen, hdeps, hl⟩ := h
    -- the test on the dependencies decides transitive dependence
    have hhit : (deps a).any (· ∈ affected) = true ↔ Relation.TransGen (IsDep deps) start a := by
      rw [List.any_eq_true, Relation.TransGen.tail'_iff]
      constructor
      · rintro ⟨d, hd, hda⟩
        exact ⟨d, (ha.seen_iff d (hdeps d hd)).mp (of_decide_eq_true hda), hd⟩
      · rintro ⟨d, hd, hda⟩
        exact ⟨d, hda, decide_eq_true ((ha.seen_iff d (hdeps d hda)).mpr hd)⟩
    by_cases hdep : Relation.TransGen (IsDep deps) start a
    · have hfresh : a ∉ affected := by
        intro hmem
        rw [ha.unseen a hmem hseen] at hdep
        exact hstart hdep
      have hnext : AffectedBy deps start (a :: seen) (a :: affected) := by
        refine ⟨List.mem_cons_of_mem _ ha.start_mem, fun b hb => ?_, fun b hb hbs => ?_⟩
        · by_cases hba : b = a
          · subst hba
            exact iff_of_true (List.mem_cons_self ..) hdep.to_reflTransGen
          · rw [List.mem_cons, or_iff_right hba]
            exact ha.seen_iff b ((List.mem_cons.mp hb).resolve_left hba)
        · rw [List.mem_cons, not_or] at hbs
          exact ha.unseen b ((List.mem_cons.mp hb).resolve_left hbs.1) hbs.2
      rw [scanAffected, if_pos (by simp [hhit.mpr hdep, hfresh]), List.mem_cons, List.mem_cons,
        ih hl hnext, or_and_right]
      refine or_congr_left ⟨fun hb => ⟨hb, hb ▸ hdep⟩, And.left⟩
    · have hnext : AffectedBy deps start (a :: seen) affected := by
        refine ⟨ha.start_mem, fun b hb => ?_, fun b hb hbs => ?_⟩
        · by_cases hba : b = a
          · subst hba
            rw [Relation.reflTransGen_iff_eq_or_transGen]
            refine ⟨fun hmem => Or.inl (ha.unseen b hmem hseen), ?_⟩
            rintro (rfl | hb)
            · exact ha.start_mem
            · exact absurd hb hdep
          · exact ha.seen_iff b ((List.mem_cons.mp hb).resolve_left hba)
        · rw [List.mem_cons, not_or] at hbs
          exact ha.unseen b hb hbs.2
      have hmiss : ¬ ((deps a).any (· ∈ affected) && a ∉ affected) = true := by
        intro hand
        exact hdep (hhit.mp (Bool.and_eq_true_iff.mp hand).1)
      rw [scanAffected, if_neg hmiss, ih hl hnext, List.mem_cons, or_and_right]
      refine (or_iff_right ?_).symm
      rintro ⟨rfl, hb⟩
      exact hdep hb

/-- **The pass finds exactly the transitive dependents** of a listed element. One pass is enough,
because in the order every dependency is seen before what needs it. -/
theorem mem_scanAffected (h : DepsFirst deps [] l) {start : α} (hstart : start ∈ l) {b : α} :
    b ∈ scanAffected deps l [start] ↔ b ∈ l ∧ Relation.TransGen (IsDep deps) start b := by
  refine mem_scanAffected_of_affectedBy h (h.irrefl hstart) ⟨List.mem_singleton_self _, ?_, ?_⟩
  · exact fun a ha => by cases ha
  · exact fun a ha _ => List.mem_singleton.mp ha

end DependencyOrder
