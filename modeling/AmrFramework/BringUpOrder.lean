import AmrFramework.SupervisorPolicy

/-!
# The bring-up order is complete

`topo_order` repeats passes over the children and appends what is ready. That it
returns an order where there is one rests on every pass that appends nothing being
the last: without a cycle some child is ready as long as any is missing.
-/

namespace AmrFramework.Monitoring

open DependencyOrder Relation

/-- A child is declared to depend on another. -/
def Depends (specs : List ChildSpec) (d n : String) : Prop :=
  ∃ s ∈ specs, s.name = n ∧ d ∈ s.dependsOn

/-- The declarations admit an order: names are unique, dependencies are declared, and nothing
depends on itself through others. -/
structure Sortable (specs : List ChildSpec) : Prop where
  unique : (specs.map ChildSpec.name).Nodup
  declared : ∀ s ∈ specs, ∀ d ∈ s.dependsOn, d ∈ specs.map ChildSpec.name
  acyclic : ∀ n, ¬ TransGen (Depends specs) n n

/-- The declared dependencies of a child. -/
def dependenciesOf (specs : List ChildSpec) (n : String) : List String :=
  ((specs.find? fun s => s.name = n).map ChildSpec.dependsOn).getD []

variable {specs : List ChildSpec}

theorem dependenciesOf_eq (hunique : (specs.map ChildSpec.name).Nodup) {s : ChildSpec}
    (hs : s ∈ specs) : dependenciesOf specs s.name = s.dependsOn := by
  induction specs with
  | nil => cases hs
  | cons a specs ih =>
    obtain ⟨hfresh, hunique⟩ := List.nodup_cons.mp hunique
    obtain rfl | hs := List.mem_cons.mp hs
    · simp [dependenciesOf]
    · have hne : a.name ≠ s.name := fun heq => hfresh (heq ▸ List.mem_map_of_mem hs)
      rw [← ih hunique hs]
      simp [dependenciesOf, hne]

/-- With unique names, the two ways to look at the dependencies agree. -/
theorem isDep_eq (hunique : (specs.map ChildSpec.name).Nodup) :
    IsDep (dependenciesOf specs) = Depends specs := by
  funext d n
  refine propext ⟨?_, ?_⟩
  · intro hd
    rw [IsDep, dependenciesOf] at hd
    cases hfind : specs.find? fun s => s.name = n with
    | none => simp [hfind] at hd
    | some s =>
      have hname := List.find?_some hfind
      refine ⟨s, List.mem_of_find?_eq_some hfind, by simpa using hname, ?_⟩
      simpa [hfind] using hd
  · rintro ⟨s, hs, rfl, hd⟩
    rw [IsDep, dependenciesOf_eq hunique hs]
    exact hd

/-! ## Passes

What one pass does to the order, without regard to why it is made: it appends, it never removes,
and if it appends nothing then nothing was ready. -/

/-- A pass over some children appends some of their names, in their order. -/
theorem foldl_topoPass (l : List ChildSpec) (order : List String) :
    ∃ new, l.foldl topoPass order = order ++ new ∧ new.Sublist (l.map ChildSpec.name) := by
  induction l generalizing order with
  | nil => exact ⟨[], (List.append_nil _).symm, .slnil⟩
  | cons s l ih =>
    rw [List.foldl_cons, List.map_cons, topoPass]
    split_ifs with hdone hready
    · obtain ⟨new, heq, hsub⟩ := ih order
      exact ⟨new, heq, hsub.cons s.name⟩
    · obtain ⟨new, heq, hsub⟩ := ih (order ++ [s.name])
      refine ⟨s.name :: new, ?_, hsub.cons_cons s.name⟩
      rw [heq, List.append_assoc]
      rfl
    · obtain ⟨new, heq, hsub⟩ := ih order
      exact ⟨new, heq, hsub.cons s.name⟩

theorem length_le_foldl_topoPass (l : List ChildSpec) (order : List String) :
    order.length ≤ (l.foldl topoPass order).length := by
  obtain ⟨new, heq, -⟩ := foldl_topoPass l order
  simp [heq]

/-- A pass that appends nothing finds no child ready. -/
theorem topoPass_of_foldl_eq {l : List ChildSpec} {order : List String}
    (h : l.foldl topoPass order = order) {s : ChildSpec} (hs : s ∈ l) :
    topoPass order s = order := by
  induction l with
  | nil => cases hs
  | cons a l ih =>
    rw [List.foldl_cons] at h
    have hfirst : topoPass order a = order := by
      have hlength := length_le_foldl_topoPass l (topoPass order a)
      rw [h, topoPass] at hlength
      rw [topoPass]
      split_ifs at hlength ⊢
      · rfl
      · rw [List.length_append, List.length_singleton] at hlength
        omega
      · rfl
    rw [hfirst] at h
    obtain rfl | hs := List.mem_cons.mp hs
    · exact hfirst
    · exact ih h hs

/-! ## The loop

Either the loop has ended, or each pass so far has appended a name. With one pass for each child
the second case means that all names are there, so it has ended, too. -/

/-- The condition under which the source's loop ends. -/
def Ends (specs : List ChildSpec) (order : List String) : Prop :=
  ¬ order.length < specs.length ∨ specs.foldl topoPass order = order

/-- The loop ends, or has appended a name in every pass. -/
theorem topoLoop_ends (passes : Nat) (order : List String) :
    Ends specs (topoLoop specs passes order) ∨
      order.length + passes ≤ (topoLoop specs passes order).length := by
  induction passes generalizing order with
  | zero => exact .inr (Nat.le_refl _)
  | succ passes ih =>
    rw [topoLoop]
    split
    · dsimp only
      split
      · next hsame => exact .inl (.inr hsame)
      · next hprogress =>
        obtain ⟨new, heq, -⟩ := foldl_topoPass specs order
        have hnew : new ≠ [] := by
          rintro rfl
          exact hprogress (heq.trans (List.append_nil _))
        have hpos := List.length_pos_iff.mpr hnew
        refine (ih (specs.foldl topoPass order)).imp_right fun hlength => ?_
        rw [heq, List.length_append] at hlength
        rw [heq]
        omega
    · next hfull => exact .inl (.inl hfull)

/-- One pass per child is enough. -/
theorem topoLoop_ended (specs : List ChildSpec) : Ends specs (topoLoop specs specs.length []) := by
  have hloop : Ends specs (topoLoop specs specs.length []) ∨
      [].length + specs.length ≤ (topoLoop specs specs.length []).length :=
    topoLoop_ends specs.length []
  obtain hends | hlength := hloop
  · exact hends
  · rw [List.length_nil] at hlength
    exact .inl (by omega)

/-- A loop that ends with children missing leaves none of them ready. Without a cycle there is a
missing child with no missing dependency, and that one would have been ready. -/
theorem full_of_ends (hsort : Sortable specs) {order : List String} (hends : Ends specs order) :
    ¬ order.length < specs.length := by
  obtain hfull | hstuck := hends
  · exact hfull
  · intro hmissing
    let rest := (specs.map ChildSpec.name).filter (· ∉ order)
    have hrest : rest ≠ [] := by
      intro hnil
      have hsub : specs.map ChildSpec.name ⊆ order := fun n hn => by
        simpa using List.filter_eq_nil_iff.mp hnil n hn
      have hle := (hsort.unique.subperm hsub).length_le
      rw [List.length_map] at hle
      omega
    have hacyclic : ∀ n ∈ rest, ¬ TransGen (IsDep (dependenciesOf specs)) n n := by
      intro n _ hcycle
      rw [isDep_eq hsort.unique] at hcycle
      exact hsort.acyclic n hcycle
    obtain ⟨n, hn, hready⟩ := exists_ready hrest hacyclic
    obtain ⟨hname, hfresh⟩ := List.mem_filter.mp hn
    obtain ⟨s, hs, rfl⟩ := List.mem_map.mp hname
    rw [dependenciesOf_eq hsort.unique hs] at hready
    have hdeps : s.dependsOn.all (· ∈ order) = true := by
      simp only [List.all_eq_true, decide_eq_true_eq]
      intro d hd
      by_contra hnot
      exact hready d hd (List.mem_filter.mpr ⟨hsort.declared s hs d hd, by simpa using hnot⟩)
    have hpass := topoPass_of_foldl_eq hstuck hs
    rw [topoPass, if_neg (by simpa using hfresh), if_pos hdeps] at hpass
    simp at hpass

/-! ## The order

The checks come first: two children of one name, or a dependency that is not declared, give the
empty order, and so does a loop that ends early. -/

/-- The checks of `topo_order`, and what its loop leaves. -/
theorem topoOrder_eq (specs : List ChildSpec) :
    ((specs.map ChildSpec.name).Nodup ∧
      (∀ s ∈ specs, ∀ d ∈ s.dependsOn, d ∈ specs.map ChildSpec.name) ∧
      topoOrder specs = if (topoLoop specs specs.length []).length = specs.length
        then topoLoop specs specs.length [] else []) ∨
    (¬ ((specs.map ChildSpec.name).Nodup ∧
        ∀ s ∈ specs, ∀ d ∈ s.dependsOn, d ∈ specs.map ChildSpec.name) ∧
      topoOrder specs = []) := by
  by_cases hunique : (specs.map ChildSpec.name).Nodup
  · by_cases hdeclared : ∀ s ∈ specs, ∀ d ∈ s.dependsOn, d ∈ specs.map ChildSpec.name
    · refine .inl ⟨hunique, hdeclared, ?_⟩
      have hall : (specs.all fun s => s.dependsOn.all (· ∈ specs.map ChildSpec.name)) = true := by
        simpa only [List.all_eq_true, decide_eq_true_eq] using hdeclared
      simp only [topoOrder, hunique, hall, decide_true, Bool.not_true, Bool.false_eq_true, if_false]
    · refine .inr ⟨fun h => hdeclared h.2, ?_⟩
      have hall : (specs.all fun s => s.dependsOn.all (· ∈ specs.map ChildSpec.name)) = false := by
        rw [← Bool.not_eq_true]
        simpa only [List.all_eq_true, decide_eq_true_eq] using hdeclared
      simp only [topoOrder, hunique, hall, decide_true, Bool.not_true, Bool.not_false,
        Bool.false_eq_true, if_false, if_true]
  · refine .inr ⟨fun h => hunique h.1, ?_⟩
    simp only [topoOrder, hunique, decide_false, Bool.not_false, if_true]

/-- Declarations for which `topo_order` returns children admit an order. -/
theorem sortable_of_topoOrder_ne (hne : topoOrder specs ≠ []) : Sortable specs := by
  obtain ⟨hunique, hdeclared, -⟩ | ⟨-, hnil⟩ := topoOrder_eq specs
  · obtain ⟨hfirst, hperm⟩ :=
      topoOrder_spec (fun s hs => dependenciesOf_eq hunique hs) (.inl hne)
    refine ⟨hunique, hdeclared, fun n hcycle => ?_⟩
    obtain ⟨d, -, s, hs, hname, -⟩ := TransGen.tail'_iff.mp hcycle
    have hlisted : n ∈ topoOrder specs :=
      hperm.mem_iff.mpr (hname ▸ List.mem_map_of_mem hs)
    rw [← isDep_eq hunique] at hcycle
    exact hfirst.irrefl hlisted hcycle
  · exact absurd hnil hne

/-- Declarations that admit an order are brought up in one. A name is appended after its
dependencies, and what is appended stays where it is. -/
theorem topoOrder_of_sortable (hsort : Sortable specs) :
    (topoOrder specs).Perm (specs.map ChildSpec.name) ∧
      ∀ s ∈ specs, ∀ d ∈ s.dependsOn,
        (topoOrder specs).idxOf d < (topoOrder specs).idxOf s.name := by
  have hdeps : ∀ s ∈ specs, dependenciesOf specs s.name = s.dependsOn :=
    fun s hs => dependenciesOf_eq hsort.unique hs
  obtain ⟨-, -, heq⟩ | ⟨hbad, -⟩ := topoOrder_eq specs
  · have hstart : DepsFirst (dependenciesOf specs) [] [] ∧
        ∀ n ∈ [], n ∈ specs.map ChildSpec.name := ⟨trivial, fun n hn => by cases hn⟩
    have hloop := topoLoop_order hdeps specs.length hstart
    have hfull := full_of_ends hsort (topoLoop_ended specs)
    have hle := (List.Nodup.subperm hloop.1.nodup hloop.2).length_le
    rw [List.length_map] at hle
    rw [if_pos (by omega)] at heq
    have hne : topoOrder specs ≠ [] ∨ specs = [] := by
      rw [heq, ← List.length_pos_iff, ← List.length_eq_zero_iff]
      omega
    obtain ⟨hfirst, hperm⟩ := topoOrder_spec hdeps hne
    refine ⟨hperm, fun s hs d hd => ?_⟩
    have hlisted : s.name ∈ topoOrder specs := hperm.mem_iff.mpr (List.mem_map_of_mem hs)
    have hlt := hfirst.idxOf_lt hlisted ((hdeps s hs).symm ▸ hd)
    exact (hlt.resolve_left List.not_mem_nil).2
  · exact absurd ⟨hsort.unique, hsort.declared⟩ hbad

/-- **`topo_order`.** Its loop ends by itself. It returns the children, each after
its dependencies, when the names are unique, the dependencies declared and there is
no cycle, and nothing otherwise; and a pass appends what is ready in input order. -/
theorem topoOrder_correct (specs : List ChildSpec) :
    Ends specs (topoLoop specs specs.length []) ∧
    (Sortable specs → (topoOrder specs).Perm (specs.map ChildSpec.name) ∧
      ∀ s ∈ specs, ∀ d ∈ s.dependsOn,
        (topoOrder specs).idxOf d < (topoOrder specs).idxOf s.name) ∧
    (¬ Sortable specs → topoOrder specs = []) ∧
    ∀ order, ∃ new, specs.foldl topoPass order = order ++ new ∧
      new.Sublist (specs.map ChildSpec.name) := by
  refine ⟨topoLoop_ended specs, topoOrder_of_sortable, fun hnot => ?_, foldl_topoPass specs⟩
  by_contra hne
  exact hnot (sortable_of_topoOrder_ne hne)

/-- A child declared before the one it depends on. -/
theorem topoOrder_correct_sim :
    (topoOrder [{ name := "spawn", dependsOn := ["sim"] }, { name := "sim" }]).Perm
      ["spawn", "sim"] :=
  ((topoOrder_correct [{ name := "spawn", dependsOn := ["sim"] }, { name := "sim" }]).2.1
    (sortable_of_topoOrder_ne (by decide))).1

/-- A cycle of two behind a child that could start. -/
example : topoOrder [{ name := "sim" }, { name := "a", dependsOn := ["b", "sim"] },
    { name := "b", dependsOn := ["a"] }] = [] := by decide

end AmrFramework.Monitoring
