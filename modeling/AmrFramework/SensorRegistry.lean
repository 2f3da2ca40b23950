import AmrFramework.Separators
import Mathlib.Data.List.AList

/-!
# The sensor registry

`SensorRegistry` maps the text `category_type` to a factory. A pair is looked up under the
joined text, and the same text can be joined in several ways: `lidar_sick` with `tim781` is
`lidar` with `sick_tim781`. What a pair finds is its own last registration for every run of
registrations exactly when neither part has a `_` (`isolated_iff`). While no category has
one, all pairs are apart (`find_eq_own_of_categories`).

A factory is called when a sensor is created and returns a pointer; `Sensor` is what is
pointed at. `make_sensor` takes the pointer for an `ISensor<DataType>` whatever it is.
-/

namespace AmrFramework.Hal

open Separators

universe u v

variable {Sensor : Type u}

/-- `Factory`: `none` is `nullptr`. -/
abbrev Factory (Sensor : Type u) : Type u := Unit → Option Sensor

structure SensorRegistry (Sensor : Type u) : Type u where
  factories : AList fun _ : String => Factory Sensor := ∅

/-- The key of a pair. -/
def SensorRegistry.key (category type : String) : String := category ++ "_" ++ type

/-- `register_type`. -/
def SensorRegistry.registerType (r : SensorRegistry Sensor) (category type : String)
    (factory : Factory Sensor) : SensorRegistry Sensor :=
  { r with factories := r.factories.insert (key category type) factory }

/-- `create`. -/
def SensorRegistry.create (r : SensorRegistry Sensor) (category type : String) : Option Sensor :=
  match r.factories.lookup (key category type) with
  | none => none
  | some factory => factory ()

/-- `contains`. -/
def SensorRegistry.contains (r : SensorRegistry Sensor) (category type : String) : Bool :=
  decide (key category type ∈ r.factories)

/-- A pointer of the type `ISensor<DataType> *`. -/
@[ext]
structure ISensor (DataType : Type) (Sensor : Type u) : Type u where
  raw : Sensor

/-- `make_sensor<DataType>`: the cast checks nothing. -/
def makeSensor (DataType : Type) (r : SensorRegistry Sensor) (category type : String) :
    Option (ISensor DataType Sensor) :=
  match r.create category type with
  | none => none
  | some raw => some ⟨raw⟩

/-! ## Runs of registrations

The map after any registrations is described by the registrations: what a pair finds is the last
one with its key. -/

/-- The arguments of a call of `register_type`. -/
structure Registration (Sensor : Type u) : Type u where
  category : String
  type : String
  factory : Factory Sensor

/-- The registry after the registrations, newest first. -/
def registered : List (Registration Sensor) → SensorRegistry Sensor
  | [] => {}
  | c :: h => (registered h).registerType c.category c.type c.factory

/-- Made with exactly this pair. -/
def Registration.For (c : Registration Sensor) (category type : String) : Prop :=
  c.category = category ∧ c.type = type

instance (c : Registration Sensor) (category type : String) : Decidable (c.For category type) :=
  inferInstanceAs (Decidable (_ ∧ _))

/-- The registrations of a pair. -/
def own (category type : String) (h : List (Registration Sensor)) : List (Registration Sensor) :=
  h.filter fun c => c.For category type

/-- The registration that a pair finds: the last one with its key. -/
def find (category type : String) (h : List (Registration Sensor)) :
    Option (Registration Sensor) :=
  h.find? fun c => SensorRegistry.key c.category c.type = SensorRegistry.key category type

variable {category type : String} {h : List (Registration Sensor)}

theorem lookup_registered (category type : String) (h : List (Registration Sensor)) :
    (registered h).factories.lookup (SensorRegistry.key category type) =
      (find category type h).map Registration.factory := by
  induction h with
  | nil => rfl
  | cons c h ih =>
    simp only [registered, SensorRegistry.registerType, find, List.find?_cons]
    by_cases hkey : SensorRegistry.key c.category c.type = SensorRegistry.key category type
    · rw [hkey, AList.lookup_insert, decide_eq_true rfl]
      rfl
    · rw [AList.lookup_insert_ne (Ne.symm hkey), decide_eq_false hkey]
      exact ih

theorem create_registered (category type : String) (h : List (Registration Sensor)) :
    (registered h).create category type = (find category type h).bind fun c => c.factory () := by
  rw [SensorRegistry.create, lookup_registered]
  cases find category type h <;> rfl

theorem contains_registered (category type : String) (h : List (Registration Sensor)) :
    (registered h).contains category type = (find category type h).isSome := by
  have hmem : SensorRegistry.key category type ∈ (registered h).factories ↔
      (find category type h).isSome := by
    rw [← AList.lookup_isSome, lookup_registered, Option.isSome_map]
  exact Bool.eq_iff_iff.mpr (decide_eq_true_iff.trans hmem)

theorem makeSensor_registered {DataType : Type} {sensor : ISensor DataType Sensor} :
    makeSensor DataType (registered h) category type = some sensor ↔
      ∃ c, find category type h = some c ∧ c.factory () = some sensor.raw := by
  rw [makeSensor, create_registered]
  cases find category type h with
  | none => simp
  | some c =>
    cases hraw : c.factory () with
    | none => simp [hraw]
    | some raw => simp [hraw, ISensor.ext_iff]

/-! ## Pairs apart

A key is two texts joined by the separator, so it can be taken apart in one way exactly when the
separator is in it once. -/

theorem toList_key (category type : String) :
    (SensorRegistry.key category type).toList = category.toList ++ '_' :: type.toList := by
  have hsep : "_".toList = ['_'] := by decide
  rw [SensorRegistry.key, String.toList_append, String.toList_append, hsep, List.append_assoc,
    List.singleton_append]

/-- Neither part has the separator. -/
def Plain (category type : String) : Prop := '_' ∉ category.toList ∧ '_' ∉ type.toList

instance (category type : String) : Decidable (Plain category type) :=
  inferInstanceAs (Decidable (_ ∧ _))

/-- The key of a plain pair is that of no other pair. -/
theorem Plain.key_eq (hplain : Plain category type) {category' type' : String}
    (hkey : SensorRegistry.key category' type' = SensorRegistry.key category type) :
    category' = category ∧ type' = type := by
  have hlist := congrArg String.toList hkey
  rw [toList_key, toList_key, append_sep_inj hplain.1 hplain.2] at hlist
  exact ⟨String.toList_inj.mp hlist.1, String.toList_inj.mp hlist.2⟩

/-- Two pairs whose categories have no separator. -/
theorem key_inj_of_categories {category' type' : String} (hcategory : '_' ∉ category.toList)
    (hcategory' : '_' ∉ category'.toList)
    (hkey : SensorRegistry.key category' type' = SensorRegistry.key category type) :
    category' = category ∧ type' = type := by
  have hlist := congrArg String.toList hkey
  rw [toList_key, toList_key] at hlist
  obtain ⟨hfirst, hlast⟩ := eq_of_append_sep hcategory' hcategory hlist
  exact ⟨String.toList_inj.mp hfirst, String.toList_inj.mp hlast⟩

/-- A pair whose key was registered for no other pair finds its own last registration. -/
theorem find_eq_own (hown : ∀ c ∈ h, SensorRegistry.key c.category c.type =
    SensorRegistry.key category type → c.For category type) :
    find category type h = (own category type h).head? := by
  rw [find, own, ← List.head?_filter]
  refine congrArg List.head? (List.filter_congr fun c hc => decide_eq_decide.mpr ⟨hown c hc, ?_⟩)
  rintro ⟨rfl, rfl⟩
  rfl

theorem Plain.find_eq_own (hplain : Plain category type) (h : List (Registration Sensor)) :
    find category type h = (own category type h).head? :=
  Hal.find_eq_own fun _ _ hkey => hplain.key_eq hkey

/-- While no category has a `_`, every pair finds its own last registration. -/
theorem find_eq_own_of_categories (hcategory : '_' ∉ category.toList)
    (hh : ∀ c ∈ h, '_' ∉ c.category.toList) :
    find category type h = (own category type h).head? :=
  find_eq_own fun c hc hkey => key_inj_of_categories hcategory (hh c hc) hkey

/-- A pair that is not plain shares its key with a pair of another category: the one that is
split at another separator. -/
theorem exists_same_key (hplain : ¬ Plain category type) :
    ∃ category' type', SensorRegistry.key category' type' = SensorRegistry.key category type ∧
      category' ≠ category := by
  obtain hmem | hmem : '_' ∈ category.toList ∨ '_' ∈ type.toList := by
    rwa [Plain, ← not_or, not_not] at hplain
  · obtain ⟨as, bs, heq, -⟩ := List.eq_append_cons_of_mem hmem
    refine ⟨String.ofList as, String.ofList (bs ++ '_' :: type.toList), ?_, ?_⟩
    · refine String.toList_inj.mp ?_
      rw [toList_key, toList_key, heq]
      simp
    · intro h
      have hlen := congrArg (List.length ∘ String.toList) h
      simp [heq] at hlen
  · obtain ⟨as, bs, heq, -⟩ := List.eq_append_cons_of_mem hmem
    refine ⟨String.ofList (category.toList ++ '_' :: as), String.ofList bs, ?_, ?_⟩
    · refine String.toList_inj.mp ?_
      rw [toList_key, toList_key, heq]
      simp
    · intro h
      have hlen := congrArg (List.length ∘ String.toList) h
      simp at hlen

/-! ## What a pair sees

The three ways to ask the registry are functions of the registration that the pair finds, so they
are treated alike. -/

/-- What is seen depends on the registrations of the pair only. -/
def DependsOnOwn {β : Type v} (category type : String) (see : SensorRegistry Sensor → β) : Prop :=
  ∀ h h', own category type h = own category type h' → see (registered h) = see (registered h')

/-- A sensor that is cast was made by a factory of the category. -/
def CastsOwn (Sensor : Type u) (category type : String) : Prop :=
  ∀ (DataType : Type) (h : List (Registration Sensor)) (sensor : ISensor DataType Sensor),
    makeSensor DataType (registered h) category type = some sensor →
      ∃ c ∈ h, c.category = category ∧ c.factory () = some sensor.raw

theorem Plain.dependsOnOwn {β : Type v} (hplain : Plain category type)
    {see : SensorRegistry Sensor → β} {f : Option (Registration Sensor) → β}
    (hsee : ∀ h, see (registered h) = f (find category type h)) : DependsOnOwn category type see := by
  intro h h' hown
  rw [hsee, hsee, hplain.find_eq_own, hplain.find_eq_own, hown]

theorem Plain.castsOwn (hplain : Plain category type) : CastsOwn Sensor category type := by
  intro DataType h sensor hsensor
  obtain ⟨c, hfind, hraw⟩ := makeSensor_registered.mp hsensor
  rw [hplain.find_eq_own] at hfind
  have hmem := List.mem_of_mem_head? hfind
  rw [own, List.mem_filter, decide_eq_true_iff] at hmem
  exact ⟨c, hmem.1, hmem.2.1, hraw⟩

/-- One registration of a category, under the key of another one. -/
theorem exists_interference (sensor : Sensor) (hplain : ¬ Plain category type) :
    ∃ c : Registration Sensor, c.category ≠ category ∧ c.factory = (fun _ => some sensor) ∧
      own category type [c] = [] ∧ find category type [c] = some c := by
  obtain ⟨category', type', hkey, hne⟩ := exists_same_key hplain
  refine ⟨⟨category', type', fun _ => some sensor⟩, hne, rfl, ?_, ?_⟩
  · exact List.filter_eq_nil_iff.mpr fun c hc hfor => by
      obtain rfl := List.mem_singleton.mp hc
      exact hne (of_decide_eq_true hfor).1
  · exact List.find?_cons_of_pos (decide_eq_true hkey)

/-- **Registrations do not interfere**, for every pair of strings and every run of registrations,
exactly when neither string has a `_`: this holds of `contains`, of `create` and of the casts of
`make_sensor`, each by itself. The other direction registers one sensor under a pair with the
same key. -/
theorem isolated_iff (sensor : Sensor) (category type : String) :
    ((DependsOnOwn category type fun r : SensorRegistry Sensor => r.contains category type) ↔
      Plain category type) ∧
    ((DependsOnOwn category type fun r : SensorRegistry Sensor => r.create category type) ↔
      Plain category type) ∧
    (CastsOwn Sensor category type ↔ Plain category type) := by
  refine ⟨⟨fun h => ?_, fun hplain => ?_⟩, ⟨fun h => ?_, fun hplain => ?_⟩,
    fun h => ?_, Plain.castsOwn⟩
  · by_contra hplain
    obtain ⟨c, -, -, hown, hfind⟩ := exists_interference sensor hplain
    have hsee := h [c] [] hown
    simp only [contains_registered, hfind] at hsee
    cases hsee
  · exact hplain.dependsOnOwn (contains_registered category type)
  · by_contra hplain
    obtain ⟨c, -, hfactory, hown, hfind⟩ := exists_interference sensor hplain
    have hsee := h [c] [] hown
    simp only [create_registered, hfind, Option.bind_some, hfactory] at hsee
    cases hsee
  · exact hplain.dependsOnOwn (f := fun c => c.bind fun c => c.factory ())
      (create_registered category type)
  · by_contra hplain
    obtain ⟨c, hne, hfactory, -, hfind⟩ := exists_interference sensor hplain
    obtain ⟨c', hc', hcategory, -⟩ := h Unit [c] ⟨sensor⟩
      (makeSensor_registered.mpr ⟨c, hfind, by rw [hfactory]⟩)
    obtain rfl := List.mem_singleton.mp hc'
    exact hne hcategory

/-! ## The sensors of the package

The built-in types have separators in them, and the categories have none, so the package itself
is safe as long as it stays so. -/

/-- What the built-in factories make. -/
inductive BuiltinSensor : Type
  | simulatedLidar
  | sickTiM781Adapter
  | simulatedImu
  | simulatedCamera
  deriving DecidableEq

/-- `register_builtin_sensors`, newest first. -/
def builtinSensors : List (Registration BuiltinSensor) :=
  [⟨"camera", "simulated", fun _ => some .simulatedCamera⟩,
    ⟨"imu", "simulated", fun _ => some .simulatedImu⟩,
    ⟨"lidar", "sick_tim781", fun _ => some .sickTiM781Adapter⟩,
    ⟨"lidar", "simulated", fun _ => some .simulatedLidar⟩]

/-- `create_lidar`, `create_imu` and `create_camera` ask for categories without a `_`, and get
what was registered for the pair. -/
theorem create_builtin (hcategory : '_' ∉ category.toList) (type : String) :
    (registered builtinSensors).create category type =
      (own category type builtinSensors).head?.bind fun c => c.factory () := by
  rw [create_registered, find_eq_own_of_categories hcategory (by decide)]

/-- The pair of `lidar_sick` and `tim781` is answered by the adapter of `lidar`, though nothing
was registered for it. -/
theorem lidar_sick_interferes :
    ¬ (DependsOnOwn "lidar_sick" "tim781" fun r : SensorRegistry BuiltinSensor =>
        r.contains "lidar_sick" "tim781") ∧
      ¬ CastsOwn BuiltinSensor "lidar_sick" "tim781" := by
  refine ⟨?_, ?_⟩
  · intro h
    have hsee := h builtinSensors [] rfl
    simp only [contains_registered] at hsee
    revert hsee
    decide
  · intro h
    obtain ⟨c, hc, hcategory, -⟩ := h Unit builtinSensors ⟨.sickTiM781Adapter⟩
      (makeSensor_registered.mpr ⟨_, rfl, rfl⟩)
    revert c
    decide

end AmrFramework.Hal
