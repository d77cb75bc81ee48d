import OlaCore.Adapters.Health
import OlaCore.Adapters.Registry
import OlaCore.Security.Attestation

set_option relaxedAutoImplicit false
set_option autoImplicit false

/-!
# Routing does not depend on the order of a directory

The system lists a directory in no particular order. Whether a registry can be loaded, and where it
routes a method to, depends on the set of configurations only: their names must be distinct and no
method may be listed by two of them, and then a method goes to the adapter that lists it. The
wildcard goes to the least available method in byte order.

Here the state of the adapters is fixed, so routing is a function of the health map.

## Main definitions

* `OlaCore.AdapterRegistry.availableNow`, `OlaCore.AdapterRegistry.resolveNow` — routing for a
  fixed state of the adapters.
* `OlaCore.DistinctAdapters` — the lists of configurations that make a registry.

## Main results

* `OlaCore.AdapterRegistry.exists_ofConfigs_iff`, `OlaCore.AdapterRegistry.lookup_ofConfigs` —
  which lists make a registry, and what it holds.
* `OlaCore.loadFromDirWithOwner_perm` — routing does not depend on the order of a directory.
-/

namespace OlaCore

open ByteText

/-! ## Byte order -/

instance : Std.Total byteLe := ⟨fun a b => List.le_total (utf8 a) (utf8 b)⟩

instance : IsTrans String byteLe := ⟨fun _ _ _ hab hbc => List.le_trans hab hbc⟩

/-- Byte order distinguishes strings. -/
theorem byteLe_antisymm {a b : String} (hab : byteLe a b) (hba : byteLe b a) : a = b :=
  utf8_injective (List.le_antisymm hab hba)

/-- Two lists with the same members and no repetition have the same sorted list. -/
theorem insertionSort_byteLe_eq {l l' : List String} (h : l'.Perm l) :
    l'.insertionSort byteLe = l.insertionSort byteLe := by
  apply List.Perm.eq_of_pairwise (fun _ _ _ _ => byteLe_antisymm)
  · exact List.pairwise_insertionSort _ _
  · exact List.pairwise_insertionSort _ _
  · exact ((List.perm_insertionSort _ _).trans h).trans (List.perm_insertionSort _ _).symm

/-! ## What is loaded -/

/-- The names are pairwise distinct, and no method is listed by two adapters. -/
structure DistinctAdapters (configs : List AdapterConfig) : Prop where
  names : (configs.map AdapterConfig.name).Nodup
  methods : configs.Pairwise fun a b => a.methods.Disjoint b.methods

/-- Distinctness does not depend on the order. -/
theorem DistinctAdapters.perm {configs configs' : List AdapterConfig}
    (h : DistinctAdapters configs) (hperm : configs.Perm configs') : DistinctAdapters configs' := by
  constructor
  · exact ((hperm.map _).nodup_iff).mp h.names
  · exact hperm.pairwise h.methods fun hab => hab.symm

/-- One adapter before others that are distinct. -/
theorem distinctAdapters_cons {config : AdapterConfig} {configs : List AdapterConfig} :
    DistinctAdapters (config :: configs) ↔ DistinctAdapters configs ∧
      (∀ c ∈ configs, c.name ≠ config.name) ∧
        ∀ c ∈ configs, config.methods.Disjoint c.methods := by
  constructor
  · rintro ⟨hn, hm⟩
    rw [List.map_cons, List.nodup_cons] at hn
    rw [List.pairwise_cons] at hm
    refine ⟨⟨hn.2, hm.2⟩, fun c hc heq => ?_, hm.1⟩
    exact hn.1 (List.mem_map.mpr ⟨c, hc, heq⟩)
  · rintro ⟨⟨hn, hm⟩, hnew, hdisjoint⟩
    refine ⟨List.nodup_cons.mpr ⟨?_, hn⟩, List.pairwise_cons.mpr ⟨hdisjoint, hm⟩⟩
    intro hmem
    obtain ⟨c, hc, heq⟩ := List.mem_map.mp hmem
    exact hnew c hc heq

/-- Only one of them lists a given method. -/
theorem DistinctAdapters.unique {configs : List AdapterConfig} (h : DistinctAdapters configs)
    {a b : AdapterConfig} (ha : a ∈ configs) (hb : b ∈ configs) {m : String} (hma : m ∈ a.methods)
    (hmb : m ∈ b.methods) : a = b := by
  have hsymm : Std.Symm fun a b : AdapterConfig => a.methods.Disjoint b.methods :=
    ⟨fun _ _ hab => hab.symm⟩
  by_contra hne
  exact h.methods.forall ha hb hne hma hmb

namespace AdapterRegistry

section Load

variable {clients clients' : AList fun _ : String => AdapterClient} {client : AdapterClient}
  {methods names names' : List String} {configs : List AdapterConfig}

/-- Methods can be entered when they are distinct and have no adapter yet. -/
theorem exists_insertMethods_iff :
    (∃ clients', insertMethods client methods clients = .ok clients') ↔
      methods.Nodup ∧ ∀ m ∈ methods, m ∉ clients := by
  induction methods generalizing clients with
  | nil => simp [insertMethods]
  | cons method methods ih =>
    rw [insertMethods]
    cases hl : clients.lookup method with
    | some existing =>
      have hmem : method ∈ clients := AList.lookup_isSome.mp (by rw [hl]; rfl)
      simp [hmem]
    | none =>
      have hmem : method ∉ clients := AList.lookup_eq_none.mp hl
      simp only [ih, AList.mem_insert, not_or, List.nodup_cons, List.mem_cons, forall_eq_or_imp,
        hmem, not_false_eq_true, true_and]
      constructor
      · rintro ⟨hnodup, hnot⟩
        exact ⟨⟨fun h => (hnot method h).1 rfl, hnodup⟩, fun m hm => (hnot m hm).2⟩
      · rintro ⟨⟨hnot, hnodup⟩, hclients⟩
        refine ⟨hnodup, fun m hm => ⟨?_, hclients m hm⟩⟩
        rintro rfl
        exact hnot hm

/-- What is held after methods were entered. -/
theorem lookup_of_insertMethods (h : insertMethods client methods clients = .ok clients')
    (m : String) : clients'.lookup m = if m ∈ methods then some client else clients.lookup m := by
  induction methods generalizing clients with
  | nil =>
    obtain rfl := Except.ok.inj h
    simp
  | cons method methods ih =>
    rw [insertMethods] at h
    split at h
    · cases h
    rw [ih h]
    by_cases hm : m ∈ methods
    · simp [hm]
    · by_cases heq : m = method
      · subst heq
        simp
      · simp [hm, heq, AList.lookup_insert_ne heq]

/-- Which methods have no adapter after methods were entered. -/
theorem notMem_of_insertMethods (h : insertMethods client methods clients = .ok clients')
    {m : String} : m ∉ clients' ↔ m ∉ methods ∧ m ∉ clients := by
  rw [← AList.lookup_eq_none, ← AList.lookup_eq_none, lookup_of_insertMethods h]
  by_cases hm : m ∈ methods <;> simp [hm]

/-- Adapters can be entered when their names and methods are distinct and new. -/
theorem exists_insertConfigs_iff (hnodup : ∀ c ∈ configs, c.methods.Nodup) :
    (∃ r, insertConfigs configs names clients = .ok r) ↔
      DistinctAdapters configs ∧ (∀ c ∈ configs, c.name ∉ names) ∧
        ∀ c ∈ configs, ∀ m ∈ c.methods, m ∉ clients := by
  induction configs generalizing names clients with
  | nil => simp [insertConfigs, DistinctAdapters.mk]
  | cons config configs ih =>
    rw [List.forall_mem_cons] at hnodup
    rw [insertConfigs]
    by_cases hname : config.name ∈ names
    · simp [hname]
    rw [if_neg hname]
    constructor
    · rintro ⟨r, h⟩
      obtain ⟨clients', hmethods, hrest⟩ := Checks.bind_eq_ok_iff.mp h
      obtain ⟨-, hnew⟩ := exists_insertMethods_iff.mp ⟨clients', hmethods⟩
      obtain ⟨hd, hnames, hclients⟩ := (ih hnodup.2).mp ⟨r, hrest⟩
      simp only [notMem_of_insertMethods hmethods] at hclients
      refine ⟨distinctAdapters_cons.mpr ⟨hd, fun c hc => ?_, fun c hc m hm hm' => ?_⟩, ?_, ?_⟩
      · exact List.ne_of_not_mem_cons (hnames c hc)
      · exact (hclients c hc m hm').1 hm
      · exact List.forall_mem_cons.mpr
          ⟨hname, fun c hc hmem => hnames c hc (List.mem_cons_of_mem _ hmem)⟩
      · exact List.forall_mem_cons.mpr ⟨hnew, fun c hc m hm => (hclients c hc m hm).2⟩
    · rintro ⟨hd, hnames, hclients⟩
      obtain ⟨hd', hnew, hdisjoint⟩ := distinctAdapters_cons.mp hd
      rw [List.forall_mem_cons] at hnames hclients
      obtain ⟨clients', hmethods⟩ := exists_insertMethods_iff.mpr ⟨hnodup.1, hclients.1⟩
      have hrest : ∃ r, insertConfigs configs (config.name :: names) clients' = .ok r := by
        refine (ih hnodup.2).mpr ⟨hd', fun c hc hmem => ?_, fun c hc m hm => ?_⟩
        · rcases List.mem_cons.mp hmem with heq | hmem
          · exact hnew c hc heq
          · exact hnames.2 c hc hmem
        · rw [notMem_of_insertMethods hmethods]
          exact ⟨fun hmem => hdisjoint c hc hmem hm, hclients.2 c hc m hm⟩
      obtain ⟨r, hr⟩ := hrest
      exact ⟨r, Checks.bind_eq_ok_iff.mpr ⟨clients', hmethods, hr⟩⟩

/-- What is held after adapters were entered. -/
theorem of_insertConfigs (h : insertConfigs configs names clients = .ok (names', clients')) :
    names' = (configs.map AdapterConfig.name).reverse ++ names ∧
      ∀ m client, clients'.lookup m = some client ↔
        (∃ c ∈ configs, m ∈ c.methods ∧ c.client = client) ∨ clients.lookup m = some client := by
  induction configs generalizing names clients with
  | nil =>
    obtain ⟨rfl, rfl⟩ := Prod.mk.inj (Except.ok.inj h)
    simp
  | cons config configs ih =>
    rw [insertConfigs] at h
    split at h
    · cases h
    obtain ⟨clients₁, hmethods, hrest⟩ := Checks.bind_eq_ok_iff.mp h
    obtain ⟨hnames, hlookup⟩ := ih hrest
    obtain ⟨-, hnew⟩ := exists_insertMethods_iff.mp ⟨clients₁, hmethods⟩
    refine ⟨by simp [hnames], fun m client => ?_⟩
    rw [hlookup, lookup_of_insertMethods hmethods]
    by_cases hm : m ∈ config.methods
    · have hl : clients.lookup m = none := AList.lookup_eq_none.mpr (hnew m hm)
      simp only [hm, if_true, hl, reduceCtorEq, or_false, Option.some.injEq, List.mem_cons,
        exists_eq_or_imp, true_and]
      exact or_comm
    · simp only [hm, if_false, List.mem_cons, exists_eq_or_imp, false_and, false_or]

end Load

/-- **Which lists make a registry.** -/
theorem exists_ofConfigs_iff {configs : List AdapterConfig}
    (hvalid : ∀ c ∈ configs, validateAdapterConfig c = .ok ()) :
    (∃ reg, ofConfigs configs = .ok reg) ↔ DistinctAdapters configs := by
  have hnodup : ∀ c ∈ configs, c.methods.Nodup := by
    intro c hc
    obtain ⟨-, -, -, -, h, -⟩ := validateAdapterConfig_eq_ok_iff.mp (hvalid c hc)
    exact h
  have hinsert : (∃ r, insertConfigs configs [] ∅ = .ok r) ↔ DistinctAdapters configs := by
    simp [exists_insertConfigs_iff hnodup]
  rw [← hinsert, ofConfigs]
  constructor
  · rintro ⟨reg, h⟩
    obtain ⟨r, hr, -⟩ := Checks.bind_eq_ok_iff.mp h
    exact ⟨r, hr⟩
  · rintro ⟨r, hr⟩
    exact ⟨_, Checks.bind_eq_ok_iff.mpr ⟨r, hr, rfl⟩⟩

/-- The names of a registry are those of the adapters, sorted. -/
theorem adapterNames_ofConfigs {configs : List AdapterConfig} {reg : AdapterRegistry}
    (h : ofConfigs configs = .ok reg) :
    reg.adapterNames = (configs.map AdapterConfig.name).insertionSort byteLe := by
  obtain ⟨⟨names, clients⟩, hinsert, hreg⟩ := Checks.bind_eq_ok_iff.mp h
  obtain rfl := Except.ok.inj hreg
  obtain ⟨rfl, -⟩ := of_insertConfigs hinsert
  apply insertionSort_byteLe_eq
  rw [List.append_nil]
  exact List.reverse_perm _

/-- **What a registry holds**: for each method the adapter that lists it. -/
theorem lookup_ofConfigs {configs : List AdapterConfig} {reg : AdapterRegistry}
    (h : ofConfigs configs = .ok reg) {m : String} {client : AdapterClient} :
    reg.clients.lookup m = some client ↔ ∃ c ∈ configs, m ∈ c.methods ∧ c.client = client := by
  obtain ⟨⟨names, clients⟩, hinsert, hreg⟩ := Checks.bind_eq_ok_iff.mp h
  obtain rfl := Except.ok.inj hreg
  obtain ⟨-, hlookup⟩ := of_insertConfigs hinsert
  rw [hlookup]
  simp

/-! ## Routing in a fixed state -/

section Now

variable {reg reg' : AdapterRegistry} {health : HealthMap}

/-- The available methods, with the health map as it is. -/
def availableNow (reg : AdapterRegistry) (health : HealthMap) : List String :=
  Id.run (reg.availableMethods fun name => pure (health.adapterDown name))

/-- Resolve a requested method, with the health map as it is. -/
def resolveNow (reg : AdapterRegistry) (health : HealthMap) (method : String) :
    Except AdapterError ResolvedAdapter :=
  Id.run (reg.resolve (fun name => pure (health.adapterDown name)) method)

/-- With the health map as it is, the available methods are those that are not hidden. -/
theorem availableNow_eq : reg.availableNow health =
    (reg.clients.keys.filter fun m =>
      (reg.clients.lookup m).any fun c => !health.adapterDown c.name).insertionSort byteLe := by
  have hfilter : ∀ methods, Id.run (reg.filterAvailable
      (fun name => pure (health.adapterDown name)) methods) =
        methods.filter fun m => (reg.clients.lookup m).any fun c => !health.adapterDown c.name := by
    intro methods
    induction methods with
    | nil => rfl
    | cons method methods ih =>
      rw [List.filter_cons, ← ih]
      simp only [filterAvailable, isAvailable]
      cases reg.clients.lookup method <;> rfl
  exact congrArg (List.insertionSort byteLe) (hfilter _)

/-- Which methods are available. -/
theorem mem_availableNow {m : String} : m ∈ reg.availableNow health ↔
    ∃ c, reg.clients.lookup m = some c ∧ health.adapterDown c.name = false := by
  rw [availableNow_eq, List.mem_insertionSort, List.mem_filter, ← AList.mem_keys,
    ← AList.lookup_isSome]
  cases reg.clients.lookup m <;> simp

/-- The available methods are sorted. -/
theorem pairwise_availableNow : (reg.availableNow health).Pairwise byteLe := by
  rw [availableNow_eq]
  exact List.pairwise_insertionSort _ _

/-- The available methods depend on what the registry holds only, not on its order. -/
theorem availableNow_congr (h : ∀ m, reg'.clients.lookup m = reg.clients.lookup m) :
    reg'.availableNow health = reg.availableNow health := by
  have hkeys : reg'.clients.keys.Perm reg.clients.keys := by
    rw [List.perm_ext_iff_of_nodup reg'.clients.keys_nodup reg.clients.keys_nodup]
    intro m
    rw [← AList.mem_keys, ← AList.mem_keys, ← AList.lookup_isSome, ← AList.lookup_isSome, h]
  rw [availableNow_eq, availableNow_eq]
  apply insertionSort_byteLe_eq
  simp only [h]
  exact hkeys.filter _

/-- A method other than the wildcard goes to the adapter that is held for it. -/
theorem resolveNow_of_ne {m : String} (hm : m ≠ "any") : reg.resolveNow health m =
    match reg.clients.lookup m with
    | some c => .ok ⟨c.name, m, c.timeoutMs, c⟩
    | none => .error (.methodNotFound m) := by
  unfold resolveNow resolve resolveClient
  rw [if_neg hm]
  cases reg.clients.lookup m <;> rfl

/-- The wildcard goes to the first available method. -/
theorem resolveNow_any : reg.resolveNow health "any" =
    match (reg.availableNow health).head?.bind fun m =>
      (reg.clients.lookup m).map fun c => (m, c) with
    | some (m, c) => .ok ⟨c.name, m, c.timeoutMs, c⟩
    | none => .error (.methodNotFound "any") := by
  unfold resolveNow resolve resolveClient availableNow
  rw [if_pos rfl]
  simp only [Id.run_bind, Id.run_pure]
  cases Option.bind _ _ <;> rfl

/-- Routing depends on what the registry holds only, not on its order. -/
theorem resolveNow_congr (h : ∀ m, reg'.clients.lookup m = reg.clients.lookup m) (m : String) :
    reg'.resolveNow health m = reg.resolveNow health m := by
  by_cases hm : m = "any"
  · subst hm
    rw [resolveNow_any, resolveNow_any, availableNow_congr h]
    simp only [h]
  · rw [resolveNow_of_ne hm, resolveNow_of_ne hm, h]

/-- **Where the wildcard goes**: to the least available method. -/
theorem resolveNow_any_eq_ok_iff {r : ResolvedAdapter} : reg.resolveNow health "any" = .ok r ↔
    r.method ∈ reg.availableNow health ∧ (∀ m ∈ reg.availableNow health, byteLe r.method m) ∧
      reg.clients.lookup r.method = some r.client ∧
      r = ⟨r.client.name, r.method, r.client.timeoutMs, r.client⟩ := by
  have hsorted : (reg.availableNow health).Pairwise byteLe := pairwise_availableNow
  rw [resolveNow_any]
  cases hmethods : reg.availableNow health with
  | nil => simp
  | cons method methods =>
    rw [hmethods] at hsorted
    obtain ⟨c, hc, -⟩ := mem_availableNow.mp (hmethods ▸ List.mem_cons_self)
    have hleast := (List.pairwise_cons.mp hsorted).1
    simp only [List.head?_cons, Option.bind_some, hc, Option.map_some, Except.ok.injEq]
    constructor
    · rintro rfl
      refine ⟨List.mem_cons_self, ?_, hc, rfl⟩
      exact List.forall_mem_cons.mpr ⟨List.le_refl _, hleast⟩
    · rintro ⟨hr, hle, hlookup, heq⟩
      have hmethod : r.method = method := by
        rcases List.mem_cons.mp hr with h | h
        · exact h
        · exact byteLe_antisymm (hle _ List.mem_cons_self) (hleast _ h)
      rw [hmethod, hc] at hlookup
      rw [heq, hmethod, Option.some.inj hlookup]

/-- The wildcard goes nowhere when nothing is available. -/
theorem resolveNow_any_eq_error_iff {e : AdapterError} :
    reg.resolveNow health "any" = .error e ↔
      e = .methodNotFound "any" ∧ reg.availableNow health = [] := by
  rw [resolveNow_any]
  cases hmethods : reg.availableNow health with
  | nil => simp [eq_comm]
  | cons method methods =>
    obtain ⟨c, hc, -⟩ := mem_availableNow.mp (hmethods ▸ List.mem_cons_self)
    simp [hc]

end Now

end AdapterRegistry

/-! ## Routing by configuration -/

/-- What a method resolves to when this is the adapter. -/
def AdapterConfig.resolved (config : AdapterConfig) (method : String) : ResolvedAdapter :=
  ⟨config.name, method, config.timeoutMs, config.client⟩

/-- **Routing by configuration**: a method goes to the adapter that lists it, the wildcard to the
least listed method whose adapter is not down, and both fail only when there is none. -/
structure RoutesBy (configs : List AdapterConfig) (health : HealthMap) (reg : AdapterRegistry) :
    Prop where
  unique : ∀ m, ∀ c ∈ configs, ∀ c' ∈ configs, m ∈ c.methods → m ∈ c'.methods → c = c'
  method : ∀ m ≠ "any", ∀ r, reg.resolveNow health m = .ok r ↔
    ∃ c ∈ configs, m ∈ c.methods ∧ r = c.resolved m
  any : ∀ r, reg.resolveNow health "any" = .ok r ↔
    ∃ c ∈ configs, ∃ m ∈ c.methods, health.adapterDown c.name = false ∧ r = c.resolved m ∧
      ∀ c' ∈ configs, ∀ m' ∈ c'.methods, health.adapterDown c'.name = false → byteLe m m'
  none : (∃ e, reg.resolveNow health "any" = .error e) ↔
    ∀ c ∈ configs, ∀ m ∈ c.methods, health.adapterDown c.name = true

section Configs

variable {configs : List AdapterConfig} {reg : AdapterRegistry} {health : HealthMap}

/-- Which methods a loaded registry makes available. -/
theorem AdapterRegistry.mem_availableNow_ofConfigs (h : ofConfigs configs = .ok reg) {m : String} :
    m ∈ reg.availableNow health ↔
      ∃ c ∈ configs, m ∈ c.methods ∧ health.adapterDown c.name = false := by
  rw [mem_availableNow]
  constructor
  · rintro ⟨client, hl, hup⟩
    obtain ⟨c, hc, hm, rfl⟩ := (lookup_ofConfigs h).mp hl
    exact ⟨c, hc, hm, hup⟩
  · rintro ⟨c, hc, hm, hup⟩
    exact ⟨c.client, (lookup_ofConfigs h).mpr ⟨c, hc, hm, rfl⟩, hup⟩

/-- A method of its own goes to the adapter that lists it. -/
theorem AdapterRegistry.resolveNow_ofConfigs (hdistinct : DistinctAdapters configs)
    (h : ofConfigs configs = .ok reg) {m : String} (hany : m ≠ "any") (r : ResolvedAdapter) :
    reg.resolveNow health m = .ok r ↔ ∃ c ∈ configs, m ∈ c.methods ∧ r = c.resolved m := by
  rw [resolveNow_of_ne hany]
  cases hl : reg.clients.lookup m with
  | none =>
    simp only [reduceCtorEq, false_iff]
    rintro ⟨c, hc, hm, -⟩
    have hsome := (lookup_ofConfigs h).mpr ⟨c, hc, hm, rfl⟩
    rw [hl] at hsome
    cases hsome
  | some client =>
    obtain ⟨c, hc, hm, rfl⟩ := (lookup_ofConfigs h).mp hl
    simp only [Except.ok.injEq]
    constructor
    · rintro rfl
      exact ⟨c, hc, hm, rfl⟩
    · rintro ⟨c', hc', hm', rfl⟩
      obtain rfl := hdistinct.unique hc hc' hm hm'
      rfl

/-- The method `any` goes to the least method of an adapter that is up. -/
theorem AdapterRegistry.resolveNow_any_ofConfigs (h : ofConfigs configs = .ok reg)
    (r : ResolvedAdapter) : reg.resolveNow health "any" = .ok r ↔
    ∃ c ∈ configs, ∃ m ∈ c.methods, health.adapterDown c.name = false ∧ r = c.resolved m ∧
      ∀ c' ∈ configs, ∀ m' ∈ c'.methods, health.adapterDown c'.name = false → byteLe m m' := by
  rw [resolveNow_any_eq_ok_iff]
  constructor
  · rintro ⟨hmem, hleast, hl, heq⟩
    obtain ⟨c, hc, hm, hup⟩ := (mem_availableNow_ofConfigs h).mp hmem
    have hclient := (lookup_ofConfigs h).mpr ⟨c, hc, hm, rfl⟩
    rw [hl] at hclient
    refine ⟨c, hc, r.method, hm, hup, ?_, fun c' hc' m' hm' hup' => ?_⟩
    · rw [heq, Option.some.inj hclient]
      rfl
    · exact hleast m' ((mem_availableNow_ofConfigs h).mpr ⟨c', hc', hm', hup'⟩)
  · rintro ⟨c, hc, m, hm, hup, rfl, hleast⟩
    refine ⟨?_, fun m' hmem => ?_, (lookup_ofConfigs h).mpr ⟨c, hc, hm, rfl⟩, rfl⟩
    · exact (mem_availableNow_ofConfigs h).mpr ⟨c, hc, hm, hup⟩
    · obtain ⟨c', hc', hm', hup'⟩ := (mem_availableNow_ofConfigs h).mp hmem
      exact hleast c' hc' m' hm' hup'

/-- A loaded registry routes by configuration. -/
theorem AdapterRegistry.routesBy_ofConfigs (hdistinct : DistinctAdapters configs)
    (h : ofConfigs configs = .ok reg) : RoutesBy configs health reg := by
  refine ⟨fun m c hc c' hc' hm hm' => hdistinct.unique hc hc' hm hm', ?_, ?_, ?_⟩
  · intro m hany r
    exact resolveNow_ofConfigs hdistinct h hany r
  · intro r
    exact resolveNow_any_ofConfigs h r
  · simp only [resolveNow_any_eq_error_iff, exists_and_right, exists_eq, true_and,
      List.eq_nil_iff_forall_not_mem, mem_availableNow_ofConfigs h]
    constructor
    · intro hnone c hc m hm
      by_contra hup
      exact hnone m ⟨c, hc, hm, Bool.eq_false_of_not_eq_true hup⟩
    · rintro hdown m ⟨c, hc, hm, hup⟩
      rw [hdown c hc m hm] at hup
      cases hup

/-- The name of a resolved adapter is one of those in the registry. -/
theorem RoutesBy.mem_names (h : RoutesBy configs health reg) {m : String} {r : ResolvedAdapter}
    (hr : reg.resolveNow health m = .ok r) : r.adapterName ∈ configs.map AdapterConfig.name := by
  by_cases hm : m = "any"
  · subst hm
    obtain ⟨c, hc, m, -, -, rfl, -⟩ := (h.any r).mp hr
    exact List.mem_map.mpr ⟨c, hc, rfl⟩
  · obtain ⟨c, hc, -, rfl⟩ := (h.method m hm r).mp hr
    exact List.mem_map.mpr ⟨c, hc, rfl⟩

end Configs

/-! ## The order of a directory -/

/-- With a key for each of the names, no adapter among them is unknown. -/
theorem AttestationVerifier.verify_ne_unknownAdapter {v : AttestationVerifier} {names : List String}
    (h : v.requireKeysForAdapters names = .ok ()) {name : String} (hname : name ∈ names)
    (crates : Crates) (result : VerificationResult) :
    v.verify crates name result ≠ .error .unknownAdapter := by
  have hkey : name ∈ v.adapterKeys := by
    unfold requireKeysForAdapters at h
    dsimp only at h
    split at h
    · cases h
    · next hmissing =>
      rw [not_not, List.filter_eq_nil_iff] at hmissing
      simpa using hmissing name hname
  obtain ⟨key, hlookup⟩ := Option.isSome_iff_exists.mp (AList.lookup_isSome.mpr hkey)
  unfold verify
  rw [hlookup]
  dsimp only
  split <;> simp

/-- A directory that can be read gives the registry of its adapters. -/
theorem AdapterRegistry.loadFromDirWithOwner_eq {toml : String → Except String AdapterConfig}
    {strict : Bool} {dirPath : String} {list : List DirEntry} {configs : List AdapterConfig}
    (h : loadAdapterConfigs toml strict dirPath (.entries list) = .ok configs) :
    loadFromDirWithOwner toml strict dirPath (.entries list) = ofConfigs configs := by
  rw [loadFromDirWithOwner, h]
  rfl

/-- **Routing does not depend on the order of a directory.** The registry can be loaded from the
directory, listed in whatever order, if and only if the adapters in it are distinct. Then what is
loaded routes in the same way, namely by configuration, and with a key for each adapter's name no
adapter that a request is routed to is unknown to the signature check. -/
theorem loadFromDirWithOwner_perm (toml : String → Except String AdapterConfig) (strict : Bool)
    (dirPath : String) {list list' : List DirEntry} {configs : List AdapterConfig}
    (hload : loadAdapterConfigs toml strict dirPath (.entries list) = .ok configs)
    (hperm : list'.Perm list) :
    let load := fun list => AdapterRegistry.loadFromDirWithOwner toml strict dirPath (.entries list)
    ((∃ reg, load list = .ok reg) ↔ DistinctAdapters configs) ∧
      ((∃ reg', load list' = .ok reg') ↔ DistinctAdapters configs) ∧
      ∀ reg reg', load list = .ok reg → load list' = .ok reg' →
        reg'.adapterNames = reg.adapterNames ∧
        ∀ health, RoutesBy configs health reg ∧
          reg'.availableNow health = reg.availableNow health ∧
          (∀ m, m ∈ reg.availableNow health ↔
            ∃ c ∈ configs, m ∈ c.methods ∧ health.adapterDown c.name = false) ∧
          (∀ m, reg'.resolveNow health m = reg.resolveNow health m) ∧
          ∀ v : AttestationVerifier, v.requireKeysForAdapters reg.adapterNames = .ok () →
            ∀ m r, reg.resolveNow health m = .ok r → ∀ crates result,
              v.verify crates r.adapterName result ≠ .error .unknownAdapter := by
  obtain ⟨configs', hload', hconfigs⟩ := loadAdapterConfigs_perm hload hperm
  have hvalid := validateAdapterConfig_of_mem hload
  have hvalid' := validateAdapterConfig_of_mem hload'
  dsimp only
  rw [AdapterRegistry.loadFromDirWithOwner_eq hload,
    AdapterRegistry.loadFromDirWithOwner_eq hload', AdapterRegistry.exists_ofConfigs_iff hvalid,
    AdapterRegistry.exists_ofConfigs_iff hvalid']
  refine ⟨Iff.rfl, ⟨fun h => h.perm hconfigs, fun h => h.perm hconfigs.symm⟩, ?_⟩
  intro reg reg' hreg hreg'
  have hdistinct := (AdapterRegistry.exists_ofConfigs_iff hvalid).mp ⟨reg, hreg⟩
  have hlookup : ∀ m, reg'.clients.lookup m = reg.clients.lookup m := by
    intro m
    ext client
    rw [AdapterRegistry.lookup_ofConfigs hreg', AdapterRegistry.lookup_ofConfigs hreg]
    simp only [hconfigs.mem_iff]
  have hnames := AdapterRegistry.adapterNames_ofConfigs hreg
  refine ⟨?_, fun health => ?_⟩
  · rw [AdapterRegistry.adapterNames_ofConfigs hreg', hnames]
    exact insertionSort_byteLe_eq (hconfigs.map _)
  have hroutes : RoutesBy configs health reg := AdapterRegistry.routesBy_ofConfigs hdistinct hreg
  refine ⟨hroutes, AdapterRegistry.availableNow_congr hlookup,
    fun m => AdapterRegistry.mem_availableNow_ofConfigs hreg,
    AdapterRegistry.resolveNow_congr hlookup, ?_⟩
  intro v hkeys m r hr crates result
  apply AttestationVerifier.verify_ne_unknownAdapter hkeys
  rw [hnames, List.mem_insertionSort]
  exact hroutes.mem_names hr

namespace SampleAdapters

/-- A security key. -/
def key : AdapterConfig := ⟨"key", "/run/ola/key.sock", 990, ["fido2"], 10000⟩

/-- A fingerprint reader that also takes a number. -/
def reader : AdapterConfig := ⟨"reader", "/run/ola/reader.sock", 991, ["pin", "libfprint"], 5000⟩

/-- The text of the file for the key. -/
def keyText : String :=
  "name = \"key\"\nsocket_path = \"/run/ola/key.sock\"\nexpected_uid = 990\n" ++
    "methods = [\"fido2\"]\ntimeout_ms = 10000\n"

/-- The text of the file for the reader. -/
def readerText : String :=
  "name = \"reader\"\nsocket_path = \"/run/ola/reader.sock\"\nexpected_uid = 991\n" ++
    "methods = [\"pin\", \"libfprint\"]\ntimeout_ms = 5000\n"

/-- The fields in the two files. -/
def toml (contents : String) : Except String AdapterConfig :=
  if contents = keyText then .ok key
  else if contents = readerText then .ok reader
  else .error "TOML parse error"

/-- The entry for the key. -/
def keyEntry : DirEntry := .file "/etc/ola/adapters.d/key.toml" true (.ok keyText)

/-- The entry for the reader. -/
def readerEntry : DirEntry := .file "/etc/ola/adapters.d/reader.toml" true (.ok readerText)

/-- Both adapters have answered a probe. -/
def health : HealthMap :=
  HealthMap.probe (HealthMap.probe (some ∅) "key" true 0) "reader" true 0

end SampleAdapters

/-- Two adapters listed in the other order: with both up, the wildcard goes to the key. -/
theorem loadFromDirWithOwner_perm_reader_first :
    ∃ reg, AdapterRegistry.loadFromDirWithOwner SampleAdapters.toml true "/etc/ola/adapters.d"
        (.entries [SampleAdapters.readerEntry, SampleAdapters.keyEntry]) = .ok reg ∧
      reg.resolveNow SampleAdapters.health "any" = .ok (SampleAdapters.key.resolved "fido2") := by
  have hload : loadAdapterConfigs SampleAdapters.toml true "/etc/ola/adapters.d"
      (.entries [SampleAdapters.keyEntry, SampleAdapters.readerEntry]) =
        .ok [SampleAdapters.key, SampleAdapters.reader] := by decide +kernel
  have hdistinct : DistinctAdapters [SampleAdapters.key, SampleAdapters.reader] :=
    ⟨by decide, by simp [SampleAdapters.key, SampleAdapters.reader]⟩
  obtain ⟨hkey, hreader, hsame⟩ := loadFromDirWithOwner_perm _ _ _ hload (.swap _ _ _)
  obtain ⟨reg, hreg⟩ := hkey.mpr hdistinct
  obtain ⟨reg', hreg'⟩ := hreader.mpr hdistinct
  obtain ⟨-, hroutes⟩ := hsame reg reg' hreg hreg'
  obtain ⟨hby, -, -, hresolve, -⟩ := hroutes SampleAdapters.health
  refine ⟨reg', hreg', ?_⟩
  rw [hresolve, hby.any]
  exact ⟨SampleAdapters.key, by decide, "fido2", by decide, by decide +kernel, rfl,
    by decide +kernel⟩

end OlaCore
