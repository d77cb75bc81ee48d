import Mathlib.Data.List.Perm.Basic
import Mathlib.Data.List.ReduceOption
import OlaCore.Core.Names
import OlaCore.Lib.Checks

set_option relaxedAutoImplicit false
set_option autoImplicit false

/-!
# Adapter configurations

Each file of a directory configures one adapter (`adapters/config_loader`). In production one bad
file stops the daemon; otherwise it is skipped. A directory is given by its entries in the order in
which they are listed, which the system does not specify. The syntax of TOML is a parameter.

## Main definitions

* `OlaCore.AdapterConfig`, `OlaCore.validateAdapterConfig` — a configuration, and the checks on it.
* `OlaCore.loadAdapterConfigs` — the configurations of a directory.

## Main results

* `OlaCore.validateAdapterConfig_eq_ok_iff` — which configurations are accepted.
* `OlaCore.loadAdapterConfigs_perm` — the order of the directory does not matter.
-/

namespace OlaCore

/-- The configuration of an adapter. -/
structure AdapterConfig where
  name : String
  socketPath : String
  expectedUid : UInt32
  methods : List String
  timeoutMs : UInt64
  deriving DecidableEq

/-- The checks on the methods, with those seen so far. -/
def checkMethods : List String → List String → Except String Unit
  | _, [] => .ok ()
  | seenMethods, method :: methods => do
    let _ ← validateMethodName method false
    if method ∈ seenMethods then .error ("duplicate method " ++ method)
    else checkMethods (method :: seenMethods) methods

/-- The checks on a configuration. -/
def validateAdapterConfig (cfg : AdapterConfig) : Except String Unit := do
  let _ ← validateAdapterName cfg.name
  if cfg.socketPath = "" then .error "socket_path must not be empty"
  else if cfg.methods = [] then .error "methods must not be empty"
  else
    let _ ← checkMethods [] cfg.methods
    if ¬ (100 ≤ cfg.timeoutMs ∧ cfg.timeoutMs ≤ 30000) then
      .error "timeout_ms must be between 100 and 30000"
    else .ok ()

/-! ## Directories -/

/-- An entry of the directory: it could not be read, or it is a file with a path, whose extension is
`toml` or not, and reading it gives its text or an error. -/
inductive DirEntry where
  | unreadable (error : String)
  | file (path : String) (isToml : Bool) (contents : Except String String)

/-- What is found at the path of the directory. -/
inductive Directory where
  | missing
  | unreadable
  | entries (list : List DirEntry)

section Load

variable (toml : String → Except String AdapterConfig) (strict : Bool) (dirPath : String)

/-- A bad file stops the daemon in production and is skipped otherwise. -/
def handleViolation (path reason : String) : Except String (Option AdapterConfig) :=
  if strict then .error ("adapter config " ++ path ++ " " ++ reason) else .ok none

/-- The configuration of one entry, if it has one. -/
def loadEntry : DirEntry → Except String (Option AdapterConfig)
  | .unreadable error =>
    handleViolation strict dirPath ("failed reading directory entry: " ++ error)
  | .file path isToml contents =>
    if isToml then
      match contents with
      | .error e => handleViolation strict path e
      | .ok contents =>
        match toml contents with
        | .error e => handleViolation strict path ("parse failed: " ++ e)
        | .ok cfg =>
          match validateAdapterConfig cfg with
          | .error e => handleViolation strict path ("validation failed: " ++ e)
          | .ok () => .ok (some cfg)
    else .ok none

/-- The configurations of a directory. -/
def loadAdapterConfigs : Directory → Except String (List AdapterConfig)
  | .missing =>
    if strict then
      .error ("adapter config directory " ++ dirPath ++ " does not exist or is not a directory")
    else .ok []
  | .unreadable => .error ("reading " ++ dirPath)
  | .entries list => do
    let configs ← list.mapM (loadEntry toml strict dirPath)
    if strict && configs.reduceOption = [] then
      .error ("adapter config directory " ++ dirPath ++ " contains no adapter configs")
    else .ok configs.reduceOption

end Load

/-! ## Which configurations are accepted -/

/-- The checks on the methods, from any point of the list. -/
theorem checkMethods_eq_ok_iff {seenMethods methods : List String} :
    checkMethods seenMethods methods = .ok () ↔
      (∀ m ∈ methods, IsIdentifier m ∧ m ≠ "any") ∧ methods.Nodup ∧
        ∀ m ∈ methods, m ∉ seenMethods := by
  induction methods generalizing seenMethods with
  | nil => simp [checkMethods]
  | cons method methods ih =>
    rw [checkMethods, Checks.bind_eq_ok_iff]
    have hvalid :
        validateMethodName method false = .ok () ↔ IsIdentifier method ∧ method ≠ "any" := by
      simp [validateMethodName_eq_ok_iff]
    by_cases hseen : method ∈ seenMethods
    · simp only [hseen, if_true, reduceCtorEq, and_false, exists_false, false_iff]
      rintro ⟨-, -, hnot⟩
      exact hnot method List.mem_cons_self hseen
    · simp only [hseen, if_false, ih, List.nodup_cons, List.mem_cons, forall_eq_or_imp, not_or,
        not_false_eq_true, true_and]
      constructor
      · rintro ⟨_, hm, hids, hnodup, hnot⟩
        refine ⟨⟨hvalid.mp hm, hids⟩, ⟨?_, hnodup⟩, fun m hmem => (hnot m hmem).2⟩
        intro hmem
        exact (hnot method hmem).1 rfl
      · rintro ⟨⟨hm, hids⟩, ⟨hnot, hnodup⟩, hseen'⟩
        refine ⟨(), hvalid.mpr hm, hids, hnodup, fun m hmem => ⟨?_, hseen' m hmem⟩⟩
        rintro rfl
        exact hnot hmem

/-- **Which configurations are accepted.** -/
theorem validateAdapterConfig_eq_ok_iff {cfg : AdapterConfig} :
    validateAdapterConfig cfg = .ok () ↔
      (IsIdentifier cfg.name ∧ cfg.name ≠ "any") ∧ cfg.socketPath ≠ "" ∧ cfg.methods ≠ [] ∧
        (∀ m ∈ cfg.methods, IsIdentifier m ∧ m ≠ "any") ∧ cfg.methods.Nodup ∧
        100 ≤ cfg.timeoutMs ∧ cfg.timeoutMs ≤ 30000 := by
  rw [validateAdapterConfig, Checks.bind_eq_ok_iff]
  by_cases hpath : cfg.socketPath = ""
  · simp [hpath]
  by_cases hmethods : cfg.methods = []
  · simp [hpath, hmethods]
  simp only [hpath, hmethods, if_false, Checks.bind_eq_ok_iff]
  constructor
  · rintro ⟨_, hname, _, hcheck, htime⟩
    obtain ⟨hids, hnodup, -⟩ := checkMethods_eq_ok_iff.mp hcheck
    split at htime
    · cases htime
    · next hrange =>
      exact ⟨validateAdapterName_eq_ok_iff.mp hname, hpath, hmethods, hids, hnodup,
        not_not.mp hrange⟩
  · rintro ⟨hname, -, -, hids, hnodup, hrange⟩
    refine ⟨(), validateAdapterName_eq_ok_iff.mpr hname, (),
      checkMethods_eq_ok_iff.mpr ⟨hids, hnodup, by simp⟩, ?_⟩
    rw [if_neg (not_not.mpr hrange)]

/-! ## The order of a directory -/

section Order

variable {toml : String → Except String AdapterConfig} {strict : Bool} {dirPath : String}

/-- An entry gives no configuration that has not been accepted. -/
theorem validateAdapterConfig_of_loadEntry {entry : DirEntry} {cfg : AdapterConfig}
    (h : loadEntry toml strict dirPath entry = .ok (some cfg)) :
    validateAdapterConfig cfg = .ok () := by
  have hviolation : ∀ path reason,
      handleViolation strict path reason ≠ .ok (some cfg) := by
    intro path reason
    unfold handleViolation
    split <;> simp
  unfold loadEntry at h
  split at h
  · exact absurd h (hviolation _ _)
  split at h
  swap
  · cases h
  split at h
  · exact absurd h (hviolation _ _)
  split at h
  · exact absurd h (hviolation _ _)
  split at h
  · exact absurd h (hviolation _ _)
  next hvalid =>
  obtain rfl := Option.some.inj (Except.ok.inj h)
  exact hvalid

/-- The configurations of a directory are those of its entries, in their order. -/
theorem loadAdapterConfigs_entries_eq_ok_iff {list : List DirEntry}
    {configs : List AdapterConfig} :
    loadAdapterConfigs toml strict dirPath (.entries list) = .ok configs ↔
      ∃ found, List.Forall₂ (fun entry cfg => loadEntry toml strict dirPath entry = .ok cfg) list
        found ∧ configs = found.reduceOption ∧ ¬ (strict ∧ configs = []) := by
  rw [loadAdapterConfigs, Checks.bind_eq_ok_iff]
  simp only [Checks.mapM_eq_ok_iff]
  constructor
  · rintro ⟨found, hfound, h⟩
    split at h
    · cases h
    · next hempty =>
      obtain rfl := Except.ok.inj h
      exact ⟨found, hfound, rfl, by simpa using hempty⟩
  · rintro ⟨found, hfound, rfl, hempty⟩
    exact ⟨found, hfound, by rw [if_neg (by simpa using hempty)]⟩

/-- All configurations of a directory have been accepted. -/
theorem validateAdapterConfig_of_mem {list : List DirEntry} {configs : List AdapterConfig}
    (h : loadAdapterConfigs toml strict dirPath (.entries list) = .ok configs) :
    ∀ cfg ∈ configs, validateAdapterConfig cfg = .ok () := by
  intro cfg hcfg
  obtain ⟨found, hfound, rfl, -⟩ := loadAdapterConfigs_entries_eq_ok_iff.mp h
  rw [List.reduceOption_mem_iff] at hcfg
  obtain ⟨entry, -, hentry⟩ := Checks.exists_mem_of_forall₂ hfound hcfg
  exact validateAdapterConfig_of_loadEntry hentry

/-- **The order of the directory does not matter**: listed in another order, it gives the same
configurations in another order. -/
theorem loadAdapterConfigs_perm {list list' : List DirEntry} {configs : List AdapterConfig}
    (h : loadAdapterConfigs toml strict dirPath (.entries list) = .ok configs)
    (hperm : list'.Perm list) : ∃ configs',
      loadAdapterConfigs toml strict dirPath (.entries list') = .ok configs' ∧
        configs'.Perm configs := by
  obtain ⟨found, hfound, rfl, hempty⟩ := loadAdapterConfigs_entries_eq_ok_iff.mp h
  obtain ⟨found', hfound', hperm'⟩ := List.perm_comp_forall₂ hperm hfound
  have hconfigs : found'.reduceOption.Perm found.reduceOption := hperm'.filterMap _
  refine ⟨_, loadAdapterConfigs_entries_eq_ok_iff.mpr ⟨found', hfound', rfl, ?_⟩, hconfigs⟩
  rintro ⟨hstrict, hnil⟩
  rw [hnil] at hconfigs
  exact hempty ⟨hstrict, hconfigs.symm.eq_nil⟩

end Order

end OlaCore
