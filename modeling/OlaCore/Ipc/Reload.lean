import OlaCore.Ipc.VerifyOnce
import OlaCore.Policy.Parser

set_option relaxedAutoImplicit false
set_option autoImplicit false

/-!
# Reloading

The allowlist and the policy are loaded when the daemon starts and reloaded on a hangup signal
(`ipc/unix_socket`). At startup a daemon that is not in production runs without an allowlist when
the file cannot be read; a reload then keeps the old state. Both parts are built before anything is
replaced.

Files are given by what reading them gave, and the syntax of TOML is a parameter.

## Main definitions

* `OlaCore.ReloadableState.load`, `OlaCore.ReloadableState.reload` — the two loaders.
* `OlaCore.reloadState` — what a hangup signal does.

## Main results

* `OlaCore.reload_eq_ok_iff` — when a reload succeeds.
* `OlaCore.load_of_reload` — a reload that succeeds builds what a start would build.
-/

namespace OlaCore

/-- What reading the two files gave. -/
structure ReloadFiles where
  allowlist : Except String String
  policy : Except String String

section Reload

variable (toml : String → Except String (List RawPolicyRule)) (config : Config)

/-- The allowlist of a file, or the error. -/
def Allowlist.ofFile (file : Except String String) (strict : Bool) : Except String Allowlist :=
  match Allowlist.new.loadFromFileWithOptions file strict with
  | (.error e, _) => .error e
  | (.ok (), allowlist) => .ok allowlist

/-- The allowlist that the daemon starts with. Outside production an error is ignored. -/
def loadAllowlist (files : ReloadFiles) : Except String Allowlist :=
  if config.isProdMode then
    (Allowlist.ofFile files.allowlist true).mapError fun _ =>
      "Failed to load allowlist from " ++ config.allowlistPath ++ " in production mode"
  else .ok (Allowlist.new.loadFromFileWithOptions files.allowlist false).2

/-- The state that the daemon starts with. -/
def ReloadableState.load (files : ReloadFiles) : Except String ReloadableState := do
  let allowlist ← loadAllowlist config files
  let policyEngine ← PolicyEngine.fromConfigWithOwner toml files.policy config.maxResultAgeSecs
  return ⟨allowlist, policyEngine⟩

/-- The state that a reload builds. -/
def ReloadableState.reload (files : ReloadFiles) : Except String ReloadableState := do
  let allowlist ← Allowlist.ofFile files.allowlist config.isProdMode
  let policyEngine ← PolicyEngine.fromConfigWithOwner toml files.policy config.maxResultAgeSecs
  return ⟨allowlist, policyEngine⟩

/-- The live state after a hangup signal: the old one is kept unless both parts can be built. -/
def reloadState (live : ReloadableState) (files : ReloadFiles) : ReloadableState :=
  match ReloadableState.reload toml config files with
  | .ok newState => newState
  | .error _ => live

variable {toml config} {files : ReloadFiles} {st : ReloadableState}

/-- An allowlist that was loaded without error. -/
theorem Allowlist.ofFile_eq_ok_iff {file : Except String String} {strict : Bool}
    {allowlist : Allowlist} : Allowlist.ofFile file strict = .ok allowlist ↔
      Allowlist.new.loadFromFileWithOptions file strict = (.ok (), allowlist) := by
  unfold ofFile
  split
  · next heq => simp [heq]
  · next heq => simp [heq]

/-- **When a reload succeeds**: both parts can be built, and they are the parts of the state. -/
theorem reload_eq_ok_iff : ReloadableState.reload toml config files = .ok st ↔
    Allowlist.new.loadFromFileWithOptions files.allowlist config.isProdMode =
        (.ok (), st.allowlist) ∧
      PolicyEngine.fromConfigWithOwner toml files.policy config.maxResultAgeSecs =
        .ok st.policyEngine := by
  rw [ReloadableState.reload, Checks.bind_eq_ok_iff]
  constructor
  · rintro ⟨allowlist, hallowlist, h⟩
    obtain ⟨engine, hengine, hst⟩ := Checks.bind_eq_ok_iff.mp h
    obtain rfl := Except.ok.inj hst
    exact ⟨Allowlist.ofFile_eq_ok_iff.mp hallowlist, hengine⟩
  · rintro ⟨hallowlist, hengine⟩
    exact ⟨st.allowlist, Allowlist.ofFile_eq_ok_iff.mpr hallowlist,
      Checks.bind_eq_ok_iff.mpr ⟨st.policyEngine, hengine, rfl⟩⟩

/-- **A reload that succeeds builds what a start would build** from the same files. -/
theorem load_of_reload (h : ReloadableState.reload toml config files = .ok st) :
    ReloadableState.load toml config files = .ok st := by
  obtain ⟨hallowlist, hengine⟩ := reload_eq_ok_iff.mp h
  rw [ReloadableState.load, Checks.bind_eq_ok_iff]
  refine ⟨st.allowlist, ?_, Checks.bind_eq_ok_iff.mpr ⟨st.policyEngine, hengine, rfl⟩⟩
  unfold loadAllowlist
  split
  · next hprod =>
    rw [hprod] at hallowlist
    exact Checks.mapError_eq_ok_iff.mpr (Allowlist.ofFile_eq_ok_iff.mpr hallowlist)
  · next hprod =>
    rw [Bool.eq_false_iff.mpr hprod] at hallowlist
    rw [hallowlist]

/-- A reload that fails keeps the live state. -/
theorem reloadState_of_error {live : ReloadableState}
    (h : (∃ e, (Allowlist.new.loadFromFileWithOptions files.allowlist config.isProdMode).1 =
        .error e) ∨
      ∃ e, PolicyEngine.fromConfigWithOwner toml files.policy config.maxResultAgeSecs = .error e) :
    reloadState toml config live files = live := by
  unfold reloadState
  split
  · next newState hreload =>
    obtain ⟨hallowlist, hengine⟩ := reload_eq_ok_iff.mp hreload
    rcases h with ⟨e, he⟩ | ⟨e, he⟩
    · rw [hallowlist] at he
      cases he
    · rw [hengine] at he
      cases he
  · rfl

/-- A reload that succeeds replaces both parts together. -/
theorem reloadState_of_ok {live : ReloadableState}
    (h : ReloadableState.reload toml config files = .ok st) :
    reloadState toml config live files = st := by
  rw [reloadState, h]

end Reload

end OlaCore
