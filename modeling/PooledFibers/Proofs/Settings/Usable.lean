import Mathlib.Algebra.Group.Nat.Defs
import Mathlib.Tactic.Common
import PooledFibers.FiberSystem.Global
import PooledFibers.Machine.Simulated
import PooledFibers.Proofs.Outcome

/-!
# Settings from the environment can be used

What is asked of settings (`Settings.Usable`) and what the reading of variables ensures are written
down independently. They agree: each variable by itself falls back to a usable default, and the
stack geometry falls back as a whole if only its parts are usable. So whatever the variables say,
the system of the process is made (`GlobalState.usable_of_variables`).
-/

namespace PooledFibers

namespace Settings

variable {s : Settings} {page k : Nat} {debug : Bool}

/-- Settings that can be used with pages of this size. -/
structure Usable (s : Settings) (page : Nat) : Prop where
  stackSize : s.stackSize ≠ 0
  stacksPerSlab : s.stacksPerSlab ≠ 0
  slab : s.slabBytes? page ≠ none
  registryShards : Word.isPowerOfTwo s.registryShards = true
  maxStackTraceDepth : s.maxStackTraceDepth ≠ 0

theorem validate_eq_ok_iff : s.validate page = .ok () ↔ s.Usable page := by
  constructor
  · intro h
    unfold validate defect? at h
    split_ifs at h with hsize hslab hbytes hshards hdepth
    exact ⟨hsize, hslab, hbytes, by simpa using hshards, hdepth⟩
  · rintro ⟨hsize, hslab, hbytes, hshards, hdepth⟩
    simp [validate, defect?, hsize, hslab, hbytes, hshards, hdepth]

/-- The largest page with which the default slab fits in 64 bits has `2 ^ 53` bytes. -/
theorem usable_standard (debug : Bool) (hk : k ≤ 53) : (standard debug).Usable (2 ^ k) := by
  have hslab : ∀ j ≤ 53, (standard true).slabBytes? (2 ^ j) ≠ none := by decide +kernel
  have hshards : Word.isPowerOfTwo 256 = true := by decide
  exact ⟨Nat.succ_ne_zero _, Nat.succ_ne_zero _, hslab k hk, hshards, Nat.succ_ne_zero _⟩

section Readings

variable {name : String} {raw? : Option String} {fallback : Nat}

theorem readPositive_value_ne_zero (h : fallback ≠ 0) :
    (readPositive name raw? fallback).value ≠ 0 := by
  simp only [readPositive]
  split_ifs with hzero
  · exact h
  · exact hzero

theorem isPowerOfTwo_readShards (h : Word.isPowerOfTwo fallback = true) :
    Word.isPowerOfTwo (readShards raw? fallback).value = true := by
  simp only [readShards]
  split_ifs with hpower
  · exact hpower
  · exact h

/-- What the variables are checked for one by one is kept when the default geometry is put back, and
the default geometry has a slab. -/
theorem usable_withUsableGeometry (hdefault : (standard s.verifyOnYield).Usable page)
    (hsize : s.stackSize ≠ 0) (hslab : s.stacksPerSlab ≠ 0)
    (hshards : Word.isPowerOfTwo s.registryShards = true) (hdepth : s.maxStackTraceDepth ≠ 0) :
    (s.withUsableGeometry page).value.Usable page := by
  unfold withUsableGeometry
  split_ifs with hbytes
  · exact ⟨hdefault.stackSize, hdefault.stacksPerSlab, hdefault.slab, hshards, hdepth⟩
  · exact ⟨hsize, hslab, hbytes, hshards, hdepth⟩

theorem usable_ofVariables (lookup : String → Option String)
    (hdefault : ∀ debug, (standard debug).Usable page) :
    (ofVariables debug lookup page).value.Usable page := by
  have hfallback := hdefault debug
  simp only [ofVariables]
  refine usable_withUsableGeometry (hdefault _) ?_ ?_ ?_ ?_
  · exact readPositive_value_ne_zero hfallback.stackSize
  · exact readPositive_value_ne_zero hfallback.stacksPerSlab
  · exact isPowerOfTwo_readShards hfallback.registryShards
  · exact readPositive_value_ne_zero hfallback.maxStackTraceDepth

end Readings

end Settings

open Outcome

/-- A system is made of any usable settings, whatever the provider of pages. -/
theorem FiberSystem.exists_ofSettings {host : Host} {settings : Settings}
    (h : settings.Usable host.pageSize) (provider : PageProvider) (policy : Option Bool) :
    ∃ s, FiberSystem.ofSettings host settings provider policy = .ok (.ok s)
      ∧ s.settings = settings := by
  have hregistry : Registry.ofShards settings.registryShards
      = .ok { shards := List.replicate settings.registryShards {} } := if_pos h.registryShards
  simp only [FiberSystem.ofSettings, Settings.validate_eq_ok_iff.2 h, hregistry, ok_bind]
  exact ⟨_, rfl, rfl⟩

namespace GlobalState

variable {host : Host} {lookup : String → Option String}

theorem exists_makeSystem (provider : PageProvider)
    (h : (Settings.ofVariables host.debugAssertions lookup host.pageSize).value.Usable
      host.pageSize) :
    ∃ system, makeSystem host lookup provider = .ok system
      ∧ system.settings
        = (Settings.ofVariables host.debugAssertions lookup host.pageSize).value := by
  obtain ⟨system, hsystem, hsettings⟩ := FiberSystem.exists_ofSettings h provider none
  refine ⟨system, ?_, hsettings⟩
  unfold makeSystem
  simp only [hsystem, ok_bind, pure_eq_ok]

theorem exists_useSystem (g : GlobalState) {provider : PageProvider} {system : FiberSystem}
    (h : makeSystem host lookup provider = .ok system) :
    ∃ used, g.useSystem host lookup provider = .ok used := by
  unfold useSystem
  cases g.system with
  | some present => exact ⟨_, rfl⟩
  | none => simp [h]

/-- Whatever the variables say and however the library was built, the settings read from them are
accepted, with pages of any size for which the default settings are; and on a host with such pages
the system of the process is there, made of these settings on first use. -/
theorem usable_of_variables (lookup : String → Option String) (provider : PageProvider) :
    (∀ debug, ∀ k ≤ 53,
        (Settings.ofVariables debug lookup (2 ^ k)).value.validate (2 ^ k) = .ok ())
      ∧ ∀ host : Host, (∃ k ≤ 53, host.pageSize = 2 ^ k) →
        (∃ system, makeSystem host lookup provider = .ok system
            ∧ system.settings
              = (Settings.ofVariables host.debugAssertions lookup host.pageSize).value
            ∧ system.settings.validate host.pageSize = .ok ())
          ∧ ∀ g : GlobalState, ∃ used, g.useSystem host lookup provider = .ok used := by
  have husable : ∀ debug, ∀ k ≤ 53,
      (Settings.ofVariables debug lookup (2 ^ k)).value.Usable (2 ^ k) := fun _ _ hk =>
    Settings.usable_ofVariables lookup fun debug => Settings.usable_standard debug hk
  refine ⟨fun debug k hk => Settings.validate_eq_ok_iff.2 (husable debug k hk), ?_⟩
  rintro host ⟨k, hk, hpage⟩
  have hread := husable host.debugAssertions k hk
  rw [← hpage] at hread
  obtain ⟨system, hsystem, hsettings⟩ := exists_makeSystem provider hread
  refine ⟨⟨system, hsystem, hsettings, ?_⟩, fun g => exists_useSystem g hsystem⟩
  exact hsettings ▸ Settings.validate_eq_ok_iff.2 hread

/-- On the simulated host, with stacks of which no slab has a 64-bit size, a shard count of zero and
a flag that is none. -/
theorem usable_of_refused_variables : ∃ lookup system,
    lookup = (fun name => match name with
      | "FIBER_STACK_SIZE" => some "18446744073709551615"
      | "FIBER_REGISTRY_SHARDS" => some "0"
      | "FIBER_VERIFY_ON_YIELD" => some "maybe"
      | _ => none)
      ∧ makeSystem .simulated lookup ({} : Simulation).provider = .ok system
      ∧ system.settings = .standard true
      ∧ system.settings.validate 4096 = .ok ()
      ∧ ∀ g : GlobalState, ∃ used,
          g.useSystem .simulated lookup ({} : Simulation).provider = .ok used := by
  let lookup (name : String) : Option String :=
    match name with
    | "FIBER_STACK_SIZE" => some "18446744073709551615"
    | "FIBER_REGISTRY_SHARDS" => some "0"
    | "FIBER_VERIFY_ON_YIELD" => some "maybe"
    | _ => none
  obtain ⟨-, h⟩ := usable_of_variables lookup ({} : Simulation).provider
  obtain ⟨⟨system, hsystem, hsettings, hvalid⟩, hused⟩ :=
    h .simulated ⟨12, by decide, by decide⟩
  have hvalue : (Settings.ofVariables true lookup 4096).value = .standard true := by
    decide +kernel
  exact ⟨lookup, system, rfl, hsystem, hsettings.trans hvalue, hvalid, hused⟩

end GlobalState

end PooledFibers
