import Malleus.Files

/-! `config.rs`: the user's settings, their defaults and their validation. -/
namespace Malleus
open Strings

/-- `config.toml`, in the units of its fields. -/
structure Config where
  cpus : UInt32
  memoryMib : UInt64
  rootDiskGib : UInt64
  poolDiskGib : UInt64
  deriving DecidableEq, Repr

/-- The field that is zero, with what it holds. -/
inductive ConfigError where
  | cpus (got : UInt32)
  | memoryMib (got : UInt64)
  | rootDiskGib (got : UInt64)
  | poolDiskGib (got : UInt64)
  deriving DecidableEq, Repr

namespace Config

def default : Config := {cpus := 4, memoryMib := 4096, rootDiskGib := 20, poolDiskGib := 50}

/-- The fields are checked in order, and the first that is zero is reported. -/
def validate (cfg : Config) : Except ConfigError Unit := do
  if cfg.cpus = 0 then throw (.cpus cfg.cpus)
  if cfg.memoryMib = 0 then throw (.memoryMib cfg.memoryMib)
  if cfg.rootDiskGib = 0 then throw (.rootDiskGib cfg.rootDiskGib)
  if cfg.poolDiskGib = 0 then throw (.poolDiskGib cfg.poolDiskGib)

/-- No field of an accepted configuration is zero. -/
theorem validate_ok {cfg : Config} : cfg.validate = .ok () ↔
    cfg.cpus ≠ 0 ∧ cfg.memoryMib ≠ 0 ∧ cfg.rootDiskGib ≠ 0 ∧ cfg.poolDiskGib ≠ 0 := by
  unfold validate
  by_cases hc : cfg.cpus = 0 <;> by_cases hm : cfg.memoryMib = 0 <;>
    by_cases hr : cfg.rootDiskGib = 0 <;> by_cases hp : cfg.poolDiskGib = 0 <;>
    simp [hc, hm, hr, hp, bind, Except.bind, pure, Except.pure, throw, throwThe, MonadExceptOf.throw]

/-- A rejected configuration is rejected for a field that is zero. -/
theorem validate_error {cfg : Config} {e : ConfigError} (h : cfg.validate = .error e) :
    e = .cpus 0 ∨ e = .memoryMib 0 ∨ e = .rootDiskGib 0 ∨ e = .poolDiskGib 0 := by
  unfold validate at h
  by_cases hc : cfg.cpus = 0 <;> by_cases hm : cfg.memoryMib = 0 <;>
    by_cases hr : cfg.rootDiskGib = 0 <;> by_cases hp : cfg.poolDiskGib = 0 <;>
    simp [hc, hm, hr, hp, bind, Except.bind, pure, Except.pure, throw, throwThe,
      MonadExceptOf.throw] at h <;> simp [← h]

theorem default_valid : default.validate = .ok () := by decide

end Config

end Malleus
