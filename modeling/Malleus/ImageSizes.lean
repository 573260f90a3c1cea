import Malleus.ImageRecovery
import Malleus.Start

/-! Sizes in bytes, from sizes in GiB that nothing bounds from above.

A configuration is refused for a zero and for nothing else. `sizes_are_exact` says for
which of the others the sizes in bytes are what they should be, and `disk_holds_base`
when the root disk has room for the base image. -/
namespace Malleus.Image
open Effect Strings Storage

/-! ### The multiplications -/

/-- Multiplication that stops on overflow, as a debug build does. -/
def checkedMul (a b : UInt64) : Option UInt64 :=
  if a.toNat * b.toNat < UInt64.size then some (a * b) else none

/-- `sizeBytes`, product after product. -/
def checkedSizeBytes (gib : UInt64) : Option UInt64 := do
  let mib ← checkedMul gib 1024
  let kib ← checkedMul mib 1024
  checkedMul kib 1024

/-- The size is the mathematical one, and no product on the way overflows. -/
structure Exact (n : UInt64) : Prop where
  size : (sizeBytes n).toNat = gib n
  products : checkedSizeBytes n = some (sizeBytes n)

/-- A product that fits is the product of the numbers. -/
theorem checkedMul_eq {a b : UInt64} (h : a.toNat * b.toNat < UInt64.size) :
    checkedMul a b = some (a * b) ∧ (a * b).toNat = a.toNat * b.toNat := by
  refine ⟨if_pos h, ?_⟩
  rw [UInt64.toNat_mul]
  exact Nat.mod_eq_of_lt h

/-- Without an upper bound the size is what is left of it in 64 bits. -/
theorem sizeBytes_mod (n : UInt64) : (sizeBytes n).toNat = gib n % UInt64.size := by
  simp only [sizeBytes, gib, UInt64.toNat_mul, UInt64.toNat_ofNat, UInt64.size]
  omega

/-- The limit is 2 to the power of 34 GiB. -/
theorem exact_iff (n : UInt64) : Exact n ↔ n.toNat < 17179869184 := by
  constructor
  · intro h
    have hsize := h.size
    rw [sizeBytes_mod] at hsize
    have hlt : gib n < UInt64.size := by
      rw [← hsize]
      exact Nat.mod_lt _ (by decide)
    rw [gib, UInt64.size] at hlt
    omega
  · intro h
    have hfits : gib n < UInt64.size := by
      rw [gib, UInt64.size]
      omega
    have hk : (1024 : UInt64).toNat = 1024 := rfl
    obtain ⟨hmib, hmibNat⟩ := checkedMul_eq (a := n) (b := 1024) (by rw [hk, UInt64.size]; omega)
    obtain ⟨hkib, hkibNat⟩ := checkedMul_eq (a := n * 1024) (b := 1024) (by
      rw [hmibNat, hk, UInt64.size]
      omega)
    obtain ⟨hb, -⟩ := checkedMul_eq (a := n * 1024 * 1024) (b := 1024) (by
      rw [hkibNat, hmibNat, hk, UInt64.size]
      omega)
    refine ⟨sizeBytes_toNat hfits, ?_⟩
    rw [checkedSizeBytes, hmib, Option.bind_eq_bind, Option.bind_some, hkib, Option.bind_some, hb]
    rfl

/-- **The sizes of both disks are exact below 2^34 GiB, and no further.** -/
theorem sizes_are_exact (cfg : Config) : (Exact cfg.rootDiskGib ∧ Exact cfg.poolDiskGib) ↔
    cfg.rootDiskGib.toNat < 17179869184 ∧ cfg.poolDiskGib.toNat < 17179869184 := by
  rw [exact_iff, exact_iff]

/-- A root disk of 2^34 GiB: an integer of TOML, and not zero. -/
def enormous : Config := {Config.default with rootDiskGib := 17179869184}

def asking : Host := ⟨"/s".toList, "aarch64".toList, fun _ => .ok enormous, none, none⟩

/-- The program goes on with it, to a disk of no bytes. -/
theorem enormous_wraps :
    (loadConfig asking .none (noFiles.put .configToml [])).1 = .ok enormous ∧
      sizeBytes enormous.rootDiskGib = 0 ∧ gib enormous.rootDiskGib = 18446744073709551616 ∧
      checkedSizeBytes enormous.rootDiskGib = none ∧ ¬ Exact enormous.rootDiskGib := by
  have hsize : sizeBytes enormous.rootDiskGib = 0 := by decide
  have hgib : gib enormous.rootDiskGib = 18446744073709551616 := by decide
  refine ⟨by decide +kernel, hsize, hgib, by decide, fun hexact => ?_⟩
  have heq := hexact.size
  rw [hsize, hgib] at heq
  exact absurd heq (by decide)

/-! ### The root disk and its base image -/

/-- The root disk begins with the whole base image. -/
def HoldsBase (b : Bytes) (d : StateDisk) : Prop := ∃ root, d.file .rootRaw = some root ∧ b <+: root

section Root
variable {names : Names} {env : ImageEnv} {cfg : Config} {d : StateDisk} {b : Bytes} {arch : Text}

/-- The root disk that a call makes is the base image at the computed size, if that
passes the check; a size that `set_len` refuses leaves the copy. -/
theorem root_after (harch : debianArch names.arch = some arch) (hfault : ∀ site, env.fault site = .none)
    (hb : Fetchable env d b) (hok : Accepted b) (hroot : d.file .rootRaw = none) :
    (after names cfg d env).file .rootRaw =
      if lengthLimit ≤ (sizeBytes cfg.rootDiskGib).toNat then some b
      else if Accepted (resize (sizeBytes cfg.rootDiskGib).toNat b) then
        some (resize (sizeBytes cfg.rootDiskGib).toNat b)
      else none := by
  have hrootOf : rootOf env cfg d = resize (sizeBytes cfg.rootDiskGib).toNat b := by
    rw [rootOf, hroot, Option.getD_none, hb.baseOf_eq]
  rw [after, ensureImages_apply harch hfault hb.curl, hb.baseOf_eq, if_pos hok, hrootOf]
  by_cases hlen : lengthLimit ≤ (sizeBytes cfg.rootDiskGib).toNat
  · have hover : Oversized .rootRaw cfg.rootDiskGib d := ⟨hroot, hlen⟩
    rw [if_pos hover, if_pos hlen, Disk.put_self]
  rw [if_neg fun hover => hlen hover.2, if_neg hlen]
  have hkept : ∀ s : StateDisk, ∀ p, (s.put .poolRaw p).file .rootRaw = s.file .rootRaw :=
    fun s p => s.put_of_ne (by decide) p
  by_cases hokr : Accepted (resize (sizeBytes cfg.rootDiskGib).toNat b)
  · rw [if_pos hokr, if_pos hokr, ← hrootOf]
    by_cases hover : Oversized .poolRaw cfg.poolDiskGib d
    · rw [if_pos hover, hkept, withRoot, Disk.put_self]
    · rw [if_neg hover, hkept, withRoot, Disk.put_self]
  · rw [if_neg hokr, if_neg hokr, Disk.erase_self]

/-- What is cut off is not held. -/
theorem length_of_holdsBase (harch : debianArch names.arch = some arch)
    (hfault : ∀ site, env.fault site = .none) (hb : Fetchable env d b) (hok : Accepted b)
    (hroot : d.file .rootRaw = none) (hlen : ¬ lengthLimit ≤ (sizeBytes cfg.rootDiskGib).toNat)
    (h : HoldsBase b (after names cfg d env)) : b.length ≤ (sizeBytes cfg.rootDiskGib).toNat := by
  obtain ⟨root, hfile, hholds⟩ := h
  rw [root_after harch hfault hb hok hroot, if_neg hlen] at hfile
  split at hfile
  · obtain rfl := Option.some.inj hfile
    have hle := hholds.length_le
    rwa [length_resize] at hle
  · cases hfile

/-- **A new root disk holds the whole base image exactly when its size, as the
multiplication leaves it, is no less than the image's**, or is one that `set_len`
refuses before it cuts anything off. -/
theorem disk_holds_base (harch : debianArch names.arch = some arch)
    (hfault : ∀ site, env.fault site = .none) (hb : Fetchable env d b) (hok : Accepted b)
    (hroot : d.file .rootRaw = none) :
    HoldsBase b (after names cfg d env) ↔ b.length ≤ gib cfg.rootDiskGib % UInt64.size ∨
      lengthLimit ≤ gib cfg.rootDiskGib % UInt64.size := by
  rw [← sizeBytes_mod]
  by_cases hlen : lengthLimit ≤ (sizeBytes cfg.rootDiskGib).toNat
  · rw [HoldsBase, root_after harch hfault hb hok hroot, if_pos hlen]
    exact iff_of_true ⟨b, rfl, List.prefix_rfl⟩ (Or.inr hlen)
  rw [or_iff_left hlen]
  constructor
  · exact length_of_holdsBase harch hfault hb hok hroot hlen
  · intro hsize
    rw [HoldsBase, root_after harch hfault hb hok hroot, if_neg hlen, if_pos (hok.resize hsize)]
    refine ⟨_, rfl, ?_⟩
    rw [resize_of_le hsize]
    exact List.prefix_append _ _

end Root

/-- A call that downloads the image without a fault. -/
def delivering (b : Bytes) : ImageEnv := {noFault with remote := b}

/-- What `curl` delivers into an empty directory is the base image. -/
theorem fetchable_remote (b : Bytes) : Fetchable (delivering b) noFiles b :=
  Or.inr ⟨rfl, rfl, rfl⟩

theorem length_oneSector : oneSector.length = 512 := by decide +kernel

/-- The default size has room for one sector. -/
theorem default_holds_sector : HoldsBase oneSector (after onArm Config.default noFiles noFault) := by
  have hsize : oneSector.length ≤ gib Config.default.rootDiskGib % UInt64.size := by
    rw [length_oneSector]
    decide
  exact (disk_holds_base onArm_arch (fun _ => rfl) (fetchable_remote oneSector) oneSector_accepted
    rfl).mpr (Or.inl hsize)

/-- A disk image of `n` bytes more than one sector. -/
def longer (n : Nat) : Bytes := oneSector ++ List.replicate n 0

theorem length_longer (n : Nat) : (longer n).length = 512 + n := by
  rw [longer, List.length_append, List.length_replicate, length_oneSector]

theorem longer_accepted (n : Nat) : Accepted (longer n) := by
  rw [Accepted, longer, List.take_append]
  exact looksLikeDiskImage_append oneSector_accepted _

/-- The root disk that a call makes of it has the configured size, and no room for it. -/
theorem root_of_longer (n : Nat) (h : (sizeBytes smallest.rootDiskGib).toNat < 512 + n) :
    ∃ root, (after onArm smallest noFiles (delivering (longer n))).file .rootRaw = some root ∧
      root.length = (sizeBytes smallest.rootDiskGib).toNat ∧ ¬ longer n <+: root := by
  have hok := longer_accepted n
  have hheader : headerLen ≤ (sizeBytes smallest.rootDiskGib).toNat := by decide
  have hroot : (after onArm smallest noFiles (delivering (longer n))).file .rootRaw = _ :=
    root_after onArm_arch (fun _ => rfl) (fetchable_remote (longer n)) hok rfl
  rw [if_neg (by decide), if_pos (hok.resize_header hheader)] at hroot
  refine ⟨_, hroot, length_resize _ _, fun hprefix => ?_⟩
  have hle := hprefix.length_le
  rw [length_resize, length_longer] at hle
  exact Nat.lt_irrefl _ (Nat.lt_of_lt_of_le h hle)

/-- One GiB is accepted, and cuts an image off that is one sector longer. -/
theorem base_cut_off : smallest.validate = .ok () ∧ Accepted (longer 1073741824) ∧
    ∃ root, (after onArm smallest noFiles (delivering (longer 1073741824))).file .rootRaw =
        some root ∧ root.length = (sizeBytes smallest.rootDiskGib).toNat ∧
      ¬ longer 1073741824 <+: root := by
  have hsize : (sizeBytes smallest.rootDiskGib).toNat < 512 + 1073741824 := by decide
  exact ⟨by decide, longer_accepted _, root_of_longer 1073741824 hsize⟩

end Malleus.Image
