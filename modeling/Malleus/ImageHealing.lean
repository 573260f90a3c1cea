import Malleus.ImageRecovery

/-! Artifacts that fail the header check, and the calls that replace them.

A call that rejects an artifact takes it away, and the next one makes it anew.
`images_heal` says that this ends: without faults and with good downloads at most two
calls fail, the later ones succeed, and nothing else is lost on the way. -/
namespace Malleus.Image
open Effect Strings Storage

/-- One call of `ensure_images`: what it meets, and the settings it is given. -/
abbrev Call := ImageEnv × Config

/-- The state directory after a call. -/
def afterCall (names : Names) (d : StateDisk) (c : Call) : StateDisk := after names c.2 d c.1

/-- No file operation fails, a download delivers a disk image, and the sizes are
of at least one GiB and such that `set_len` takes them. -/
structure Healthy (c : Call) : Prop where
  fault : ∀ site, c.1.fault site = .none
  curl : c.1.curl = .delivers
  remote : Accepted c.1.remote
  root : 1 ≤ c.2.rootDiskGib.toNat ∧ gib c.2.rootDiskGib < lengthLimit
  pool : 1 ≤ c.2.poolDiskGib.toNat ∧ gib c.2.poolDiskGib < lengthLimit

/-- What stands under the name passes the check, if anything does. -/
def Passes (f : File) (d : StateDisk) : Prop := ∀ b ∈ d.file f, Accepted b

instance (f : File) (d : StateDisk) : Decidable (Passes f d) :=
  inferInstanceAs (Decidable (∀ b ∈ d.file f, Accepted b))

/-- The artifacts that the header check will reject. -/
def rejects (d : StateDisk) : Nat :=
  (if Passes .baseImage d then 0 else 1) + (if Passes .rootRaw d then 0 else 1)

/-- The base image and the root disk, once each. -/
theorem rejects_le (d : StateDisk) : rejects d ≤ 2 := by
  unfold rejects
  split <;> split <;> decide

/-- The call rejects one artifact, takes it away, and leaves the others that were there. -/
def Rejects (names : Names) (d : StateDisk) (c : Call) : Prop :=
  ∃ f b arch header, debianArch names.arch = some arch ∧ f ∈ imageFiles ∧ d.file f = some b ∧
    ¬ Accepted b ∧
    (ensureImages names c.1 c.2 d).1 =
      .error (.notADiskImage (File.display names.stateDir arch f) header) ∧
    (afterCall names d c).file f = none ∧
    ∀ g, g ≠ f → ∀ b, d.file g = some b → (afterCall names d c).file g = some b

/-- The call succeeds, and what it checked is there and passes. -/
def Succeeds (names : Names) (d : StateDisk) (c : Call) : Prop :=
  (ensureImages names c.1 c.2 d).1 = .ok () ∧ Imaged (afterCall names d c) ∧
    ∀ g b, d.file g = some b → (afterCall names d c).file g = some b

/-! ### One call -/

section Call
variable {names : Names} {env : ImageEnv} {cfg : Config} {d : StateDisk} {c : Call}

theorem withBase_keeps {f : File} {b : Bytes} (h : d.file f = some b) :
    (withBase env d).file f = some b := by
  by_cases hf : f = .baseImage
  · rw [hf] at h ⊢
    rw [withBase, Disk.put_self, baseOf, h, Option.getD_some]
  · rw [withBase, Disk.put_of_ne _ hf]
    exact h

/-- What is there is neither fetched nor copied again. -/
theorem withRoot_keeps {f : File} {b : Bytes} (h : d.file f = some b) :
    (withRoot env cfg d).file f = some b := by
  by_cases hf : f = .rootRaw
  · rw [hf] at h ⊢
    rw [withRoot, Disk.put_self, rootOf, h, Option.getD_some]
  · rw [withRoot, Disk.put_of_ne _ hf]
    exact withBase_keeps h

theorem withPool_keeps {f : File} {b : Bytes} (h : d.file f = some b) :
    ((withRoot env cfg d).put .poolRaw (poolOf cfg d)).file f = some b := by
  by_cases hf : f = .poolRaw
  · rw [hf] at h ⊢
    rw [Disk.put_self, poolOf, h, Option.getD_some]
  · rw [Disk.put_of_ne _ hf]
    exact withRoot_keeps h

/-- A base image that is downloaded passes, so one that does not was there. -/
theorem Healthy.base_there (hc : Healthy c) (h : ¬ Accepted (baseOf c.1 d)) :
    d.file .baseImage = some (baseOf c.1 d) := by
  rw [baseOf] at h ⊢
  cases hb : d.file .baseImage with
  | some b => rfl
  | none =>
    rw [hb] at h
    exact absurd hc.remote h

/-- No disk is asked for that no file can hold. -/
theorem Healthy.not_oversized (hc : Healthy c) :
    ¬ Oversized .rootRaw c.2.rootDiskGib d ∧ ¬ Oversized .poolRaw c.2.poolDiskGib d := by
  have hroot := sizeBytes_lt_of_gib hc.root.2
  have hpool := sizeBytes_lt_of_gib hc.pool.2
  exact ⟨not_oversized_of_lt hroot, not_oversized_of_lt hpool⟩

theorem Healthy.headerLen_le (hc : Healthy c) : headerLen ≤ (sizeBytes c.2.rootDiskGib).toNat := by
  obtain ⟨hone, hfits⟩ := hc.root
  rw [sizeBytes_toNat (gib_fits hfits), gib, headerLen]
  omega

/-- A root disk made from a good base image passes, however it is resized. -/
theorem Healthy.root_there (hc : Healthy c) (hbase : Accepted (baseOf c.1 d))
    (h : ¬ Accepted (rootOf c.1 c.2 d)) : d.file .rootRaw = some (rootOf c.1 c.2 d) := by
  rw [rootOf] at h ⊢
  cases hb : d.file .rootRaw with
  | some b => rfl
  | none =>
    rw [hb] at h
    exact absurd (hbase.resize_header hc.headerLen_le) h

theorem not_passes {f : File} {b : Bytes} (hf : d.file f = some b) (h : ¬ Accepted b) :
    ¬ Passes f d := fun hpass => h (hpass b hf)

theorem passes_of_file {f : File} {b : Bytes} (hf : d.file f = some b) (h : Accepted b) :
    Passes f d := by
  intro b' hb'
  obtain rfl : b = b' := Option.some.inj (hf.symm.trans hb')
  exact h

/-- A file that is not there does not fail the check. -/
theorem passes_of_none {f : File} (hf : d.file f = none) : Passes f d := by
  intro b hb
  rw [hf] at hb
  cases hb

theorem passes_of_same {d' : StateDisk} {f : File} (h : d'.file f = d.file f) :
    Passes f d' ↔ Passes f d := by
  rw [Passes, Passes, h]

/-- A file that is taken away, and nothing else. -/
theorem erase_keeps {d' : StateDisk} {f : File} (h : ∀ g b, d.file g = some b → d'.file g = some b) :
    ∀ g, g ≠ f → ∀ b, d.file g = some b → (d'.erase f).file g = some b := by
  intro g hg b hb
  rw [Disk.erase_of_ne _ hg]
  exact h g b hb

variable {arch : Text} (harch : debianArch names.arch = some arch)
include harch

/-- A bad base image is taken away, and the root disk left for the next call to check. -/
theorem rejects_base (hc : Healthy c) (h : ¬ Accepted (baseOf c.1 d)) :
    Rejects names d c ∧ rejects (afterCall names d c) < rejects d := by
  have happly : ensureImages names c.1 c.2 d = _ := ensureImages_apply harch hc.fault fun _ => hc.curl
  rw [if_neg h] at happly
  have hthere := hc.base_there h
  have hstep : afterCall names d c = (withBase c.1 d).erase .baseImage := by
    rw [afterCall, after, happly]
  have hroot : (afterCall names d c).file .rootRaw = d.file .rootRaw := by
    rw [hstep, Disk.erase_of_ne _ (by decide), withBase, Disk.put_of_ne _ (by decide)]
    rfl
  have hbase : (afterCall names d c).file .baseImage = none := by rw [hstep, Disk.erase_self]
  constructor
  · refine ⟨.baseImage, _, arch, _, harch, by decide, hthere, h, by rw [happly], hbase, ?_⟩
    rw [hstep]
    exact erase_keeps fun _ _ => withBase_keeps
  · rw [rejects, rejects, if_pos (passes_of_none hbase), if_neg (not_passes hthere h),
      if_congr (passes_of_same hroot) rfl rfl]
    omega

/-- A bad root disk is taken away, and nothing is left to reject. -/
theorem rejects_root (hc : Healthy c) (hbase : Accepted (baseOf c.1 d))
    (h : ¬ Accepted (rootOf c.1 c.2 d)) :
    Rejects names d c ∧ rejects (afterCall names d c) < rejects d := by
  have happly : ensureImages names c.1 c.2 d = _ := ensureImages_apply harch hc.fault fun _ => hc.curl
  rw [if_pos hbase, if_neg hc.not_oversized.1, if_neg h] at happly
  have hthere := hc.root_there hbase h
  have hstep : afterCall names d c = (withRoot c.1 c.2 d).erase .rootRaw := by
    rw [afterCall, after, happly]
  have hnone : (afterCall names d c).file .rootRaw = none := by rw [hstep, Disk.erase_self]
  have hfile : (afterCall names d c).file .baseImage = some (baseOf c.1 d) := by
    rw [hstep, Disk.erase_of_ne _ (by decide), withRoot, Disk.put_of_ne _ (by decide), withBase,
      Disk.put_self]
  constructor
  · refine ⟨.rootRaw, _, arch, _, harch, by decide, hthere, h, by rw [happly], hnone, ?_⟩
    rw [hstep]
    exact erase_keeps fun _ _ => withRoot_keeps
  · rw [rejects, rejects, if_pos (passes_of_file hfile hbase), if_pos (passes_of_none hnone),
      if_neg (not_passes hthere h)]
    omega

/-- With two images that pass, a call succeeds and leaves nothing to reject. -/
theorem succeeds (hc : Healthy c) (hbase : Accepted (baseOf c.1 d))
    (hroot : Accepted (rootOf c.1 c.2 d)) :
    Succeeds names d c ∧ rejects (afterCall names d c) = 0 := by
  have happly : ensureImages names c.1 c.2 d = _ := ensureImages_apply harch hc.fault fun _ => hc.curl
  rw [if_pos hbase, if_neg hc.not_oversized.1, if_pos hroot, if_neg hc.not_oversized.2] at happly
  have hstep : afterCall names d c = (withRoot c.1 c.2 d).put .poolRaw (poolOf c.2 d) := by
    rw [afterCall, after, happly]
  have hbaseFile : (afterCall names d c).file .baseImage = some (baseOf c.1 d) := by
    rw [hstep, Disk.put_of_ne _ (by decide), withRoot, Disk.put_of_ne _ (by decide), withBase,
      Disk.put_self]
  have hrootFile : (afterCall names d c).file .rootRaw = some (rootOf c.1 c.2 d) := by
    rw [hstep, Disk.put_of_ne _ (by decide), withRoot, Disk.put_self]
  have hpoolFile : (afterCall names d c).file .poolRaw = some (poolOf c.2 d) := by
    rw [hstep, Disk.put_self]
  constructor
  · refine ⟨by rw [happly], ⟨⟨_, hbaseFile, hbase⟩, ⟨_, hrootFile, hroot⟩, ⟨_, hpoolFile⟩⟩, ?_⟩
    rw [hstep]
    exact fun _ _ => withPool_keeps
  · rw [rejects, if_pos (passes_of_file hbaseFile hbase), if_pos (passes_of_file hrootFile hroot)]

/-- A call rejects one artifact and leaves one less to reject, or succeeds and leaves none. -/
theorem call_settles (hc : Healthy c) :
    (Rejects names d c ∧ rejects (afterCall names d c) < rejects d) ∨
      (Succeeds names d c ∧ rejects (afterCall names d c) = 0) := by
  by_cases hbase : Accepted (baseOf c.1 d)
  · by_cases hroot : Accepted (rootOf c.1 c.2 d)
    · exact Or.inr (succeeds harch hc hbase hroot)
    · exact Or.inl (rejects_root harch hc hbase hroot)
  · exact Or.inl (rejects_base harch hc hbase)

/-- **At most two calls reject an artifact, each taking away that one alone, and all
later calls succeed**, whatever stood under the three names at first. -/
theorem images_heal (d : StateDisk) {calls : List Call} (hcalls : ∀ c ∈ calls, Healthy c) :
    ∃ early late, calls = early ++ late ∧ early.length ≤ 2 ∧
      Runs.Along (afterCall names) (Rejects names) d early ∧
      Runs.Along (afterCall names) (Succeeds names) (Runs.run (afterCall names) d early) late := by
  have halong : Runs.Along (afterCall names) (fun _ c => Healthy c) d calls :=
    Runs.along_of_forall fun c hc _ => hcalls c hc
  obtain ⟨early, late, hsplit, hlength, hearly, hlate⟩ :=
    Runs.run_settles (fun d c hc => call_settles harch hc) halong
  exact ⟨early, late, hsplit, Nat.le_trans hlength (rejects_le d), hearly, hlate⟩

end Call

/-- A poisoned cache and the clone of it. -/
def poisoned : StateDisk := (noFiles.put .baseImage [0]).put .rootRaw [0]

theorem noFault_healthy : Healthy (noFault, smallest) :=
  ⟨fun _ => rfl, rfl, oneSector_accepted, by decide, by decide⟩

theorem poisoned_heals : ∃ early late,
    [(noFault, smallest), (noFault, smallest), (noFault, smallest)] = early ++ late ∧
      early.length ≤ 2 ∧ Runs.Along (afterCall onArm) (Rejects onArm) poisoned early ∧
      Runs.Along (afterCall onArm) (Succeeds onArm) (Runs.run (afterCall onArm) poisoned early) late := by
  apply images_heal onArm_arch
  intro c hc
  simp only [List.mem_cons, List.not_mem_nil, or_false, or_self] at hc
  rw [hc]
  exact noFault_healthy

end Malleus.Image
