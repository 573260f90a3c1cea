import Malleus.Library.Runs
import Malleus.Image

/-! Images across interrupted calls.

`ensure_images` makes each artifact in more than one step and trusts whatever
already stands under its name, apart from the header check. `images_complete`
says that every call that succeeds leaves complete disks, as long as no call is
cut off where the header check would take the half-made artifact for a whole one
(`Clean`); `unsized_root_disk` is what happens otherwise. -/
namespace Malleus.Image
open Effect Strings Storage

/-- The state directory after one call. -/
def after (names : Names) (cfg : Config) (d : StateDisk) (env : ImageEnv) : StateDisk :=
  (ensureImages names env cfg d).2

/-- A size in bytes, before it is counted in 64 bits. -/
def gib (n : UInt64) : Nat := n.toNat * 1024 * 1024 * 1024

/-- The product does not wrap, if it fits. -/
theorem sizeBytes_toNat {n : UInt64} (h : gib n < UInt64.size) : (sizeBytes n).toNat = gib n := by
  unfold gib at *
  simp only [UInt64.size, sizeBytes, UInt64.toNat_mul, UInt64.toNat_ofNat] at *
  omega

/-- What a file can hold is less than what 64 bits can count. -/
theorem gib_fits {n : UInt64} (h : gib n < lengthLimit) : gib n < UInt64.size :=
  Nat.lt_trans h (by decide)

theorem sizeBytes_lt_of_gib {n : UInt64} (h : gib n < lengthLimit) :
    (sizeBytes n).toNat < lengthLimit := by rwa [sizeBytes_toNat (gib_fits h)]

/-- The base image followed by zeros up to the configured size. -/
def rootDisk (remote : Bytes) (cfg : Config) : Bytes := resize (gib cfg.rootDiskGib) remote

/-- Both disks are what a call without faults makes of the image. -/
structure Complete (remote : Bytes) (cfg : Config) (d : StateDisk) : Prop where
  root : d.file .rootRaw =
    some (remote ++ List.replicate (gib cfg.rootDiskGib - remote.length) 0)
  pool : ∃ b, d.file .poolRaw = some b ∧ b.length = gib cfg.poolDiskGib

/-! ### How far a call gets -/

/-- The call gets to fetching the base image. -/
structure ReachesBase (names : Names) (env : ImageEnv) : Prop where
  created : env.fault .createImagesDir = .none
  arch : (debianArch names.arch).isSome

/-- The call gets past the check of the base image. -/
structure PassesBase (names : Names) (d : StateDisk) (env : ImageEnv) : Prop
    extends ReachesBase names env where
  fetched : d.file .baseImage = none → env.curl = .delivers
  opened : env.fault (.openImage .baseImage) = .none
  read : env.fault (.readImage .baseImage) = .none
  accepted : Accepted ((d.file .baseImage).getD env.remote)

/-- The call gets past the check of the root disk. -/
structure PassesRoot (names : Names) (cfg : Config) (d : StateDisk) (env : ImageEnv) : Prop
    extends PassesBase names d env where
  made : d.file .rootRaw = none → env.fault .copyRoot = .none ∧ env.fault .openRoot = .none ∧
    env.fault .resizeRoot = .none ∧ gib cfg.rootDiskGib < lengthLimit
  openedRoot : env.fault (.openImage .rootRaw) = .none
  readRoot : env.fault (.readImage .rootRaw) = .none
  acceptedRoot : ∀ b, d.file .rootRaw = some b → Accepted b

/-- Wherever the call is cut off, the artifact it was making is whole or will be
turned away by the header check; nothing checks the pool disk. A length that
`set_len` refuses cuts the call off as well. -/
structure Clean (names : Names) (cfg : Config) (d : StateDisk) (env : ImageEnv) : Prop where
  base : ReachesBase names env → d.file .baseImage = none → ∀ n, DownloadLeft env n →
    env.remote.take n = env.remote ∨ ¬ Accepted (env.remote.take n)
  root : PassesBase names d env → d.file .rootRaw = none →
    ∀ b, RootLeft env (gib cfg.rootDiskGib) env.remote b →
      b = rootDisk env.remote cfg ∨ ¬ Accepted b
  pool : PassesRoot names cfg d env → d.file .poolRaw = none →
    ∀ b, PoolLeft env (gib cfg.poolDiskGib) b → b.length = gib cfg.poolDiskGib

/-! ### The invariant -/

/-- Every artifact is absent, whole, or about to be turned away. -/
structure Sound (remote : Bytes) (cfg : Config) (d : StateDisk) : Prop where
  base : ∀ b, d.file .baseImage = some b → b = remote ∨ ¬ Accepted b
  root : ∀ b, d.file .rootRaw = some b → b = rootDisk remote cfg ∨ ¬ Accepted b
  pool : ∀ b, d.file .poolRaw = some b → b.length = gib cfg.poolDiskGib

section Sound
variable {remote : Bytes} {cfg : Config} {d : StateDisk}

/-- A base image that is whole, or that the check rejects. -/
theorem Sound.put_base (h : Sound remote cfg d) {b : Bytes} (hb : b = remote ∨ ¬ Accepted b) :
    Sound remote cfg (d.put .baseImage b) where
  base := by simpa using hb
  root := by simpa using h.root
  pool := by simpa using h.pool

theorem Sound.put_root (h : Sound remote cfg d) {b : Bytes}
    (hb : b = rootDisk remote cfg ∨ ¬ Accepted b) : Sound remote cfg (d.put .rootRaw b) where
  base := by simpa using h.base
  root := by simpa using hb
  pool := by simpa using h.pool

theorem Sound.put_pool (h : Sound remote cfg d) {b : Bytes} (hb : b.length = gib cfg.poolDiskGib) :
    Sound remote cfg (d.put .poolRaw b) where
  base := by simpa using h.base
  root := by simpa using h.root
  pool := by simpa using hb

/-- Removing an artifact leaves nothing to be wrong. -/
theorem Sound.erase (h : Sound remote cfg d) (f : File) : Sound remote cfg (d.erase f) := by
  have hback : ∀ g b, (d.erase f).file g = some b → d.file g = some b := by
    intro g b hb
    by_cases hg : g = f
    · subst hg
      simp at hb
    · simpa [hg] using hb
  exact ⟨fun b hb => h.base b (hback _ _ hb), fun b hb => h.root b (hback _ _ hb),
    fun b hb => h.pool b (hback _ _ hb)⟩

theorem Sound.mkdirs (h : Sound remote cfg d) (ds : List Dir) : Sound remote cfg (d.mkdirs ds) :=
  ⟨h.base, h.root, h.pool⟩

end Sound

/-! ### One call -/

section Steps
variable {names : Names} {cfg : Config} {env : ImageEnv} {d d' : StateDisk}

/-- A base image is there, and the disks are as they were. -/
structure Fetched (names : Names) (env : ImageEnv) (d d' : StateDisk) : Prop where
  reached : ReachesBase names env
  delivered : d.file .baseImage = none → env.curl = .delivers
  base : d'.file .baseImage = some ((d.file .baseImage).getD env.remote)
  root : d'.file .rootRaw = d.file .rootRaw
  pool : d'.file .poolRaw = d.file .poolRaw

/-- Fetching leaves the image of the server or nothing that passes, unless it is killed on the
way. -/
theorem sound_fetchBaseImage {url : Text} (d : StateDisk) (hreach : ReachesBase names env)
    (hd' : Sound env.remote cfg d') (hfile : d'.file = d.file) :
    Ends (fetchBaseImage env url) d' (fun _ s => Sound env.remote cfg s ∧ Fetched names env d s)
      (fun s => Clean names cfg d env → Sound env.remote cfg s) := by
  refine ends_fetchBaseImage (fun b hb => ⟨hd', hreach, ?_, ?_, ?_, ?_⟩) (fun habsent hcurl => ?_)
    (fun _ => hd') (fun n habsent hleft hclean => ?_) (fun _ b _ => ?_)
  · rw [← hfile, hb]
    exact fun h => absurd h (by simp)
  · rw [← hfile, hb]
    rfl
  · rw [hfile]
  · rw [hfile]
  · refine ⟨hd'.put_base (Or.inl rfl), hreach, fun _ => hcurl, ?_, ?_, ?_⟩
    · rw [← hfile, habsent, Disk.put_self]
      rfl
    · rw [← hfile, Disk.put_of_ne _ (by decide)]
    · rw [← hfile, Disk.put_of_ne _ (by decide)]
  · exact hd'.put_base (hclean.base hreach (by rw [← hfile, habsent]) n hleft)
  · refine ⟨fun c hc => by simp at hc, ?_, ?_⟩
    · simpa using hd'.root
    · simpa using hd'.pool

/-- The base image has passed, so it is the whole image. -/
structure Based (names : Names) (env : ImageEnv) (d d' : StateDisk) : Prop where
  passed : PassesBase names d env
  base : d'.file .baseImage = some env.remote
  root : d'.file .rootRaw = d.file .rootRaw
  pool : d'.file .poolRaw = d.file .poolRaw

theorem sound_verifyBase {path : File → Text} (hd' : Sound env.remote cfg d')
    (h : Fetched names env d d') :
    Ends (verifyDiskImage env path .baseImage) d'
      (fun _ s => Sound env.remote cfg s ∧ Based names env d s) (Sound env.remote cfg) := by
  refine ends_verifyDiskImage (fun b hopen hread hb hok => ⟨hd', ?_⟩) hd' fun _ _ _ => hd'.erase _
  have hbase : b = (d.file .baseImage).getD env.remote := by
    rw [h.base] at hb
    exact (Option.some.inj hb).symm
  have hwhole : b = env.remote := (hd'.base b hb).resolve_right (not_not_intro hok)
  exact ⟨⟨h.reached, h.delivered, hopen, hread, hbase ▸ hok⟩, hwhole ▸ hb, h.root, h.pool⟩

/-- A root disk is there, and the call made it if there was none. -/
structure Rooted (names : Names) (env : ImageEnv) (cfg : Config) (d d' : StateDisk) : Prop where
  passed : PassesBase names d env
  made : d.file .rootRaw = none → env.fault .copyRoot = .none ∧ env.fault .openRoot = .none ∧
    env.fault .resizeRoot = .none ∧ gib cfg.rootDiskGib < lengthLimit
  root : ∀ b, d.file .rootRaw = some b → d'.file .rootRaw = some b
  pool : d'.file .poolRaw = d.file .poolRaw

/-- A copy that is resized is complete; between the two a clean call does not stop. -/
theorem sound_createRootDisk (hsize : gib cfg.rootDiskGib < UInt64.size)
    (hd' : Sound env.remote cfg d') (h : Based names env d d') :
    Ends (createRootDisk env cfg) d' (fun _ s => Sound env.remote cfg s ∧ Rooted names env cfg d s)
      (fun s => Clean names cfg d env → Sound env.remote cfg s) := by
  have hbase : ∀ b, d'.file .baseImage = some b → b = env.remote := fun b hb => by
    rw [h.base] at hb
    exact (Option.some.inj hb).symm
  refine ends_createRootDisk (fun b hb => ⟨hd', h.passed, ?_, fun c hc => h.root.trans hc, h.pool⟩)
    (fun b hcopy hopen hresize hlen habsent hb => ?_) (fun _ => hd') fun base b habsent hb hleft hclean => ?_
  · rw [← h.root, hb]
    exact fun hnone => absurd hnone (by simp)
  · rw [sizeBytes_toNat hsize] at hlen
    rw [hbase b hb, sizeBytes_toNat hsize]
    refine ⟨hd'.put_root (Or.inl rfl), h.passed, fun _ => ⟨hcopy, hopen, hresize, hlen⟩, ?_, ?_⟩
    · rw [← h.root, habsent]
      exact fun c hc => absurd hc (by simp)
    · rw [Disk.put_of_ne _ (by decide), h.pool]
  · rw [hbase base hb, sizeBytes_toNat hsize] at hleft
    exact hd'.put_root (hclean.root h.passed (h.root ▸ habsent) b hleft)

/-- The root disk has passed, so it is whole. -/
structure Booted (names : Names) (env : ImageEnv) (cfg : Config) (d d' : StateDisk) : Prop where
  passed : PassesRoot names cfg d env
  root : d'.file .rootRaw = some (rootDisk env.remote cfg)
  pool : d'.file .poolRaw = d.file .poolRaw

theorem sound_verifyRoot {path : File → Text} (hd' : Sound env.remote cfg d')
    (h : Rooted names env cfg d d') :
    Ends (verifyDiskImage env path .rootRaw) d'
      (fun _ s => Sound env.remote cfg s ∧ Booted names env cfg d s) (Sound env.remote cfg) := by
  refine ends_verifyDiskImage (fun b hopen hread hb hok => ⟨hd', ?_⟩) hd' fun _ _ _ => hd'.erase _
  have hwhole : b = rootDisk env.remote cfg := (hd'.root b hb).resolve_right (not_not_intro hok)
  refine ⟨⟨h.passed, h.made, hopen, hread, fun c hc => ?_⟩, hwhole ▸ hb, h.pool⟩
  rw [h.root c hc] at hb
  exact Option.some.inj hb ▸ hok

/-- The last step, after which all three are complete. -/
theorem sound_createPoolDisk (hsize : gib cfg.poolDiskGib < UInt64.size)
    (hfit : env.remote.length ≤ gib cfg.rootDiskGib) (hd' : Sound env.remote cfg d')
    (h : Booted names env cfg d d') :
    Ends (createPoolDisk env cfg) d'
      (fun _ s => Sound env.remote cfg s ∧ Complete env.remote cfg s)
      (fun s => Clean names cfg d env → Sound env.remote cfg s) := by
  have hroot : d'.file .rootRaw =
      some (env.remote ++ List.replicate (gib cfg.rootDiskGib - env.remote.length) 0) := by
    rw [h.root, rootDisk, resize_of_le hfit]
  refine ends_createPoolDisk (fun b hb => ⟨hd', hroot, b, hb, hd'.pool b hb⟩) (fun _ => ?_)
    (fun _ => hd') fun b habsent hleft hclean => ?_
  · rw [sizeBytes_toNat hsize]
    refine ⟨hd'.put_pool (length_resize ..), ?_, _, Disk.put_self .., length_resize ..⟩
    rw [Disk.put_of_ne _ (by decide), hroot]
  · rw [sizeBytes_toNat hsize] at hleft
    exact hd'.put_pool (hclean.pool h.passed (h.pool ▸ habsent) b hleft)

/-- A call keeps the artifacts sound unless it is cut off uncleanly, and leaves
complete disks if it succeeds. -/
theorem sound_ensureImages (names : Names) (hroot : gib cfg.rootDiskGib < UInt64.size)
    (hpool : gib cfg.poolDiskGib < UInt64.size) (hfit : env.remote.length ≤ gib cfg.rootDiskGib)
    (hd : Sound env.remote cfg d) :
    Ends (ensureImages names env cfg) d
      (fun _ s => Sound env.remote cfg s ∧ Complete env.remote cfg s)
      (fun s => Clean names cfg d env → Sound env.remote cfg s) := by
  unfold ensureImages
  rw [ends_bind, io, ends_mapError]
  refine ends_createDirAll (fun hcreated => ?_) fun _ ds _ => hd.mkdirs ds
  split
  · exact fun _ => hd.mkdirs _
  next arch harch =>
  dsimp only
  rw [ends_bind]
  have hreach : ReachesBase names env := ⟨hcreated, by simp [harch]⟩
  refine (sound_fetchBaseImage d hreach (hd.mkdirs _) rfl).mono ?_ fun _ h => h
  intro _ d2 h2
  obtain ⟨hs2, hfetched⟩ := h2
  rw [ends_bind]
  refine (sound_verifyBase hs2 hfetched).mono ?_ fun _ h _ => h
  intro _ d3 h3
  obtain ⟨hs3, hbased⟩ := h3
  rw [ends_bind]
  refine (sound_createRootDisk hroot hs3 hbased).mono ?_ fun _ h => h
  intro _ d4 h4
  obtain ⟨hs4, hrooted⟩ := h4
  rw [ends_bind]
  refine (sound_verifyRoot hs4 hrooted).mono ?_ fun _ h _ => h
  intro _ d5 h5
  obtain ⟨hs5, hbooted⟩ := h5
  exact sound_createPoolDisk hpool hfit hs5 hbooted

end Steps

/-! ### Any number of calls -/

/-- Clean calls keep the images sound, one after the other. -/
theorem sound_run (names : Names) {cfg : Config} (hroot : gib cfg.rootDiskGib < UInt64.size)
    (hpool : gib cfg.poolDiskGib < UInt64.size) {remote : Bytes}
    (hfit : remote.length ≤ gib cfg.rootDiskGib) {d : StateDisk} (hd : Sound remote cfg d)
    {calls : List ImageEnv} (hremote : ∀ env ∈ calls, env.remote = remote)
    (hclean : Runs.Along (after names cfg) (Clean names cfg) d calls) :
    Sound remote cfg (Runs.run (after names cfg) d calls) := by
  induction calls generalizing d with
  | nil => exact hd
  | cons env calls ih =>
    obtain ⟨henv, hrest⟩ := hclean
    obtain rfl : env.remote = remote := hremote env (List.mem_cons_self ..)
    have hstep := sound_ensureImages names hroot hpool hfit hd
    refine ih ?_ (fun e he => hremote e (List.mem_cons_of_mem _ he)) hrest
    exact (hstep.mono (fun _ _ h => h.1) fun _ h => h henv).final

/-- **Whatever was cut off before, a call that succeeds leaves complete disks**, as
long as no call before it was cut off where a half-made artifact passes for a
whole one. -/
theorem images_complete (names : Names) (cfg : Config) (hroot : gib cfg.rootDiskGib < UInt64.size)
    (hpool : gib cfg.poolDiskGib < UInt64.size) (remote : Bytes)
    (hfit : remote.length ≤ gib cfg.rootDiskGib) (d : StateDisk) (hempty : ∀ f, d.file f = none)
    (calls : List ImageEnv) (last : ImageEnv) (hremote : ∀ env ∈ calls ++ [last], env.remote = remote)
    (hclean : Runs.Along (after names cfg) (Clean names cfg) d calls)
    (hok : (ensureImages names last cfg (Runs.run (after names cfg) d calls)).1 = .ok ()) :
    Complete remote cfg (Runs.run (after names cfg) d (calls ++ [last])) := by
  have hstart : Sound remote cfg d :=
    ⟨fun b hb => by simp [hempty] at hb, fun b hb => by simp [hempty] at hb,
      fun b hb => by simp [hempty] at hb⟩
  have hprev := sound_run names hroot hpool hfit hstart
    (fun e he => hremote e (List.mem_append_left _ he)) hclean
  obtain rfl : last.remote = remote := hremote last (by simp)
  have hlast := sound_ensureImages names hroot hpool hfit hprev
  rw [Runs.run_concat]
  exact (hlast.of_ok (Prod.ext hok rfl)).2

/-! ### A root disk cut short -/

def smallest : Config := {cpus := 1, memoryMib := 1, rootDiskGib := 1, poolDiskGib := 1}

def onArm : Names := ⟨"/s".toList, "aarch64".toList⟩

theorem onArm_arch : debianArch onArm.arch = some "arm64".toList := by decide

def noFault : ImageEnv := ⟨oneSector, .delivers, fun _ => [], fun _ => .none⟩

/-- Killed between the copy and the resize. -/
def unsized : ImageEnv :=
  {noFault with fault := fun site => if site = .resizeRoot then .kills none else .none}

/-- Killed when the base image is there and the copy has not begun. -/
def uncopied : ImageEnv :=
  {noFault with fault := fun site => if site = .copyRoot then .kills none else .none}

/-- The next call takes the copy that was never resized for a root disk. -/
theorem unsized_root_disk :
    (ensureImages onArm noFault smallest (Runs.run (after onArm smallest) noFiles [unsized])).1 =
        .ok () ∧
      ¬ Complete oneSector smallest (Runs.run (after onArm smallest) noFiles [unsized, noFault]) := by
  refine ⟨by decide +kernel, fun h => ?_⟩
  have hroot : (Runs.run (after onArm smallest) noFiles [unsized, noFault]).file .rootRaw =
      some oneSector := by decide +kernel
  have hlen := congrArg List.length (Option.some.inj (hroot.symm.trans h.root))
  rw [List.length_append, List.length_replicate] at hlen
  revert hlen
  decide +kernel

theorem images_complete_after_uncopied : Complete oneSector smallest
    (Runs.run (after onArm smallest) noFiles ([uncopied] ++ [noFault])) := by
  refine images_complete onArm smallest (by decide) (by decide) oneSector (by decide +kernel) noFiles
    (fun _ => rfl) [uncopied] noFault (by decide +kernel) ⟨⟨?_, ?_, ?_⟩, trivial⟩ ?_
  · rintro - - n (⟨_, hcurl⟩ | ⟨_, _, hcurl, -, -⟩)
    · simp [uncopied, noFault] at hcurl
    · simp [uncopied, noFault] at hcurl
  · rintro - - b (⟨n, h⟩ | ⟨h, -⟩ | ⟨h, -, -⟩ | ⟨k, h, -, -, -⟩) <;>
      simp [uncopied, Fault.progress] at h
  · intro hpass _ _ _
    exact absurd (hpass.made rfl).1 (by decide)
  · have hbase : (Runs.run (after onArm smallest) noFiles [uncopied]).file .baseImage =
        some oneSector := by decide +kernel
    have hcreates : ∃ d', ensureImages onArm noFault smallest
        (Runs.run (after onArm smallest) noFiles [uncopied]) = (.ok (), d') ∧ Imaged d' ∧
          d'.dir .stateDir = true :=
      ensureImages_creates rfl (fun _ => rfl) (Or.inl hbase) oneSector_accepted (by decide +kernel)
        (by decide) (by decide) (by decide +kernel)
    obtain ⟨d', hd', -⟩ := hcreates
    rw [hd']

end Malleus.Image
