import Malleus.ImageHealing
import Malleus.PkiRetry
import Malleus.Reset
import Malleus.StartOutcome

/-! How malleus gets up again.

Whatever stands in the state directory, a start on a machine that has all it needs
(`Willing`) either succeeds or takes away one disk image that it rejects, so the third at
the latest succeeds (`starts_recover`). The one thing no start gets past is key material
that is there in part: then no VM comes up any more until the directory is removed, and after
that the first start succeeds (`refused_until_removed`). -/
namespace Malleus.Recovery
open Effect Strings Storage StartOutcome

/-- A start with nothing against it but what is in the state directory. -/
structure Willing (procs : Pid → Option Process) (env : StartEnv) : Prop where
  faultFree : env.FaultFree
  curl : env.image.curl = .delivers
  remote : Image.Accepted env.image.remote
  keys : ∃ m, Pki.Generates env.pki m
  vfkit : ∃ c, spawned procs env.launches = some c ∧ c.writePid = .none ∧ c.early = .outlives

/-- Debian has an image for the machine, and the disks that are configured have sizes that
`set_len` takes. -/
structure Settled (host : Host) (d : StateDisk) (cfg : Config) : Prop where
  arch : ∃ arch, Image.debianArch host.arch = some arch
  config : Configured host d cfg
  root : Image.gib cfg.rootDiskGib < lengthLimit
  pool : Image.gib cfg.poolDiskGib < lengthLimit

/-- The world after a start, however it ended. -/
def attempt (host : Host) (w : World) (env : StartEnv) : World := (cmdStart host env w).2

/-- The start fails on a disk image that does not pass, and takes it away. -/
def Cleans (host : Host) (w : World) (env : StartEnv) : Prop :=
  ∃ f b arch header, f ∈ Image.imageFiles ∧ w.disk.file f = some b ∧ ¬ Image.Accepted b ∧
    (cmdStart host env w).1 =
      .error (.image (.notADiskImage (f.display host.stateDir arch) header)) ∧
    (attempt host w env).disk.file f = none

/-! ### One start -/

section Attempt
variable {host : Host} {w : World} {env : StartEnv} {cfg : Config} {d d' : StateDisk}

theorem Settled.of_only (h : Settled host d cfg) (hd : Only (· ∈ Image.imageFiles) d d') :
    Settled host d' cfg :=
  ⟨h.arch, h.config.of_file (hd _ (by decide)), h.root, h.pool⟩

/-- Whether the key material is usable depends on the four files alone. -/
theorem usable_of_file (h : Pki.Usable d) (hd : ∀ f ∈ Pki.pkiPaths, d'.file f = d.file f) :
    Pki.Usable d' := by
  cases h with
  | inl habsent => exact Or.inl fun f hf => (hd f hf).trans (habsent f hf)
  | inr hreads =>
    obtain ⟨m, hm⟩ := hreads
    exact Or.inr ⟨m, hm.of_file hd⟩

/-- Where a settled start is willing, its call of `ensure_images` is healthy. -/
theorem Settled.healthy (h : Settled host d cfg) (henv : Willing w.procs env) :
    Image.Healthy (env.image, cfg) where
  fault := henv.faultFree.image
  curl := henv.curl
  remote := henv.remote
  root := by
    obtain ⟨-, -, hroot, -⟩ := Config.validate_ok.mp (Configured.valid h.config)
    exact ⟨Nat.one_le_iff_ne_zero.mpr fun hzero => hroot (UInt64.toNat_inj.mp hzero), h.root⟩
  pool := by
    obtain ⟨-, -, -, hpool⟩ := Config.validate_ok.mp (Configured.valid h.config)
    exact ⟨Nat.one_le_iff_ne_zero.mpr fun hzero => hpool (UInt64.toNat_inj.mp hzero), h.pool⟩

/-- A start that the images stop, and what it leaves. -/
theorem cmdStart_rejects (henv : env.FaultFree) (hconfig : Configured host w.disk cfg) {e : ImageError}
    (himages : Image.ensureImages host.names env.image cfg
      (w.disk.mkdirs (Tree.path File Dir.stateDir)) = (.error e, d')) :
    cmdStart host env w = (.error (.image e), w.setDisk d') := by
  have hconfig' : loadConfig host .none (w.disk.mkdirs (Tree.path File Dir.stateDir)) =
      (.ok cfg, w.disk.mkdirs (Tree.path File Dir.stateDir)) := loadConfig_ok.mpr ⟨hconfig, rfl⟩
  have hprepare : prepare host env w.disk = (.error (.image e), d') := by
    unfold prepare
    rw [henv.site, Cmd.bind_of_ok (Cmd.mapError_of_ok (createDirAll_none ..) _), henv.site,
      Cmd.bind_of_ok hconfig', Cmd.bind_apply, Cmd.mapError, himages]
  unfold cmdStart
  rw [Cmd.bind_apply, onDisk, Cmd.zoom, hprepare]

/-- A willing start succeeds, or takes away one image that does not pass and leaves the rest
of the world as it was. -/
theorem attempt_settles (hw : Settled host w.disk cfg) (husable : Pki.Usable w.disk)
    (henv : Willing w.procs env) :
    (∃ w', cmdStart host env w = (.ok (), w')) ∨
      (Cleans host w env ∧ Image.rejects (attempt host w env).disk < Image.rejects w.disk ∧
        (attempt host w env).procs = w.procs ∧
        Only (· ∈ Image.imageFiles) w.disk (attempt host w env).disk) := by
  let d0 := w.disk.mkdirs (Tree.path File Dir.stateDir)
  obtain ⟨arch, harch⟩ := hw.arch
  have hhealthy := hw.healthy henv
  by_cases hgood : Image.Accepted (Image.baseOf env.image d0) ∧
      Image.Accepted (Image.rootOf env.image cfg d0)
  · -- the images pass, so nothing that preparing needs is missing
    obtain ⟨m, hm⟩ : ∃ m, Pki.Reads w.disk m ∨ (Pki.Absent w.disk ∧ Pki.Generates env.pki m) := by
      obtain habsent | ⟨m, hm⟩ := husable
      · obtain ⟨m, hm⟩ := henv.keys
        exact ⟨m, Or.inr ⟨habsent, hm⟩⟩
      · exact ⟨m, Or.inl hm⟩
    obtain ⟨c, hc, hwrite, hearly⟩ := henv.vfkit
    have hsupplied : Supplied host env w.disk cfg m :=
      ⟨hw.config, hw.arch, fun _ => henv.curl, hgood.1, hgood.2, hhealthy.not_oversized.1,
        hhealthy.not_oversized.2, hm⟩
    obtain ⟨d, hprepare⟩ := prepare_of_supplied henv.faultFree hsupplied
    exact Or.inl ⟨_, (cmdStart_ok henv.faultFree).mpr
      ⟨cfg, m, c, d, hsupplied, hprepare, hc, hwrite, hearly, rfl⟩⟩
  · have hrejects : Image.Rejects host.names d0 (env.image, cfg) ∧
        Image.rejects (Image.afterCall host.names d0 (env.image, cfg)) < Image.rejects d0 := by
      by_cases hbase : Image.Accepted (Image.baseOf env.image d0)
      · exact Image.rejects_root harch hhealthy hbase fun hroot => hgood ⟨hbase, hroot⟩
      · exact Image.rejects_base harch hhealthy hbase
    obtain ⟨⟨f, b, arch', header, -, hf, hb, hbad, herror, hgone, -⟩, hless⟩ := hrejects
    have hstart : cmdStart host env w =
        (.error (.image (.notADiskImage (f.display host.stateDir arch') header)),
          w.setDisk (Image.afterCall host.names d0 (env.image, cfg))) :=
      cmdStart_rejects henv.faultFree hw.config (Prod.ext herror rfl)
    have hattempt : attempt host w env = w.setDisk (Image.afterCall host.names d0 (env.image, cfg)) := by
      rw [attempt, hstart]
    have hwithin : Only (· ∈ Image.imageFiles) d0 (Image.afterCall host.names d0 (env.image, cfg)) :=
      Image.within_ensureImages env.image cfg host.names d0
    refine Or.inr ⟨⟨f, b, arch', header, hf, hb, hbad, by rw [hstart], ?_⟩, ?_, ?_, ?_⟩
    · rw [hattempt]
      exact hgone
    · rw [hattempt]
      exact hless
    · rw [hattempt]
      rfl
    · rw [hattempt]
      exact hwithin

end Attempt

/-! ### Key material that is there in part -/

/-- No VM has come up, and the four files hold what they held. -/
structure Barred (w w' : World) : Prop where
  boots : w'.boots = w.boots
  keys : ∀ f ∈ Pki.pkiPaths, w'.disk.file f = w.disk.file f

section Barred
variable {host : Host} {w w' w'' : World}

theorem Barred.refl (w : World) : Barred w w := ⟨rfl, fun _ _ => rfl⟩

theorem Barred.trans (h : Barred w w') (h' : Barred w' w'') : Barred w w'' :=
  ⟨h'.boots.trans h.boots, fun f hf => (h'.keys f hf).trans (h.keys f hf)⟩

theorem Barred.refused (h : Barred w w') (hw : ¬ Pki.Usable w.disk) : ¬ Pki.Usable w'.disk :=
  fun husable => hw (usable_of_file husable fun f hf => (h.keys f hf).symm)

theorem barred_of_only {S : File → Prop} (hd : Only S w.disk w'.disk) (hs : ∀ f ∈ Pki.pkiPaths, ¬ S f)
    (hboots : w'.boots = w.boots) : Barred w w' := ⟨hboots, fun f hf => hd f (hs f hf)⟩

/-- No event writes key material. -/
theorem barred_happen (w : World) (e : Event) : Barred w (happen w e) := by
  have h := happened w e
  generalize happen w e = w' at h
  cases h with
  | wrote pid f bytes vm hvm hf =>
    have hguest : ∀ g ∈ Pki.pkiPaths, g ∉ vmFiles := by decide
    exact barred_of_only (only_put _ hf bytes) hguest rfl
  | edited contents d hd => exact barred_of_only hd (by decide) rfl
  | _ => exact ⟨rfl, fun _ _ => rfl⟩

/-- Preparing gets no further than the key material. -/
theorem ends_prepare_refused {env : StartEnv} {d : StateDisk} (h : ¬ Pki.Usable d) :
    Ends (prepare host env) d (fun _ _ => False)
      (fun d' => ∀ f ∈ Pki.pkiPaths, d'.file f = d.file f) := by
  refine ends_prepare (fun d' hd' f _ => by rw [hd']) fun cfg d' hd' => ?_
  have himages := (Image.within_ensureImages env.image cfg host.names).ends d'
  have hkeys : ∀ d1, Only (· ∈ Image.imageFiles) d' d1 → ∀ f ∈ Pki.pkiPaths, d1.file f = d.file f := by
    intro d1 hd1 f hf
    have hdisjoint : ∀ f ∈ Pki.pkiPaths, f ∉ Image.imageFiles := by decide
    exact (hd1 f (hdisjoint f hf)).trans (by rw [hd'])
  refine himages.mono (fun _ d1 hd1 => ?_) hkeys
  have hrefused : ¬ Pki.Usable d1 := fun husable =>
    h (usable_of_file husable fun f hf => (hkeys d1 hd1 f hf).symm)
  refine (Pki.ends_unusable hrefused).mono (fun _ _ hfalse => hfalse.elim) fun d2 hd2 => ?_
  rw [hd2]
  exact hkeys d1 hd1

/-- A start that cannot use the key material never succeeds, and leaves it as it is. -/
theorem cmdStart_refused (env : StartEnv) (h : ¬ Pki.Usable w.disk) :
    Ends (cmdStart host env) w (fun _ _ => False) (Barred w) := by
  unfold cmdStart
  rw [ends_bind, ends_onDisk]
  exact (ends_prepare_refused h).mono (fun _ _ hfalse => hfalse.elim) fun d hd => ⟨rfl, hd⟩

theorem barred_cmdStop (env : StopEnv) (w : World) : Barred w (cmdStop env w).2 := by
  have hs : ∀ f ∈ Pki.pkiPaths, f ∉ runFiles := by decide
  refine cmdStop_keeps (R := Barred w) (Barred.refl w) ⟨rfl, fun _ _ => rfl⟩ (fun pid p _ => ?_)
    fun w' d hw' hd => hw'.trans (barred_of_only hd hs rfl)
  unfold World.signal
  dsimp only
  split
  · exact ⟨rfl, fun _ _ => rfl⟩
  · exact ⟨rfl, fun _ _ => rfl⟩

theorem barred_cmdAutoconfigure (env : AutoconfigureEnv) (h : ¬ Pki.Usable w.disk) :
    Barred w (cmdAutoconfigure host env w).2 := by
  have hconf : ∀ d, Only (· ∈ confFiles (env.confDir host)) w.disk d → Barred w (w.setDisk d) :=
    fun d hd => barred_of_only hd (by simp [confFiles, Pki.pkiPaths]) rfl
  have hends : Ends (cmdAutoconfigure host env) w (fun _ => Barred w) (Barred w) := by
    refine ends_cmdAutoconfigureWithRunner (Barred.refl w) hconf (fun d _ hd => ?_)
      (fun w' _ _ e _ hw' => hw'.trans (barred_happen w' e)) (fun _ _ _ hw' _ => ⟨hw'.boots, hw'.keys⟩)
      (fun _ _ hw' => ⟨hw'.boots, hw'.keys⟩) fun _ hw' => hw'
    have hwithin := within_copyCredentials host env w.disk
    rw [hd] at hwithin
    have hcopied := hconf d hwithin
    refine ends_startUnlessRunning (fun _ => hcopied) fun _ => ?_
    exact (cmdStart_refused env.start (hcopied.refused h)).mono (fun _ _ hfalse => hfalse.elim)
      fun _ hw' => hcopied.trans hw'
  exact hends.final

/-- Only a removal changes anything about it. -/
theorem barred_step (i : Input) (h : ¬ Pki.Usable w.disk) (hi : ∀ env, i ≠ .delete env) :
    Barred w (step host w i) := by
  cases i with
  | event e => exact barred_happen w e
  | start env => exact ((cmdStart_refused env h).mono (fun _ _ hfalse => hfalse.elim) fun _ hw' => hw').final
  | stop env => exact barred_cmdStop env w
  | status env =>
    rw [step, cmdStatus_world]
    exact Barred.refl w
  | delete env => exact absurd rfl (hi env)
  | mount hostPath name => exact Barred.refl w
  | unmount name => exact Barred.refl w
  | autoconfigure env => exact barred_cmdAutoconfigure env h

end Barred

/-! ### Any number of starts -/

section Starts
variable {host : Host} {w : World} {cfg : Config}

/-- **Three starts are enough**: of that many willing starts one succeeds, unless the key
material is there in part, and each before it takes away one disk image that does not
pass. -/
theorem starts_recover {envs : List StartEnv} (hw : Settled host w.disk cfg)
    (henvs : ∀ env ∈ envs, Willing w.procs env) (hlong : 3 ≤ envs.length) :
    Pki.Usable w.disk ↔ ∃ early env late, envs = early ++ env :: late ∧
      early.length ≤ Image.rejects w.disk ∧ Runs.Along (attempt host) (Cleans host) w early ∧
      ∃ w', cmdStart host env (Runs.run (attempt host) w early) = (.ok (), w') := by
  constructor
  · intro husable
    let I : World → Prop := fun w' => w'.procs = w.procs ∧ Only (· ∈ Image.imageFiles) w.disk w'.disk
    let rejects : World → Nat := fun w' => Image.rejects w'.disk
    have hstep : ∀ w', ∀ env ∈ envs, I w' → (∃ w1, cmdStart host env w' = (.ok (), w1)) ∨
        (Cleans host w' env ∧ rejects (attempt host w' env) < rejects w' ∧ I (attempt host w' env)) := by
      rintro w' env henv ⟨hprocs, hd⟩
      have hdisjoint : ∀ f ∈ Pki.pkiPaths, f ∉ Image.imageFiles := by decide
      have hkeys : Pki.Usable w'.disk := usable_of_file husable fun f hf => hd f (hdisjoint f hf)
      have hwilling : Willing w'.procs env := by
        rw [hprocs]
        exact henvs env henv
      refine (attempt_settles (hw.of_only hd) hkeys hwilling).imp_right fun hfails => ?_
      obtain ⟨hcleans, hless, hprocs', hd'⟩ := hfails
      exact ⟨hcleans, hless, hprocs'.trans hprocs, Only.trans _ _ _ hd hd'⟩
    have hfew : rejects w < envs.length :=
      Nat.lt_of_lt_of_le (Nat.lt_succ_of_le (Image.rejects_le w.disk)) hlong
    exact Runs.run_reaches hstep ⟨rfl, Only.refl _⟩ hfew
  · rintro ⟨early, env, late, -, -, -, _, hstart⟩
    by_contra hrefused
    have hbarred : Barred w (Runs.run (attempt host) w early) := by
      have halong : Runs.Along (attempt host) (fun _ _ => True) w early :=
        Runs.along_of_forall fun _ _ _ => trivial
      refine Runs.run_invariant (I := Barred w) (fun w1 env1 hw1 _ => ?_) (Barred.refl w) halong
      exact hw1.trans (barred_step (.start env1) (hw1.refused hrefused) fun _ => by simp)
    exact (cmdStart_refused env (hbarred.refused hrefused)).of_ok hstart

theorem booting_willing {procs : Pid → Option Process} {pid : Pid} (hfree : Free procs pid) :
    Willing procs (booting pid) where
  faultFree := ⟨fun _ => rfl, fun _ => rfl, fun _ => rfl⟩
  curl := rfl
  remote := Image.oneSector_accepted
  keys := ⟨material, rfl, rfl⟩
  vfkit := ⟨vfkit pid, if_pos hfree, rfl, rfl⟩

/-- A poisoned cache and a clone of it take two starts to clear. -/
theorem starts_recover_poisoned : ∃ early env late,
    [booting 100, booting 100, booting 100] = early ++ env :: late ∧ early.length ≤ 2 ∧
      Runs.Along (attempt laptop) (Cleans laptop) (nothing.setDisk Image.poisoned) early ∧
      ∃ w', cmdStart laptop env (Runs.run (attempt laptop) (nothing.setDisk Image.poisoned) early) =
        (.ok (), w') := by
  have hsettled : Settled laptop (nothing.setDisk Image.poisoned).disk Config.default :=
    ⟨⟨"arm64".toList, by decide⟩, Or.inl ⟨rfl, rfl⟩, by decide, by decide⟩
  have habsent : ∀ f ∈ Pki.pkiPaths, Image.poisoned.file f = none := by decide
  have hwilling : ∀ env ∈ [booting 100, booting 100, booting 100],
      Willing (nothing.setDisk Image.poisoned).procs env := by
    intro env henv
    simp only [List.mem_cons, List.not_mem_nil, or_false, or_self] at henv
    rw [henv]
    exact booting_willing (by decide)
  exact (starts_recover hsettled hwilling (by decide)).mp (Or.inl habsent)

end Starts

end Malleus.Recovery
