import Malleus.Boot
import Malleus.GracePeriod
import Malleus.Library.Faults

/-! When a start succeeds.

A start or an `autoconfigure` that returns has had every one of its effects whole, so it
is one that met no fault (`success_is_whole`). What such a start needs is listed in
`Supplied`, and `start_succeeds_iff` says that it needs nothing else. Whenever vfkit is
spawned, whatever stops the start then, all that its arguments name is on the disk
(`spawns_equipped`). -/
namespace Malleus
open Effect Strings Numbers Storage

/-! ### The same without faults -/

def ImageEnv.faultless (env : ImageEnv) : ImageEnv := {env with fault := fun _ => .none}

def PkiEnv.faultless (env : PkiEnv) : PkiEnv := {env with fault := fun _ => .none}

def Spawn.faultless : Spawn → Spawn
  | .child c => .child {c with writePid := .none}
  | spawn => spawn

def Launch.faultless (launch : Launch) : Launch where
  createLog := .none
  createErr := .none
  spawn := launch.spawn.faultless

/-- The same machine without faults of its disk. The server, the keys that it can generate and
what becomes of a child are as they were. -/
def StartEnv.faultless (env : StartEnv) : StartEnv where
  fault _ := .none
  image := env.image.faultless
  pki := env.pki.faultless
  launches := env.launches.map Launch.faultless

/-- The same machine without faults of its disk. What `ps` says, the turns of the search and the
calls of incus are as they were. -/
def AutoconfigureEnv.faultless (env : AutoconfigureEnv) : AutoconfigureEnv :=
  {env with fault := fun _ => .none, start := env.start.faultless}

theorem faultless_faultFree (env : StartEnv) : env.faultless.FaultFree :=
  ⟨fun _ => rfl, fun _ => rfl, fun _ => rfl⟩

namespace Image

variable (env : ImageEnv) (cfg : Config)

/-- Curl is no fault: it ends as it does. -/
theorem unfailing_download (url : Text) : Unfailing (download env url) (download env.faultless url) := by
  intro d a d' h
  cases hcurl : env.curl with
  | delivers =>
    unfold download at h ⊢
    rw [hcurl] at h
    rw [show env.faultless.curl = .delivers from hcurl]
    exact h
  | notRun =>
    unfold download at h
    rw [hcurl] at h
    cases h
  | fails status left =>
    unfold download at h
    rw [hcurl] at h
    obtain ⟨_, _, -, h⟩ := Cmd.bind_ok.mp h
    obtain ⟨_, _, -, h⟩ := Cmd.bind_ok.mp h
    cases h
  | killed left =>
    unfold download at h
    rw [hcurl] at h
    obtain ⟨_, _, -, h⟩ := Cmd.bind_ok.mp h
    cases h

theorem unfailing_verifyDiskImage (path : File → Text) (f : File) :
    Unfailing (verifyDiskImage env path f) (verifyDiskImage env.faultless path f) := by
  unfold verifyDiskImage io
  refine unfailing_bind (unfailing_mapError (unfailing_readFile f) _) fun file => ?_
  refine unfailing_bind (unfailing_mapError (unfailing_stage _ _ _ _) _) fun _ => ?_
  have hchunks : env.faultless.chunks = env.chunks := rfl
  rw [hchunks]
  generalize readFull (env.chunks f) file (List.replicate headerLen 0) = reads
  refine unfailing_ite (unfailing_refl _) ?_
  exact unfailing_bind (unfailing_mapError (unfailing_removeFile f) _) fun _ => unfailing_refl _

theorem unfailing_ensureImages (names : Names) :
    Unfailing (ensureImages names env cfg) (ensureImages names env.faultless cfg) := by
  unfold ensureImages fetchBaseImage createRootDisk createPoolDisk io
  refine unfailing_bind (unfailing_mapError (unfailing_createDirAll _) _) fun _ => ?_
  cases debianArch names.arch with
  | none => exact unfailing_refl _
  | some arch =>
    refine unfailing_bind ?_ fun _ => ?_
    · exact unfailing_bind (unfailing_refl _) fun _ =>
        unfailing_ite (unfailing_refl _) (unfailing_download env _)
    refine unfailing_bind (unfailing_verifyDiskImage env _ _) fun _ => ?_
    refine unfailing_bind ?_ fun _ => ?_
    · refine unfailing_bind (unfailing_refl _) fun _ => unfailing_ite (unfailing_refl _) ?_
      refine unfailing_bind (unfailing_mapError (unfailing_copy _ _) _) fun _ => ?_
      refine unfailing_bind (unfailing_mapError (unfailing_openWrite _) _) fun _ => ?_
      exact unfailing_mapError (unfailing_setLen _ _) _
    refine unfailing_bind (unfailing_verifyDiskImage env _ _) fun _ => ?_
    refine unfailing_bind (unfailing_refl _) fun _ => unfailing_ite (unfailing_refl _) ?_
    refine unfailing_bind (unfailing_mapError (unfailing_createFile _) _) fun _ => ?_
    exact unfailing_mapError (unfailing_setLen _ _) _

end Image

namespace Pki

variable (env : PkiEnv)

theorem unfailing_readIdentity (cert key : File) :
    Unfailing (readIdentity env cert key) (readIdentity env.faultless cert key) := by
  refine unfailing_bind (unfailing_mapError (unfailing_readToString cert) _) fun _ => ?_
  exact unfailing_bind (unfailing_mapError (unfailing_readToString key) _) fun _ => unfailing_refl _

theorem unfailing_writeIdentity (cert key : File) (identity : IdentityMaterial) :
    Unfailing (writeIdentity env cert key identity) (writeIdentity env.faultless cert key identity) :=
  unfailing_bind (unfailing_mapError (unfailing_write cert _) _) fun _ =>
    unfailing_mapError (unfailing_write key _) _

theorem unfailing_loadOrCreate (dir : Text) :
    Unfailing (loadOrCreate env dir) (loadOrCreate env.faultless dir) := by
  unfold loadOrCreate maybeLoad
  refine unfailing_bind ?_ fun existing => ?_
  · refine unfailing_bind (unfailing_refl _) fun existing => ?_
    refine unfailing_ite (unfailing_refl _) (unfailing_ite (unfailing_refl _) ?_)
    refine unfailing_bind (unfailing_readIdentity env _ _) fun client => ?_
    exact unfailing_bind (unfailing_readIdentity env _ _) fun server => unfailing_refl _
  · cases existing with
    | some m => exact unfailing_refl _
    | none =>
      refine unfailing_bind (unfailing_mapError (unfailing_createDirAll _) _) fun _ => ?_
      refine unfailing_bind (unfailing_refl _) fun client => ?_
      refine unfailing_bind (unfailing_refl _) fun server => ?_
      refine unfailing_bind (unfailing_writeIdentity env _ _ client) fun _ => ?_
      exact unfailing_bind (unfailing_writeIdentity env _ _ server) fun _ => unfailing_refl _

end Pki

namespace StartOutcome

section Whole
variable (host : Host)

theorem unfailing_loadConfig (readConfig : Fault) :
    Unfailing (loadConfig host readConfig) (loadConfig host .none) := by
  refine unfailing_bind (unfailing_refl _) fun there => unfailing_ite ?_ (unfailing_refl _)
  exact unfailing_bind (unfailing_mapError (unfailing_readToString _) _) fun raw => unfailing_refl _

theorem unfailing_prepare (env : StartEnv) :
    Unfailing (prepare host env) (prepare host env.faultless) := by
  unfold prepare writeDocuments
  refine unfailing_bind (unfailing_mapError (unfailing_createDirAll _) _) fun _ => ?_
  refine unfailing_bind (unfailing_loadConfig host _) fun cfg => ?_
  refine unfailing_bind (unfailing_mapError (Image.unfailing_ensureImages _ _ _) _) fun _ => ?_
  refine unfailing_bind (unfailing_mapError (Pki.unfailing_loadOrCreate _ _) _) fun m => ?_
  refine unfailing_bind ?_ fun _ => ?_
  · refine unfailing_bind (unfailing_refl _) fun userData => ?_
    refine unfailing_bind (unfailing_refl _) fun metaData => ?_
    refine unfailing_bind (unfailing_mapError (unfailing_write _ _) _) fun _ => ?_
    exact unfailing_mapError (unfailing_write _ _) _
  · exact unfailing_bind (unfailing_mapError (unfailing_write _ _) _) fun _ => unfailing_refl _

end Whole

/-- The settings that a start uses: the defaults, or those in `config.toml`. -/
def Configured (host : Host) (d : StateDisk) (cfg : Config) : Prop :=
  (d.file .configToml = none ∧ cfg = Config.default) ∨
    ∃ raw, (d.file .configToml).bind decode = some raw ∧ host.parseConfig raw = .ok cfg ∧
      cfg.validate = .ok ()

/-- What preparing needs: settings, images that pass the check or that will, sizes that a
disk still to be made can have, and key material that is there or can be generated. -/
structure Supplied (host : Host) (env : StartEnv) (d : StateDisk) (cfg : Config) (m : PkiMaterial) :
    Prop where
  config : Configured host d cfg
  arch : ∃ arch, Image.debianArch host.arch = some arch
  download : d.file .baseImage = none → env.image.curl = .delivers
  base : Image.Accepted (Image.baseOf env.image d)
  root : Image.Accepted (Image.rootOf env.image cfg d)
  rootSize : ¬ Image.Oversized .rootRaw cfg.rootDiskGib d
  poolSize : ¬ Image.Oversized .poolRaw cfg.poolDiskGib d
  material : Pki.Reads d m ∨ (Pki.Absent d ∧ Pki.Generates env.pki m)

section Prepare
variable {host : Host} {env : StartEnv} {d d' : StateDisk} {cfg : Config} {m : PkiMaterial}

theorem readToString_ok {f : File} {t : Text} : readToString .none f d = (.ok t, d') ↔
    (d.file f).bind decode = some t ∧ d' = d := by
  constructor
  · intro h
    have hends : Ends (readToString .none f) d
        (fun t d' => (d.file f).bind decode = some t ∧ d' = d) fun _ => True :=
      ends_readToString (fun b t _ hb ht => ⟨by rw [hb]; exact ht, rfl⟩) fun _ => trivial
    exact hends.of_ok h
  · rintro ⟨ht, rfl⟩
    obtain ⟨b, hb, ht⟩ := Option.bind_eq_some_iff.mp ht
    exact readToString_none hb ht

theorem checked_ok {cfg' : Config} : checked cfg d = (.ok cfg', d') ↔
    cfg.validate = .ok () ∧ cfg' = cfg ∧ d' = d := by
  unfold checked
  cases cfg.validate with
  | ok u =>
    cases u
    constructor
    · intro h
      cases h
      exact ⟨rfl, rfl, rfl⟩
    · rintro ⟨-, rfl, rfl⟩
      rfl
  | error e =>
    constructor
    · intro h
      cases h
    · rintro ⟨h, -⟩
      cases h

/-- When the settings are loaded, and which they are. -/
theorem loadConfig_ok : loadConfig host .none d = (.ok cfg, d') ↔ Configured host d cfg ∧ d' = d := by
  unfold loadConfig
  rw [Cmd.bind_of_ok (Cmd.mapError_of_ok (present_apply ..) _)]
  cases hfile : d.file .configToml with
  | none =>
    rw [Option.isSome_none, if_neg (by decide), checked_ok]
    constructor
    · rintro ⟨-, rfl, rfl⟩
      exact ⟨Or.inl ⟨hfile, rfl⟩, rfl⟩
    · rintro ⟨⟨-, rfl⟩ | ⟨raw, hraw, -⟩, rfl⟩
      · exact ⟨Config.default_valid, rfl, rfl⟩
      · rw [hfile] at hraw
        cases hraw
  | some b =>
    rw [Option.isSome_some, if_pos rfl]
    constructor
    · intro h
      obtain ⟨raw, d1, hread, hrest⟩ := Cmd.bind_ok.mp h
      have hends : Ends ((readToString .none File.configToml).mapError CliError.io) d
          (fun t d' => (d.file .configToml).bind decode = some t ∧ d' = d) fun _ => True :=
        ends_mapError.mpr (ends_readToString (fun b t _ hb ht => ⟨by rw [hb]; exact ht, rfl⟩)
          fun _ => trivial)
      obtain ⟨hraw, rfl⟩ := hends.of_ok hread
      cases hparse : host.parseConfig raw with
      | error reason =>
        rw [hparse] at hrest
        cases hrest
      | ok cfg' =>
        rw [hparse] at hrest
        obtain ⟨hvalid, rfl, rfl⟩ := checked_ok.mp hrest
        exact ⟨Or.inr ⟨raw, hraw, hparse, hvalid⟩, rfl⟩
    · rintro ⟨⟨hnone, -⟩ | ⟨raw, hraw, hparse, hvalid⟩, rfl⟩
      · rw [hfile] at hnone
        cases hnone
      · have hread : readToString .none File.configToml d' = (.ok raw, d') :=
          readToString_ok.mpr ⟨hraw, rfl⟩
        rw [Cmd.bind_of_ok (Cmd.mapError_of_ok hread _), hparse]
        exact checked_ok.mpr ⟨hvalid, rfl, rfl⟩

/-- A call that meets no fault succeeds exactly if nothing it checks is rejected and no
size overflows. -/
theorem ensureImages_ok {names : Image.Names} {env : ImageEnv} (hfault : ∀ site, env.fault site = .none) :
    Image.ensureImages names env cfg d = (.ok (), d') ↔
      (∃ arch, Image.debianArch names.arch = some arch) ∧
        (d.file .baseImage = none → env.curl = .delivers) ∧ Image.Accepted (Image.baseOf env d) ∧
        Image.Accepted (Image.rootOf env cfg d) ∧
        (¬ Image.Oversized .rootRaw cfg.rootDiskGib d ∧
          ¬ Image.Oversized .poolRaw cfg.poolDiskGib d) ∧
        d' = (Image.withRoot env cfg d).put .poolRaw (Image.poolOf cfg d) := by
  constructor
  · intro h
    obtain ⟨arch, harch, hcurl⟩ : ∃ arch, Image.debianArch names.arch = some arch ∧
        (d.file .baseImage = none → env.curl = .delivers) := by
      have hpeel := h
      unfold Image.ensureImages at hpeel
      obtain ⟨_, d1, hdir, hpeel⟩ := Cmd.bind_ok.mp hpeel
      rw [hfault, Image.io, Cmd.mapError_of_ok (createDirAll_none ..)] at hdir
      obtain ⟨-, rfl⟩ := Prod.mk.inj hdir
      cases harch : Image.debianArch names.arch with
      | none =>
        rw [harch] at hpeel
        cases hpeel
      | some arch =>
        rw [harch] at hpeel
        obtain ⟨_, d2, hfetch, -⟩ := Cmd.bind_ok.mp hpeel
        have hends : Ends (Image.fetchBaseImage env (Image.imageUrl arch))
            (d.mkdirs (Tree.path File Dir.imagesDir))
            (fun _ _ => d.file .baseImage = none → env.curl = .delivers) fun _ => True := by
          refine Image.ends_fetchBaseImage (fun b hb hnone => ?_) (fun _ hcurl _ => hcurl) trivial
            (fun _ _ _ => trivial) fun _ _ => trivial
          exact absurd (hb.symm.trans hnone) (by simp)
        exact ⟨arch, rfl, hends.of_ok hfetch⟩
    rw [Image.ensureImages_apply harch hfault hcurl, Cmd.ite_else_error, Cmd.ite_error,
      Cmd.ite_else_error, Cmd.ite_error] at h
    obtain ⟨hbase, hrootSize, hroot, hpoolSize, hresult⟩ := h
    exact ⟨⟨arch, harch⟩, hcurl, hbase, hroot, ⟨hrootSize, hpoolSize⟩, (Prod.mk.inj hresult).2.symm⟩
  · rintro ⟨⟨arch, harch⟩, hcurl, hbase, hroot, ⟨hrootSize, hpoolSize⟩, rfl⟩
    rw [Image.ensureImages_apply harch hfault hcurl, if_pos hbase, if_neg hrootSize, if_pos hroot,
      if_neg hpoolSize]

/-- A call loads material that is there, or generates it where there is none. -/
theorem loadOrCreate_ok {env : PkiEnv} {dir : Text} (hfault : ∀ site, env.fault site = .none) :
    (∃ d', Pki.loadOrCreate env dir d = (.ok m, d')) ↔
      Pki.Reads d m ∨ (Pki.Absent d ∧ Pki.Generates env m) := by
  constructor
  · rintro ⟨d', h⟩
    have hends : Ends (Pki.loadOrCreate env dir) d
        (fun m _ => Pki.Reads d m ∨ (Pki.Absent d ∧ Pki.Generates env m)) fun _ => True :=
      Pki.ends_loadOrCreate (fun m hm => Or.inl hm) (fun m _ habsent hm _ => Or.inr ⟨habsent, hm⟩)
        trivial (fun _ _ _ => trivial) fun _ _ _ _ _ _ _ _ => trivial
    exact hends.of_ok h
  · rintro (hm | ⟨habsent, hm⟩)
    · exact ⟨d, Pki.loadOrCreate_reads hfault hm⟩
    · exact ⟨_, Pki.loadOrCreate_creates hfault habsent hm⟩

/-- What a call returns is what the files then read as. -/
theorem reads_of_loadOrCreate {env : PkiEnv} {dir : Text} (h : Pki.loadOrCreate env dir d = (.ok m, d')) :
    Pki.Reads d' m := by
  have hends : Ends (Pki.loadOrCreate env dir) d (fun m d' => Pki.Reads d' m) fun _ => True :=
    Pki.ends_loadOrCreate (fun m hm => hm) (fun m _ _ _ hm => hm.reads) trivial
      (fun _ _ _ => trivial) fun _ _ _ _ _ _ _ _ => trivial
  exact hends.of_ok h

/-- All that vfkit's arguments name is on the disk, and the arguments are too. -/
structure Equipped (host : Host) (d : StateDisk) (args : List Text) : Prop where
  imaged : Image.Imaged d
  documents : ∃ m, Pki.Reads d m ∧ d.file .userData = some (encode (userDataOf m)) ∧
    d.file .metaData = some (encode (metaDataOf m))
  vfkitArgs : d.file .vfkitArgs = some (encode (['\n'].intercalate args))
  settings : ∃ cfg : Config, cfg.validate = .ok () ∧ args = Vm.buildArgs (vmSpec host cfg)

theorem Equipped.of_only {args : List Text} {S : File → Prop} (h : Equipped host d args)
    (hd : Only S d d') (hs : ∀ f ∈ preparedFiles, ¬ S f) : Equipped host d' args where
  imaged := h.imaged.of_only hd fun f hf => hs f (by simp [preparedFiles, hf])
  documents := by
    obtain ⟨m, hm, huser, hmeta⟩ := h.documents
    refine ⟨m, hm.of_file fun f hf => hd f (hs f (by simp [preparedFiles, hf])), ?_, ?_⟩
    · rw [hd _ (hs _ (by decide)), huser]
    · rw [hd _ (hs _ (by decide)), hmeta]
  vfkitArgs := by rw [hd _ (hs _ (by decide)), h.vfkitArgs]
  settings := h.settings

theorem Configured.valid (h : Configured host d cfg) : cfg.validate = .ok () := by
  obtain ⟨-, rfl⟩ | ⟨raw, -, -, hvalid⟩ := h
  · exact Config.default_valid
  · exact hvalid

/-- Only config.toml has a say in the settings. -/
theorem Configured.of_file (h : Configured host d cfg) (hd : d'.file .configToml = d.file .configToml) :
    Configured host d' cfg := by
  unfold Configured
  rwa [hd]

/-- Images that pass the check, and a pool beside them. -/
theorem imaged_of_accepted {env : ImageEnv} {cfg : Config} {d : StateDisk}
    (hbase : Image.Accepted (Image.baseOf env d)) (hroot : Image.Accepted (Image.rootOf env cfg d)) :
    Image.Imaged ((Image.withRoot env cfg d).put .poolRaw (Image.poolOf cfg d)) := by
  have hbaseOf : (Image.withRoot env cfg d).file .baseImage = some (Image.baseOf env d) :=
    (Disk.put_of_ne _ (by decide) _).trans (Disk.put_self ..)
  have hrootOf : (Image.withRoot env cfg d).file .rootRaw = some (Image.rootOf env cfg d) :=
    Disk.put_self ..
  refine ⟨⟨_, ?_, hbase⟩, ⟨_, ?_, hroot⟩, ⟨_, Disk.put_self ..⟩⟩
  · exact (Disk.put_of_ne _ (by decide) _).trans hbaseOf
  · exact (Disk.put_of_ne _ (by decide) _).trans hrootOf

/-- The images are none of the key material. -/
theorem pkiPaths_of_ensureImages {names : Image.Names} {env : ImageEnv} {cfg : Config}
    (h : (Image.ensureImages names env cfg (d.mkdirs (Tree.path File Dir.stateDir))).2 = d') :
    ∀ f ∈ Pki.pkiPaths, d'.file f = d.file f := by
  have hwithin : Only (· ∈ Image.imageFiles) d d' := by
    rw [← h]
    exact Image.within_ensureImages env cfg names (d.mkdirs (Tree.path File Dir.stateDir))
  have hdisjoint : ∀ f ∈ Pki.pkiPaths, f ∉ Image.imageFiles := by decide
  exact fun f hf => hwithin f (hdisjoint f hf)

theorem stateDir_of_loadOrCreate {env : PkiEnv} {dir : Text} (hfault : ∀ site, env.fault site = .none)
    (hdir : d.dir .stateDir = true) (h : Pki.loadOrCreate env dir d = (.ok m, d')) :
    d'.dir .stateDir = true := by
  obtain hm | ⟨habsent, hm⟩ := (loadOrCreate_ok hfault).mp ⟨d', h⟩
  · rw [Pki.loadOrCreate_reads hfault hm] at h
    obtain ⟨-, rfl⟩ := Prod.mk.inj h
    exact hdir
  · rw [Pki.loadOrCreate_creates hfault habsent hm] at h
    obtain ⟨-, rfl⟩ := Prod.mk.inj h
    exact Disk.mkdirs_dir _ (by decide)

/-- With images and key material there, the documents and the arguments are what is left to write. -/
theorem equipped_of_written (himaged : Image.Imaged d) (hreads : Pki.Reads d m)
    (hvalid : cfg.validate = .ok ()) :
    Equipped host ((withDocuments m d).put .vfkitArgs
      (encode (['\n'].intercalate (Vm.buildArgs (vmSpec host cfg))))) (Vm.buildArgs (vmSpec host cfg)) := by
  have hlater : Only (· ∈ documents) d ((withDocuments m d).put .vfkitArgs
      (encode (['\n'].intercalate (Vm.buildArgs (vmSpec host cfg))))) := by
    refine Only.trans _ _ _ (Only.trans _ _ _ (only_put d ?_ _) (only_put _ ?_ _)) (only_put _ ?_ _)
    all_goals decide
  have hdisjoint : ∀ f ∈ Pki.pkiPaths, f ∉ documents := by decide
  refine ⟨himaged.of_only hlater (by decide), ⟨m, ?_, ?_, ?_⟩, Disk.put_self .., ⟨cfg, hvalid, rfl⟩⟩
  · exact hreads.of_file fun f hf => hlater f (hdisjoint f hf)
  · simp [withDocuments]
  · simp [withDocuments]

section FaultFree
variable {args : List Text} (henv : env.FaultFree)
include henv

/-- Preparing that meets no fault and succeeds had what it needs, and leaves it all on the disk. -/
theorem supplied_of_prepare (h : prepare host env d = (.ok args, d')) :
    ∃ cfg m, Supplied host env d cfg m ∧ args = Vm.buildArgs (vmSpec host cfg) ∧
      Equipped host d' args ∧ d'.dir .stateDir = true := by
  unfold prepare at h
  obtain ⟨_, d0, hdir, h⟩ := Cmd.bind_ok.mp h
  rw [henv.site, Cmd.mapError_of_ok (createDirAll_none ..)] at hdir
  obtain ⟨-, rfl⟩ := Prod.mk.inj hdir
  obtain ⟨cfg, d0, hconfig, h⟩ := Cmd.bind_ok.mp h
  rw [henv.site] at hconfig
  obtain ⟨hsettings, rfl⟩ := loadConfig_ok.mp hconfig
  obtain ⟨_, d1, himages, h⟩ := Cmd.bind_ok.mp h
  have himages := Cmd.mapError_ok.mp himages
  obtain ⟨harch, hcurl, hbase, hroot, hsizes, hd1⟩ := (ensureImages_ok henv.image).mp himages
  obtain ⟨m, d2, hpki, h⟩ := Cmd.bind_ok.mp h
  have hpki := Cmd.mapError_ok.mp hpki
  have hmaterial := (loadOrCreate_ok henv.pki).mp ⟨d2, hpki⟩
  have hsame : ∀ f ∈ Pki.pkiPaths, d1.file f = d.file f :=
    pkiPaths_of_ensureImages (congrArg Prod.snd himages)
  have himaged : Image.Imaged d1 := by
    rw [hd1]
    exact imaged_of_accepted hbase hroot
  have hdir2 : d2.dir .stateDir = true := by
    refine stateDir_of_loadOrCreate henv.pki ?_ hpki
    rw [hd1]
    exact Disk.mkdirs_dir _ (by decide)
  obtain ⟨_, d3, hdocuments, h⟩ := Cmd.bind_ok.mp h
  rw [writeDocuments_whole henv hdir2] at hdocuments
  obtain ⟨-, rfl⟩ := Prod.mk.inj hdocuments
  obtain ⟨_, d4, hwrite, h⟩ := Cmd.bind_ok.mp h
  have hdir3 : (withDocuments m d2).dir .stateDir = true := hdir2
  rw [henv.site, Cmd.mapError_of_ok (write_none hdir3 _)] at hwrite
  obtain ⟨-, rfl⟩ := Prod.mk.inj hwrite
  obtain ⟨hargs, rfl⟩ := Prod.mk.inj h
  obtain rfl := Outcome.ok.inj hargs
  refine ⟨cfg, m, ⟨hsettings, harch, hcurl, hbase, hroot, hsizes.1, hsizes.2, ?_⟩, rfl, ?_, hdir2⟩
  · obtain hm | ⟨habsent, hm⟩ := hmaterial
    · exact Or.inl (hm.of_file fun f hf => (hsame f hf).symm)
    · exact Or.inr ⟨fun f hf => (hsame f hf).symm.trans (habsent f hf), hm⟩
  · have hframe : Only (· ∈ Pki.pkiPaths) d1 d2 := by
      have hwithin := Pki.within_loadOrCreate env.pki host.pkiDir d1
      rwa [hpki] at hwithin
    exact equipped_of_written (himaged.of_only hframe (by decide)) (reads_of_loadOrCreate hpki)
      (Configured.valid hsettings)

/-- Preparing succeeds with what it needs. -/
theorem prepare_of_supplied (h : Supplied host env d cfg m) :
    ∃ d', prepare host env d = (.ok (Vm.buildArgs (vmSpec host cfg)), d') := by
  let d0 := d.mkdirs (Tree.path File Dir.stateDir)
  have hconfig : loadConfig host .none d0 = (.ok cfg, d0) := loadConfig_ok.mpr ⟨h.config, rfl⟩
  obtain ⟨d1, himages, hd1⟩ : ∃ d1, Image.ensureImages host.names env.image cfg d0 = (.ok (), d1) ∧
      d1 = (Image.withRoot env.image cfg d0).put .poolRaw (Image.poolOf cfg d0) :=
    ⟨_, (ensureImages_ok henv.image).mpr
      ⟨h.arch, h.download, h.base, h.root, ⟨h.rootSize, h.poolSize⟩, rfl⟩, rfl⟩
  have hsame : ∀ f ∈ Pki.pkiPaths, d1.file f = d.file f :=
    pkiPaths_of_ensureImages (congrArg Prod.snd himages)
  have hdir1 : d1.dir .stateDir = true := by
    rw [hd1]
    exact Disk.mkdirs_dir _ (by decide)
  obtain ⟨d2, hpki⟩ : ∃ d2, Pki.loadOrCreate env.pki host.pkiDir d1 = (.ok m, d2) := by
    apply (loadOrCreate_ok henv.pki).mpr
    obtain hm | ⟨habsent, hm⟩ := h.material
    · exact Or.inl (hm.of_file hsame)
    · exact Or.inr ⟨fun f hf => (hsame f hf).trans (habsent f hf), hm⟩
  have hdir2 : d2.dir .stateDir = true := stateDir_of_loadOrCreate henv.pki hdir1 hpki
  have hdir3 : (withDocuments m d2).dir .stateDir = true := hdir2
  unfold prepare
  rw [henv.site, Cmd.bind_of_ok (Cmd.mapError_of_ok (createDirAll_none ..) _), henv.site,
    Cmd.bind_of_ok hconfig, Cmd.bind_of_ok (Cmd.mapError_of_ok himages _),
    Cmd.bind_of_ok (Cmd.mapError_of_ok hpki _), Cmd.bind_of_ok (writeDocuments_whole henv hdir2),
    henv.site, Cmd.bind_of_ok (Cmd.mapError_of_ok (write_none hdir3 _) _)]
  exact ⟨_, rfl⟩

end FaultFree

/-- What preparing leaves when it succeeds, under whatever faults. -/
theorem equipped_of_prepare {args : List Text} (h : prepare host env d = (.ok args, d')) :
    Equipped host d' args := by
  obtain ⟨_, _, _, _, hequipped, -⟩ := supplied_of_prepare (faultless_faultFree env)
    (unfailing_prepare host env d args d' h)
  exact hequipped

end Prepare

/-! ### The launch -/

section Launch
variable {host : Host} {env : StartEnv} {w w' : World}

/-- The disk with new, empty logs. -/
def withLogs (d : StateDisk) : StateDisk := (d.put .vfkitLog []).put .vfkitErr []

theorem withLogs_withLogs (d : StateDisk) : withLogs (withLogs d) = withLogs d := by
  have hlog : (withLogs d).file .vfkitLog = some [] :=
    (Disk.put_of_ne _ (by decide) _).trans (Disk.put_self ..)
  have herr : (withLogs d).file .vfkitErr = some [] := Disk.put_self ..
  rw [withLogs, Disk.put_same hlog, Disk.put_same herr]

theorem onDisk_ok {ε α : Type} {m : Cmd StateDisk ε α} {a : α} : onDisk m w = (.ok a, w') ↔
    ∃ d, m w.disk = (.ok a, d) ∧ w' = w.setDisk d := by
  constructor
  · intro h
    have houtcome : (onDisk m w).1 = .ok a := congrArg Prod.fst h
    have hstate : (onDisk m w).2 = w' := congrArg Prod.snd h
    exact ⟨(m w.disk).2, Prod.ext houtcome rfl, hstate.symm⟩
  · rintro ⟨d, h, rfl⟩
    exact onDisk_of_ok h

theorem io_ok {α : Type} {m : Cmd StateDisk IoError α} {a : α} : io m w = (.ok a, w') ↔
    ∃ d, m w.disk = (.ok a, d) ∧ w' = w.setDisk d := Cmd.mapError_ok.trans onDisk_ok

/-- When a write in a directory that is there returns. -/
theorem write_ok {fault : Fault} {f : File} {b : Bytes} {d d' : StateDisk}
    (hdir : d.dir (Tree.parent f) = true) :
    write fault f b d = (.ok (), d') ↔ fault = .none ∧ d' = d.put f b := by
  constructor
  · intro h
    have hends : Ends (write fault f b) d (fun _ d' => fault = .none ∧ d' = d.put f b) fun _ => True :=
      ends_write_of_dir hdir (fun hfault => ⟨hfault, rfl⟩) (fun _ _ => trivial) fun _ _ => trivial
    exact hends.of_ok h
  · rintro ⟨rfl, rfl⟩
    exact write_none hdir b

/-- When the watch returns. -/
theorem watch_ok {c : Child} (hdir : w.disk.dir .stateDir = true) : watch c w = (.ok (), w') ↔
    c.writePid = .none ∧ c.early = .outlives ∧
      w' = w.setDisk (w.disk.put .vfkitPid (pidText c.pid)) := by
  unfold watch
  constructor
  · intro h
    obtain ⟨_, w1, hwrite, h⟩ := Cmd.bind_ok.mp h
    obtain ⟨d, hdisk, rfl⟩ := io_ok.mp hwrite
    obtain ⟨hfault, rfl⟩ := (write_ok hdir).mp hdisk
    cases hearly : c.early with
    | outlives =>
      rw [hearly] at h
      exact ⟨hfault, rfl, (congrArg Prod.snd h).symm⟩
    | exits status stderr readErr =>
      rw [hearly] at h
      obtain ⟨_, _, -, h⟩ := Cmd.bind_ok.mp h
      obtain ⟨_, _, -, h⟩ := Cmd.bind_ok.mp h
      cases h
    | waitFails =>
      rw [hearly] at h
      cases h
    | killed =>
      rw [hearly] at h
      cases h
  · rintro ⟨hfault, hearly, rfl⟩
    have hwrite : io (write c.writePid .vfkitPid (pidText c.pid)) w =
        (.ok (), w.setDisk (w.disk.put .vfkitPid (pidText c.pid))) :=
      io_ok.mpr ⟨_, (write_ok hdir).mpr ⟨hfault, rfl⟩, rfl⟩
    rw [Cmd.bind_of_ok hwrite, hearly]
    rfl

section Turn
variable {launch : Launch} {launches : List Launch} {args : List Text}

/-- A turn of the loop begins with two empty logs. -/
theorem logs_created (hdir : w.disk.dir .stateDir = true)
    (hlogs : launch.createLog = .none ∧ launch.createErr = .none) :
    io (createFile launch.createLog .vfkitLog) w = (.ok (), w.setDisk (w.disk.put .vfkitLog [])) ∧
      io (createFile launch.createErr .vfkitErr) (w.setDisk (w.disk.put .vfkitLog [])) =
        (.ok (), w.setDisk (withLogs w.disk)) := by
  have hdir1 : (w.disk.put .vfkitLog []).dir .stateDir = true := hdir
  exact ⟨io_ok.mpr ⟨_, (write_ok hdir).mpr ⟨hlogs.1, rfl⟩, rfl⟩,
    io_ok.mpr ⟨_, (write_ok hdir1).mpr ⟨hlogs.2, rfl⟩, rfl⟩⟩

theorem logs_of_startVm (hdir : w.disk.dir .stateDir = true)
    (h : startVm (launch :: launches) args w = (.ok (), w')) :
    launch.createLog = .none ∧ launch.createErr = .none := by
  unfold startVm at h
  obtain ⟨_, w1, hlog, h⟩ := Cmd.bind_ok.mp h
  obtain ⟨d1, hdisk1, rfl⟩ := io_ok.mp hlog
  obtain ⟨hcreate, rfl⟩ := (write_ok hdir).mp hdisk1
  obtain ⟨_, w2, herr, h⟩ := Cmd.bind_ok.mp h
  obtain ⟨d2, hdisk2, rfl⟩ := io_ok.mp herr
  have hdir1 : (w.disk.put .vfkitLog []).dir .stateDir = true := hdir
  obtain ⟨hcreate', -⟩ := (write_ok hdir1).mp hdisk2
  exact ⟨hcreate, hcreate'⟩

/-- The launch comes to a child at once. -/
theorem startVm_child (hdir : w.disk.dir .stateDir = true)
    (hlogs : launch.createLog = .none ∧ launch.createErr = .none) {c : Child}
    (hspawn : launch.spawn = .child c) (hfree : Free w.procs c.pid) :
    startVm (launch :: launches) args w =
      watch c ((w.setDisk (withLogs w.disk)).spawn c args) := by
  obtain ⟨hlog, herr⟩ := logs_created hdir hlogs
  have hgets : decide (Free (w.setDisk (withLogs w.disk)).procs c.pid) = true := decide_eq_true hfree
  unfold startVm
  rw [Cmd.bind_of_ok hlog, Cmd.bind_of_ok herr, hspawn]
  dsimp only
  rw [Cmd.bind_of_ok (Cmd.gets_apply ..), if_pos hgets, Cmd.bind_of_ok (Cmd.modify_apply ..)]

/-- Once vfkit has been installed, the next turn starts from empty logs too. -/
theorem startVm_retry (hdir : w.disk.dir .stateDir = true)
    (hlogs : launch.createLog = .none ∧ launch.createErr = .none) {prompt : Prompt} {input : Text}
    (hspawn : launch.spawn = .notFound (some prompt)) (hinput : prompt.input = some input)
    (hyes : saysYes input = true) (hinstalled : prompt.installed = some true) :
    startVm (launch :: launches) args w = startVm launches args (w.setDisk (withLogs w.disk)) := by
  obtain ⟨hlog, herr⟩ := logs_created hdir hlogs
  conv_lhs => unfold startVm
  rw [Cmd.bind_of_ok hlog, Cmd.bind_of_ok herr, hspawn]
  dsimp only
  rw [hinput]
  dsimp only
  rw [if_pos hyes, hinstalled]

/-- Of a launch that succeeds: a child was spawned, or vfkit installed and the loop went on. -/
theorem startVm_cons_ok (hdir : w.disk.dir .stateDir = true)
    (h : startVm (launch :: launches) args w = (.ok (), w')) :
    (∃ c, launch.spawn = .child c ∧ Free w.procs c.pid) ∨ ∃ prompt input,
      launch.spawn = .notFound (some prompt) ∧ prompt.input = some input ∧ saysYes input = true ∧
        prompt.installed = some true := by
  obtain ⟨hlog, herr⟩ := logs_created hdir (logs_of_startVm hdir h)
  unfold startVm at h
  rw [Cmd.bind_of_ok hlog, Cmd.bind_of_ok herr] at h
  cases hspawn : launch.spawn with
  | failed reason =>
    rw [hspawn] at h
    cases h
  | child c =>
    rw [hspawn] at h
    dsimp only at h
    rw [Cmd.bind_of_ok (Cmd.gets_apply ..)] at h
    split at h
    · next hfree => exact Or.inl ⟨c, rfl, of_decide_eq_true hfree⟩
    · cases h
  | notFound brew =>
    rw [hspawn] at h
    cases brew with
    | none => cases h
    | some prompt =>
      dsimp only at h
      cases hinput : prompt.input with
      | none =>
        rw [hinput] at h
        cases h
      | some input =>
        rw [hinput] at h
        dsimp only at h
        split at h
        · next hyes =>
          cases hinstalled : prompt.installed with
          | none =>
            rw [hinstalled] at h
            cases h
          | some installed =>
            rw [hinstalled] at h
            cases installed with
            | false => cases h
            | true => exact Or.inr ⟨prompt, input, rfl, hinput, hyes, hinstalled⟩
        · cases h

/-- The first launch spawns the child, or leads to the next by an installation. -/
theorem spawned_cons {procs : Pid → Option Process} {c : Child} :
    spawned procs (launch :: launches) = some c ↔
      (launch.createLog = .none ∧ launch.createErr = .none) ∧
        ((launch.spawn = .child c ∧ Free procs c.pid) ∨ ∃ prompt input,
          launch.spawn = .notFound (some prompt) ∧ prompt.input = some input ∧ saysYes input = true ∧
            prompt.installed = some true ∧ spawned procs launches = some c) := by
  rw [spawned]
  by_cases hlogs : launch.createLog = .none ∧ launch.createErr = .none
  · rw [if_pos hlogs]
    cases launch.spawn with
    | failed reason => simp
    | child c' =>
      dsimp only
      split
      · next hfree =>
        simp only [hlogs, Option.some.injEq, Spawn.child.injEq, and_self, true_and, reduceCtorEq,
          false_and, exists_false, or_false, iff_self_and]
        rintro rfl
        exact hfree
      · next hno =>
        simp only [hlogs, Spawn.child.injEq, and_self, true_and, reduceCtorEq, false_and, exists_false,
          or_false, false_iff, not_and]
        rintro rfl
        exact hno
    | notFound brew =>
      cases brew with
      | none => simp
      | some prompt =>
        dsimp only
        cases hinput : prompt.input with
        | none => simp [hinput]
        | some input => simp [hinput, hlogs, and_assoc]
  · rw [if_neg hlogs]
    simp [hlogs]

end Turn

/-- The launch watches the child it comes to. -/
theorem startVm_eq_watch {launches : List Launch} {args : List Text} {c : Child}
    (hdir : w.disk.dir .stateDir = true) (hc : spawned w.procs launches = some c) :
    startVm launches args w = watch c ((w.setDisk (withLogs w.disk)).spawn c args) := by
  induction launches generalizing w with
  | nil => cases hc
  | cons launch launches ih =>
    obtain ⟨hlogs, ⟨hspawn, hfree⟩ | ⟨prompt, input, hspawn, hinput, hyes, hinstalled, hc⟩⟩ :=
      spawned_cons.mp hc
    · exact startVm_child hdir hlogs hspawn hfree
    · have hnext := ih (w := w.setDisk (withLogs w.disk)) hdir hc
      rw [World.setDisk_disk, withLogs_withLogs] at hnext
      exact (startVm_retry hdir hlogs hspawn hinput hyes hinstalled).trans hnext

/-- A launch that succeeds comes to a child. -/
theorem spawned_of_startVm {launches : List Launch} {args : List Text} (hdir : w.disk.dir .stateDir = true)
    (h : startVm launches args w = (.ok (), w')) : ∃ c, spawned w.procs launches = some c := by
  induction launches generalizing w with
  | nil => cases h
  | cons launch launches ih =>
    have hlogs := logs_of_startVm hdir h
    obtain ⟨c, hspawn, hfree⟩ | ⟨prompt, input, hspawn, hinput, hyes, hinstalled⟩ :=
      startVm_cons_ok hdir h
    · exact ⟨c, spawned_cons.mpr ⟨hlogs, Or.inl ⟨hspawn, hfree⟩⟩⟩
    · rw [startVm_retry hdir hlogs hspawn hinput hyes hinstalled] at h
      obtain ⟨c, hc⟩ := ih (w := w.setDisk (withLogs w.disk)) hdir h
      exact ⟨c, spawned_cons.mpr ⟨hlogs, Or.inr ⟨prompt, input, hspawn, hinput, hyes, hinstalled, hc⟩⟩⟩

/-- The launch succeeds with a child that outlives the grace period. -/
theorem startVm_ok {launches : List Launch} {args : List Text} (hdir : w.disk.dir .stateDir = true) :
    startVm launches args w = (.ok (), w') ↔
      ∃ c, spawned w.procs launches = some c ∧ c.writePid = .none ∧ c.early = .outlives ∧
        w' = (w.setDisk ((withLogs w.disk).put .vfkitPid (pidText c.pid))).spawn c args := by
  have hspawn : ∀ c, ((w.setDisk (withLogs w.disk)).spawn c args).disk.dir .stateDir = true :=
    fun _ => hdir
  constructor
  · intro h
    obtain ⟨c, hc⟩ := spawned_of_startVm hdir h
    rw [startVm_eq_watch hdir hc, watch_ok (hspawn c)] at h
    exact ⟨c, hc, h⟩
  · rintro ⟨c, hc, h⟩
    rw [startVm_eq_watch hdir hc, watch_ok (hspawn c)]
    exact h

/-- A start that meets no fault, where it succeeds. -/
theorem cmdStart_ok (henv : env.FaultFree) : cmdStart host env w = (.ok (), w') ↔
    ∃ cfg m c d, Supplied host env w.disk cfg m ∧
      prepare host env w.disk = (.ok (Vm.buildArgs (vmSpec host cfg)), d) ∧
      spawned w.procs env.launches = some c ∧ c.writePid = .none ∧ c.early = .outlives ∧
      w' = ((w.setDisk ((withLogs d).put .vfkitPid (pidText c.pid))).spawn c
        (Vm.buildArgs (vmSpec host cfg))).note (.started (d.file .userData) (d.file .metaData)) := by
  unfold cmdStart
  constructor
  · intro h
    obtain ⟨args, w1, hprepare, h⟩ := Cmd.bind_ok.mp h
    obtain ⟨d, hdisk, rfl⟩ := onDisk_ok.mp hprepare
    obtain ⟨cfg, m, hsupplied, rfl, -, hdir⟩ := supplied_of_prepare henv hdisk
    obtain ⟨_, w2, hstart, hrecord⟩ := Cmd.bind_ok.mp h
    obtain ⟨c, hc, hwrite, hearly, rfl⟩ := (startVm_ok hdir).mp hstart
    exact ⟨cfg, m, c, d, hsupplied, hdisk, hc, hwrite, hearly, (congrArg Prod.snd hrecord).symm⟩
  · rintro ⟨cfg, m, c, d, hsupplied, hprepare, hc, hwrite, hearly, rfl⟩
    obtain ⟨_, _, _, _, _, hdir⟩ := supplied_of_prepare henv hprepare
    have hstart : startVm env.launches (Vm.buildArgs (vmSpec host cfg)) (w.setDisk d) = (.ok (), _) :=
      (startVm_ok hdir).mpr ⟨c, hc, hwrite, hearly, rfl⟩
    rw [Cmd.bind_of_ok (onDisk_of_ok hprepare), Cmd.bind_of_ok hstart]
    rfl

/-- **When a start succeeds**: one that meets no fault on the disk succeeds exactly if what
preparing needs is there, and the launch comes to a vfkit that outlives the grace
period and whose PID is written. -/
theorem start_succeeds_iff (henv : env.FaultFree) : (∃ w', cmdStart host env w = (.ok (), w')) ↔
    ∃ cfg m c, Supplied host env w.disk cfg m ∧ spawned w.procs env.launches = some c ∧
      c.writePid = .none ∧ c.early = .outlives := by
  constructor
  · rintro ⟨w', h⟩
    obtain ⟨cfg, m, c, d, hsupplied, -, hc, hwrite, hearly, -⟩ := (cmdStart_ok henv).mp h
    exact ⟨cfg, m, c, hsupplied, hc, hwrite, hearly⟩
  · rintro ⟨cfg, m, c, hsupplied, hc, hwrite, hearly⟩
    obtain ⟨d, hprepare⟩ := prepare_of_supplied henv hsupplied
    exact ⟨_, (cmdStart_ok henv).mpr ⟨cfg, m, c, d, hsupplied, hprepare, hc, hwrite, hearly, rfl⟩⟩

theorem booting_supplied (pid : Pid) :
    Supplied laptop (booting pid) nothing.disk Config.default material where
  config := Or.inl ⟨rfl, rfl⟩
  arch := ⟨"arm64".toList, by decide⟩
  download _ := rfl
  base := Image.oneSector_accepted
  root := Image.oneSector_accepted.resize (by decide +kernel)
  rootSize := Image.not_oversized_of_lt (by decide)
  poolSize := Image.not_oversized_of_lt (by decide)
  material := Or.inr ⟨fun _ _ => rfl, rfl, rfl⟩

theorem start_succeeds_fresh : ∃ w', cmdStart laptop (booting 100) nothing = (.ok (), w') :=
  (start_succeeds_iff ⟨fun _ => rfl, fun _ => rfl, fun _ => rfl⟩).mpr
    ⟨Config.default, material, vfkit 100, booting_supplied 100, rfl, rfl, rfl⟩

/-- A child that exits is reaped, and its last words are the error. -/
theorem watch_exits {c : Child} {status : Option Int} {stderr : Bytes} (hdir : w.disk.dir .stateDir = true)
    (hwrite : c.writePid = .none) (hearly : c.early = .exits status stderr .none) :
    watch c w = (.error (.vfkitExited (status.getD (-1)) (trim ((decode stderr).getD []))),
      (w.setDisk ((w.disk.put .vfkitPid (pidText c.pid)).put .vfkitErr stderr)).setProc c.pid none) := by
  have hpid : io (write c.writePid .vfkitPid (pidText c.pid)) w =
      (.ok (), w.setDisk (w.disk.put .vfkitPid (pidText c.pid))) :=
    io_ok.mpr ⟨_, (write_ok hdir).mpr ⟨hwrite, rfl⟩, rfl⟩
  let d := (w.disk.put .vfkitPid (pidText c.pid)).put .vfkitErr stderr
  let w' := (w.setDisk d).setProc c.pid none
  have hread : ((io (readToString .none .vfkitErr)).attempt : Do (Option Text)) w' = (.ok (decode stderr), w') := by
    rw [attempt_readToString]
    exact congrArg (fun b : Option Bytes => (Outcome.ok (b.bind decode), w')) (Disk.put_self ..)
  unfold watch
  rw [Cmd.bind_of_ok hpid, hearly]
  dsimp only
  rw [Cmd.bind_of_ok (Cmd.modify_apply ..)]
  exact Cmd.bind_of_ok hread _

/-- A start whose child exits in time. -/
theorem cmdStart_of_exits (henv : env.FaultFree) {cfg : Config} {m : PkiMaterial} {c : Child}
    {status : Option Int} {stderr : Bytes} (hsupplied : Supplied host env w.disk cfg m)
    (hc : spawned w.procs env.launches = some c) (hwrite : c.writePid = .none)
    (hexits : c.early = .exits status stderr .none) :
    (cmdStart host env w).1 =
        .error (.vfkitExited (status.getD (-1)) (trim ((decode stderr).getD []))) ∧
      ∀ ps, isVmRunning ps (cmdStart host env w).2 = false := by
  obtain ⟨d, hprepare⟩ := prepare_of_supplied henv hsupplied
  obtain ⟨_, _, _, _, _, hdir⟩ := supplied_of_prepare henv hprepare
  let args := Vm.buildArgs (vmSpec host cfg)
  let w1 := (w.setDisk (withLogs d)).spawn c args
  let d1 := ((withLogs d).put .vfkitPid (pidText c.pid)).put .vfkitErr stderr
  let w2 := (w1.setDisk d1).setProc c.pid none
  have hwatch : watch c w1 =
      (.error (.vfkitExited (status.getD (-1)) (trim ((decode stderr).getD []))), w2) :=
    watch_exits (w := w1) hdir hwrite hexits
  have hstart : cmdStart host env w =
      (.error (.vfkitExited (status.getD (-1)) (trim ((decode stderr).getD []))), w2) := by
    have hlaunch : startVm env.launches args (w.setDisk d) = watch c w1 :=
      startVm_eq_watch (w := w.setDisk d) hdir hc
    unfold cmdStart
    rw [Cmd.bind_of_ok (onDisk_of_ok hprepare), Cmd.bind_apply, hlaunch, hwatch]
  have hnamed : w2.namedPid = some c.pid := by
    have hfile : d1.file .vfkitPid = some (pidText c.pid) :=
      (Disk.put_of_ne _ (by decide) _).trans (Disk.put_self ..)
    show (d1.file .vfkitPid).bind readPid = some c.pid
    rw [hfile, Option.bind_some, readPid_pidText]
  have hgone : w2.procs c.pid = none := World.setProc_self ..
  rw [hstart]
  refine ⟨rfl, fun ps => ?_⟩
  rw [isVmRunning, hnamed]
  dsimp only
  rw [hgone]

/-- **A vfkit that exits in time is reported and not taken for a VM**: if the loop catches the
exit, the start fails with vfkit's own words, and the probe finds nothing running, whatever
PID file is left. If it does not, for all the turns that the grace period has time for, the
start succeeds. -/
theorem early_exit_surfaces (henv : env.FaultFree) {cfg : Config} {m : PkiMaterial} {c : Child}
    {ticks : List GracePeriod.Tick} {time : Nat} {status : Option Int} {stderr : Bytes}
    (hsupplied : Supplied host env w.disk cfg m) (hc : spawned w.procs env.launches = some c)
    (hwrite : c.writePid = .none) (hearly : c.early = GracePeriod.early ticks stderr .none)
    (hsees : ∀ tick ∈ ticks, GracePeriod.Sees (some (time, status)) tick) :
    (GracePeriod.Caught time ticks →
        (cmdStart host env w).1 =
            .error (.vfkitExited (status.getD (-1)) (trim ((decode stderr).getD []))) ∧
          ∀ ps, isVmRunning ps (cmdStart host env w).2 = false) ∧
      (Polling.Paced GracePeriod.pause GracePeriod.Tick.now ticks → 40 < ticks.length →
        ¬ GracePeriod.Caught time ticks → (cmdStart host env w).1 = .ok ()) := by
  constructor
  · intro hcaught
    have hreported : GracePeriod.waitForEarlyExit ticks = some (.exited status) :=
      (GracePeriod.exit_reported hsees).mpr ⟨rfl, hcaught⟩
    refine cmdStart_of_exits henv hsupplied hc hwrite ?_
    rw [hearly, GracePeriod.early, hreported]
  · intro hpaced hlong hlate
    have houtlived : c.early = .outlives := by
      rw [hearly, GracePeriod.early, GracePeriod.outlived_of_late hsees hpaced hlong hlate]
    obtain ⟨d, hprepare⟩ := prepare_of_supplied henv hsupplied
    rw [(cmdStart_ok henv).mpr ⟨cfg, m, c, d, hsupplied, hprepare, hc, hwrite, houtlived, rfl⟩]

/-- A vfkit that rejects its arguments after ten milliseconds, as the loop sees it. -/
def rejection : List GracePeriod.Tick := [⟨0, .running, 0⟩, ⟨50, .exited (some 1), 50⟩]

/-- The child of which that is seen. -/
def rejecting : Child :=
  {vfkit 100 with early := GracePeriod.early rejection (encode "no such device\n".toList) .none}

theorem early_exit_surfaces_rejecting : isVmRunning true
    (cmdStart laptop {booting 100 with launches := [⟨.none, .none, .child rejecting⟩]} nothing).2 =
      false := by
  have hbooting := booting_supplied 100
  have hsupplied : Supplied laptop {booting 100 with launches := [⟨.none, .none, .child rejecting⟩]}
      nothing.disk Config.default material :=
    ⟨hbooting.config, hbooting.arch, hbooting.download, hbooting.base, hbooting.root, hbooting.rootSize,
      hbooting.poolSize, hbooting.material⟩
  have hsees : ∀ tick ∈ rejection, GracePeriod.Sees (some (10, some 1)) tick := by
    intro tick htick
    simp only [rejection, List.mem_cons, List.not_mem_nil, or_false] at htick
    rcases htick with rfl | rfl
    · rfl
    · rfl
  have hticks : rejection = [⟨0, .running, 0⟩] ++ ⟨50, .exited (some 1), 50⟩ :: [] := rfl
  have hcaught : GracePeriod.Caught 10 rejection := by
    refine ⟨_, _, _, hticks, fun t ht => ?_, by decide⟩
    obtain rfl := List.mem_singleton.mp ht
    decide
  exact ((early_exit_surfaces ⟨fun _ => rfl, fun _ => rfl, fun _ => rfl⟩ hsupplied rfl rfl rfl
    hsees).1 hcaught).2 true

/-- What the log of a start gains: nothing, or one process, spawned with all in place. -/
def SpawnsEquipped (host : Host) (w w' : World) : Prop :=
  w'.log = w.log ∨ ∃ pid args, Equipped host w'.disk args ∧
    (w'.log = .spawned pid args :: w.log ∨
      ∃ user metaData, w'.log = .started user metaData :: .spawned pid args :: w.log)

/-- The process finds all in place, wherever the start stops after it. -/
theorem ends_cmdStart_equipped (host : Host) (env : StartEnv) (w : World) :
    Ends (cmdStart host env) w (fun _ => SpawnsEquipped host w) (SpawnsEquipped host w) := by
  have hequipped : ∀ args c d, Launches host env w args c → AtLaunch host env w d →
      Equipped host d args := by
    intro args c d hlaunch hat
    have hprepare : prepare host env w.disk = (.ok args, (prepare host env w.disk).2) :=
      Prod.ext hlaunch.prepared rfl
    exact (equipped_of_prepare hprepare).of_only hat (by decide)
  have hpid : ∀ args d b, Equipped host d args → Equipped host (d.put .vfkitPid b) args :=
    fun args d b h => h.of_only (S := (· ∈ [File.vfkitPid])) (only_put d (by decide) b) (by decide)
  have herr : ∀ args d b, Equipped host d args → Equipped host (d.put .vfkitErr b) args :=
    fun args d b h => h.of_only (S := (· ∈ [File.vfkitErr])) (only_put d (by decide) b) (by decide)
  refine ends_cmdStart (fun d hat => Or.inl rfl) (fun args c d hlaunch hat _ => ?_)
    (fun args c d d' hlaunch hat hleft => ?_) fun args c d hlaunch hat _ stderr => ?_
  · exact Or.inr ⟨c.pid, args, hpid _ _ _ (hequipped args c d hlaunch hat), Or.inr ⟨_, _, rfl⟩⟩
  · refine Or.inr ⟨c.pid, args, ?_, Or.inl rfl⟩
    have h := hequipped args c d hlaunch hat
    cases hleft with
    | untouched => exact h
    | part n => exact hpid _ _ _ h
    | whole => exact hpid _ _ _ h
  · exact Or.inr ⟨c.pid, args, herr _ _ _ (hpid _ _ _ (hequipped args c d hlaunch hat)), Or.inl rfl⟩

/-- **vfkit is spawned only with all in place, and once at most**: wherever a start stops, under
whatever faults, the process it has spawned finds checked images, key material, the
documents made of it, and its own arguments on the disk. -/
theorem spawns_equipped (host : Host) (env : StartEnv) (w : World) :
    SpawnsEquipped host w (cmdStart host env w).2 :=
  (ends_cmdStart_equipped host env w).final

end Launch

end StartOutcome

end Malleus
