import Malleus.System

/-! A start that meets no fault.

On a fresh state directory it makes the images, the key material and the documents,
and on one that has them it keeps them; either way vfkit is spawned. These are the
starts that the examples of later modules take. -/
namespace Malleus
open Effect Strings Numbers Storage Image Pki

/-- Nothing goes wrong on the disk. -/
structure StartEnv.FaultFree (env : StartEnv) : Prop where
  site : ∀ s, env.fault s = .none
  image : ∀ s, env.image.fault s = .none
  pki : ∀ s, env.pki.fault s = .none

/-- The images are there or can be made of an image of this size. -/
def Makeable (env : ImageEnv) (d : StateDisk) : Prop :=
  Imaged d ∨ ∃ b, Fetchable env d b ∧ Accepted b ∧
    b.length ≤ (sizeBytes Config.default.rootDiskGib).toNat ∧
    d.file .rootRaw = none ∧ d.file .poolRaw = none

/-- The key material is there or can be generated. -/
def Obtainable (env : PkiEnv) (d : StateDisk) (m : PkiMaterial) : Prop :=
  Holds d m ∨ (Absent d ∧ Generates env m)

/-- A state directory with all a VM needs. -/
structure Ready (d : StateDisk) (m : PkiMaterial) : Prop where
  imaged : Imaged d
  holds : Holds d m
  config : d.file .configToml = none
  dir : d.dir .stateDir = true
  userData : d.file .userData = some (encode (userDataOf m))
  metaData : d.file .metaData = some (encode (metaDataOf m))

theorem Makeable.mkdirs {env : ImageEnv} {d : StateDisk} (h : Makeable env d) (ds : List Dir) :
    Makeable env (d.mkdirs ds) := by
  rcases h with ⟨hbase, hroot, hpool⟩ | h
  · exact Or.inl ⟨hbase, hroot, hpool⟩
  · exact Or.inr h

theorem Obtainable.of_only {env : PkiEnv} {d d' : StateDisk} {m : PkiMaterial} {S : File → Prop}
    (h : Obtainable env d m) (hd : Only S d d') (hs : ∀ f ∈ pkiPaths, ¬ S f) : Obtainable env d' m := by
  rcases h with h | ⟨h, hm⟩
  · exact Or.inl (h.of_only hd hs)
  · exact Or.inr ⟨fun f hf => (hd f (hs f hf)).trans (h f hf), hm⟩

theorem Ready.of_only {d d' : StateDisk} {m : PkiMaterial} {S : File → Prop} (h : Ready d m) (hd : Only S d d')
    (hs : ∀ f ∈ .configToml :: preparedFiles, ¬ S f) (hdir : d'.dir .stateDir = true) : Ready d' m where
  imaged := h.imaged.of_only hd fun f hf => hs f (by simp [preparedFiles, hf])
  holds := h.holds.of_only hd fun f hf => hs f (by simp [preparedFiles, hf])
  config := (hd _ (hs _ (by decide))).trans h.config
  dir := hdir
  userData := (hd _ (hs _ (by decide))).trans h.userData
  metaData := (hd _ (hs _ (by decide))).trans h.metaData

section Start
variable {host : Host} {env : StartEnv} {d : StateDisk} {m : PkiMaterial} {arch : Text}

/-- Without a configuration file the defaults hold. -/
theorem loadConfig_default (readConfig : Fault) (hconfig : d.file .configToml = none) :
    loadConfig host readConfig d = (.ok Config.default, d) := by
  unfold loadConfig
  rw [Cmd.bind_of_ok (Cmd.mapError_of_ok (present_apply ..) _), hconfig]
  rfl

variable (harch : debianArch host.arch = some arch) (henv : env.FaultFree)
include henv

/-- The directory is there, so the documents can be written. -/
theorem writeDocuments_whole (hdir : d.dir .stateDir = true) :
    writeDocuments env m d = (.ok (), withDocuments m d) := by
  have hdir' : (d.put .userData (encode (userDataOf m))).dir .stateDir = true := hdir
  unfold writeDocuments
  rw [renderUserData_provisionSpec, renderMetaData_provisionSpec, henv.site, henv.site]
  show ((write .none File.userData (encode (userDataOf m))).mapError CliError.io >>= fun _ =>
    (write .none File.metaData (encode (metaDataOf m))).mapError CliError.io) d = _
  rw [Cmd.bind_of_ok (Cmd.mapError_of_ok (write_none hdir _) _),
    Cmd.mapError_of_ok (write_none hdir' _)]
  rfl

/-- The material that there is, or can be generated, is what is returned and what the files hold
then. -/
theorem loadOrCreate_obtains (h : Obtainable env.pki d m) (hdir : d.dir .stateDir = true) :
    ∃ d', loadOrCreate env.pki host.pkiDir d = (.ok m, d') ∧ Holds d' m ∧ d'.dir .stateDir = true := by
  rcases h with hm | ⟨habsent, hm⟩
  · exact ⟨d, loadOrCreate_loads henv.pki hm, hm, hdir⟩
  · refine ⟨_, loadOrCreate_creates henv.pki habsent hm, persist_holds m _, ?_⟩
    exact Disk.mkdirs_dir d (by decide)

include harch

/-- Images that are there or can be made are there afterwards. -/
theorem ensureImages_makes (h : Makeable env.image d) :
    ∃ d', ensureImages host.names env.image Config.default d = (.ok (), d') ∧ Imaged d' ∧
      d'.dir .stateDir = true := by
  rcases h with h | ⟨b, hb, hok, hsize, hroot, -⟩
  · refine ⟨_, ensureImages_keeps harch henv.image h, ⟨h.base, h.root, h.pool⟩, ?_⟩
    exact Disk.mkdirs_dir d (by decide)
  · exact ensureImages_creates harch henv.image hb hok hsize (by decide) (by decide) hroot

/-- Preparing succeeds where the images and the material are there or can be made. -/
theorem prepare_readies (hconfig : d.file .configToml = none) (himage : Makeable env.image d)
    (hpki : Obtainable env.pki d m) : ∃ args d', prepare host env d = (.ok args, d') ∧ Ready d' m := by
  let d0 := d.mkdirs (Tree.path File Dir.stateDir)
  obtain ⟨d1, h1, himaged, hdir1⟩ := ensureImages_makes harch henv (himage.mkdirs (Tree.path File Dir.stateDir))
  have hframe1 : Only (· ∈ imageFiles) d d1 := by
    have hwithin := within_ensureImages env.image Config.default host.names d0
    rwa [h1] at hwithin
  obtain ⟨d2, h2, hholds, hdir2⟩ : ∃ d2, loadOrCreate env.pki host.pkiDir d1 = (.ok m, d2) ∧
      Holds d2 m ∧ d2.dir .stateDir = true :=
    loadOrCreate_obtains henv (hpki.of_only hframe1 (by decide)) hdir1
  have hframe2 : Only (· ∈ pkiPaths) d1 d2 := by
    have hwithin := within_loadOrCreate env.pki host.pkiDir d1
    rwa [h2] at hwithin
  have hconfig0 : d0.file .configToml = none := hconfig
  have hdir3 : (withDocuments m d2).dir .stateDir = true := hdir2
  let args := Vm.buildArgs (vmSpec host Config.default)
  let bytes := encode (['\n'].intercalate args)
  have hprepare : prepare host env d = (.ok args, (withDocuments m d2).put .vfkitArgs bytes) := by
    unfold prepare
    rw [henv.site, Cmd.bind_of_ok (Cmd.mapError_of_ok (createDirAll_none ..) _),
      Cmd.bind_of_ok (loadConfig_default _ hconfig0), Cmd.bind_of_ok (Cmd.mapError_of_ok h1 _),
      Cmd.bind_of_ok (Cmd.mapError_of_ok h2 _), Cmd.bind_of_ok (writeDocuments_whole henv hdir2),
      henv.site, Cmd.bind_of_ok (Cmd.mapError_of_ok (write_none hdir3 _) _)]
    rfl
  have hframe3 : Only (· ∈ documents) d2 ((withDocuments m d2).put .vfkitArgs bytes) := by
    intro f hf
    have hne : f ≠ .userData ∧ f ≠ .metaData ∧ f ≠ .vfkitArgs := by
      simpa [documents] using hf
    simp [withDocuments, hne.1, hne.2.1, hne.2.2]
  refine ⟨args, _, hprepare, ?_, hholds.of_only hframe3 (by decide), ?_, hdir2, ?_, ?_⟩
  · exact (himaged.of_only hframe2 (by decide)).of_only hframe3 (by decide)
  · rw [hframe3 _ (by decide), hframe2 _ (by decide), hframe1 _ (by decide)]
    exact hconfig
  · simp [withDocuments]
  · simp [withDocuments]

/-- What a start may touch. -/
def startFiles : List File := preparedFiles ++ logFiles ++ [.vfkitPid]

/-- **A start that meets no fault boots the child it spawns**, on a state directory that
has everything or in which everything can be made. -/
theorem cmdStart_boots {w : World} {c : Child} (hlaunch : env.launches = [⟨.none, .none, .child c⟩])
    (hwrite : c.writePid = .none) (hearly : c.early = .outlives) (hfree : Free w.procs c.pid)
    (hconfig : w.disk.file .configToml = none) (himage : Makeable env.image w.disk)
    (hpki : Obtainable env.pki w.disk m) :
    ∃ args d, cmdStart host env w = (.ok (), ((w.setDisk d).spawn c args).note
        (.started (d.file .userData) (d.file .metaData))) ∧
      Ready d m ∧ d.file .vfkitPid = some (pidText c.pid) ∧ Only (· ∈ startFiles) w.disk d := by
  obtain ⟨args, d0, hprepare, hready⟩ := prepare_readies harch henv hconfig himage hpki
  have hframe : Only (· ∈ preparedFiles) w.disk d0 := by
    have hwithin := within_prepare host env w.disk
    rwa [hprepare] at hwithin
  let d1 := d0.put .vfkitLog []
  let d2 := d1.put .vfkitErr []
  let d3 := d2.put .vfkitPid (pidText c.pid)
  have hlater : Only (· ∈ [File.vfkitLog, .vfkitErr, .vfkitPid]) d0 d3 :=
    Only.trans _ _ _ (Only.trans _ _ _ (only_put d0 (by decide) _) (only_put d1 (by decide) _))
      (only_put d2 (by decide) _)
  refine ⟨args, d3, ?_, hready.of_only hlater (by decide) hready.dir, Disk.put_self .., ?_⟩
  · have hdir : d0.dir .stateDir = true := hready.dir
    have hlog : io (createFile .none File.vfkitLog) (w.setDisk d0) = (.ok (), w.setDisk d1) :=
      io_of_ok (write_none hdir [])
    have herr : io (createFile .none File.vfkitErr) (w.setDisk d1) = (.ok (), w.setDisk d2) :=
      io_of_ok (write_none hdir [])
    have hpid : io (write .none File.vfkitPid (pidText c.pid)) ((w.setDisk d2).spawn c args) =
        (.ok (), (w.setDisk d3).spawn c args) := io_of_ok (write_none hdir _)
    have hfree : decide (Free (w.setDisk d2).procs c.pid) = true := decide_eq_true hfree
    have hstart : startVm env.launches args (w.setDisk d0) = (.ok (), (w.setDisk d3).spawn c args) := by
      rw [hlaunch, startVm, Cmd.bind_of_ok hlog, Cmd.bind_of_ok herr]
      show (Cmd.gets _ >>= fun free => _) (w.setDisk d2) = _
      rw [Cmd.bind_of_ok (Cmd.gets_apply ..), if_pos hfree, Cmd.bind_of_ok (Cmd.modify_apply ..), watch,
        hwrite, hearly, Cmd.bind_of_ok hpid]
      rfl
    unfold cmdStart
    rw [Cmd.bind_of_ok (onDisk_of_ok hprepare), Cmd.bind_of_ok hstart]
    rfl
  · intro f hf
    have hlogs : f ∉ [File.vfkitLog, .vfkitErr, .vfkitPid] := fun h => hf (by
      simp only [startFiles, logFiles, List.mem_append]
      simp only [List.mem_cons] at h ⊢
      tauto)
    exact (hlater f hlogs).trans (hframe f fun h => hf (by simp [startFiles, h]))

end Start

/-! ### Autoconfigure while the VM runs -/

section Autoconfigure
variable {env : AutoconfigureEnv}

/-- The copies, where there is something to copy and no fault. -/
theorem copyCredentials_whole (host : Host) {d : StateDisk} {cert key : Bytes} (hfault : ∀ s, env.fault s = .none)
    (hcert : d.file .clientCert = some cert) (hkey : d.file .clientKey = some key) :
    copyCredentials host env d =
      (.ok (), ((d.mkdirs (Tree.path File (Dir.incusConfDir (env.confDir host)))).put
        (.confClientCert (env.confDir host)) cert).put (.confClientKey (env.confDir host)) key) := by
  let conf := env.confDir host
  let d0 := d.mkdirs (Tree.path File (Dir.incusConfDir conf))
  have hdir : d0.dir (Tree.parent (File.confClientCert conf)) = true :=
    Disk.mkdirs_dir d (show Dir.incusConfDir conf ∈ Tree.path File (Dir.incusConfDir conf) from by
      simp [Tree.path, Dir.path])
  have hcert0 : d0.file .clientCert = some cert := hcert
  have hkey0 : (d0.put (.confClientCert conf) cert).file .clientKey = some key :=
    (Disk.put_of_ne _ (by simp) _).trans hkey
  have hdir0 : (d0.put (.confClientCert conf) cert).dir (Tree.parent (File.confClientKey conf)) = true :=
    hdir
  unfold copyCredentials
  rw [hfault, hfault, hfault, Cmd.bind_of_ok (Cmd.gets_apply ..), hcert, hkey]
  show ((createDirAll .none (Dir.incusConfDir conf)).mapError CliError.io >>= _) d = _
  rw [Cmd.bind_of_ok (Cmd.mapError_of_ok (createDirAll_none ..) _),
    Cmd.bind_of_ok (Cmd.mapError_of_ok (copy_none hcert0 hdir) _),
    Cmd.mapError_of_ok (copy_none hkey0 hdir0)]

/-- Where the VM is running, the client is told of the address that is found. -/
theorem cmdAutoconfigure_running {host : Host} {w w' : World} {d : StateDisk} {ip : Ipv4Addr}
    (hname : validMountName env.remoteName = true)
    (hcopy : copyCredentials host env w.disk = (.ok (), d))
    (hrunning : isVmRunning env.ps (w.setDisk d) = true)
    (hresolve : resolveVmIp host isVmRunning defaultDhcpLeasesPath env.vmIp env.polls (w.setDisk d) =
      (.ok ip, w')) :
    cmdAutoconfigure host env w = onIncus (env.confDir host) (wireRemote env ip) w' := by
  have hstart : startUnlessRunning host isVmRunning env (w.setDisk d) = (.ok (), w.setDisk d) := by
    unfold startUnlessRunning
    rw [Cmd.bind_of_ok (Cmd.gets_apply ..), if_pos hrunning]
    rfl
  unfold cmdAutoconfigure cmdAutoconfigureWithRunner
  rw [if_pos hname, Cmd.bind_of_ok (onDisk_of_ok hcopy), Cmd.bind_of_ok hstart,
    Cmd.bind_of_ok hresolve]

end Autoconfigure

/-! ### The smallest start -/

/-- A Mac with its state directory at `/s`, on which no configuration parses. -/
def laptop : Host where
  stateDir := "/s".toList
  arch := "aarch64".toList
  parseConfig _ := .error []
  home := none
  incusConf := some "/c".toList

/-- No state directory, no process and no remote. -/
def nothing : World where
  disk := noFiles
  procs _ := none
  incus _ := ⟨[], []⟩
  boots := 0
  log := []

/-- Identities of one line each, in their PEM armour. -/
def material : PkiMaterial where
  client := ⟨armoured "CERTIFICATE".toList ["CLIENT".toList], armoured "PRIVATE KEY".toList ["CLIENT".toList]⟩
  server := ⟨armoured "CERTIFICATE".toList ["SERVER".toList], armoured "PRIVATE KEY".toList ["SERVER".toList]⟩

/-- A vfkit that comes up with this PID and stays. -/
def vfkit (pid : Pid) : Child where
  pid := pid
  state := "S+".toList
  comm := "/opt/homebrew/bin/vfkit".toList
  writePid := .none
  early := .outlives

theorem vfkit_live (pid : Pid) : isZombie (vfkit pid).state = false := by
  show isZombie "S+".toList = false
  decide

/-- A start that meets no fault, and whose vfkit gets this PID. -/
def booting (pid : Pid) : StartEnv where
  fault _ := .none
  image := ⟨oneSector, .delivers, fun _ => [], fun _ => .none⟩
  pki :=
    { generate := fun name _ =>
        if name = "malleus-client".toList then .ok material.client else .ok material.server
      fault := fun _ => .none }
  launches := [⟨.none, .none, .child (vfkit pid)⟩]

/-- A state directory with nothing in it that a start needs, or with all of it. -/
def Startable (d : StateDisk) : Prop :=
  d.file .configToml = none ∧ (Imaged d ∨ ∀ f ∈ imageFiles, d.file f = none) ∧
    (Holds d material ∨ Absent d)

theorem Ready.startable {d : StateDisk} (h : Ready d material) : Startable d :=
  ⟨h.config, Or.inl h.imaged, Or.inl h.holds⟩

theorem startable_noFiles : Startable noFiles :=
  ⟨rfl, Or.inr fun _ _ => rfl, Or.inr fun _ _ => rfl⟩

/-- A start on the laptop with a free PID: the VM is up and its PID is on record. -/
theorem booting_boots {w : World} {pid : Pid} (hfree : Free w.procs pid) (h : Startable w.disk) :
    ∃ args d, cmdStart laptop (booting pid) w = (.ok (), ((w.setDisk d).spawn (vfkit pid) args).note
        (.started (d.file .userData) (d.file .metaData))) ∧
      Ready d material ∧ d.file .vfkitPid = some (pidText pid) ∧ Only (· ∈ startFiles) w.disk d := by
  obtain ⟨hconfig, himage, hpki⟩ := h
  have harch : debianArch laptop.arch = some "arm64".toList := by decide
  have hmakeable : Makeable (booting pid).image w.disk := by
    rcases himage with h | h
    · exact Or.inl h
    · exact Or.inr ⟨oneSector, Or.inr ⟨h _ (by decide), rfl, rfl⟩, oneSector_accepted, by decide +kernel,
        h _ (by decide), h _ (by decide)⟩
  have hobtainable : Obtainable (booting pid).pki w.disk material := by
    rcases hpki with h | h
    · exact Or.inl h
    · exact Or.inr ⟨h, rfl, rfl⟩
  exact cmdStart_boots harch ⟨fun _ => rfl, fun _ => rfl, fun _ => rfl⟩ rfl rfl rfl hfree hconfig
    hmakeable hobtainable

def works : Incus.Fate := .runs false none []

/-- An `autoconfigure` that meets no fault, with this address or these looks for one. -/
def configuring (vmIp : Option Ipv4Addr) (polls : List Poll) : AutoconfigureEnv where
  vmIp := vmIp
  remoteName := defaultIncusRemoteName
  incusConf := none
  fault _ := .none
  ps := true
  start := booting 100
  polls := polls
  list := works
  add := works
  switch := works

/-- The probe sees the VM of such a start, once its PID is in the file. -/
theorem vfkit_running {w : World} {pid : Pid} {vm : Nat} (hpid : w.disk.file .vfkitPid = some (pidText pid))
    (hproc : w.procs pid = some ⟨(vfkit pid).state, (vfkit pid).comm, some vm⟩) :
    isVmRunning true w = true := by
  have hnamed : w.namedPid = some pid := by
    rw [World.namedPid, hpid, Option.bind_some, readPid_pidText]
  have hline : describesLiveVfkit (trim (Process.psLine
      ⟨(vfkit pid).state, (vfkit pid).comm, some vm⟩)) = true := by
    show describesLiveVfkit (trim ("S+".toList ++ ' ' :: "/opt/homebrew/bin/vfkit".toList ++ ['\n'])) = true
    decide +kernel
  unfold isVmRunning
  rw [hnamed]
  dsimp only
  rw [hproc]
  exact hline

end Malleus
