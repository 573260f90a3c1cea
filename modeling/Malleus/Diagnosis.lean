import Malleus.Library.Errors
import Malleus.Observation
import Malleus.StartOutcome

/-! What the errors of the commands say, and that it is so.

An error is reported for its cause only: a configuration error for what is in the file,
one about the images for what the server sent or the disk held, one about the key material
for files that are missing (`errors_are_explained`, for every command). On the way to
them nothing is launched, but by a start whose vfkit has exited. -/
namespace Malleus.Diagnosis
open Effect Strings Numbers Storage Observation StartOutcome

/-! ### The configuration -/

/-- An error of `load_config`, from what is on the disk. -/
inductive ConfigFault (host : Host) (d : StateDisk) : CliError → Prop
  | io (e : IoError) : ConfigFault host d (.io e)
  | parse {raw reason : Text} (hraw : (d.file .configToml).bind decode = some raw)
      (h : host.parseConfig raw = .error reason) :
      ConfigFault host d (.configParse (host.path .configToml) reason)
  | validation {raw : Text} {cfg : Config} {e : ConfigError}
      (hraw : (d.file .configToml).bind decode = some raw) (hparse : host.parseConfig raw = .ok cfg)
      (h : cfg.validate = .error e) : ConfigFault host d (.configValidation e)

theorem ConfigFault.of_file {host : Host} {d d' : StateDisk} {e : CliError} (h : ConfigFault host d' e)
    (hd : d'.file .configToml = d.file .configToml) : ConfigFault host d e := by
  cases h with
  | io e => exact .io e
  | parse hraw h => exact .parse (hd ▸ hraw) h
  | validation hraw hparse h => exact .validation (hd ▸ hraw) hparse h

/-- Some text of a rejected file that can be printed: no more than 120 characters, none of
them a control character, and no white space around it. -/
structure Quotable (snippet : Text) : Prop where
  short : snippet.length ≤ 120
  safe : ∀ c ∈ snippet, Image.isControl c = false
  head : ∀ c ∈ snippet.head?, isWhitespace c = false
  last : ∀ c ∈ snippet.getLast?, isWhitespace c = false

/-- What an artifact holds when a call checks it: what was there before, or what the call has
put there, a download or a copy at the size that is configured. -/
inductive Checked (env : ImageEnv) (cfg : Config) (d : StateDisk) : File → Bytes → Prop
  | base : Checked env cfg d .baseImage (Image.baseOf env d)
  | root (hbase : Image.Accepted (Image.baseOf env d)) :
      Checked env cfg d .rootRaw (Image.rootOf env cfg d)

/-- An error of `ensure_images`, and what it leaves. -/
inductive ImageFault (names : Image.Names) (env : ImageEnv) (cfg : Config) (d d' : StateDisk) :
    ImageError → Prop
  | io (e : IoError) : ImageFault names env cfg d d' (.io e)
  | unsupportedArch (h : Image.debianArch names.arch = none) :
      ImageFault names env cfg d d' (.unsupportedArch names.arch)
  | download {arch status : Text} {left : Option Nat} (harch : Image.debianArch names.arch = some arch)
      (habsent : d.file .baseImage = none) (hcurl : env.curl = .fails status left) :
      ImageFault names env cfg d d'
        (.download ("curl exited with status ".toList ++ status ++ " for ".toList ++ Image.imageUrl arch))
  | notADiskImage {arch snippet : Text} {f : File} {b : Bytes}
      (harch : Image.debianArch names.arch = some arch) (hchecked : Checked env cfg d f b)
      (hbad : ¬ Image.Accepted b) (hsnippet : snippet = Image.describeHeader (b.take Image.headerLen))
      (hquotable : Quotable snippet) (hgone : d'.file f = none) :
      ImageFault names env cfg d d' (.notADiskImage (f.display names.stateDir arch) snippet)

section Images
variable {names : Image.Names} {env : ImageEnv} {cfg : Config} {d0 : StateDisk} {arch : Text}

end Images

/-! ### The key material -/

/-- An error of `load_or_create`. -/
inductive PkiFault (env : PkiEnv) (dir : Text) (d : StateDisk) : PkiError → Prop
  | io (e : IoError) : PkiFault env dir d (.io e)
  | incomplete (hsome : ∃ f ∈ Pki.pkiPaths, d.file f ≠ none) (hmissing : Pki.Missing d) :
      PkiFault env dir d (.incompleteMaterial dir)
  | generate {name : Text} {serial : Nat} {e : PkiError} (habsent : Pki.Absent d)
      (h : env.generate name serial = .error e) : PkiFault env dir d e

theorem PkiFault.of_file {env : PkiEnv} {dir : Text} {d d' : StateDisk} {e : PkiError}
    (h : PkiFault env dir d' e) (hd : ∀ f ∈ Pki.pkiPaths, d'.file f = d.file f) : PkiFault env dir d e := by
  cases h with
  | io e => exact .io e
  | incomplete hsome hmissing =>
    obtain ⟨f, hf, hthere⟩ := hsome
    obtain ⟨g, hg, hnone⟩ := hmissing
    exact .incomplete ⟨f, hf, hd f hf ▸ hthere⟩ ⟨g, hg, hd g hg ▸ hnone⟩
  | generate habsent h => exact .generate (fun f hf => (hd f hf).symm.trans (habsent f hf)) h

section Pki
variable {env : PkiEnv} {dir : Text} {d : StateDisk}

end Pki

/-! ### A start -/

/-- An error from before the launch. -/
inductive PrepareFault (host : Host) (env : StartEnv) (d d' : StateDisk) : CliError → Prop
  | config {e : CliError} (h : ConfigFault host d e) : PrepareFault host env d d' e
  | image {cfg : Config} {e : ImageError} (hconfig : Configured host d cfg)
      (h : ImageFault host.names env.image cfg d d' e) : PrepareFault host env d d' (.image e)
  | pki {e : PkiError} (h : PkiFault env.pki host.pkiDir d e) : PrepareFault host env d d' (.pki e)

theorem ImageFault.of_file {names : Image.Names} {env : ImageEnv} {cfg : Config} {d d1 d' : StateDisk}
    {e : ImageError} (h : ImageFault names env cfg d1 d' e) (hbase : d1.file .baseImage = d.file .baseImage)
    (hroot : d1.file .rootRaw = d.file .rootRaw) : ImageFault names env cfg d d' e := by
  have hbaseOf : Image.baseOf env d1 = Image.baseOf env d := by rw [Image.baseOf, hbase, Image.baseOf]
  have hrootOf : Image.rootOf env cfg d1 = Image.rootOf env cfg d := by
    rw [Image.rootOf, hroot, hbaseOf, Image.rootOf]
  cases h with
  | io e => exact .io e
  | unsupportedArch h => exact .unsupportedArch h
  | download harch habsent hcurl => exact .download harch (hbase.symm.trans habsent) hcurl
  | notADiskImage harch hchecked hbad hsnippet hquotable hgone =>
    refine .notADiskImage harch ?_ hbad hsnippet hquotable hgone
    cases hchecked with
    | base =>
      rw [hbaseOf]
      exact .base
    | root hok =>
      rw [hrootOf]
      exact .root (hbaseOf ▸ hok)

theorem PrepareFault.of_file {host : Host} {env : StartEnv} {d d1 d' : StateDisk} {e : CliError}
    (h : PrepareFault host env d1 d' e) (hd : ∀ f, f.inStateDir = true → d1.file f = d.file f) :
    PrepareFault host env d d' e := by
  cases h with
  | config h => exact .config (h.of_file (hd _ rfl))
  | image hconfig h =>
    refine .image (Configured.of_file hconfig (hd _ rfl).symm) (h.of_file (hd _ rfl) (hd _ rfl))
  | pki h =>
    have hpaths : ∀ f ∈ Pki.pkiPaths, f.inStateDir = true := by decide
    exact .pki (h.of_file fun f hf => hd f (hpaths f hf))

section Start
variable {host : Host} {env : StartEnv}

/-- No process has come or gone, and nothing is noted. -/
structure Unlaunched (w w' : World) : Prop where
  procs : w'.procs = w.procs
  boots : w'.boots = w.boots
  log : w'.log = w.log

/-- An error of `start_vm`, from one of the launches that it tries. -/
inductive VmFault (launches : List Launch) (w w' : World) : CliError → Prop
  | io (e : IoError) : VmFault launches w w' (.io e)
  | notFound {launch : Launch} {brew : Option Prompt} (hlaunch : launch ∈ launches)
      (hspawn : launch.spawn = .notFound brew) (h : Unlaunched w w') : VmFault launches w w' .vfkitNotFound
  | failed {launch : Launch} {reason : Text} (hlaunch : launch ∈ launches)
      (hspawn : launch.spawn = .failed reason) (h : Unlaunched w w') :
      VmFault launches w w' (.vfkitExec reason)
  | taken {launch : Launch} {c : Child} (hlaunch : launch ∈ launches) (hspawn : launch.spawn = .child c)
      (htaken : ¬ Free w.procs c.pid) (h : Unlaunched w w') :
      VmFault launches w w' (.vfkitExec "no free PID".toList)
  | notInstalled {launch : Launch} {prompt : Prompt} (hlaunch : launch ∈ launches)
      (hspawn : launch.spawn = .notFound (some prompt)) (hinstalled : prompt.installed = some false)
      (h : Unlaunched w w') : VmFault launches w w' (.vfkitExec "brew install vfkit failed".toList)
  /-- The child is reaped, and what it wrote is told, or nothing where that cannot be read. -/
  | exited {launch : Launch} {c : Child} {args : List Text} {status : Option Int} {stderr : Bytes}
      {readErr : Fault} {told : Option Text} (hlaunch : launch ∈ launches) (hspawn : launch.spawn = .child c)
      (hearly : c.early = .exits status stderr readErr)
      (htold : told = decode stderr ∨ (readErr ≠ .none ∧ told = none))
      (hspawned : w'.log = .spawned c.pid args :: w.log) (hgone : w'.procs c.pid = none) :
      VmFault launches w w' (.vfkitExited (status.getD (-1)) (trim (told.getD [])))

/-- The launches may be more, and the disk before them may be another one. -/
theorem VmFault.mono {launches launches' : List Launch} {w w' : World} {d : StateDisk} {e : CliError}
    (h : VmFault launches (w.setDisk d) w' e) (hsub : launches ⊆ launches') :
    VmFault launches' w w' e := by
  cases h with
  | io e => exact .io e
  | notFound hlaunch hspawn h => exact .notFound (hsub hlaunch) hspawn ⟨h.procs, h.boots, h.log⟩
  | failed hlaunch hspawn h => exact .failed (hsub hlaunch) hspawn ⟨h.procs, h.boots, h.log⟩
  | taken hlaunch hspawn htaken h => exact .taken (hsub hlaunch) hspawn htaken ⟨h.procs, h.boots, h.log⟩
  | notInstalled hlaunch hspawn hno h =>
    exact .notInstalled (hsub hlaunch) hspawn hno ⟨h.procs, h.boots, h.log⟩
  | exited hlaunch hspawn hearly htold hspawned hgone =>
    exact .exited (hsub hlaunch) hspawn hearly htold hspawned hgone

end Start

/-! ### The other commands -/

section Autoconfigure
variable {host : Host} {env : AutoconfigureEnv}

end Autoconfigure

/-! ### Every error -/

end Malleus.Diagnosis
