import Malleus.Boot
import Malleus.CloudConfig

/-! The credentials of the host and those the guest trusts.

The client's certificate goes two ways: `autoconfigure` copies it for incus, and a
start renders it into the user data. `credentials_agree` says that the two are the
same whenever `autoconfigure` succeeds, and that the server's files are in the user
data as well, whatever commands came before, with a removal and new material among
them. -/
namespace Malleus.Credentials
open Effect Strings Numbers Storage Pki Provision

/-! ### PEM texts in the user data -/

/-- A PEM text as it is generated: its lines end in a line feed each. -/
def PemText (t : Text) : Prop :=
  ∃ label body, Plain label ∧ (∀ l ∈ body, Plain l) ∧ t = armoured label body

/-- A text in PEM stays in its block. -/
theorem PemText.block {t : Text} (h : PemText t) : BlockText t := by
  obtain ⟨label, body, hlabel, hbody, rfl⟩ := h
  refine blockText_unlines (fun l hl => ?_) ⟨'-', rfl, by decide, by decide⟩
  rw [List.cons_append, List.mem_cons, List.mem_append, List.mem_singleton] at hl
  rcases hl with rfl | hl | rfl
  · simpa using hlabel.2
  · exact (hbody l hl).2
  · simpa using hlabel.2

theorem PemText.oneNewline {t : Text} (h : PemText t) : oneNewline t = t := by
  obtain ⟨label, body, hlabel, -, rfl⟩ := h
  refine oneNewline_unlines (_ :: body) (by simp) ?_
  simpa using hlabel.1

/-- Material in PEM. -/
structure PemMaterial (m : PkiMaterial) : Prop where
  clientCert : PemText m.client.certPem
  serverCert : PemText m.server.certPem
  serverKey : PemText m.server.keyPem

/-- The files that the guest is told to write: its own identity, the client it trusts, and
the preseed. -/
def guestFiles (clientCert serverCert serverKey preseed : Text) : List (Text × Text) :=
  [("/var/lib/incus/server.crt".toList, serverCert), ("/var/lib/incus/server.key".toList, serverKey),
    ("/var/lib/malleus/client.crt".toList, clientCert), ("/var/lib/malleus/preseed.yaml".toList, preseed)]

/-- The user data carry the material as it is. -/
theorem readWriteFiles_userDataOf {m : PkiMaterial} (h : PemMaterial m) : ∃ preseed,
    readWriteFiles (userDataOf m) = guestFiles m.client.certPem m.server.certPem m.server.keyPem preseed := by
  have hread := readWriteFiles_render (renderUserData_provisionSpec m) h.serverCert.block h.serverKey.block
    h.clientCert.block (of_decide_eq_true rfl)
  refine ⟨oneNewline (renderPreseed (provisionSpec m).bridgeCidr), hread.trans ?_⟩
  simp only [fileEntries, List.map_cons, List.map_nil]
  have hcert : Provision.oneNewline (provisionSpec m).serverCertPem = m.server.certPem := h.serverCert.oneNewline
  have hkey : Provision.oneNewline (provisionSpec m).serverKeyPem = m.server.keyPem := h.serverKey.oneNewline
  have hclient : Provision.oneNewline (provisionSpec m).clientCertPem = m.client.certPem :=
    h.clientCert.oneNewline
  rw [hcert, hkey, hclient]
  rfl

/-! ### What the state directory holds between commands -/

/-- The files hold the material, and the user data were rendered from it. -/
structure Agrees (m : PkiMaterial) (d : StateDisk) : Prop where
  holds : Holds d m
  userData : d.file .userData = some (encode (userDataOf m))

/-- There is no material yet, or the user data agree with it. -/
def Consistent (d : StateDisk) : Prop := Absent d ∨ ∃ m, PemMaterial m ∧ Agrees m d

section Stable
variable {d d' : StateDisk} {S : File → Prop} (hd : Only S d d') (hs : ∀ f ∈ .userData :: pkiPaths, ¬ S f)
include hd hs

theorem Agrees.of_only {m : PkiMaterial} (h : Agrees m d) : Agrees m d' where
  holds := h.holds.of_only hd fun f hf => hs f (List.mem_cons_of_mem _ hf)
  userData := (hd _ (hs _ (List.mem_cons_self ..))).trans h.userData

theorem Consistent.of_only (h : Consistent d) : Consistent d' := by
  rcases h with habsent | ⟨m, hm, h⟩
  · exact Or.inl fun f hf => (hd f (hs f (List.mem_cons_of_mem _ hf))).trans (habsent f hf)
  · exact Or.inr ⟨m, hm, h.of_only hd hs⟩

end Stable

/-! ### A start that meets no fault -/

/-- What this environment generates is PEM. -/
def GeneratesPem (env : PkiEnv) : Prop :=
  ∀ name serial identity, env.generate name serial = .ok identity →
    PemText identity.certPem ∧ PemText identity.keyPem

theorem GeneratesPem.material {env : PkiEnv} (h : GeneratesPem env) {m : PkiMaterial} (hm : Generates env m) :
    PemMaterial m :=
  ⟨(h _ _ _ hm.1).1, (h _ _ _ hm.2).1, (h _ _ _ hm.2).2⟩

section Start
variable {host : Host} {env : StartEnv} {d : StateDisk} {m : PkiMaterial}

/-- Once the user data are written, they agree with the material. -/
theorem agrees_put (h : Holds d m) : Agrees m (d.put .userData (encode (userDataOf m))) where
  holds := h.of_only (only_put d (show File.userData ∈ [File.userData] by decide) _) (by decide)
  userData := Disk.put_self ..

/-- The documents that are written last agree with the material that has just been read. -/
theorem agrees_put_metaData (h : Holds d m) (b : Bytes) :
    Agrees m ((d.put .userData (encode (userDataOf m))).put .metaData b) :=
  (agrees_put h).of_only (only_put _ (show File.metaData ∈ [File.metaData] by decide) b) (by decide)

variable (henv : env.FaultFree)
include henv

/-- Material that is there is loaded, and the same user data are written. -/
theorem ends_writeDocuments_agrees (h : Agrees m d) :
    Ends (writeDocuments env m) d (fun _ => Agrees m) (Agrees m) := by
  refine ends_writeDocuments (agrees_put_metaData h.holds _) h (fun n hn => ?_) (agrees_put h.holds)
    fun n _ => agrees_put_metaData h.holds _
  rw [henv.site] at hn
  simp [Fault.progress] at hn

/-- Credentials that agree still do, wherever the preparation stops. -/
theorem ends_prepare_agrees (h : Agrees m d) : Ends (prepare host env) d (fun _ => Agrees m) (Agrees m) := by
  have hsame : ∀ d', d'.file = d.file → Agrees m d' := fun d' hd' => by
    have hnone : Only (fun _ => False) d d' := fun f _ => by rw [hd']
    exact h.of_only hnone fun _ _ hf => hf
  refine ends_prepare hsame fun cfg d' hd' => ?_
  have himages := (Image.within_ensureImages env.image cfg host.names).ends d'
  have hafter : ∀ d1, Only (· ∈ Image.imageFiles) d' d1 → Agrees m d1 :=
    fun d1 hd1 => (hsame d' hd').of_only hd1 (by decide)
  refine himages.mono (fun _ d1 hd1 => ?_) hafter
  rw [ends_of_eq (loadOrCreate_loads henv.pki (hafter d1 hd1).holds)]
  refine (ends_writeDocuments_agrees henv (hafter d1 hd1)).mono (fun _ d3 h3 args d4 hd4 => ?_) fun _ h => h
  exact ⟨h3.of_only hd4 (by decide), h3.of_only hd4 (by decide)⟩

/-- Where there is none, it is generated and the user data are rendered from it. -/
theorem ends_prepare_absent (hpem : GeneratesPem env.pki) (h : Absent d) :
    Ends (prepare host env) d (fun _ => Consistent) Consistent := by
  have hsame : ∀ d' : StateDisk, d'.file = d.file → Absent d' :=
    fun d' hd' f hf => by rw [hd']; exact h f hf
  refine ends_prepare (fun d' hd' => Or.inl (hsame d' hd')) fun cfg d' hd' => ?_
  have himages := (Image.within_ensureImages env.image cfg host.names).ends d'
  have hafter : ∀ d1, Only (· ∈ Image.imageFiles) d' d1 → Absent d1 :=
    fun d1 hd1 f hf => (hd1 f ((by decide : ∀ f ∈ pkiPaths, f ∉ Image.imageFiles) f hf)).trans
      (hsame d' hd' f hf)
  refine himages.mono (fun _ d1 hd1 => ?_) fun d1 hd1 => Or.inl (hafter d1 hd1)
  have habsent := hafter d1 hd1
  refine (ends_loadOrCreate_absent henv.pki habsent).mono ?_ fun d2 h2 => ?_
  · rintro m _ ⟨hm, rfl⟩
    have hdir : (persist m (d1.mkdirs (Tree.path File Dir.pkiDir))).dir .stateDir = true :=
      Disk.mkdirs_dir d1 (by decide)
    rw [ends_of_eq (writeDocuments_whole henv hdir)]
    intro args d4 hd4
    have hagrees : Agrees m d4 :=
      (agrees_put_metaData (persist_holds m _) _).of_only hd4 (by decide)
    exact ⟨Or.inr ⟨m, hpem.material hm, hagrees⟩, Or.inr ⟨m, hpem.material hm, hagrees⟩⟩
  · exact Or.inl fun f hf => by rw [h2.1]; exact habsent f hf

end Start

/-! ### The commands -/

/-- Nothing goes wrong on the disk, and what is generated is PEM. -/
def Sound : Input → Prop
  | .start env => env.FaultFree ∧ GeneratesPem env.pki
  | .delete env => env.fault = .none
  | .autoconfigure env => (∀ s, env.fault s = .none) ∧ env.start.FaultFree ∧ GeneratesPem env.start.pki
  | _ => True

section Commands
variable {host : Host} {w : World}

/-- The launch touches neither the key material nor the document. -/
theorem launch_stable : ∀ f ∈ File.userData :: pkiPaths, f ∉ .vfkitPid :: logFiles := by decide

/-- A start keeps what agrees. -/
theorem agrees_cmdStart {env : StartEnv} {m : PkiMaterial} (henv : env.FaultFree) (h : Agrees m w.disk) :
    Ends (cmdStart host env) w (fun _ w' => Agrees m w'.disk) (fun w' => Agrees m w'.disk) :=
  ends_cmdStart_disk (fun _ _ hd h => h.of_only hd launch_stable) (ends_prepare_agrees henv h)

/-- A start keeps the disk consistent, and makes the material there may be none of. -/
theorem consistent_cmdStart {env : StartEnv} (henv : env.FaultFree) (hpem : GeneratesPem env.pki)
    (h : Consistent w.disk) :
    Ends (cmdStart host env) w (fun _ w' => Consistent w'.disk) (fun w' => Consistent w'.disk) := by
  rcases h with habsent | ⟨m, hm, h⟩
  · exact ends_cmdStart_disk (fun _ _ hd h => h.of_only hd launch_stable)
      (ends_prepare_absent henv hpem habsent)
  · have hagrees : ∀ w' : World, Agrees m w'.disk → Consistent w'.disk := fun _ h => Or.inr ⟨m, hm, h⟩
    exact (agrees_cmdStart henv h).mono (fun _ => hagrees) hagrees

/-- The files that an event touches are none of these. -/
theorem happen_only (w : World) (e : Event) :
    Only (· ∈ .configToml :: vmFiles) w.disk (happen w e).disk := by
  have h := happened w e
  generalize happen w e = w' at h
  cases h with
  | wrote pid f b vm hvm hf => exact only_put _ (List.mem_cons_of_mem _ hf) b
  | edited _ d hd => exact hd.mono fun f hf => by simp [List.mem_singleton.mp hf]
  | _ => exact Only.refl _

/-- The guest and the user have no hand in the credentials. -/
theorem consistent_happen (e : Event) (h : Consistent w.disk) : Consistent (happen w e).disk :=
  h.of_only (happen_only w e) (by decide)

end Commands

/-! ### What autoconfigure leaves -/

/-- The user data agree with the material, and so do incus's own files. -/
structure Trusting (conf : Text) (m : PkiMaterial) (d : StateDisk) : Prop where
  agrees : Agrees m d
  cert : d.file (.confClientCert conf) = some (encode m.client.certPem)
  key : d.file (.confClientKey conf) = some (encode m.client.keyPem)

theorem Trusting.of_only {conf : Text} {m : PkiMaterial} {d d' : StateDisk} {S : File → Prop}
    (h : Trusting conf m d) (hd : Only S d d') (hs : ∀ f ∈ .userData :: pkiPaths, ¬ S f)
    (hconf : ∀ f ∈ confFiles conf, ¬ S f) : Trusting conf m d' where
  agrees := h.agrees.of_only hd hs
  cert := (hd _ (hconf _ (by simp [confFiles]))).trans h.cert
  key := (hd _ (hconf _ (by simp [confFiles]))).trans h.key

section Autoconfigure
variable {host : Host} {env : AutoconfigureEnv} {w : World}

/-- What is copied is the client's identity, which has to be there. -/
theorem copyCredentials_trusting {d d' : StateDisk} (hfault : ∀ s, env.fault s = .none) (h : Consistent d)
    (hok : copyCredentials host env d = (.ok (), d')) :
    ∃ m, PemMaterial m ∧ Trusting (env.confDir host) m d' := by
  have hwithin := within_copyCredentials host env d
  rw [hok] at hwithin
  rcases h with habsent | ⟨m, hm, h⟩
  · unfold copyCredentials at hok
    rw [Cmd.bind_of_ok (Cmd.gets_apply ..), habsent .clientCert (by decide)] at hok
    simp [Cmd.fail] at hok
  · have hcopied := hok.symm.trans (copyCredentials_whole host hfault h.holds.clientCert h.holds.clientKey)
    obtain ⟨-, rfl⟩ := Prod.mk.inj hcopied
    exact ⟨m, hm, h.of_only hwithin (by simp [confFiles, pkiPaths]), by simp, by simp⟩

/-- Copies that the guest trusts are trusted after a start as well. -/
theorem trusting_cmdStart {start : StartEnv} {conf : Text} {m : PkiMaterial} (hstart : start.FaultFree)
    (h : Trusting conf m w.disk) :
    Ends (cmdStart host start) w (fun _ w' => Trusting conf m w'.disk) (fun w' => Trusting conf m w'.disk) := by
  have hprepare := (ends_prepare_agrees hstart h.agrees).and ((within_prepare host start).ends w.disk)
  have htrusting : ∀ d, Agrees m d ∧ Only (· ∈ preparedFiles) w.disk d → Trusting conf m d :=
    fun d ⟨hd, honly⟩ => ⟨hd, (honly _ (by simp [preparedFiles, Image.imageFiles, pkiPaths, documents])).trans h.cert,
      (honly _ (by simp [preparedFiles, Image.imageFiles, pkiPaths, documents])).trans h.key⟩
  refine ends_cmdStart_disk (fun _ _ hd h => h.of_only hd launch_stable ?_)
    (hprepare.mono (fun _ => htrusting) htrusting)
  simp [confFiles, logFiles]

/-- When `autoconfigure` returns, the copies are of the material that the guest has been given;
where it stops, the disk is consistent. -/
theorem ends_cmdAutoconfigure (henv : Sound (.autoconfigure env)) (h : Consistent w.disk) :
    Ends (cmdAutoconfigure host env) w
      (fun _ w' => ∃ m, PemMaterial m ∧ Trusting (env.confDir host) m w'.disk)
      (fun w' => Consistent w'.disk) := by
  obtain ⟨hfault, hstart, -⟩ := henv
  have hconsistent : ∀ {m : PkiMaterial} {d : StateDisk}, PemMaterial m →
      Trusting (env.confDir host) m d → Consistent d := fun hm hd => Or.inr ⟨_, hm, hd.agrees⟩
  have hpaths : ∀ f ∈ File.userData :: pkiPaths, f ∉ confFiles (env.confDir host) := by
    simp [confFiles, pkiPaths]
  refine ends_cmdAutoconfigureWithRunner h (fun d hd => h.of_only hd hpaths) (fun d _ hd => ?_)
    (fun w' _ _ e _ hw' => ?_) (fun _ _ _ hw' _ => hw') (fun _ _ hw' => hw')
    fun w' hw' => ?_
  · obtain ⟨m, hm, hd⟩ := copyCredentials_trusting hfault h hd
    refine ends_startUnlessRunning (fun _ => ⟨m, hm, hd⟩) fun _ => ?_
    exact (trusting_cmdStart hstart hd).mono (fun _ _ hw' => ⟨m, hm, hw'⟩) fun _ hw' => hconsistent hm hw'
  · obtain ⟨m, hm, hw'⟩ := hw'
    exact ⟨m, hm, hw'.of_only (happen_only w' e) (by decide) (by simp [confFiles, vmFiles])⟩
  · obtain ⟨m, hm, hw'⟩ := hw'
    exact hconsistent hm hw'

end Autoconfigure

/-! ### Any number of commands -/

/-- No step makes a consistent disk inconsistent, if it meets no fault of the disk. -/
theorem consistent_step {host : Host} {w : World} (i : Input) (hi : Sound i) (h : Consistent w.disk) :
    Consistent (step host w i).disk := by
  cases i with
  | event e => exact consistent_happen e h
  | start env => exact (consistent_cmdStart hi.1 hi.2 h).final
  | stop env => exact h.of_only (cmdStop_only env w) (by decide)
  | status env =>
    rw [step, cmdStatus_world]
    exact h
  | delete env =>
    have hgone : Consistent (w.disk.eraseTree File.inStateDir Dir.inStateDir) :=
      Or.inl fun f hf => if_pos ((by decide : ∀ f ∈ pkiPaths, f.inStateDir = true) f hf)
    have hdelete : Ends (cmdDelete env) w (fun _ w' => Consistent w'.disk) (fun w' => Consistent w'.disk) := by
      let R : World → Prop := fun w' => Consistent w'.disk
      have hwhole : env.fault = .none := hi
      have hkept : R w := h
      refine ends_cmdDelete hkept (fun _ _ => hgone) fun n _ hn => ?_
      simp [hwhole, Fault.progress] at hn
    exact hdelete.final
  | mount => exact h
  | unmount => exact h
  | autoconfigure env =>
    have hauto : Ends (cmdAutoconfigure host env) w (fun _ w' => Consistent w'.disk)
        (fun w' => Consistent w'.disk) := by
      refine (ends_cmdAutoconfigure hi h).mono (fun _ w' hw' => ?_) fun _ hw' => hw'
      obtain ⟨m, hm, hw'⟩ := hw'
      exact Or.inr ⟨m, hm, hw'.agrees⟩
    exact hauto.final

/-- The host's credentials and the guest's. -/
structure CredentialsAgree (conf : Text) (d : StateDisk) : Prop where
  clientCert : d.file (.confClientCert conf) = d.file .clientCert
  clientKey : d.file (.confClientKey conf) = d.file .clientKey
  guest : ∃ clientCert serverCert serverKey userData preseed,
    d.file .clientCert = some (encode clientCert) ∧ d.file .serverCert = some (encode serverCert) ∧
      d.file .serverKey = some (encode serverKey) ∧ d.file .userData = some (encode userData) ∧
      readWriteFiles userData = guestFiles clientCert serverCert serverKey preseed

/-- **Whenever `autoconfigure` succeeds, incus has the client's identity from the state
directory, and the user data hold that client's certificate and the server's identity**,
in every run from a state directory that is not there. -/
theorem credentials_agree (host : Host) (w : World) (habsent : ∀ f, f.inStateDir → w.disk.file f = none)
    (before : List Input) (hbefore : ∀ i ∈ before, Sound i) (env : AutoconfigureEnv)
    (henv : Sound (.autoconfigure env))
    (hok : (cmdAutoconfigure host env (run host w before)).1 = .ok ()) :
    CredentialsAgree (env.confDir host) (run host w (before ++ [.autoconfigure env])).disk := by
  have hconsistent : Consistent (run host w before).disk := by
    let I : World → Prop := fun w => Consistent w.disk
    have hw : I w :=
      Or.inl fun f hf => habsent f ((by decide : ∀ f ∈ pkiPaths, f.inStateDir = true) f hf)
    have hsound : Along host (fun _ i => Sound i) w before :=
      Runs.along_of_forall fun i hi _ => hbefore i hi
    exact Runs.run_invariant (fun w i (h : I w) hi => consistent_step i hi h) hw hsound
  have hends : Ends (cmdAutoconfigure host env) (run host w before) _ _ := ends_cmdAutoconfigure henv hconsistent
  obtain ⟨m, hm, htrusting⟩ := hends.of_ok (Prod.ext hok rfl)
  obtain ⟨preseed, hread⟩ := readWriteFiles_userDataOf hm
  have hholds := htrusting.agrees.holds
  rw [run, Runs.run_concat]
  exact ⟨htrusting.cert.trans hholds.clientCert.symm, htrusting.key.trans hholds.clientKey.symm,
    _, _, _, _, preseed, hholds.clientCert, hholds.serverCert, hholds.serverKey, htrusting.agrees.userData, hread⟩

/-! ### The shortest run -/

theorem pemText_armoured {label line : Text} (hlabel : Plain label) (hline : Plain line) :
    PemText (armoured label [line]) := by
  refine ⟨label, [line], hlabel, fun l hl => ?_, rfl⟩
  rwa [List.mem_singleton.mp hl]

theorem booting_sound (pid : Pid) : (booting pid).FaultFree ∧ GeneratesPem (booting pid).pki := by
  have hcert : Plain "CERTIFICATE".toList := by decide
  have hkey : Plain "PRIVATE KEY".toList := by decide
  have hclient : Plain "CLIENT".toList := by decide
  have hserver : Plain "SERVER".toList := by decide
  refine ⟨⟨fun _ => rfl, fun _ => rfl, fun _ => rfl⟩, fun name serial identity hidentity => ?_⟩
  have hidentity : (if name = "malleus-client".toList then Except.ok material.client
      else .ok material.server) = (.ok identity : Except PkiError IdentityMaterial) := hidentity
  split at hidentity
  · obtain rfl := Except.ok.inj hidentity
    exact ⟨pemText_armoured hcert hclient, pemText_armoured hkey hclient⟩
  · obtain rfl := Except.ok.inj hidentity
    exact ⟨pemText_armoured hcert hserver, pemText_armoured hkey hserver⟩

def given : AutoconfigureEnv := configuring (some ⟨192, 168, 64, 4⟩) []

/-- After a start, `autoconfigure` succeeds with an address that it is given. -/
theorem given_succeeds :
    (cmdAutoconfigure laptop given (run laptop nothing [.start (booting 100)])).1 = .ok () := by
  obtain ⟨args, d, hstart, hready, hpid, -⟩ :=
    booting_boots (show Free nothing.procs 100 from ⟨by decide, rfl⟩) startable_noFiles
  let w := ((nothing.setDisk d).spawn (vfkit 100) args).note (.started (d.file .userData) (d.file .metaData))
  have hfault : ∀ s, given.fault s = .none := fun _ => rfl
  obtain ⟨d', hcopy⟩ : ∃ d', copyCredentials laptop given d = (.ok (), d') :=
    ⟨_, copyCredentials_whole laptop hfault hready.holds.clientCert hready.holds.clientKey⟩
  have hcopied : Only (· ∈ confFiles (given.confDir laptop)) d d' := by
    have hwithin := within_copyCredentials laptop given d
    rwa [hcopy] at hwithin
  have hproc : (w.setDisk d').procs 100 = some ⟨(vfkit 100).state, (vfkit 100).comm, some 0⟩ := by
    have hself : ((nothing.setDisk d).spawn (vfkit 100) args).procs (vfkit 100).pid =
        some ⟨(vfkit 100).state, (vfkit 100).comm, some 0⟩ := procs_spawn_self
    exact hself
  have hpid' : (w.setDisk d').disk.file .vfkitPid = some (pidText 100) :=
    (hcopied _ (by simp [confFiles])).trans hpid
  have hclient : w.incus (given.confDir laptop) = ⟨[], []⟩ := rfl
  rw [run, Runs.run_cons, Runs.run_nil, step_start, hstart,
    cmdAutoconfigure_running (by decide) hcopy (vfkit_running hpid' hproc) (resolveVmIp_given ..)]
  show (wireRemote given ⟨192, 168, 64, 4⟩ (w.incus (given.confDir laptop))).1 = .ok ()
  rw [hclient]
  decide +kernel

theorem first_agrees : CredentialsAgree (given.confDir laptop)
    (run laptop nothing ([.start (booting 100)] ++ [.autoconfigure given])).disk := by
  refine credentials_agree laptop nothing (fun _ _ => rfl) [.start (booting 100)] (fun i hi => ?_) given
    ⟨fun _ => rfl, booting_sound 100⟩ given_succeeds
  obtain rfl := List.mem_singleton.mp hi
  exact booting_sound 100

end Malleus.Credentials
