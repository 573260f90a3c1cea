import Malleus.Boot
import Malleus.Library.Views

/-! What the commands can tell of a machine.

`perform` is the dispatch, with what a command replies. An `Observer R P` is a way `R` of
looking at the disk that does not see all of the client's key, and whose ignorance the
commands share: their starts may generate other identities, as long as `P` relates these.
Two worlds that look the same then stay so, with the same replies, whatever runs in them
(`alike_run`). -/
namespace Malleus.Observation
open Effect Strings Numbers Storage

/-! ### Replies -/

def report : Except CliError Text → Do (List Text)
  | .ok line => pure [line]
  | .error e => Cmd.fail e

/-- `run`: what an input comes to, with the lines that `status` and the mount commands
print. -/
def perform (host : Host) : Input → Do (List Text)
  | .event e => do
    Cmd.modify fun w => happen w e
    pure []
  | .start env => do
    cmdStart host env
    pure []
  | .stop env => do
    cmdStop env
    pure []
  | .status env => cmdStatus host env
  | .delete env => do
    cmdDelete env
    pure []
  | .mount hostPath name => report (cmdMount hostPath name)
  | .unmount name => report (cmdUnmount name)
  | .autoconfigure env => do
    cmdAutoconfigure host env
    pure []

/-- What every input of a run comes to. -/
def replies (host : Host) : World → List Input → List (Outcome CliError (List Text))
  | _, [] => []
  | w, i :: rest => (perform host i w).1 :: replies host (step host w i) rest

/-- A command that reports nothing leaves the world as it would. -/
theorem final_quiet (m : Do Unit) (w : World) : ((m >>= fun _ => pure [] : Do (List Text)) w).2 = (m w).2 := by
  rw [Cmd.bind_apply]
  rcases m w with ⟨_ | _ | _, w'⟩ <;> rfl

theorem final_report (r : Except CliError Text) (w : World) : (report r w).2 = w := by
  cases r with
  | ok line => rfl
  | error e => rfl

theorem perform_step (host : Host) (w : World) (i : Input) : (perform host i w).2 = step host w i := by
  cases i with
  | event e => rfl
  | start env => exact final_quiet _ w
  | stop env => exact final_quiet _ w
  | status env => rfl
  | delete env => exact final_quiet _ w
  | mount hostPath name => exact final_report _ w
  | unmount name => exact final_report _ w
  | autoconfigure env => exact final_quiet _ w

/-! ### The disk -/

/-- The files whose contents any observer sees. -/
abbrev Shown (f : File) : Prop := f.inStateDir = true ∧ f ≠ .clientKey

/-- The identities are the same but for their keys, and it does not show which key is written. -/
def SameButKey (R : StateDisk → StateDisk → Prop) (a b : IdentityMaterial) : Prop :=
  a.certPem = b.certPem ∧ ∀ fault, Relates R Eq
    (write fault .clientKey (encode a.keyPem) : Cmd StateDisk IoError Unit)
    (write fault .clientKey (encode b.keyPem))

/-- A view of the disk through which all commands look alike, though they read, copy and
generate a key that it does not show. -/
structure Observer (R : StateDisk → StateDisk → Prop) (P : PkiEnv → PkiEnv → Prop) : Prop
    extends View Shown R where
  keyThere {d d' : StateDisk} (h : R d d') : (d.file .clientKey).isSome = (d'.file .clientKey).isSome
  reads (fault : Fault) : Relates R (fun _ _ => True)
    (readToString fault .clientKey : Cmd StateDisk IoError Text) (readToString fault .clientKey)
  copies (fault : Fault) (conf : Text) :
    Respects R (copy fault .clientKey (.confClientKey conf) : Cmd StateDisk IoError Unit)
  faults {env env' : PkiEnv} (h : P env env') : env.fault = env'.fault
  client {env env' : PkiEnv} (h : P env env') : Relates R (SameButKey R)
    (Pki.generateIdentity env "malleus-client".toList 1) (Pki.generateIdentity env' "malleus-client".toList 1)
  server {env env' : PkiEnv} (h : P env env') : Relates R Eq
    (Pki.generateIdentity env "malleus-server".toList 2) (Pki.generateIdentity env' "malleus-server".toList 2)

section Disk
variable {host : Host} {R : StateDisk → StateDisk → Prop} {P : PkiEnv → PkiEnv → Prop}

/-- Material of which the guest is told the same. -/
abbrev SameForGuest (m m' : PkiMaterial) : Prop := provisionSpec m = provisionSpec m'

theorem sameForGuest {a b : IdentityMaterial} (h : a.certPem = b.certPem) (server : IdentityMaterial) :
    SameForGuest ⟨a, server⟩ ⟨b, server⟩ := by
  unfold SameForGuest provisionSpec
  rw [h]

theorem respects_checked (cfg : Config) : Respects R (checked cfg) := by
  unfold checked
  cases cfg.validate with
  | ok _ => exact respects_pure cfg
  | error e => exact respects_fail _

theorem respects_rendered {α : Type} (doc : Except ProvisionError α) : Respects R (rendered doc) := by
  cases doc with
  | ok a => exact respects_pure a
  | error e => exact respects_fail _

section View
variable (hR : View Shown R)
include hR

theorem respects_verifyDiskImage (env : ImageEnv) (path : File → Text) {f : File} (hf : Shown f) :
    Respects R (Image.verifyDiskImage env path f) := by
  refine respects_bind (respects_mapError (respects_readFile hR hf) _) fun file => ?_
  refine respects_bind (respects_mapError (respects_stage _ _ (fun _ _ _ h => h) fun _ _ h => h) _) fun _ => ?_
  dsimp only
  refine respects_ite (respects_pure _) ?_
  exact respects_bind (respects_mapError (respects_removeFile hR hf) _) fun _ => respects_fail _

theorem keep_view {d d' : StateDisk} (h : R d d') (left : Option Nat) (remote : Bytes) :
    R (Image.keep left remote d) (Image.keep left remote d') := by
  cases left with
  | none => exact h
  | some n => exact hR.put h _ _

theorem respects_download (env : ImageEnv) (url : Text) : Respects R (Image.download env url) := by
  unfold Image.download
  cases env.curl with
  | notRun => exact respects_fail _
  | delivers => exact respects_modify fun _ _ h => hR.put h _ _
  | fails status left =>
    refine respects_bind (respects_modify fun _ _ h => keep_view hR h _ _) fun _ => ?_
    exact respects_bind (respects_attempt (respects_removeFile hR (by decide))) fun _ => respects_fail _
  | killed left =>
    exact respects_bind (respects_modify fun _ _ h => keep_view hR h _ _) fun _ => respects_die

theorem respects_fetchBaseImage (env : ImageEnv) (url : Text) : Respects R (Image.fetchBaseImage env url) :=
  respects_bind (respects_mapError (respects_present hR (by decide)) _) fun _ =>
    respects_ite (respects_pure _) (respects_download hR env url)

theorem respects_createRootDisk (env : ImageEnv) (cfg : Config) :
    Respects R (Image.createRootDisk env cfg) := by
  refine respects_bind (respects_mapError (respects_present hR (by decide)) _) fun _ =>
    respects_ite (respects_pure _) ?_
  refine respects_bind (respects_mapError (respects_copy hR (by decide) _) _) fun _ => ?_
  exact respects_bind (respects_mapError (respects_openWrite hR (by decide)) _) fun _ =>
    respects_mapError (respects_setLen hR (by decide) _) _

theorem respects_createPoolDisk (env : ImageEnv) (cfg : Config) :
    Respects R (Image.createPoolDisk env cfg) := by
  refine respects_bind (respects_mapError (respects_present hR (by decide)) _) fun _ =>
    respects_ite (respects_pure _) ?_
  exact respects_bind (respects_mapError (respects_createFile hR _) _) fun _ =>
    respects_mapError (respects_setLen hR (by decide) _) _

theorem respects_ensureImages (names : Image.Names) (env : ImageEnv) (cfg : Config) :
    Respects R (Image.ensureImages names env cfg) := by
  refine respects_bind (respects_mapError (respects_createDirAll hR _) _) fun _ => ?_
  cases Image.debianArch names.arch with
  | none => exact respects_fail _
  | some arch =>
    refine respects_bind (respects_fetchBaseImage hR env _) fun _ => ?_
    refine respects_bind (respects_verifyDiskImage hR env _ (by decide)) fun _ => ?_
    refine respects_bind (respects_createRootDisk hR env cfg) fun _ => ?_
    exact respects_bind (respects_verifyDiskImage hR env _ (by decide)) fun _ =>
      respects_createPoolDisk hR env cfg

theorem respects_loadConfig (host : Host) (readConfig : Fault) : Respects R (loadConfig host readConfig) := by
  refine respects_bind (respects_mapError (respects_present hR (by decide)) _) fun there =>
    respects_ite ?_ (respects_checked _)
  refine respects_bind (respects_mapError (respects_readToString hR (by decide)) _) fun raw => ?_
  cases host.parseConfig raw with
  | ok cfg => exact respects_checked cfg
  | error reason => exact respects_fail _

/-- The documents are made of what the guest is told. -/
theorem relates_writeDocuments (env : StartEnv) (pki : PkiEnv) {m m' : PkiMaterial}
    (hm : SameForGuest m m') :
    Relates R Eq (writeDocuments env m) (writeDocuments {env with pki := pki} m') := by
  unfold writeDocuments
  rw [show provisionSpec m = provisionSpec m' from hm]
  refine respects_bind (respects_rendered _) fun userData => ?_
  refine respects_bind (respects_rendered _) fun metaData => ?_
  exact respects_bind (respects_mapError (respects_write hR _ _) _) fun _ =>
    respects_mapError (respects_write hR _ _) _

end View

variable (hR : Observer R P)
include hR

theorem Observer.pkiThere {d d' : StateDisk} (h : R d d') :
    ∀ f ∈ Pki.pkiPaths, (d.file f).isSome = (d'.file f).isSome := by
  have hshown : ∀ f ∈ Pki.pkiPaths, f = .clientKey ∨ Shown f := by decide
  intro f hf
  obtain rfl | hf := hshown f hf
  · exact hR.keyThere h
  · rw [hR.file h f hf]

section Pki
variable {env env' : PkiEnv} (h : P env env')
include h

theorem relates_readClient : Relates R (fun a b => a.certPem = b.certPem)
    (Pki.readIdentity env .clientCert .clientKey) (Pki.readIdentity env' .clientCert .clientKey) := by
  unfold Pki.readIdentity
  rw [hR.faults h]
  refine relates_bind_eq (respects_mapError (respects_readToString hR.toView (by decide)) _) fun cert => ?_
  exact relates_bind (relates_mapError (hR.reads _) _) fun _ _ _ => relates_pure rfl

theorem relates_readServer : Relates R Eq (Pki.readIdentity env .serverCert .serverKey)
    (Pki.readIdentity env' .serverCert .serverKey) := by
  unfold Pki.readIdentity
  rw [hR.faults h]
  refine relates_bind_eq (respects_mapError (respects_readToString hR.toView (by decide)) _) fun cert => ?_
  exact relates_bind_eq (respects_mapError (respects_readToString hR.toView (by decide)) _) fun key =>
    relates_pure rfl

theorem relates_maybeLoad (dir : Text) : Relates R (Option.Rel SameForGuest)
    (Pki.maybeLoad env dir) (Pki.maybeLoad env' dir) := by
  refine relates_bind_eq (relates_gets fun d d' hd => ?_) fun existing => ?_
  · exact List.map_congr_left fun f hf => hR.pkiThere hd f hf
  · dsimp only
    split
    · exact relates_pure .none
    split
    · exact relates_fail _
    refine relates_bind (relates_readClient hR h) fun a b hcert => ?_
    exact relates_bind_eq (relates_readServer hR h) fun server =>
      relates_pure (.some (sameForGuest hcert server))

theorem relates_writeIdentity {a b : IdentityMaterial} (hab : SameButKey R a b) :
    Relates R Eq (Pki.writeIdentity env .clientCert .clientKey a)
      (Pki.writeIdentity env' .clientCert .clientKey b) := by
  unfold Pki.writeIdentity
  rw [hR.faults h, hab.1]
  exact relates_bind_eq (respects_mapError (respects_write hR.toView _ _) _) fun _ =>
    relates_mapError (hab.2 _) _

theorem relates_loadOrCreate (dir : Text) : Relates R SameForGuest (Pki.loadOrCreate env dir)
    (Pki.loadOrCreate env' dir) := by
  have hview := hR.toView
  refine relates_bind (relates_maybeLoad hR h dir) fun found found' hfound => ?_
  cases hfound with
  | some hm => exact relates_pure hm
  | none =>
    dsimp only
    rw [hR.faults h]
    refine relates_bind_eq (respects_mapError (respects_createDirAll hview _) _) fun _ => ?_
    refine relates_bind (hR.client h) fun a b hab => ?_
    refine relates_bind_eq (hR.server h) fun server => ?_
    refine relates_bind_eq (relates_writeIdentity hR h hab) fun _ => ?_
    have hserver : Relates R Eq (Pki.writeIdentity env .serverCert .serverKey server)
        (Pki.writeIdentity env' .serverCert .serverKey server) := by
      unfold Pki.writeIdentity
      rw [hR.faults h]
      exact respects_bind (respects_mapError (respects_write hview _ _) _) fun _ =>
        respects_mapError (respects_write hview _ _) _
    exact relates_bind_eq hserver fun _ => relates_pure (sameForGuest hab.1 server)

end Pki

theorem relates_prepare {env : StartEnv} {pki : PkiEnv} (h : P env.pki pki) :
    Relates R Eq (prepare host env) (prepare host {env with pki := pki}) := by
  have hview := hR.toView
  refine relates_bind_eq (respects_mapError (respects_createDirAll hview _) _) fun _ => ?_
  refine relates_bind_eq (respects_loadConfig hview host _) fun cfg => ?_
  refine relates_bind_eq (respects_mapError (respects_ensureImages hview _ _ _) _) fun _ => ?_
  refine relates_bind (relates_mapError (relates_loadOrCreate hR h _) _) fun m m' hm => ?_
  refine relates_bind_eq (relates_writeDocuments hview env pki hm) fun _ => ?_
  exact relates_bind_eq (respects_mapError (respects_write hview _ _) _) fun _ => relates_pure rfl

theorem respects_copyCredentials (host : Host) (env : AutoconfigureEnv) :
    Respects R (copyCredentials host env) := by
  have hview := hR.toView
  refine respects_bind (respects_gets fun d d' h => ?_) fun there => respects_ite ?_ (respects_fail _)
  · rw [hR.pkiThere h .clientCert (by decide), hR.pkiThere h .clientKey (by decide)]
  · refine respects_bind (respects_mapError (respects_createDirAll hview _) _) fun _ => ?_
    refine respects_bind (respects_mapError (respects_copy hview (by decide) _) _) fun _ => ?_
    exact respects_mapError (hR.copies _ _) _

end Disk

/-! ### The world -/

/-- The worlds look the same to every command; their histories may have to be the same. -/
structure Alike (R : StateDisk → StateDisk → Prop) (history : Prop) (w w' : World) : Prop where
  disk : R w.disk w'.disk
  procs : w.procs = w'.procs
  incus : w.incus = w'.incus
  boots : w.boots = w'.boots
  log : history → w.log = w'.log

section World
variable {host : Host} {R : StateDisk → StateDisk → Prop} {P : PkiEnv → PkiEnv → Prop} {history : Prop}
variable {w w' : World}

theorem Alike.setDisk (h : Alike R history w w') {d d' : StateDisk} (hd : R d d') :
    Alike R history (w.setDisk d) (w'.setDisk d') := ⟨hd, h.procs, h.incus, h.boots, h.log⟩

theorem Alike.note (h : Alike R history w w') {n n' : Note} (hn : history → n = n') :
    Alike R history (w.note n) (w'.note n') where
  disk := h.disk
  procs := h.procs
  incus := h.incus
  boots := h.boots
  log hh := by rw [World.note_log, World.note_log, h.log hh, hn hh]

theorem Alike.setProc (h : Alike R history w w') (pid : Pid) (p : Option Process) :
    Alike R history (w.setProc pid p) (w'.setProc pid p) where
  disk := h.disk
  procs := congrArg (fun procs : Pid → Option Process => Function.update procs pid p) h.procs
  incus := h.incus
  boots := h.boots
  log := h.log

theorem Alike.spawn (h : Alike R history w w') (c : Child) (args : List Text) :
    Alike R history (w.spawn c args) (w'.spawn c args) := by
  have hset := (h.setProc c.pid (some ⟨c.state, c.comm, some w.boots⟩)).note
    fun _ => (rfl : Note.spawned c.pid args = .spawned c.pid args)
  have hprocs : (w.spawn c args).procs = (w'.spawn c args).procs := by
    show _ = (w'.setProc c.pid (some ⟨c.state, c.comm, some w'.boots⟩)).procs
    rw [← h.boots]
    exact hset.procs
  exact ⟨h.disk, hprocs, h.incus, congrArg (· + 1) h.boots, hset.log⟩

theorem Alike.runOf (h : Alike R history w w') (pid : Pid) : w.runOf pid = w'.runOf pid := by
  unfold World.runOf
  rw [h.procs]

section View
variable (hR : View Shown R)
include hR

theorem namedPid_alike (h : Alike R history w w') : w.namedPid = w'.namedPid :=
  congrArg (fun contents : Option Bytes => contents.bind readPid) (hR.file h.disk .vfkitPid (by decide))

theorem isVmRunning_alike (h : Alike R history w w') (ps : Bool) : isVmRunning ps w = isVmRunning ps w' := by
  unfold isVmRunning
  rw [namedPid_alike hR h, h.procs]

theorem signal_alike (h : Alike R history w w') (pid : Pid) (p : Process) :
    Alike R history (w.signal pid p) (w'.signal pid p) := by
  have hnoted : Alike R history (w.note (.signalled (.process pid) (isVmRunning true w)))
      (w'.note (.signalled (.process pid) (isVmRunning true w'))) :=
    h.note fun _ => by rw [isVmRunning_alike hR h]
  unfold World.signal
  dsimp only
  split
  · exact hnoted.setProc pid none
  · exact hnoted

theorem happen_alike (h : Alike R history w w') (e : Event) :
    Alike R history (happen w e) (happen w' e) := by
  cases e with
  | exits pid reaped =>
    unfold happen
    dsimp only
    rw [← h.procs]
    cases w.procs pid with
    | none => exact h
    | some p => exact h.setProc pid _
  | reschedules pid state =>
    unfold happen
    dsimp only
    rw [← h.procs]
    cases w.procs pid with
    | none => exact h
    | some p =>
      dsimp only
      split
      · exact h.setProc pid _
      · exact h
  | appears pid state comm =>
    unfold happen
    dsimp only
    rw [← h.procs]
    split
    · exact h.setProc pid _
    · exact h
  | vmWrites pid f bytes =>
    unfold happen
    dsimp only
    rw [← h.runOf, ← hR.dir h.disk]
    cases w.runOf pid with
    | none => exact h
    | some vm =>
      dsimp only
      split
      · exact (h.setDisk (hR.put h.disk f bytes)).note fun _ => rfl
      · exact h
  | editsConfig contents =>
    unfold happen
    dsimp only
    rw [← hR.dir h.disk]
    cases contents with
    | none => exact h.setDisk (hR.erase h.disk _)
    | some bytes =>
      dsimp only
      split
      · exact h.setDisk (hR.put h.disk _ _)
      · exact h

theorem foldl_alike (events : List Event) (h : Alike R history w w') :
    Alike R history (events.foldl happen w) (events.foldl happen w') := by
  induction events generalizing w w' with
  | nil => exact h
  | cons e events ih => exact ih (happen_alike hR h e)

end View

theorem relates_onDisk {ε α : Type} {m n : Cmd StateDisk ε α} (h : Relates R Eq m n) :
    Relates (Alike R history) Eq (onDisk m) (onDisk n) :=
  relates_zoom (fun _ _ h => h.disk) (fun _ _ _ _ h hd => h.setDisk hd) h

theorem respects_io {α : Type} {m : Cmd StateDisk IoError α} (h : Respects R m) :
    Respects (Alike R history) (io m) := respects_mapError (relates_onDisk h) _

theorem respects_record (n : Note) : Respects (Alike R history) (record n) :=
  respects_modify fun _ _ h => h.note fun _ => rfl

end World

/-! ### The commands -/

section Commands
variable {host : Host} {R : StateDisk → StateDisk → Prop} {P : PkiEnv → PkiEnv → Prop} {history : Prop}

section View
variable (hR : View Shown R)
include hR

theorem respects_watch (c : Child) : Respects (Alike R history) (watch c) := by
  unfold watch
  refine respects_bind (respects_io (respects_write hR _ _)) fun _ => ?_
  cases c.early with
  | outlives => exact respects_pure _
  | exits status stderr readErr =>
    refine respects_bind (respects_modify fun _ _ h => ?_) fun _ => ?_
    · exact (h.setDisk (hR.put h.disk _ _)).setProc _ _
    · exact respects_bind (respects_attempt (respects_io (respects_readToString hR (by decide))))
        fun _ => respects_fail _
  | waitFails => exact respects_fail _
  | killed => exact respects_die

theorem respects_startVm (launches : List Launch) (args : List Text) :
    Respects (Alike R history) (startVm launches args) := by
  induction launches with
  | nil => exact respects_die
  | cons launch launches ih =>
    unfold startVm
    refine respects_bind (respects_io (respects_createFile hR _)) fun _ => ?_
    refine respects_bind (respects_io (respects_createFile hR _)) fun _ => ?_
    cases launch.spawn with
    | child c =>
      refine respects_bind (respects_gets fun w w' h => by rw [h.procs]) fun free =>
        respects_ite ?_ (respects_fail _)
      exact respects_bind (respects_modify fun _ _ h => h.spawn c args) fun _ => respects_watch hR c
    | failed reason => exact respects_fail _
    | notFound brew =>
      cases brew with
      | none => exact respects_fail _
      | some prompt =>
        dsimp only
        cases prompt.input with
        | none => exact respects_fail _
        | some input =>
          refine respects_ite ?_ (respects_fail _)
          cases prompt.installed with
          | none => exact respects_fail _
          | some installed =>
            cases installed with
            | true => exact ih
            | false => exact respects_fail _

theorem respects_runKill (kill : Kill) (pid : Pid) : Respects (Alike R history) (runKill kill pid) := by
  unfold runKill
  cases kill with
  | cannotRun => exact respects_pure _
  | refused => exact respects_pure _
  | delivers =>
    refine respects_ite ?_ ?_
    · exact respects_bind (respects_gets fun w w' h => isVmRunning_alike hR h true) fun _ =>
        respects_bind (respects_record _) fun _ => respects_die
    · refine respects_bind (respects_gets fun w w' h => congrFun h.procs pid) fun found => ?_
      cases found with
      | none => exact respects_pure _
      | some p =>
        exact respects_bind (respects_modify fun _ _ h => signal_alike hR h pid p) fun _ => respects_pure _

theorem respects_cmdStop (env : StopEnv) : Respects (Alike R history) (cmdStop env) := by
  refine respects_bind (respects_io (respects_present hR (by decide))) fun there =>
    respects_ite ?_ (respects_pure _)
  refine respects_bind (respects_io (respects_readToString hR (by decide))) fun pidStr => ?_
  cases parsePid pidStr with
  | none => exact respects_fail _
  | some pid =>
    refine respects_bind (respects_runKill hR _ pid) fun ran => respects_ite ?_ (respects_pure _)
    refine respects_bind (respects_attempt (respects_io (respects_removeFile hR (by decide)))) fun _ => ?_
    exact respects_bind (respects_attempt (respects_io (respects_removeFile hR (by decide))))
      fun _ => respects_pure _

theorem respects_cmdDelete (env : DeleteEnv) : Respects (Alike R history) (cmdDelete env) := by
  refine respects_bind (respects_gets fun w w' h => congrFun (hR.dir h.disk) _) fun there =>
    respects_ite ?_ (respects_pure _)
  exact respects_io (respects_removeDirAll hR _ _ _)

theorem respects_answer (ip : Ipv4Addr) (source : Source) :
    Respects (Alike R history) (answer ip source) := by
  refine respects_gets_bind fun w w' h => ⟨rfl, h.note fun hh => ?_⟩
  have hnamed : w.namedRun = w'.namedRun := by
    unfold World.namedRun
    rw [namedPid_alike hR h, funext h.runOf]
  have hwritten : w.lastWritten .guestIp = w'.lastWritten .guestIp :=
    congrArg (fun log : List Note => log.findSome? (Note.written .guestIp)) (h.log hh)
  rw [hnamed, hwritten]

theorem text_alike {d d' : StateDisk} (h : R d d') (poll : Poll) {f : File} (hf : Shown f) :
    poll.text d f = poll.text d' f := by
  unfold Poll.text
  rw [hR.file h f hf]

/-- A turn of the search does not see the key. -/
theorem look_alike {d d' : StateDisk} (h : R d d') (leasePath : Text) (poll : Poll) (searched : List Text) :
    look leasePath poll d searched = look leasePath poll d' searched := by
  unfold look
  rw [text_alike hR h poll (by decide), text_alike hR h poll (by decide)]

theorem notRunning_alike {d d' : StateDisk} (h : R d d') (host : Host) (poll : Poll) :
    notRunning host poll d = notRunning host poll d' := by
  unfold notRunning
  rw [text_alike hR h poll (by decide), hR.file h .readySock (by decide)]

theorem timedOut_alike {d d' : StateDisk} (h : R d d') (poll : Poll) (searched reasons : List Text) :
    timedOut poll d searched reasons = timedOut poll d' searched reasons := by
  unfold timedOut
  rw [text_alike hR h poll (by decide), hR.file h .guestIp (by decide)]

/-- The whole search finds the same on both disks. -/
theorem respects_resolveLoop (host : Host) (leasePath : Text) (polls : List Poll) (searched : List Text) :
    Respects (Alike R history) (resolveLoop host isVmRunning leasePath polls searched) := by
  induction polls generalizing searched with
  | nil => exact respects_die
  | cons poll polls ih =>
    refine respects_bind (respects_modify fun w w' h => foldl_alike hR poll.before h) fun _ => ?_
    -- the disks may differ, but nothing that is made of them does
    refine respects_gets_bind fun w w' h => ?_
    simp only [look_alike hR h.disk, notRunning_alike hR h.disk, timedOut_alike hR h.disk]
    refine (respects_iff (R := Alike R history)).mp ?_ w w' h
    refine respects_bind (respects_gets fun w w' h => isVmRunning_alike hR h _) fun running =>
      respects_ite ?_ (respects_fail _)
    cases look leasePath poll w'.disk searched with
    | found ip source => exact respects_answer hR ip source
    | nothing searched reasons => exact respects_ite (respects_fail _) (ih searched)

theorem respects_resolveVmIp (host : Host) (leasePath : Text) (vmIp : Option Ipv4Addr) (polls : List Poll) :
    Respects (Alike R history) (resolveVmIp host isVmRunning leasePath vmIp polls) := by
  cases vmIp with
  | some ip => exact respects_answer hR ip .explicit
  | none => exact respects_resolveLoop hR host leasePath polls _

end View

theorem respects_onIncus (conf : Text) (m : Cmd Incus.Client CliError Unit) :
    Respects (Alike R history) (onIncus conf m) := by
  refine respects_iff.mpr fun w w' h => ?_
  -- the clients are the same, so they are told the same
  have hclient : w.incus conf = w'.incus conf := congrFun h.incus _
  refine ⟨congrArg (fun c => (m c).1) hclient, h.disk, h.procs, ?_, h.boots, h.log⟩
  show Function.update w.incus conf (m (w.incus conf)).2 = Function.update w'.incus conf (m (w'.incus conf)).2
  rw [h.incus]

variable (hR : Observer R P)
include hR

theorem respects_cmdStatus (host : Host) (env : StatusEnv) :
    Respects (Alike R history) (cmdStatus host env) := by
  have hview := hR.toView
  refine respects_bind (relates_onDisk (respects_loadConfig hview host _)) fun cfg => ?_
  refine respects_bind (respects_gets fun w w' h => ?_) fun pkiReady => ?_
  · rw [Bool.eq_iff_iff, List.all_eq_true, List.all_eq_true]
    exact forall₂_congr fun f hf => by rw [hR.pkiThere h.disk f hf]
  · refine respects_bind (respects_attempt (respects_io (respects_readToString hview (by decide))))
      fun pidStr => ?_
    exact respects_bind (respects_gets fun w w' h => isVmRunning_alike hview h _) fun _ => respects_pure _

/-- Two starts that generate different keys print the same and leave disks alike. -/
theorem relates_cmdStart {env : StartEnv} {pki : PkiEnv} (h : P env.pki pki) :
    Relates (Alike R history) Eq (cmdStart host env) (cmdStart host {env with pki := pki}) := by
  have hview := hR.toView
  refine relates_bind_eq (relates_onDisk (relates_prepare hR h)) fun args => ?_
  refine relates_bind_eq (respects_startVm hview _ _) fun _ => ?_
  refine relates_bind_eq (respects_gets fun w w' h => hview.file h.disk .userData (by decide)) fun userData => ?_
  exact relates_bind_eq (respects_gets fun w w' h => hview.file h.disk .metaData (by decide)) fun metaData =>
    respects_record _

/-- So do two calls of `autoconfigure`, whose copies are alike. -/
theorem relates_cmdAutoconfigure {env : AutoconfigureEnv} {pki : PkiEnv} (h : P env.start.pki pki) :
    Relates (Alike R history) Eq (cmdAutoconfigure host env)
      (cmdAutoconfigure host {env with start := {env.start with pki := pki}}) := by
  have hview := hR.toView
  unfold cmdAutoconfigure cmdAutoconfigureWithRunner
  dsimp only
  split
  · refine relates_bind_eq (relates_onDisk (respects_copyCredentials hR host env)) fun _ => ?_
    have hstart : Relates (Alike R history) Eq (startUnlessRunning host isVmRunning env)
        (startUnlessRunning host isVmRunning {env with start := {env.start with pki := pki}}) := by
      refine relates_bind_eq (respects_gets fun w w' h => isVmRunning_alike hview h _) fun running => ?_
      split
      · exact relates_pure rfl
      · exact relates_cmdStart hR h
    refine relates_bind_eq hstart fun _ => ?_
    refine relates_bind_eq (respects_resolveVmIp hview host _ _ _) fun ip => ?_
    exact respects_onIncus _ _
  · exact relates_fail _

end Commands

/-! ### Runs -/

/-- The same input, but for the identities that its start may generate. -/
inductive Counterpart (P : PkiEnv → PkiEnv → Prop) : Input → Input → Prop
  | event (e : Event) : Counterpart P (.event e) (.event e)
  | start (env : StartEnv) {pki : PkiEnv} (h : P env.pki pki) :
      Counterpart P (.start env) (.start {env with pki := pki})
  | stop (env : StopEnv) : Counterpart P (.stop env) (.stop env)
  | status (env : StatusEnv) : Counterpart P (.status env) (.status env)
  | delete (env : DeleteEnv) : Counterpart P (.delete env) (.delete env)
  | mount (hostPath : Text) (name : Option Text) : Counterpart P (.mount hostPath name) (.mount hostPath name)
  | unmount (name : Text) : Counterpart P (.unmount name) (.unmount name)
  | autoconfigure (env : AutoconfigureEnv) {pki : PkiEnv} (h : P env.start.pki pki) :
      Counterpart P (.autoconfigure env) (.autoconfigure {env with start := {env.start with pki := pki}})

theorem Counterpart.refl (i : Input) : Counterpart Eq i i := by
  cases i with
  | event e => exact .event e
  | start env => exact .start env rfl
  | stop env => exact .stop env
  | status env => exact .status env
  | delete env => exact .delete env
  | mount hostPath name => exact .mount hostPath name
  | unmount name => exact .unmount name
  | autoconfigure env => exact .autoconfigure env rfl

section Runs
variable {host : Host} {R : StateDisk → StateDisk → Prop} {P : PkiEnv → PkiEnv → Prop} {history : Prop}
variable {w w' : World}

theorem relates_quiet {m n : Do Unit} (h : Relates (Alike R history) Eq m n) :
    Relates (Alike R history) Eq (m >>= fun _ => pure [] : Do (List Text)) (n >>= fun _ => pure []) :=
  relates_bind_eq h fun _ => relates_pure rfl

theorem respects_report (r : Except CliError Text) : Respects (Alike R history) (report r) := by
  cases r with
  | ok line => exact respects_pure _
  | error e => exact respects_fail e

/-- What is done on machines that look the same comes to the same, and leaves them so. -/
theorem relates_perform (hR : Observer R P) {i i' : Input} (hi : Counterpart P i i') :
    Relates (Alike R history) Eq (perform host i) (perform host i') := by
  have hview := hR.toView
  cases hi with
  | event e => exact relates_quiet (respects_modify fun _ _ h => happen_alike hview h e)
  | start env h => exact relates_quiet (relates_cmdStart hR h)
  | stop env => exact relates_quiet (respects_cmdStop hview env)
  | status env => exact respects_cmdStatus hR host env
  | delete env => exact relates_quiet (respects_cmdDelete hview env)
  | mount hostPath name => exact respects_report _
  | unmount name => exact respects_report _
  | autoconfigure env h => exact relates_quiet (relates_cmdAutoconfigure hR h)

/-- Worlds that look the same go on alike. -/
theorem alike_run (hR : Observer R P) {inputs inputs' : List Input}
    (hinputs : List.Forall₂ (Counterpart P) inputs inputs') (h : Alike R history w w') :
    replies host w inputs = replies host w' inputs' ∧
      Alike R history (run host w inputs) (run host w' inputs') := by
  induction hinputs generalizing w w' with
  | nil => exact ⟨rfl, h⟩
  | @cons i i' rest rest' hi _ ih =>
    obtain ⟨hmatch, hstate⟩ := relates_perform hR hi w w' h
    rw [perform_step, perform_step] at hstate
    obtain ⟨hreplies, halike⟩ := ih hstate
    exact ⟨congrArg₂ List.cons (Outcome.match_eq.mp hmatch) hreplies, halike⟩

end Runs

end Malleus.Observation
