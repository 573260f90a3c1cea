import Malleus.Files

/-! `pki.rs`: the client and server identities, generated once and then loaded.

Key and certificate generation is a parameter (`PkiEnv.generate`): what matters
here is which texts reach the four files, and which texts a call returns. -/
namespace Malleus
open Effect Strings Storage

/-- A certificate and its key, in PEM. -/
structure IdentityMaterial where
  certPem : Text
  keyPem : Text
  deriving DecidableEq, Repr

/-- The two identities: malleus as a client of the guest, and the guest as a server. -/
structure PkiMaterial where
  client : IdentityMaterial
  server : IdentityMaterial
  deriving DecidableEq, Repr

/-- A PEM text: its lines between the two that name what it is. -/
def armoured (label : Text) (body : List Text) : Text :=
  unlines (("-----BEGIN ".toList ++ label ++ "-----".toList) :: body ++
    ["-----END ".toList ++ label ++ "-----".toList])

inductive PkiError where
  | io (e : IoError)
  | incompleteMaterial (dir : Text)
  | invalidSubject (subject details : Text)
  | certificateGeneration (details : Text)
  deriving DecidableEq, Repr

namespace Pki

/-- The places where `load_or_create` can stop. -/
inductive Site where
  | read (f : File)
  | createDir
  | write (f : File)
  deriving DecidableEq, Repr

end Pki

/-- What one call of `load_or_create` meets: the identity generated for a common
name and serial number, and the faults. -/
structure PkiEnv where
  generate : Text → Nat → Except PkiError IdentityMaterial
  fault : Pki.Site → Fault

namespace Pki

abbrev Do (α : Type) := Cmd StateDisk PkiError α

def io {α : Type} (m : Cmd StateDisk IoError α) : Do α := m.mapError .io

/-- A certificate that is signed with its own new key. -/
def generateIdentity (env : PkiEnv) (commonName : Text) (serial : Nat) : Do IdentityMaterial :=
  match env.generate commonName serial with
  | .ok identity => pure identity
  | .error e => Cmd.fail e

/-- The certificate first, then the key. -/
def writeIdentity (env : PkiEnv) (certPath keyPath : File) (identity : IdentityMaterial) : Do Unit := do
  io (write (env.fault (.write certPath)) certPath (encode identity.certPem))
  io (write (env.fault (.write keyPath)) keyPath (encode identity.keyPem))

def readIdentity (env : PkiEnv) (certPath keyPath : File) : Do IdentityMaterial := do
  let certPem ← io (readToString (env.fault (.read certPath)) certPath)
  let keyPem ← io (readToString (env.fault (.read keyPath)) keyPath)
  pure ⟨certPem, keyPem⟩

/-- `pki_paths`, in the order in which `maybe_load` looks for them. -/
def pkiPaths : List File := [.clientCert, .clientKey, .serverCert, .serverKey]

/-- The material that is there. None of the four files is no error, and some of them are. -/
def maybeLoad (env : PkiEnv) (dir : Text) : Do (Option PkiMaterial) := do
  let existing ← Cmd.gets fun d : StateDisk => pkiPaths.map fun f => (d.file f).isSome
  let presentCount := existing.countP id
  if presentCount = 0 then pure none
  else if presentCount ≠ existing.length then Cmd.fail (.incompleteMaterial dir)
  else
    let client ← readIdentity env .clientCert .clientKey
    let server ← readIdentity env .serverCert .serverKey
    pure (some ⟨client, server⟩)

/-- The material that is there, or new material, which is written file by file. -/
def loadOrCreate (env : PkiEnv) (dir : Text) : Do PkiMaterial := do
  match ← maybeLoad env dir with
  | some existing => pure existing
  | none =>
    io (createDirAll (env.fault .createDir) .pkiDir)
    let client ← generateIdentity env "malleus-client".toList 1
    let server ← generateIdentity env "malleus-server".toList 2
    writeIdentity env .clientCert .clientKey client
    writeIdentity env .serverCert .serverKey server
    pure ⟨client, server⟩

/-! ### What the four files hold -/

/-- The four files are there and hold the material. -/
structure Holds (d : StateDisk) (m : PkiMaterial) : Prop where
  clientCert : d.file .clientCert = some (encode m.client.certPem)
  clientKey : d.file .clientKey = some (encode m.client.keyPem)
  serverCert : d.file .serverCert = some (encode m.server.certPem)
  serverKey : d.file .serverKey = some (encode m.server.keyPem)

/-- The four files are there and read as the material. -/
structure Reads (d : StateDisk) (m : PkiMaterial) : Prop where
  clientCert : (d.file .clientCert).bind decode = some m.client.certPem
  clientKey : (d.file .clientKey).bind decode = some m.client.keyPem
  serverCert : (d.file .serverCert).bind decode = some m.server.certPem
  serverKey : (d.file .serverKey).bind decode = some m.server.keyPem

def Absent (d : StateDisk) : Prop := ∀ f ∈ pkiPaths, d.file f = none

/-- Some of the four files is not there. -/
def Missing (d : StateDisk) : Prop := ∃ f ∈ pkiPaths, d.file f = none

theorem Holds.of_only {d d' : StateDisk} {S : File → Prop} (h : Only S d d') {m : PkiMaterial}
    (hm : Holds d m) (hs : ∀ f ∈ pkiPaths, ¬ S f) : Holds d' m where
  clientCert := (h _ (hs _ (by decide))).trans hm.clientCert
  clientKey := (h _ (hs _ (by decide))).trans hm.clientKey
  serverCert := (h _ (hs _ (by decide))).trans hm.serverCert
  serverKey := (h _ (hs _ (by decide))).trans hm.serverKey

/-- What is held is text, and is read as that text. -/
theorem Holds.reads {d : StateDisk} {m : PkiMaterial} (h : Holds d m) : Reads d m where
  clientCert := by rw [h.clientCert, Option.bind_some, decode_encode]
  clientKey := by rw [h.clientKey, Option.bind_some, decode_encode]
  serverCert := by rw [h.serverCert, Option.bind_some, decode_encode]
  serverKey := by rw [h.serverKey, Option.bind_some, decode_encode]

/-- The files can be read in one way only. -/
theorem Reads.unique {d : StateDisk} {m m' : PkiMaterial} (h : Reads d m) (h' : Reads d m') : m = m' := by
  have hcc := Option.some.inj (h.clientCert.symm.trans h'.clientCert)
  have hck := Option.some.inj (h.clientKey.symm.trans h'.clientKey)
  have hsc := Option.some.inj (h.serverCert.symm.trans h'.serverCert)
  have hsk := Option.some.inj (h.serverKey.symm.trans h'.serverKey)
  obtain ⟨⟨_, _⟩, ⟨_, _⟩⟩ := m
  obtain ⟨⟨_, _⟩, ⟨_, _⟩⟩ := m'
  simp_all

/-- What is read from files that hold the material is the material. -/
theorem Holds.eq_of_reads {d : StateDisk} {m m' : PkiMaterial} (h : Holds d m) (h' : Reads d m') :
    m' = m := h'.unique h.reads

theorem Reads.of_file {d d' : StateDisk} {m : PkiMaterial} (h : Reads d m)
    (hd : ∀ f ∈ pkiPaths, d'.file f = d.file f) : Reads d' m where
  clientCert := by rw [hd _ (by decide)]; exact h.clientCert
  clientKey := by rw [hd _ (by decide)]; exact h.clientKey
  serverCert := by rw [hd _ (by decide)]; exact h.serverCert
  serverKey := by rw [hd _ (by decide)]; exact h.serverKey

theorem Reads.not_missing {d : StateDisk} {m : PkiMaterial} (h : Reads d m) : ¬ Missing d := by
  intro hmissing
  obtain ⟨f, hf, hnone⟩ := hmissing
  simp only [pkiPaths, List.mem_cons, List.not_mem_nil, or_false] at hf
  rcases hf with rfl | rfl | rfl | rfl
  · simpa [hnone] using h.clientCert
  · simpa [hnone] using h.clientKey
  · simpa [hnone] using h.serverCert
  · simpa [hnone] using h.serverKey

theorem Absent.missing {d : StateDisk} (h : Absent d) : Missing d :=
  ⟨.clientCert, by decide, h _ (by decide)⟩

/-! ### What loading and creating do -/

section Rules
variable {env : PkiEnv} {dir : Text} {d : StateDisk} {Q : StateDisk → Prop}

theorem ends_readIdentity {cert key : File} {P : IdentityMaterial → StateDisk → Prop}
    (hw : ∀ identity, (d.file cert).bind decode = some identity.certPem →
      (d.file key).bind decode = some identity.keyPem → P identity d) (hq : Q d) :
    Ends (readIdentity env cert key) d P Q := by
  unfold readIdentity io
  rw [ends_bind, ends_mapError]
  refine ends_readToString (fun b t _ hb ht => ?_) fun _ => hq
  rw [ends_bind, ends_mapError]
  refine ends_readToString (fun b' t' _ hb' ht' => ?_) fun _ => hq
  exact hw ⟨t, t'⟩ (by rw [hb]; exact ht) (by rw [hb']; exact ht')

/-- Loading looks at the disk and leaves it alone: nothing is there, or all four
files are there and are read, or the call fails. -/
theorem ends_maybeLoad {P : Option PkiMaterial → StateDisk → Prop} (hnone : Absent d → P none d)
    (hsome : ∀ m, Reads d m → P (some m) d) (hq : Q d) : Ends (maybeLoad env dir) d P Q := by
  unfold maybeLoad
  rw [ends_bind, ends_gets]
  dsimp only
  split
  · next h0 =>
    refine hnone fun f hf => ?_
    have hzero := List.countP_eq_zero.mp h0 _ (List.mem_map_of_mem hf)
    simpa using hzero
  · split
    · exact hq
    · rw [ends_bind]
      refine ends_readIdentity (fun client hcc hck => ?_) hq
      rw [ends_bind]
      exact ends_readIdentity (fun server hsc hsk => hsome ⟨client, server⟩ ⟨hcc, hck, hsc, hsk⟩) hq

theorem ends_generateIdentity {name : Text} {serial : Nat}
    {P : IdentityMaterial → StateDisk → Prop}
    (hw : ∀ identity, env.generate name serial = .ok identity → P identity d) (hq : Q d) :
    Ends (generateIdentity env name serial) d P Q := by
  unfold generateIdentity
  cases h : env.generate name serial with
  | ok identity => exact hw identity h
  | error e => exact hq

/-- Both generations of the call succeeded, with this material. -/
def Generates (env : PkiEnv) (m : PkiMaterial) : Prop :=
  env.generate "malleus-client".toList 1 = .ok m.client ∧
    env.generate "malleus-server".toList 2 = .ok m.server

theorem Generates.unique {m m' : PkiMaterial} (h : Generates env m) (h' : Generates env m') : m = m' := by
  have hclient := Except.ok.inj (h.1.symm.trans h'.1)
  have hserver := Except.ok.inj (h.2.symm.trans h'.2)
  obtain ⟨_, _⟩ := m
  obtain ⟨_, _⟩ := m'
  simp_all

/-- Nothing stops the call before it writes the server key. -/
structure ReachesServerKey (env : PkiEnv) : Prop where
  createDir : env.fault .createDir = .none
  clientCert : env.fault (.write .clientCert) = .none
  clientKey : env.fault (.write .clientKey) = .none
  serverCert : env.fault (.write .serverCert) = .none

/-- The disk with the four files written. -/
def persist (m : PkiMaterial) (d : StateDisk) : StateDisk :=
  (((d.put .clientCert (encode m.client.certPem)).put .clientKey (encode m.client.keyPem)).put
    .serverCert (encode m.server.certPem)).put .serverKey (encode m.server.keyPem)

theorem persist_holds (m : PkiMaterial) (d : StateDisk) : Holds (persist m d) m where
  clientCert := by simp [persist]
  clientKey := by simp [persist]
  serverCert := by simp [persist]
  serverKey := by simp [persist]

/-- A call either loads what is there, or finds nothing and writes what it
generates; wherever it stops short of the fourth write, the server key is missing. -/
theorem ends_loadOrCreate {P : PkiMaterial → StateDisk → Prop}
    (hload : ∀ m, Reads d m → P m d)
    (hcreate : ∀ m d', Absent d → Generates env m → Holds d' m → P m d')
    (hkept : Q d) (hpart : ∀ d', Absent d → d'.file .serverKey = none → Q d')
    (hkey : ∀ m d' n, Absent d → ReachesServerKey env → Generates env m →
      (env.fault (.write .serverKey)).progress = some n →
      ((encode m.server.keyPem).length ≤ n → Holds d' m) → Q d') :
    Ends (loadOrCreate env dir) d P Q := by
  unfold loadOrCreate
  rw [ends_bind]
  refine ends_maybeLoad (fun habsent => ?_) (fun m hm => hload m hm) hkept
  have hsk : ∀ ds, (d.mkdirs ds).file .serverKey = none := fun _ => habsent _ (by decide)
  have hstop : ∀ d', d'.file .serverKey = none → Q d' := fun d' h => hpart d' habsent h
  dsimp only
  rw [ends_bind, io, ends_mapError]
  refine ends_createDirAll (fun hdir => ?_) fun _ ds => hstop _ (hsk ds)
  generalize hd0 : d.mkdirs (Tree.path File Dir.pkiDir) = d0
  have h0 : d0.file .serverKey = none := hd0 ▸ hsk _
  rw [ends_bind]
  refine ends_generateIdentity (fun client hclient => ?_) (hstop _ h0)
  rw [ends_bind]
  refine ends_generateIdentity (fun server hserver => ?_) (hstop _ h0)
  let m : PkiMaterial := ⟨client, server⟩
  have hm : Generates env m := ⟨hclient, hserver⟩
  -- the client's two files, then the server certificate
  rw [ends_bind, writeIdentity, ends_bind, io, ends_mapError]
  refine ends_write (fun hcc _ => ?_) (hstop _ h0) fun n _ => hstop _ (by simp [h0])
  rw [io, ends_mapError]
  refine ends_write (fun hck _ => ?_) (hstop _ (by simp [h0])) fun n _ => hstop _ (by simp [h0])
  rw [ends_bind, writeIdentity, ends_bind, io, ends_mapError]
  refine ends_write (fun hsc _ => ?_) (hstop _ (by simp [h0])) fun n _ => hstop _ (by simp [h0])
  -- the server key
  rw [io, ends_mapError]
  refine ends_write (fun _ _ => ?_) (hstop _ (by simp [h0])) fun n hn => ?_
  · exact hcreate m _ habsent hm (persist_holds m d0)
  · refine hkey m _ n habsent ⟨hdir, hcc, hck, hsc⟩ hm hn fun hlen => ?_
    rw [List.take_of_length_le hlen]
    exact persist_holds m d0

end Rules

/-! ### Calls without faults -/

section NoFault
variable {env : PkiEnv} {dir : Text} {d : StateDisk} {m : PkiMaterial}

/-- None of the files is no error. -/
theorem maybeLoad_absent (h : Absent d) : maybeLoad env dir d = (.ok none, d) := by
  have hcount : (pkiPaths.map fun f => (d.file f).isSome).countP id = 0 := by
    refine List.countP_eq_zero.mpr fun b hb => ?_
    obtain ⟨f, hf, rfl⟩ := List.mem_map.mp hb
    simp [h f hf]
  unfold maybeLoad
  rw [Cmd.bind_of_ok (Cmd.gets_apply ..), if_pos hcount]
  rfl

variable (hfault : ∀ site, env.fault site = .none)
include hfault

theorem readToString_reads {f : File} {t : Text} (h : (d.file f).bind decode = some t) :
    io (readToString (env.fault (.read f)) f) d = (.ok t, d) := by
  obtain ⟨b, hb, ht⟩ := Option.bind_eq_some_iff.mp h
  rw [hfault]
  exact Cmd.mapError_of_ok (readToString_none hb ht) _

theorem readIdentity_reads {cert key : File} {identity : IdentityMaterial}
    (hcert : (d.file cert).bind decode = some identity.certPem)
    (hkey : (d.file key).bind decode = some identity.keyPem) :
    readIdentity env cert key d = (.ok identity, d) := by
  unfold readIdentity
  rw [Cmd.bind_of_ok (readToString_reads hfault hcert), Cmd.bind_of_ok (readToString_reads hfault hkey)]
  rfl

/-- Both files are written in full where the directory is there. -/
theorem writeIdentity_whole {cert key : File} (hcert : cert ∈ pkiPaths) (hkey : key ∈ pkiPaths)
    (hdir : d.dir .pkiDir = true) (identity : IdentityMaterial) :
    writeIdentity env cert key identity d =
      (.ok (), (d.put cert (encode identity.certPem)).put key (encode identity.keyPem)) := by
  have hparent : ∀ f ∈ pkiPaths, Tree.parent f = Dir.pkiDir := by decide
  have hdir' : (d.put cert (encode identity.certPem)).dir (Tree.parent key) = true := by
    rw [hparent key hkey]
    exact hdir
  rw [← hparent cert hcert] at hdir
  unfold writeIdentity io
  rw [hfault, hfault, Cmd.bind_of_ok (Cmd.mapError_of_ok (write_none hdir _) _),
    Cmd.mapError_of_ok (write_none hdir' _)]

/-- What is there and reads as material is loaded. -/
theorem loadOrCreate_reads (h : Reads d m) : loadOrCreate env dir d = (.ok m, d) := by
  have hthere : ∀ {f : File} {t : Text}, (d.file f).bind decode = some t → (d.file f).isSome = true := by
    intro f t ht
    obtain ⟨b, hb, -⟩ := Option.bind_eq_some_iff.mp ht
    rw [hb]
    rfl
  have hload : maybeLoad env dir d = (.ok (some m), d) := by
    unfold maybeLoad
    rw [Cmd.bind_of_ok (Cmd.gets_apply ..)]
    simp only [pkiPaths, List.map_cons, List.map_nil, hthere h.clientCert, hthere h.clientKey,
      hthere h.serverCert, hthere h.serverKey]
    rw [if_neg (by decide), if_neg (by decide),
      Cmd.bind_of_ok (readIdentity_reads hfault h.clientCert h.clientKey),
      Cmd.bind_of_ok (readIdentity_reads hfault h.serverCert h.serverKey)]
    rfl
  unfold loadOrCreate
  rw [Cmd.bind_of_ok hload]
  rfl

/-- Material that is there is returned as it is, and the disk stays. -/
theorem loadOrCreate_loads (h : Holds d m) : loadOrCreate env dir d = (.ok m, d) :=
  loadOrCreate_reads hfault h.reads

/-- What is not there is generated and written, or nothing is generated. -/
theorem ends_loadOrCreate_absent (h : Absent d) : Ends (loadOrCreate env dir) d
    (fun m d' => Generates env m ∧ d' = persist m (d.mkdirs (Tree.path File Dir.pkiDir)))
    (fun d' => d'.file = d.file ∧ ∀ m, ¬ Generates env m) := by
  unfold loadOrCreate
  rw [ends_bind, ends_of_eq (maybeLoad_absent h)]
  dsimp only
  rw [ends_bind, io, hfault, ends_of_eq (Cmd.mapError_of_ok (createDirAll_none ..) _)]
  have hfile : (d.mkdirs (Tree.path File Dir.pkiDir)).file = d.file := rfl
  have hdir : (d.mkdirs (Tree.path File Dir.pkiDir)).dir .pkiDir = true := Disk.mkdirs_dir _ (by decide)
  generalize d.mkdirs (Tree.path File Dir.pkiDir) = d0 at hfile hdir
  rw [ends_bind]
  unfold generateIdentity
  cases hclient : env.generate "malleus-client".toList 1 with
  | error e =>
    refine ⟨hfile, fun m hm => ?_⟩
    rw [hm.1] at hclient
    simp at hclient
  | ok client =>
    dsimp only
    rw [ends_pure, ends_bind]
    cases hserver : env.generate "malleus-server".toList 2 with
    | error e =>
      refine ⟨hfile, fun m hm => ?_⟩
      rw [hm.2] at hserver
      simp at hserver
    | ok server =>
      dsimp only
      rw [ends_pure]
      let d1 := (d0.put .clientCert (encode client.certPem)).put .clientKey (encode client.keyPem)
      have hdir1 : d1.dir .pkiDir = true := hdir
      rw [ends_bind, ends_of_eq (writeIdentity_whole hfault (by decide) (by decide) hdir client),
        ends_bind, ends_of_eq (writeIdentity_whole hfault (by decide) (by decide) hdir1 server)]
      exact ⟨⟨hclient, hserver⟩, rfl⟩

/-- What can be generated is generated, and written. -/
theorem loadOrCreate_creates (h : Absent d) (hm : Generates env m) :
    loadOrCreate env dir d = (.ok m, persist m (d.mkdirs (Tree.path File Dir.pkiDir))) := by
  have hends : Ends (loadOrCreate env dir) d _ _ := ends_loadOrCreate_absent hfault h
  obtain ⟨m', d', hd', hm', rfl⟩ := hends.returns fun _ hq => hq.2 m hm
  rwa [hm'.unique hm] at hd'

end NoFault

/-! ### The four files are all that is touched -/

section Frames
variable (env : PkiEnv) (dir : Text)

theorem within_maybeLoad : Within (Only (· ∈ pkiPaths)) (maybeLoad env dir) :=
  within_of_ends fun d => ends_maybeLoad (fun _ => Only.refl d) (fun _ _ => Only.refl d) (Only.refl d)

theorem within_generateIdentity (name : Text) (serial : Nat) :
    Within (Only (· ∈ pkiPaths)) (generateIdentity env name serial) :=
  within_of_ends fun d => ends_generateIdentity (fun _ _ => Only.refl d) (Only.refl d)

theorem within_writeIdentity {cert key : File} (hcert : cert ∈ pkiPaths) (hkey : key ∈ pkiPaths)
    (identity : IdentityMaterial) :
    Within (Only (· ∈ pkiPaths)) (writeIdentity env cert key identity) :=
  within_bind Only.trans (within_mapError (within_write _ hcert _) _) fun _ =>
    within_mapError (within_write _ hkey _) _

/-- The four files are all that is touched. -/
theorem within_loadOrCreate : Within (Only (· ∈ pkiPaths)) (loadOrCreate env dir) := by
  unfold loadOrCreate
  refine within_bind Only.trans (within_maybeLoad env dir) fun existing => ?_
  cases existing with
  | some m => exact within_pure Only.refl m
  | none =>
    refine within_bind Only.trans (within_mapError (within_createDirAll _ _) _) fun _ => ?_
    refine within_bind Only.trans (within_generateIdentity env _ _) fun client => ?_
    refine within_bind Only.trans (within_generateIdentity env _ _) fun server => ?_
    refine within_bind Only.trans (within_writeIdentity env (by decide) (by decide) client) fun _ => ?_
    refine within_bind Only.trans (within_writeIdentity env (by decide) (by decide) server) fun _ => ?_
    exact within_pure Only.refl _

end Frames

end Pki

end Malleus
