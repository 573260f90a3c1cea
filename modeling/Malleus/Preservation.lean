import Malleus.Boot

/-! What malleus never touches again.

Once the key material and the disks are there, a start only reads them: it loads the
one, finds that the others pass the check, and renders the same documents as before.
`artifacts_are_kept` says so for every run without `delete`, with the faults and the
kills that a command can meet: the seven files hold what a guest wrote to them last,
or what they held all along. -/
namespace Malleus.Preservation
open Effect Strings Storage Image Pki

/-- The key material and the disks. -/
def artifacts : List File := pkiPaths ++ imageFiles

/-- All seven are there, and the two that are checked pass. -/
structure Provisioned (d : StateDisk) : Prop where
  pki : ∀ f ∈ pkiPaths, (d.file f).isSome
  imaged : Imaged d

theorem Provisioned.not_absent {d : StateDisk} (h : Provisioned d) : ¬ Absent d := by
  intro habsent
  have hsome := h.pki .clientCert (by decide)
  rw [habsent _ (by decide)] at hsome
  simp at hsome

/-- The documents for the material on the disk. -/
def Gives (d : StateDisk) (userData metaData : Option Bytes) : Prop :=
  ∃ m, Reads d m ∧ userData = some (encode (userDataOf m)) ∧ metaData = some (encode (metaDataOf m))

/-! ### A start -/

section Start
variable {host : Host} {env : StartEnv} {d : StateDisk}

/-- Where nothing is missing, all that preparing writes are the documents. -/
theorem ends_prepare_provisioned (h : Provisioned d) : Ends (prepare host env) d
    (fun _ d' => Only (· ∈ documents) d d' ∧ Gives d (d'.file .userData) (d'.file .metaData))
    (fun d' => Only (· ∈ documents) d d') := by
  have hsame : ∀ {d' : StateDisk}, d'.file = d.file → Only (· ∈ documents) d d' :=
    fun hd' f _ => by rw [hd']
  have hput : ∀ {d' : StateDisk} {f : File} (b : Bytes), Only (· ∈ documents) d d' → f ∈ documents →
      Only (· ∈ documents) d (d'.put f b) :=
    fun b hd' hf => Only.trans _ _ _ hd' (only_put _ hf b)
  refine ends_prepare (fun d' hd' => hsame hd') fun cfg d' hd' => ?_
  have hnone : Only (fun _ => False) d d' := fun f _ => by rw [hd']
  have himaged : Imaged d' := h.imaged.of_only hnone fun _ _ hf => hf
  refine (ends_ensureImages_imaged himaged).mono (fun _ d1 hd1 => ?_) fun _ hd1 => hsame (hd1.trans hd')
  have hd1 : d1.file = d.file := hd1.trans hd'
  have hthere : ¬ Absent d1 := fun habsent => h.not_absent fun f hf => by rw [← hd1]; exact habsent f hf
  refine ends_loadOrCreate (fun m hm => ?_) (fun _ _ habsent => absurd habsent hthere) (hsame hd1)
    (fun _ habsent => absurd habsent hthere) fun _ _ _ habsent => absurd habsent hthere
  have huser := hput (encode (userDataOf m)) (hsame hd1) (show File.userData ∈ documents by decide)
  refine ends_writeDocuments (fun args d4 hd4 => ?_) (hsame hd1)
    (fun n _ => hput _ (hsame hd1) (by decide)) huser fun n _ => hput _ huser (by decide)
  have hdocs : Only (· ∈ documents) d d4 :=
    Only.trans _ _ _ (hput _ huser (by decide)) (hd4.mono (by decide))
  refine ⟨⟨hdocs, m, hm.of_file fun f _ => by rw [hd1], ?_, ?_⟩, hdocs⟩
  · rw [hd4 _ (by decide), withDocuments, Disk.put_of_ne _ (by decide), Disk.put_self]
  · rw [hd4 _ (by decide), withDocuments, Disk.put_self]

end Start

/-! ### What the history says of the files -/

/-- What a guest wrote last, or else what was there before. -/
def latest (f : File) (new : List Note) (old : Option Bytes) : Option Bytes :=
  ((new.findSome? (Note.written f)).map Prod.snd).or old

/-- A later note counts more. -/
theorem latest_append (f : File) (new new' : List Note) (old : Option Bytes) :
    latest f (new' ++ new) old = latest f new' (latest f new old) := by
  simp only [latest, List.findSome?_append, Option.map_or, Option.or_assoc]

/-- A note that may stand in such a run's history: guests keep their root disk a disk
image, and a start gives them the documents for this disk. -/
def Allowed (d : StateDisk) : Note → Prop
  | .wrote _ f b => f ∈ vmFiles ∧ (f = .rootRaw → Accepted b)
  | .started userData metaData => Gives d userData metaData
  | _ => True

theorem latest_of_not_mem {d : StateDisk} {f : File} {new : List Note} (h : ∀ n ∈ new, Allowed d n)
    (hf : f ∉ vmFiles) (old : Option Bytes) : latest f new old = old := by
  have hnone : new.findSome? (Note.written f) = none := by
    refine List.findSome?_eq_none_iff.mpr fun n hn => ?_
    cases n with
    | wrote vm g b =>
      have hne : g ≠ f := fun heq => hf (heq ▸ (h _ hn).1)
      exact if_neg hne
    | _ => rfl
  rw [latest, hnone]
  rfl

/-- The history went on by notes that are allowed, and every artifact is what they say. -/
structure Kept (w w' : World) (new : List Note) : Prop where
  log : w'.log = new ++ w.log
  allowed : ∀ n ∈ new, Allowed w.disk n
  file : ∀ f ∈ artifacts, w'.disk.file f = latest f new (w.disk.file f)

/-- The files that no guest writes are what they were. -/
theorem Kept.same {w w' : World} {new : List Note} (h : Kept w w' new) {f : File} (hf : f ∈ artifacts)
    (hguest : f ∉ vmFiles) : w'.disk.file f = w.disk.file f :=
  (h.file f hf).trans (latest_of_not_mem h.allowed hguest _)

theorem Kept.pki {w w' : World} {new : List Note} (h : Kept w w' new) :
    ∀ f ∈ pkiPaths, w'.disk.file f = w.disk.file f := by
  have hpki : ∀ f ∈ pkiPaths, f ∈ artifacts ∧ f ∉ vmFiles := by decide
  exact fun f hf => h.same (hpki f hf).1 (hpki f hf).2

/-- What is kept is still provisioned. -/
theorem Kept.provisioned {w w' : World} {new : List Note} (h : Kept w w' new)
    (hw : Provisioned w.disk) : Provisioned w'.disk where
  pki f hf := by
    rw [h.pki f hf]
    exact hw.pki f hf
  imaged := by
    have hlatest : ∀ f ∈ artifacts, w'.disk.file f = w.disk.file f ∨
        ∃ b, w'.disk.file f = some b ∧ (f = .rootRaw → Accepted b) := by
      intro f hf
      rw [h.file f hf, latest]
      cases hnote : new.findSome? (Note.written f) with
      | none => exact Or.inl rfl
      | some p =>
        obtain ⟨n, hn, hwritten⟩ := List.exists_of_findSome?_eq_some hnote
        refine Or.inr ⟨p.2, rfl, ?_⟩
        have hallowed := h.allowed n hn
        cases n with
        | wrote vm g b =>
          obtain ⟨rfl, rfl⟩ : g = f ∧ (vm, b) = p := by simpa [Note.written] using hwritten
          exact hallowed.2
        | _ => simp [Note.written] at hwritten
    refine ⟨?_, ?_, ?_⟩
    · rw [h.same (by decide) (by decide)]
      exact hw.imaged.base
    · rcases hlatest .rootRaw (by decide) with hsame | ⟨b, hb, hok⟩
      · rw [hsame]
        exact hw.imaged.root
      · exact ⟨b, hb, hok rfl⟩
    · rcases hlatest .poolRaw (by decide) with hsame | ⟨b, hb, -⟩
      · rw [hsame]
        exact hw.imaged.pool
      · exact ⟨b, hb⟩

/-- Two steps that keep are one that keeps, with the notes of both. -/
theorem Kept.trans {w w' w'' : World} {new new' : List Note} (h : Kept w w' new) (h' : Kept w' w'' new') :
    Kept w w'' (new' ++ new) where
  log := by rw [h'.log, h.log, List.append_assoc]
  allowed n hn := by
    rcases List.mem_append.mp hn with hn | hn
    · have hallowed := h'.allowed n hn
      cases n with
      | started userData metaData =>
        obtain ⟨m, hm, hdocs⟩ := hallowed
        exact ⟨m, hm.of_file fun f hf => (h.pki f hf).symm, hdocs⟩
      | wrote => exact hallowed
      | _ => trivial
    · exact h.allowed n hn
  file f hf := by rw [h'.file f hf, h.file f hf, latest_append]

/-! ### Events and commands -/

/-- However the history went on, every artifact is what it says. -/
def Keeps (w w' : World) : Prop := ∃ new, Kept w w' new

theorem Keeps.trans {w w' w'' : World} (h : Keeps w w') (h' : Keeps w' w'') : Keeps w w'' := by
  obtain ⟨new, h⟩ := h
  obtain ⟨new', h'⟩ := h'
  exact ⟨new' ++ new, h.trans h'⟩

/-- Other files change, and no guest writes. -/
theorem keeps_of_only {w w' : World} {S : File → Prop} (new : List Note) (hlog : w'.log = new ++ w.log)
    (hallowed : ∀ n ∈ new, Allowed w.disk n ∧ ∀ f, n.written f = none) (hd : Only S w.disk w'.disk)
    (hs : ∀ f ∈ artifacts, ¬ S f) : Keeps w w' := by
  refine ⟨new, hlog, fun n hn => (hallowed n hn).1, fun f hf => ?_⟩
  rw [latest, List.findSome?_eq_none_iff.mpr fun n hn => (hallowed n hn).2 f]
  exact hd f (hs f hf)

theorem keeps_of_disk {w w' : World} (hlog : w'.log = w.log) (hd : w'.disk = w.disk) : Keeps w w' := by
  have hsame : Only (fun _ => False) w.disk w'.disk := fun f _ => by rw [hd]
  exact keeps_of_only [] hlog (by simp) hsame (by simp)

theorem keeps_setDisk {w : World} {d : StateDisk} {S : File → Prop} (hd : Only S w.disk d)
    (hs : ∀ f ∈ artifacts, ¬ S f) : Keeps w (w.setDisk d) :=
  keeps_of_only [] rfl (by simp) hd hs

theorem keeps_note (w : World) {n : Note} (hallowed : Allowed w.disk n) (hn : ∀ f, n.written f = none) :
    Keeps w (w.note n) := by
  have hsame : Only (fun _ => False) w.disk (w.note n).disk := Only.refl _
  exact keeps_of_only [n] rfl (by simpa using ⟨hallowed, hn⟩) hsame (by simp)

/-- A guest that writes to its root disk leaves it a disk image. -/
def KeepsImage : Event → Prop
  | .vmWrites _ .rootRaw b => Accepted b
  | _ => True

/-- The guest writes to no artifact but the pool disk and its own root disk. -/
theorem keeps_happen (w : World) {e : Event} (he : KeepsImage e) : Keeps w (happen w e) := by
  have h := happened w e
  generalize happen w e = w' at h
  cases h with
  | nothing => exact keeps_of_disk rfl rfl
  | gone => exact keeps_of_disk rfl rfl
  | zombie => exact keeps_of_disk rfl rfl
  | rescheduled => exact keeps_of_disk rfl rfl
  | appeared => exact keeps_of_disk rfl rfl
  | wrote pid f b vm hvm hf =>
    refine ⟨[.wrote vm f b], rfl, ?_, fun g _ => ?_⟩
    · have hallowed : Allowed w.disk (.wrote vm f b) := by
        refine ⟨hf, ?_⟩
        intro heq
        subst heq
        exact he
      simpa using hallowed
    · show (w.disk.put f b).file g = _
      by_cases hfg : f = g
      · subst hfg
        simp [latest, Note.written]
      · rw [Disk.put_of_ne _ (Ne.symm hfg)]
        simp [latest, Note.written, hfg]
  | edited _ d hd => exact keeps_setDisk hd (by decide)

section Commands
variable {host : Host} {w : World}

/-- What a start writes where nothing is missing. -/
def rewritten : List File := documents ++ logFiles ++ [.vfkitPid]

/-- A start on what is provisioned makes nothing anew. -/
theorem keeps_cmdStart (env : StartEnv) (h : Provisioned w.disk) :
    Ends (cmdStart host env) w (fun _ => Keeps w) (Keeps w) := by
  have hprepare : Ends (prepare host env) w.disk _ _ := ends_prepare_provisioned h
  have hdocs : Only (· ∈ documents) w.disk (prepare host env w.disk).2 :=
    (hprepare.mono (fun _ _ h => h.1) fun _ h => h).final
  have hat : ∀ d, AtLaunch host env w d → Only (· ∈ rewritten) w.disk d := fun d hd =>
    Only.trans _ _ _ (hdocs.mono fun f hf => by simp [rewritten, hf]) (hd.mono fun f hf => by simp [rewritten, hf])
  have hput : ∀ {d : StateDisk} {f : File} (b : Bytes), Only (· ∈ rewritten) w.disk d → f ∈ rewritten →
      Only (· ∈ rewritten) w.disk (d.put f b) :=
    fun b hd hf => Only.trans _ _ _ hd (only_put _ hf b)
  have hs : ∀ f ∈ artifacts, f ∉ rewritten := by decide
  have hspawned : ∀ pid args, ∀ n ∈ [Note.spawned pid args],
      Allowed w.disk n ∧ ∀ f, n.written f = none := by
    intro pid args n hn
    obtain rfl := List.mem_singleton.mp hn
    exact ⟨trivial, fun _ => rfl⟩
  refine ends_cmdStart (fun d hd => keeps_setDisk (hat d hd) hs) (fun args c d hlaunch hd _ => ?_)
    (fun args c d d' _ hd hleft => ?_) fun args c d _ hd _ stderr => ?_
  · -- the documents are the ones that preparing wrote
    obtain ⟨-, hgives⟩ := hprepare.of_ok (Prod.ext hlaunch.prepared rfl)
    rw [← hd .userData (by decide), ← hd .metaData (by decide)] at hgives
    refine keeps_of_only [.started _ _, .spawned c.pid args] rfl ?_ (hput _ (hat d hd) (by decide)) hs
    intro n hn
    rcases List.mem_cons.mp hn with rfl | hn
    · exact ⟨hgives, fun _ => rfl⟩
    · exact hspawned c.pid args n hn
  · refine keeps_of_only [.spawned c.pid args] rfl (hspawned _ _) ?_ hs
    cases hleft with
    | untouched => exact hat d hd
    | part n => exact hput _ (hat d hd) (by decide)
    | whole => exact hput _ (hat d hd) (by decide)
  · refine keeps_of_only [.spawned c.pid args] rfl (hspawned _ _) ?_ hs
    exact hput _ (hput _ (hat d hd) (by decide)) (by decide)

theorem keeps_cmdStop (env : StopEnv) (w : World) : Keeps w (cmdStop env w).2 := by
  apply cmdStop_keeps
  · exact keeps_of_disk rfl rfl
  · exact keeps_note w trivial fun _ => rfl
  · intro pid p _
    have hnote : Keeps w (w.note (.signalled (.process pid) (isVmRunning true w))) :=
      keeps_note w trivial fun _ => rfl
    unfold World.signal
    dsimp only
    split
    · exact hnote.trans (keeps_of_disk rfl rfl)
    · exact hnote
  · exact fun w' d hw' hd => hw'.trans (keeps_setDisk hd (by decide))

theorem keeps_cmdAutoconfigure (env : AutoconfigureEnv) (h : Provisioned w.disk)
    (hevents : ∀ e ∈ (Input.autoconfigure env).events, KeepsImage e) :
    Ends (cmdAutoconfigure host env) w (fun _ => Keeps w) (Keeps w) := by
  have hcopy : ∀ d, Only (· ∈ confFiles (env.confDir host)) w.disk d → Keeps w (w.setDisk d) :=
    fun d hd => keeps_setDisk hd (by simp [confFiles, artifacts, pkiPaths, imageFiles])
  refine ends_cmdAutoconfigureWithRunner (keeps_of_disk rfl rfl) hcopy (fun d _ hd => ?_)
    (fun w' poll hpoll e he hw' =>
      hw'.trans (keeps_happen w' (hevents e (List.mem_flatMap.mpr ⟨poll, hpoll, he⟩))))
    (fun w' _ _ hw' _ => hw'.trans (keeps_note w' trivial fun _ => rfl))
    (fun _ _ hw' => hw'.trans (keeps_of_disk rfl rfl)) fun _ hw' => hw'
  have hwithin := within_copyCredentials host env w.disk
  rw [hd] at hwithin
  obtain ⟨new, hcopied⟩ := hcopy d hwithin
  refine ends_startUnlessRunning (fun _ => ⟨new, hcopied⟩) fun _ => ?_
  exact (keeps_cmdStart env.start (hcopied.provisioned h)).mono (fun _ _ hw' => Keeps.trans ⟨new, hcopied⟩ hw')
    fun _ hw' => Keeps.trans ⟨new, hcopied⟩ hw'

/-- Nothing is deleted, and guests keep their root disk a disk image. -/
def Keeping : Input → Prop
  | .delete _ => False
  | i => ∀ e ∈ i.events, KeepsImage e

/-- No step makes an artifact anew or takes one away. -/
theorem keeps_step (i : Input) (h : Provisioned w.disk) (hi : Keeping i) : Keeps w (step host w i) := by
  cases i with
  | event e => exact keeps_happen w (hi e (List.mem_singleton.mpr rfl))
  | start env => exact (keeps_cmdStart env h).final
  | stop env => exact keeps_cmdStop env w
  | status env =>
    rw [step, cmdStatus_world]
    exact keeps_of_disk rfl rfl
  | delete => exact hi.elim
  | mount => exact keeps_of_disk rfl rfl
  | unmount => exact keeps_of_disk rfl rfl
  | autoconfigure env => exact (keeps_cmdAutoconfigure env h hi).final

end Commands

/-! ### Any number of commands -/

/-- Nor does a run: step after step, what is provisioned stays provisioned. -/
theorem keeps_run {host : Host} {w : World} (h : Provisioned w.disk) {inputs : List Input}
    (hinputs : ∀ i ∈ inputs, Keeping i) : Keeps w (run host w inputs) := by
  refine Runs.run_invariant (fun w' i hw' hi => ?_) (keeps_of_disk rfl rfl)
    (Runs.along_of_forall fun i hi _ => hinputs i hi)
  obtain ⟨new, hkept⟩ := hw'
  exact Keeps.trans ⟨new, hkept⟩ (keeps_step i (hkept.provisioned h) hi)

/-- **Once they are all there, malleus leaves the key material and the disks alone**, and
every start that succeeds gives the guest the same documents: the seven files hold
what a guest wrote last or what they held before, and those that no guest writes are
what they were. -/
theorem artifacts_are_kept (host : Host) (w : World) (h : Provisioned w.disk) (inputs : List Input)
    (hinputs : ∀ i ∈ inputs, Keeping i) :
    ∃ new, (run host w inputs).log = new ++ w.log ∧
      (∀ f ∈ artifacts, (run host w inputs).disk.file f = latest f new (w.disk.file f)) ∧
      (∀ f ∈ .baseImage :: pkiPaths, (run host w inputs).disk.file f = w.disk.file f) ∧
      ∃ userData metaData, ∀ userData' metaData', .started userData' metaData' ∈ new →
        userData' = some userData ∧ metaData' = some metaData := by
  obtain ⟨new, hkept⟩ := keeps_run h hinputs
  refine ⟨new, hkept.log, hkept.file, fun f hf => ?_, ?_⟩
  · have hartifact : ∀ f ∈ .baseImage :: pkiPaths, f ∈ artifacts ∧ f ∉ vmFiles := by decide
    exact hkept.same (hartifact f hf).1 (hartifact f hf).2
  · by_cases hm : ∃ m, Reads w.disk m
    · obtain ⟨m, hm⟩ := hm
      refine ⟨encode (userDataOf m), encode (metaDataOf m), fun userData metaData hmem => ?_⟩
      obtain ⟨m', hm', huser, hmeta⟩ := hkept.allowed _ hmem
      rw [hm.unique hm']
      exact ⟨huser, hmeta⟩
    · -- no start succeeds if the material cannot be read
      refine ⟨[], [], fun userData metaData hmem => ?_⟩
      obtain ⟨m, hread, -⟩ := hkept.allowed _ hmem
      exact absurd ⟨m, hread⟩ hm

/-- A state directory with the artifacts and nothing else. -/
def stocked : World :=
  {nothing with
    disk := ⟨fun f => if f ∈ pkiPaths then some [] else if f ∈ imageFiles then some oneSector else none,
      fun _ => true⟩}

/-- Two starts, with a guest that writes to its root disk and a new configuration between them. -/
def restarting : List Input :=
  [.start (booting 100), .event (.vmWrites 100 .rootRaw oneSector), .stop ⟨.none, .delivers, .none, .none⟩,
    .event (.editsConfig (some [])), .start (booting 101)]

theorem restarting_keeps : ∃ new, (run laptop stocked restarting).log = new ++ stocked.log ∧
    (∀ f ∈ artifacts, (run laptop stocked restarting).disk.file f = latest f new (stocked.disk.file f)) ∧
    (∀ f ∈ .baseImage :: pkiPaths, (run laptop stocked restarting).disk.file f = stocked.disk.file f) ∧
    ∃ userData metaData, ∀ userData' metaData', .started userData' metaData' ∈ new →
      userData' = some userData ∧ metaData' = some metaData := by
  have himaged : Imaged stocked.disk :=
    ⟨⟨oneSector, rfl, oneSector_accepted⟩, ⟨oneSector, rfl, oneSector_accepted⟩, oneSector, rfl⟩
  refine artifacts_are_kept laptop stocked ⟨by decide, himaged⟩ restarting fun i hi => ?_
  simp only [restarting, List.mem_cons, List.not_mem_nil, or_false] at hi
  rcases hi with rfl | rfl | rfl | rfl | rfl
  · simp [Keeping, Input.events]
  · simpa [Keeping, Input.events, KeepsImage] using oneSector_accepted
  · simp [Keeping, Input.events]
  · simp [Keeping, Input.events, KeepsImage]
  · simp [Keeping, Input.events]

end Malleus.Preservation
