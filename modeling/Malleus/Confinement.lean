import Malleus.Boot

/-! What malleus keeps its hands off.

`touches` lists the files that an input may write or remove, and `tells` the incus clients
it may speak to; the rest is as it was after any run (`runs_are_confined`), however the
commands end and wherever they stop. So the settings are the user's, what the guest
writes is the guest's, and nothing but a removal takes a disk away. -/
namespace Malleus.Confinement
open Effect Strings Numbers Storage

/-- What the rest of the machine may write or remove. -/
def eventTouches : Event → File → Prop
  | .vmWrites _ f _, g => g = f ∧ f ∈ vmFiles
  | .editsConfig _, g => g = .configToml
  | _, _ => False

/-- The files that an input may change. -/
def touches (host : Host) : Input → File → Prop
  | .event e, f => eventTouches e f
  | .start _, f => f ∈ startFiles
  | .stop _, f => f ∈ runFiles
  | .delete _, f => f.inStateDir = true
  | .autoconfigure env, f =>
    f ∈ startFiles ∨ f ∈ confFiles (env.confDir host) ∨ ∃ poll ∈ env.polls, ∃ e ∈ poll.before, eventTouches e f
  | _, _ => False

/-- The directories whose client an input may change. -/
def tells (host : Host) : Input → Text → Prop
  | .autoconfigure env, conf => conf = env.confDir host
  | _, _ => False

/-- Other files, and other clients, are as they were. -/
structure Confined (S : File → Prop) (C : Text → Prop) (w w' : World) : Prop where
  disk : Only S w.disk w'.disk
  incus : ∀ conf, ¬ C conf → w'.incus conf = w.incus conf

section Confined
variable {S S' : File → Prop} {C C' : Text → Prop} {w w' w'' : World}

theorem Confined.refl (w : World) : Confined S C w w := ⟨Only.refl _, fun _ _ => rfl⟩

theorem Confined.trans (h : Confined S C w w') (h' : Confined S C w' w'') : Confined S C w w'' :=
  ⟨Only.trans _ _ _ h.disk h'.disk, fun conf hconf => (h'.incus conf hconf).trans (h.incus conf hconf)⟩

theorem Confined.mono (h : Confined S C w w') (hS : ∀ f, S f → S' f) (hC : ∀ conf, C conf → C' conf) :
    Confined S' C' w w' :=
  ⟨h.disk.mono hS, fun conf hconf => h.incus conf fun hc => hconf (hC conf hc)⟩

/-- A change that leaves the clients alone. -/
theorem confined_of_only (h : Only S w.disk w'.disk) (hincus : w'.incus = w.incus) : Confined S C w w' :=
  ⟨h, fun conf _ => congrFun hincus conf⟩

end Confined

/-! ### The inputs -/

section Commands
variable {host : Host} {w : World} {C : Text → Prop}

theorem confined_happen (w : World) (e : Event) : Confined (eventTouches e) C w (happen w e) := by
  refine confined_of_only ?_ (happen_incus w e)
  have h := happened w e
  generalize happen w e = w' at h
  cases h with
  | wrote pid f bytes vm hvm hf => exact only_put _ ⟨rfl, hf⟩ bytes
  | edited contents d hd => exact hd.mono fun f hf => List.mem_singleton.mp hf
  | _ => exact Only.refl _

/-- A start touches the files of a start, wherever it stops. -/
theorem confined_cmdStart (env : StartEnv) :
    Ends (cmdStart host env) w (fun _ => Confined (· ∈ startFiles) C w) (Confined (· ∈ startFiles) C w) := by
  have hpid : File.vfkitPid ∈ startFiles := by simp [startFiles]
  have herr : File.vfkitErr ∈ startFiles := by simp [startFiles, logFiles]
  have hat : ∀ d, AtLaunch host env w d → Only (· ∈ startFiles) w.disk d := fun d hd =>
    hd.only.mono fun f hf => by
      rcases hf with hf | hf
      · simp [startFiles, hf]
      · simp [startFiles, hf]
  have hput : ∀ d b, Only (· ∈ startFiles) w.disk d → Only (· ∈ startFiles) w.disk (d.put .vfkitPid b) :=
    fun d b hd => Only.trans _ _ _ hd (only_put d hpid b)
  refine ends_cmdStart (fun d hd => confined_of_only (hat d hd) rfl)
    (fun args c d _ hd _ => confined_of_only (hput d _ (hat d hd)) rfl) (fun args c d d' _ hd hleft => ?_)
    fun args c d _ hd _ stderr => ?_
  · refine confined_of_only ?_ rfl
    cases hleft with
    | untouched => exact hat d hd
    | part n => exact hput d _ (hat d hd)
    | whole => exact hput d _ (hat d hd)
  · exact confined_of_only (Only.trans _ _ _ (hput d _ (hat d hd)) (only_put _ herr stderr)) rfl

theorem confined_cmdStop (env : StopEnv) (w : World) : Confined (· ∈ runFiles) C w (cmdStop env w).2 := by
  refine confined_of_only (cmdStop_only env w) ?_
  exact cmdStop_keeps (R := fun w' => w'.incus = w.incus) rfl rfl (fun pid p _ => signal_incus w pid p)
    fun _ _ hw' _ => hw'

theorem confined_cmdDelete (env : DeleteEnv) (w : World) :
    Confined (fun f => f.inStateDir = true) C w (cmdDelete env w).2 := by
  have hends : Ends (cmdDelete env) w (fun _ => Confined (fun f => f.inStateDir = true) C w)
      (Confined (fun f => f.inStateDir = true) C w) := by
    refine ends_cmdDelete (Confined.refl w) (fun _ _ => ?_) fun n _ _ => ?_
    · exact confined_of_only (fun f hf => if_neg hf) rfl
    · refine confined_of_only (fun f hf => if_neg fun hgone => hf ?_) rfl
      exact (Bool.and_eq_true_iff.mp hgone).1
  exact hends.final

/-- `autoconfigure` touches the files of a start and the two copies, and tells one client. -/
theorem confined_cmdAutoconfigure (env : AutoconfigureEnv) (w : World) :
    Confined (touches host (.autoconfigure env)) (tells host (.autoconfigure env)) w
      (cmdAutoconfigure host env w).2 := by
  let I : World → Prop := Confined (touches host (.autoconfigure env)) (tells host (.autoconfigure env)) w
  have hconf : ∀ d, Only (· ∈ confFiles (env.confDir host)) w.disk d → I (w.setDisk d) := fun d hd =>
    confined_of_only (hd.mono fun f hf => Or.inr (Or.inl hf)) rfl
  have hends : Ends (cmdAutoconfigure host env) w (fun _ => I) I := by
    refine ends_cmdAutoconfigureWithRunner (Confined.refl w) hconf (fun d _ hd => ?_)
      (fun w' poll hpoll e he hw' => hw'.trans ?_) (fun _ _ _ hw' _ => ⟨hw'.disk, hw'.incus⟩)
      (fun w' c hw' => ⟨hw'.disk, fun conf htells => ?_⟩) fun _ hw' => hw'
    · have hwithin := within_copyCredentials host env w.disk
      rw [hd] at hwithin
      have hcopied : I (w.setDisk d) := hconf d hwithin
      refine ends_startUnlessRunning (fun _ => hcopied) fun _ => ?_
      have hmono : ∀ w', Confined (· ∈ startFiles) (tells host (.autoconfigure env)) (w.setDisk d) w' → I w' :=
        fun w' hw' => hcopied.trans (hw'.mono (fun f hf => Or.inl hf) fun _ hc => hc)
      exact (confined_cmdStart env.start).mono (fun _ => hmono) hmono
    · exact (confined_happen w' e).mono (fun f hf => Or.inr (Or.inr ⟨poll, hpoll, e, he, hf⟩)) fun _ hc => hc
    · exact (Function.update_of_ne htells _ _).trans (hw'.incus conf htells)
  exact hends.final

theorem confined_step (w : World) (i : Input) :
    Confined (touches host i) (tells host i) w (step host w i) := by
  cases i with
  | event e => exact confined_happen w e
  | start env => exact (confined_cmdStart env).final
  | stop env => exact confined_cmdStop env w
  | status env =>
    rw [step, cmdStatus_world]
    exact Confined.refl w
  | delete env => exact confined_cmdDelete env w
  | mount hostPath name => exact Confined.refl w
  | unmount name => exact Confined.refl w
  | autoconfigure env => exact confined_cmdAutoconfigure env w

/-- **Malleus touches only what is its own to touch**: after any run, under whatever faults, a
file that none of the inputs may touch has the contents it had, and a client that none
of them speaks to has its remotes. -/
theorem runs_are_confined (host : Host) (w : World) (inputs : List Input) :
    (∀ f, (∀ i ∈ inputs, ¬ touches host i f) → (run host w inputs).disk.file f = w.disk.file f) ∧
      ∀ conf, (∀ i ∈ inputs, ¬ tells host i conf) → (run host w inputs).incus conf = w.incus conf := by
  have hconfined : Confined (fun f => ∃ i ∈ inputs, touches host i f) (fun conf => ∃ i ∈ inputs, tells host i conf)
      w (run host w inputs) := by
    induction inputs generalizing w with
    | nil => exact Confined.refl w
    | cons i rest ih =>
      have hstep : Confined (touches host i) (tells host i) w (step host w i) := confined_step w i
      have hfirst := hstep.mono
        (fun f hf => (⟨i, List.mem_cons_self .., hf⟩ : ∃ j ∈ i :: rest, touches host j f))
        fun conf hc => (⟨i, List.mem_cons_self .., hc⟩ : ∃ j ∈ i :: rest, tells host j conf)
      exact hfirst.trans ((ih (step host w i)).mono
        (fun f ⟨j, hj, hf⟩ => ⟨j, List.mem_cons_of_mem i hj, hf⟩)
        fun conf ⟨j, hj, hc⟩ => ⟨j, List.mem_cons_of_mem i hj, hc⟩)
  exact ⟨fun f hf => hconfined.disk f fun ⟨i, hi, h⟩ => hf i hi h,
    fun conf hc => hconfined.incus conf fun ⟨i, hi, h⟩ => hc i hi h⟩

end Commands

end Malleus.Confinement
