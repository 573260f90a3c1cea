import Malleus.Remotes
import Mathlib.Data.List.Nodup

/-! The tables of remotes, over whole runs.

Malleus adds remotes and switches between them; it never renames, rewrites or removes
one. Every remote it has ever added has an accepted name and the URL of an address that
a search answered (`remotes_only_grow`). -/
namespace Malleus.Remotes
open Effect Strings Numbers Storage Incus

/-- A remote that malleus adds, given the log. -/
def Added (log : List Note) (r : Remote) : Prop :=
  validMountName r.name = true ∧
    ∃ ip source vm reported, Note.answered ip source vm reported ∈ log ∧ r.url = remoteUrl ip

/-- What malleus may make of a client: its table grows at the end, names stay unique, and
what it switches to is in the table. -/
structure Grown (log : List Note) (c c' : Client) : Prop where
  table : ∃ added, c'.remotes = c.remotes ++ added ∧ ∀ r ∈ added, Added log r
  unique : (c.remotes.map Remote.name).Nodup → (c'.remotes.map Remote.name).Nodup
  current : c'.current = c.current ∨ (validMountName c'.current = true ∧ (c'.url c'.current).isSome)

section Grown
variable {log log' : List Note} {c c' c'' : Client} {name url : Text}

theorem Grown.refl (log : List Note) (c : Client) : Grown log c c where
  table := ⟨[], (List.append_nil _).symm, fun r hr => by simp at hr⟩
  unique h := h
  current := Or.inl rfl

/-- A remote that is there keeps its URL. -/
theorem url_of_append {added : List Remote} (h : c'.remotes = c.remotes ++ added)
    (hthere : (c.url name).isSome) : c'.url name = c.url name := by
  rw [Client.url, Option.isSome_map] at hthere
  rw [Client.url, Client.url, h, List.find?_append, Option.or_of_isSome hthere]

theorem Grown.trans (h : Grown log c c') (h' : Grown log' c' c'') (hlog : log ⊆ log') :
    Grown log' c c'' := by
  obtain ⟨added, htable, hadded⟩ := h.table
  obtain ⟨added', htable', hadded'⟩ := h'.table
  refine ⟨⟨added ++ added', ?_, fun r hr => ?_⟩, fun hunique => h'.unique (h.unique hunique), ?_⟩
  · rw [htable', htable, List.append_assoc]
  · rcases List.mem_append.mp hr with hr | hr
    · obtain ⟨hname, ip, source, vm, reported, hanswered, hurl⟩ := hadded r hr
      exact ⟨hname, ip, source, vm, reported, hlog hanswered, hurl⟩
    · exact hadded' r hr
  · rcases h'.current with hsame | hswitched
    · rcases h.current with hsame' | ⟨hvalid, hthere⟩
      · exact Or.inl (hsame.trans hsame')
      · refine Or.inr ?_
        rw [hsame, url_of_append htable' hthere]
        exact ⟨hvalid, hthere⟩
    · exact Or.inr hswitched

/-- The new row has an address that was given back. -/
theorem grown_add (h : c.add name url = some c') (hname : validMountName name = true)
    (hurl : ∃ ip source vm reported, Note.answered ip source vm reported ∈ log ∧ url = remoteUrl ip) :
    Grown log c c' := by
  unfold Client.add at h
  split at h
  · cases h
  · next hfree =>
    obtain rfl := Option.some.inj h
    have hnew : ∀ r ∈ c.remotes, r.name ≠ name := by
      rw [Client.url, Option.isSome_map, Bool.not_eq_true, Option.isSome_eq_false_iff,
        Option.isNone_iff_eq_none, List.find?_eq_none] at hfree
      exact fun r hr hsame => hfree r hr (by simpa using hsame)
    refine ⟨⟨_, rfl, fun r hr => ?_⟩, fun hunique => ?_, Or.inl rfl⟩
    · obtain rfl := List.mem_singleton.mp hr
      exact ⟨hname, hurl⟩
    · rw [List.map_append, List.map_singleton, ← List.concat_eq_append]
      refine List.Nodup.concat (fun hmem => ?_) hunique
      obtain ⟨r, hr, hsame⟩ := List.mem_map.mp hmem
      exact hnew r hr hsame

theorem grown_switch (h : c.switch name = some c') (hname : validMountName name = true) :
    Grown log c c' := by
  unfold Client.switch at h
  split at h
  · next hthere =>
    obtain rfl := Option.some.inj h
    exact ⟨⟨[], (List.append_nil _).symm, fun r hr => by simp at hr⟩, fun hunique => hunique,
      Or.inr ⟨hname, hthere⟩⟩
  · cases h

/-- Wiring a remote, however far it gets. -/
theorem ends_wireRemote {env : AutoconfigureEnv} {ip : Ipv4Addr}
    (hname : validMountName env.remoteName = true)
    (hanswered : ∃ source vm reported, Note.answered ip source vm reported ∈ log) :
    Ends (wireRemote env ip) c (fun _ => Grown log c) (Grown log c) := by
  have hurl : ∃ ip' source vm reported, Note.answered ip' source vm reported ∈ log ∧
      remoteUrl ip = remoteUrl ip' := by
    obtain ⟨source, vm, reported, h⟩ := hanswered
    exact ⟨ip, source, vm, reported, h, rfl⟩
  have hswitch : ∀ c1, Grown log c c1 →
      Ends (do let _ ← Incus.run env.switch (.switch env.remoteName)) c1
        (fun _ => Grown log c) (Grown log c) := by
    intro c1 hc1
    rw [ends_bind]
    refine ends_run (fun stdout c2 hexec => ?_) hc1
    obtain ⟨c3, hc3, h3⟩ := Option.map_eq_some_iff.mp hexec
    obtain rfl : c3 = c2 := congrArg Prod.snd h3
    exact hc1.trans (grown_switch hc3 hname) (List.Subset.refl log)
  unfold wireRemote
  rw [ends_bind]
  refine ends_run (fun csv c1 hexec => ?_) (Grown.refl log c)
  obtain ⟨-, rfl⟩ := Prod.mk.inj (Option.some.inj hexec)
  split
  · exact hswitch c (Grown.refl log c)
  · rw [ends_bind]
    refine ends_run (fun stdout c2 hexec => ?_) (Grown.refl log c)
    obtain ⟨c3, hc3, h3⟩ := Option.map_eq_some_iff.mp hexec
    obtain rfl : c3 = c2 := congrArg Prod.snd h3
    exact hswitch c3 (grown_add hc3 hname hurl)

end Grown

/-! ### The commands -/

/-- The clients are as they were, and nothing is taken from the log. -/
structure Quiet (w w' : World) : Prop where
  incus : w'.incus = w.incus
  log : w.log ⊆ w'.log

theorem Quiet.refl (w : World) : Quiet w w := ⟨rfl, List.Subset.refl _⟩

theorem Quiet.trans (w w' w'' : World) (h : Quiet w w') (h' : Quiet w' w'') : Quiet w w'' :=
  ⟨h'.incus.trans h.incus, List.Subset.trans h.log h'.log⟩

theorem quiet_happen (w : World) (e : Event) : Quiet w (happen w e) := by
  refine ⟨happen_incus w e, ?_⟩
  have h := happened w e
  generalize happen w e = w' at h
  cases h with
  | nothing => exact List.Subset.refl _
  | gone => exact List.Subset.refl _
  | zombie => exact List.Subset.refl _
  | rescheduled => exact List.Subset.refl _
  | appeared => exact List.Subset.refl _
  | wrote => exact List.subset_cons_self _ _
  | edited => exact List.Subset.refl _

section Commands
variable (host : Host)

theorem quiet_cmdStart (env : StartEnv) : Within Quiet (cmdStart host env) := by
  refine within_of_ends fun w => ?_
  have hspawned : ∀ d c args, Quiet w ((w.setDisk d).spawn c args) :=
    fun d c args => ⟨rfl, List.subset_cons_self _ _⟩
  refine ends_cmdStart (fun d _ => ⟨rfl, List.Subset.refl _⟩) (fun args c d _ _ _ => ?_)
    (fun args c d d' _ _ _ => hspawned d' c args) fun args c d _ _ _ stderr => ⟨rfl, ?_⟩
  · exact ⟨rfl, List.Subset.trans (hspawned _ c args).log (List.subset_cons_self _ _)⟩
  · exact (hspawned _ c args).log

theorem quiet_cmdStop (env : StopEnv) : Within Quiet (cmdStop env) := fun w =>
  cmdStop_keeps (Quiet.refl w) ⟨rfl, List.subset_cons_self _ _⟩
    (fun pid p _ => ⟨signal_incus w pid p, by rw [signal_log]; exact List.subset_cons_self _ _⟩)
    fun _ _ hw' _ => ⟨hw'.incus, hw'.log⟩

theorem quiet_cmdDelete (env : DeleteEnv) : Within Quiet (cmdDelete env) := by
  intro w
  have hends : Ends (cmdDelete env) w (fun _ => Quiet w) (Quiet w) :=
    ends_cmdDelete (Quiet.refl w) (fun _ _ => ⟨rfl, List.Subset.refl _⟩)
      fun _ _ _ => ⟨rfl, List.Subset.refl _⟩
  exact hends.final

/-- What the clients have become, and the log. -/
def Kept (w w' : World) : Prop :=
  w.log ⊆ w'.log ∧ ∀ conf, Grown w'.log (w.incus conf) (w'.incus conf)

theorem Quiet.kept {w w' : World} (h : Quiet w w') : Kept w w' := by
  refine ⟨h.log, fun conf => ?_⟩
  rw [h.incus]
  exact Grown.refl _ _

theorem Kept.trans {w w' w'' : World} (h : Kept w w') (h' : Kept w' w'') : Kept w w'' :=
  ⟨List.Subset.trans h.1 h'.1, fun conf => (h.2 conf).trans (h'.2 conf) h'.1⟩

/-- The address is looked for in a quiet world, and is in the log before the client is told. -/
theorem kept_cmdAutoconfigure (env : AutoconfigureEnv) (w : World) :
    Kept w (cmdAutoconfigure host env w).2 := by
  have hq : ∀ w', Quiet w w' → Kept w w' := fun _ h => h.kept
  suffices hends : Ends (cmdAutoconfigure host env) w (fun _ => Kept w) (Kept w) from hends.final
  unfold cmdAutoconfigure cmdAutoconfigureWithRunner
  split
  · next hname =>
    rw [ends_bind, ends_onDisk]
    refine ends_iff.mpr ⟨fun _ d _ => ?_, fun e d _ => hq _ ⟨rfl, List.Subset.refl _⟩,
      fun d _ => hq _ ⟨rfl, List.Subset.refl _⟩⟩
    have hcopied : Quiet w (w.setDisk d) := ⟨rfl, List.Subset.refl _⟩
    have hstart : Within Quiet (startUnlessRunning host isVmRunning env) := by
      refine within_bind Quiet.trans (within_gets Quiet.refl _) fun running => ?_
      split
      · exact within_pure Quiet.refl ()
      · exact quiet_cmdStart host env.start
    rw [ends_bind]
    refine (hstart.ends (w.setDisk d)).mono (fun _ w2 h2 => ?_)
      fun w2 h2 => hq w2 (Quiet.trans _ _ _ hcopied h2)
    have hquiet2 : Quiet w w2 := Quiet.trans _ _ _ hcopied h2
    rw [ends_bind]
    have hresolve : Ends (resolveVmIp host isVmRunning defaultDhcpLeasesPath env.vmIp env.polls) w2
        (fun ip w3 => Quiet w w3 ∧ ∃ source vm reported, .answered ip source vm reported ∈ w3.log)
        (Quiet w) := by
      refine ends_resolveVmIp hquiet2
        (fun w3 poll _ e _ h3 => Quiet.trans _ _ _ h3 (quiet_happen w3 e)) fun w3 ip source h3 _ => ?_
      exact ⟨Quiet.trans _ _ _ h3 ⟨rfl, List.subset_cons_self _ _⟩, source, _, _,
        List.mem_cons_self ..⟩
    refine hresolve.mono (fun ip w3 h3 => ?_) hq
    obtain ⟨hquiet3, hanswered⟩ := h3
    have hwired : ∀ c, Grown w3.log (w3.incus (env.confDir host)) c →
        Kept w (w3.setIncus (env.confDir host) c) := by
      intro c hc
      refine ⟨hquiet3.log, fun conf => ?_⟩
      show Grown w3.log (w.incus conf) (Function.update w3.incus (env.confDir host) c conf)
      rw [← hquiet3.incus]
      by_cases hconf : conf = env.confDir host
      · subst hconf
        rw [Function.update_self]
        exact hc
      · rw [Function.update_of_ne hconf]
        exact Grown.refl _ _
    rw [onIncus, ends_zoom]
    exact (ends_wireRemote hname hanswered).mono (fun _ c => hwired c) hwired
  · exact hq w (Quiet.refl w)

/-- Each client is as it was, or has grown by rows for addresses of the log. -/
theorem kept_step (w : World) (i : Input) : Kept w (step host w i) := by
  cases i with
  | event e => exact (quiet_happen w e).kept
  | start env => exact (quiet_cmdStart host env w).kept
  | stop env => exact (quiet_cmdStop env w).kept
  | status env => exact (show Quiet w (cmdStatus host env w).2 by
      rw [cmdStatus_world]
      exact Quiet.refl w).kept
  | delete env => exact (quiet_cmdDelete env w).kept
  | mount hostPath name => exact (Quiet.refl w).kept
  | unmount name => exact (Quiet.refl w).kept
  | autoconfigure env => exact kept_cmdAutoconfigure host env w

/-- **No remote is ever lost or rewritten**: after any run of commands and events, under whatever
faults, every client has the remotes it had, in their order and with their URLs, and
after them only remotes under accepted names at addresses that were answered; names
stay unique, and what the client has been switched to is in its table. -/
theorem remotes_only_grow (w : World) (inputs : List Input) (conf : Text) :
    Grown (run host w inputs).log (w.incus conf) ((run host w inputs).incus conf) := by
  have hany : Along host (fun _ _ => True) w inputs := Runs.along_of_forall fun _ _ _ => trivial
  have hkept : Kept w (run host w inputs) :=
    Runs.run_invariant (fun s i hs _ => hs.trans (kept_step host s i)) (Quiet.refl w).kept hany
  exact hkept.2 conf

end Commands

end Malleus.Remotes
