import Malleus.Boot

/-! The incus remote after `malleus autoconfigure`.

The remote is added unless the listing names it, and a remote that is there is
never rewritten. `cmdAutoconfigure_wires` says exactly when a command that succeeds
leaves the remote at the address it found. -/
namespace Malleus.Remotes
open Effect Strings Numbers Incus

/-- The remote is at this URL and current, and every other remote is as it was. -/
structure Wired (c c' : Client) (name url : Text) : Prop where
  url : c'.url name = some url
  current : c'.current = name
  others : ∀ other, other ≠ name → c'.url other = c.url other

/-- A name that is free, or taken by a remote that is at the address already. -/
def Current (c : Client) (name url : Text) : Prop := c.url name = none ∨ c.url name = some url

/-- The client after a successful wiring: the remote was added, or left as it was. -/
theorem wireRemote_ok {env : AutoconfigureEnv} {ip : Ipv4Addr} {c c' : Client}
    (h : wireRemote env ip c = (.ok (), c')) :
    Wired c c' env.remoteName (remoteUrl ip) ↔ Current c env.remoteName (remoteUrl ip) := by
  unfold wireRemote at h
  obtain ⟨csv, c1, hlist, h⟩ := Cmd.bind_ok.mp h
  obtain ⟨rfl, rfl⟩ : c.listCsv = csv ∧ c = c1 := by simpa [Client.execute] using run_ok hlist
  split at h
  · -- the listing names the remote: nothing is added, and the switch finds it there
    obtain ⟨_, c3, hswitch, h⟩ := Cmd.bind_ok.mp h
    obtain rfl : c3 = c' := congrArg Prod.snd h
    obtain ⟨c4, hc4, h4⟩ := Option.map_eq_some_iff.mp (run_ok hswitch)
    obtain rfl : c4 = c3 := congrArg Prod.snd h4
    obtain ⟨hthere, hcurrent, hurl⟩ := Client.url_of_switch hc4
    constructor
    · exact fun hw => Or.inr (by rw [← hurl]; exact hw.url)
    · rintro (hfree | hsame)
      · simp [hfree] at hthere
      · exact ⟨by rw [hurl]; exact hsame, hcurrent, fun other _ => by rw [hurl]⟩
  · -- the remote is added, which a name that is taken does not allow
    obtain ⟨_, c3, hadd, h⟩ := Cmd.bind_ok.mp h
    obtain ⟨c4, hc4, h4⟩ := Option.map_eq_some_iff.mp (run_ok hadd)
    obtain rfl : c4 = c3 := congrArg Prod.snd h4
    obtain ⟨hfree, -, hurl, hothers⟩ := Client.url_of_add hc4
    obtain ⟨_, c5, hswitch, h⟩ := Cmd.bind_ok.mp h
    obtain rfl : c5 = c' := congrArg Prod.snd h
    obtain ⟨c6, hc6, h6⟩ := Option.map_eq_some_iff.mp (run_ok hswitch)
    obtain rfl : c6 = c5 := congrArg Prod.snd h6
    obtain ⟨-, hcurrent, hkept⟩ := Client.url_of_switch hc6
    refine iff_of_true ⟨?_, hcurrent, fun other hne => ?_⟩ (Or.inl hfree)
    · rw [hkept, hurl]
    · rw [hkept, hothers other hne]

/-- The clients are as they were. -/
def SameClients (w w' : World) : Prop := w'.incus = w.incus

theorem sameClients_cmdStart (host : Host) (env : StartEnv) : Within SameClients (cmdStart host env) :=
  within_of_ends fun _ => ends_cmdStart (fun _ _ => rfl) (fun _ _ _ _ _ _ => rfl)
    (fun _ _ _ _ _ _ _ => rfl) fun _ _ _ _ _ _ _ => rfl

section Autoconfigure
variable (host : Host) (vmIsRunning : Bool → World → Bool) (env : AutoconfigureEnv)

/-- A start leaves the clients alone. -/
theorem within_startUnlessRunning :
    Within SameClients (startUnlessRunning host vmIsRunning env) := by
  have hr : ∀ w, SameClients w w := fun _ => rfl
  have ht : ∀ w w' w'', SameClients w w' → SameClients w' w'' → SameClients w w'' :=
    fun _ _ _ h h' => h'.trans h
  refine within_bind ht (within_gets hr _) fun running => ?_
  split
  · exact within_pure hr ()
  · exact sameClients_cmdStart host env.start

/-- **A command that succeeds has wired the remote exactly when there was no remote of
that name, or it was at the address already**: a remote with the address of an
earlier boot keeps it, and the client is switched to it. -/
theorem cmdAutoconfigure_wires (leasePath : Text) {w w' : World}
    (h : cmdAutoconfigureWithRunner host leasePath vmIsRunning env w = (.ok (), w')) :
    ∃ ip source vm reported, w'.log.head? = some (.answered ip source vm reported) ∧
      (∀ given, env.vmIp = some given → ip = given) ∧
      (Wired (w.incus (env.confDir host)) (w'.incus (env.confDir host)) env.remoteName (remoteUrl ip) ↔
        Current (w.incus (env.confDir host)) env.remoteName (remoteUrl ip)) := by
  unfold cmdAutoconfigureWithRunner at h
  split at h
  · obtain ⟨_, w1, hcopy, h⟩ := Cmd.bind_ok.mp h
    obtain ⟨_, w2, hstart, h⟩ := Cmd.bind_ok.mp h
    obtain ⟨ip, w3, hresolve, hwire⟩ := Cmd.bind_ok.mp h
    have h1 : w1.incus = w.incus := by
      obtain rfl : (onDisk (copyCredentials host env) w).2 = w1 := by rw [hcopy]
      rfl
    have h2 : w2.incus = w.incus := by
      have hsame := within_startUnlessRunning host vmIsRunning env w1
      rw [hstart] at hsame
      exact hsame.trans h1
    obtain ⟨h3, source, vm, reported, hlog, hgiven⟩ : w3.incus = w.incus ∧ ∃ source vm reported,
        w3.log.head? = some (.answered ip source vm reported) ∧
          ∀ given, env.vmIp = some given → ip = given := by
      have hends : Ends (resolveVmIp host vmIsRunning leasePath env.vmIp env.polls) w2
          (fun ip w' => w'.incus = w.incus ∧ ∃ source vm reported,
            w'.log.head? = some (.answered ip source vm reported) ∧
              ∀ given, env.vmIp = some given → ip = given) (fun w' => w'.incus = w.incus) := by
        refine ends_resolveVmIp h2 (fun w _ _ e _ hw => (happen_incus w e).trans hw) ?_
        intro w ip source hw hanswer
        refine ⟨hw, source, _, _, rfl, fun given hgiven => ?_⟩
        rcases hanswer with ⟨hip, -⟩ | ⟨hnone, -⟩
        · rw [hip] at hgiven
          exact Option.some.inj hgiven
        · simp [hnone] at hgiven
      exact hends.of_ok hresolve
    refine ⟨ip, source, vm, reported, ?_, hgiven, ?_⟩
    · obtain rfl : (onIncus (env.confDir host) (wireRemote env ip) w3).2 = w' := by rw [hwire]
      exact hlog
    · have hclient : wireRemote env ip (w3.incus (env.confDir host)) =
          (.ok (), w'.incus (env.confDir host)) := by
        unfold onIncus Cmd.zoom at hwire
        obtain ⟨hok, rfl⟩ := Prod.mk.inj hwire
        refine Prod.ext hok ?_
        simp [World.setIncus]
      rw [← h3]
      exact wireRemote_ok hclient
  · simp [Cmd.fail] at h

end Autoconfigure

/-! ### A remote from an earlier boot -/

/-- The client's credentials are there, and the client knows these remotes. -/
def provisioned (remotes : List Remote) : World where
  disk := ((noFiles.mkdirs [.stateDir, .pkiDir]).put .clientCert []).put .clientKey []
  procs _ := none
  incus _ := ⟨remotes, []⟩
  boots := 0
  log := []

def given : AutoconfigureEnv := configuring (some ⟨192, 168, 64, 5⟩) []

/-- A remote from before the guest's address changed. -/
def stale : Remote := ⟨defaultIncusRemoteName, "https://192.168.64.4:8443".toList, []⟩

def configure (w : World) : Outcome CliError Unit × World :=
  cmdAutoconfigureWithRunner laptop defaultDhcpLeasesPath (fun _ _ => true) given w

/-- The command succeeds at the new address, and the remote keeps the old one. -/
theorem stale_remote : (configure (provisioned [stale])).1 = .ok () ∧
    (configure (provisioned [stale])).2.log.head? =
      some (.answered ⟨192, 168, 64, 5⟩ .explicit none none) ∧
    ¬ Wired ((provisioned [stale]).incus "/c".toList)
      ((configure (provisioned [stale])).2.incus "/c".toList) defaultIncusRemoteName
      (remoteUrl ⟨192, 168, 64, 5⟩) := by
  refine ⟨by decide +kernel, by decide +kernel, fun h => ?_⟩
  have hurl : ((configure (provisioned [stale])).2.incus "/c".toList).url defaultIncusRemoteName =
      some stale.url := by decide +kernel
  have heq := hurl.symm.trans h.url
  revert heq
  decide +kernel

/-- Where there was no such remote, it is wired. -/
theorem fresh_remote : ∃ ip source vm reported,
    (configure (provisioned [])).2.log.head? = some (.answered ip source vm reported) ∧
      (∀ address, given.vmIp = some address → ip = address) ∧
      (Wired ((provisioned []).incus "/c".toList) ((configure (provisioned [])).2.incus "/c".toList)
        defaultIncusRemoteName (remoteUrl ip) ↔
        Current ((provisioned []).incus "/c".toList) defaultIncusRemoteName (remoteUrl ip)) :=
  cmdAutoconfigure_wires laptop (fun _ _ => true) given defaultDhcpLeasesPath
    (Prod.ext (by decide +kernel) rfl)

end Malleus.Remotes
