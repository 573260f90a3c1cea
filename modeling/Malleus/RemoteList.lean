import Malleus.Remotes
import Malleus.System

/-! The listing of remotes as a table.

`remoteExists` reads a name off every line and drops the one that spells the header.
`listing_is_read` says for which names that is the table's own answer, and what it
means for a second `autoconfigure`. -/
namespace Malleus.RemoteList
open Effect Strings Numbers Incus Remotes

structure Row where
  name : Text
  current : Bool
  /-- The URL and the further columns. -/
  rest : Text

namespace Row

/-- The first column. -/
def shown (r : Row) : Text := if r.current then r.name ++ " (current)".toList else r.name

def line (r : Row) : Text := r.shown ++ ',' :: r.rest

/-- A name that malleus accepts, and columns on one line. -/
structure Valid (r : Row) : Prop where
  name : validMountName r.name = true
  rest : '\n' ∉ r.rest

end Row

def csv (rows : List Row) : Text := unlines (rows.map Row.line)

/-- The name spells the header of the first column, in any case. -/
def isHeader (name : Text) : Bool := eqIgnoreAsciiCase name "name".toList

/-! ### Reading a line -/

/-- The name that a line is read as. -/
def readName (line : Text) : Text :=
  trimEndMatches " (current)".toList (trim ((line.splitOn ',').headD []))

/-- A line of the listing names the remote, and is not taken for the header. -/
theorem remoteExists_iff {text name : Text} : remoteExists text name = true ↔
    ∃ line ∈ lines text, readName line = name ∧ name ≠ [] ∧ isHeader name = false := by
  have hread : remoteExists text name = (lines text).any fun line =>
      !(readName line).isEmpty && !isHeader (readName line) && readName line == name := rfl
  rw [hread, List.any_eq_true]
  constructor
  · intro ⟨line, hmem, hline⟩
    simp only [Bool.and_eq_true, Bool.not_eq_true', List.isEmpty_eq_false_iff, beq_iff_eq] at hline
    obtain ⟨⟨hne, hheader⟩, heq⟩ := hline
    rw [heq] at hne hheader
    exact ⟨line, hmem, heq, hne, hheader⟩
  · intro ⟨line, hmem, heq, hne, hheader⟩
    refine ⟨line, hmem, ?_⟩
    rw [heq, hheader]
    simpa using hne

section Row
variable {r : Row}

theorem Row.not_mem_shown (h : validMountName r.name = true) {c : Char}
    (hc : Provision.isNameChar c = false) (hmark : c ∉ " (current)".toList) : c ∉ r.shown := by
  have hname : c ∉ r.name := not_mem_of_validMountName h hc
  rw [Row.shown]
  split
  · rw [List.mem_append, not_or]
    exact ⟨hname, hmark⟩
  · exact hname

theorem Row.trim_shown (h : validMountName r.name = true) : trim r.shown = r.shown := by
  obtain ⟨hne, hchars⟩ := chars_of_validMountName h
  have hname : ∀ c ∈ r.name, isWhitespace c = false := fun c hc =>
    isWhitespace_of_isNameChar (hchars c hc)
  rw [Row.shown]
  split
  · apply trim_of_ends
    · intro c hc
      rw [List.head?_append_of_ne_nil _ hne] at hc
      exact hname c (List.mem_of_head? hc)
    · intro c hc
      obtain rfl : ')' = c := by
        rw [List.getLast?_append] at hc
        exact Option.some.inj hc
      decide
  · exact trim_eq_self hname

/-- A row is read as its name, however its line goes on. -/
theorem readName_shown (h : validMountName r.name = true) (rest : Text) :
    readName (r.shown ++ ',' :: rest) = r.name := by
  have hsuffix : ¬ " (current)".toList <:+ r.name := by
    intro hs
    have hspace : ' ' ∈ " (current)".toList := by decide
    exact not_mem_of_validMountName h (by decide) (hs.subset hspace)
  rw [readName, List.splitOn_append_cons_self_of_not_mem (Row.not_mem_shown h (by decide) (by decide)),
    List.headD_cons, Row.trim_shown h, Row.shown]
  split
  · exact trimEndMatches_append (by decide) hsuffix
  · exact trimEndMatches_of_not_suffix hsuffix

end Row

/-- The lines of a table are those of its rows, up to a carriage return at the end. -/
theorem lines_csv {rows : List Row} (h : ∀ r ∈ rows, r.Valid) :
    lines (csv rows) = rows.map fun r => r.shown ++ stripCr (',' :: r.rest) := by
  induction rows with
  | nil => rfl
  | cons r rows ih =>
    obtain ⟨hname, hrest⟩ := h r (List.mem_cons_self ..)
    have hline : '\n' ∉ r.line := by
      rw [Row.line, List.mem_append, List.mem_cons, not_or, not_or]
      exact ⟨Row.not_mem_shown hname (by decide) (by decide), by decide, hrest⟩
    have htail := ih fun r' hr' => h r' (List.mem_cons_of_mem _ hr')
    rw [csv, List.map_cons, unlines_cons, lines_cons hline, Row.line,
      stripCr_append _ (List.cons_ne_nil _ _), List.map_cons, ← htail, csv]

/-- The comma ends the name whatever follows. -/
theorem stripCr_comma (rest : Text) : ∃ rest', stripCr (',' :: rest) = ',' :: rest' := by
  cases rest with
  | nil => exact ⟨[], rfl⟩
  | cons c rest => exact ⟨_, stripCr_append [','] (List.cons_ne_nil c rest)⟩

/-- **The names that are found are those of the table, without the header's.** -/
theorem remoteExists_csv {rows : List Row} (h : ∀ r ∈ rows, r.Valid) {name : Text} :
    remoteExists (csv rows) name = true ↔ name ∈ rows.map Row.name ∧ isHeader name = false := by
  have hread : ∀ r ∈ rows, readName (r.shown ++ stripCr (',' :: r.rest)) = r.name := by
    intro r hr
    obtain ⟨rest, hrest⟩ := stripCr_comma r.rest
    rw [hrest, readName_shown (h r hr).name]
  rw [remoteExists_iff, lines_csv h]
  constructor
  · intro ⟨line, hmem, hline, _, hheader⟩
    obtain ⟨r, hr, rfl⟩ := List.mem_map.mp hmem
    rw [hread r hr] at hline
    exact ⟨List.mem_map.mpr ⟨r, hr, hline⟩, hheader⟩
  · intro ⟨hname, hheader⟩
    obtain ⟨r, hr, rfl⟩ := List.mem_map.mp hname
    exact ⟨_, List.mem_map.mpr ⟨r, hr, rfl⟩, hread r hr,
      (chars_of_validMountName (h r hr).name).1, hheader⟩

/-! ### The client's own table -/

def rowOf (c : Client) (r : Remote) : Row :=
  ⟨r.name, decide (r.name = c.current), [','].intercalate (r.url :: r.columns)⟩

def names (c : Client) : List Text := c.remotes.map Remote.name

theorem listCsv_eq (c : Client) : c.listCsv = csv (c.remotes.map (rowOf c)) := by
  have hline : ∀ r, c.csvLine r = (rowOf c r).line := by
    intro r
    have hshown : (if r.name = c.current then r.name ++ " (current)".toList else r.name) =
        (rowOf c r).shown := by
      have hcurrent : (rowOf c r).current = decide (r.name = c.current) := rfl
      rw [Row.shown, hcurrent]
      by_cases h : r.name = c.current
      · rw [if_pos h, if_pos (decide_eq_true h)]
        rfl
      · rw [if_neg h, if_neg (Bool.eq_false_iff.mp (decide_eq_false h))]
        rfl
    rw [Client.csvLine, List.intercalate_cons_cons, hshown, List.append_assoc]
    rfl
  rw [Client.listCsv, csv, List.map_map]
  exact congrArg unlines (List.map_congr_left fun r _ => hline r)

/-- Malleus accepts the names of all remotes, and each fits on one line. -/
def Accepted (c : Client) : Prop :=
  ∀ r ∈ c.remotes, validMountName r.name = true ∧ '\n' ∉ [','].intercalate (r.url :: r.columns)

/-- A client's own listing is read right, but for a name that looks like the header. -/
theorem remoteExists_listCsv {c : Client} (h : Accepted c) {name : Text} :
    remoteExists c.listCsv name = true ↔ name ∈ names c ∧ isHeader name = false := by
  have hvalid : ∀ row ∈ c.remotes.map (rowOf c), row.Valid := by
    intro row hrow
    obtain ⟨r, hr, rfl⟩ := List.mem_map.mp hrow
    exact ⟨(h r hr).1, (h r hr).2⟩
  rw [listCsv_eq, remoteExists_csv hvalid, List.map_map]
  rfl

theorem url_isSome {c : Client} {name : Text} : (c.url name).isSome = true ↔ name ∈ names c := by
  simp [Client.url, names]

theorem not_mem_remoteUrl (ip : Ipv4Addr) : '\n' ∉ remoteUrl ip := by
  have hip : '\n' ∉ ip.toText := fun h => by simpa using ip.toText_chars _ h
  have hport : '\n' ∉ ':' :: decimal defaultIncusHttpsPort.toNat := by
    rw [List.mem_cons, not_or]
    exact ⟨by decide, fun h => absurd (decimal_digits _ _ h) (by decide)⟩
  have hscheme : '\n' ∉ "https://".toList := by decide
  unfold remoteUrl
  intro h
  cases List.mem_append.mp h with
  | inl h =>
    cases List.mem_append.mp h with
    | inl h => exact hscheme h
    | inr h => exact hip h
  | inr h => exact hport h

/-- No remote is lost, and the table stays acceptable. -/
structure Extends (c c' : Client) : Prop where
  names : names c ⊆ names c'
  accepted : Accepted c → Accepted c'

theorem Extends.refl (c : Client) : Extends c c := ⟨List.Subset.refl _, id⟩

theorem Extends.trans {c c' c'' : Client} (h : Extends c c') (h' : Extends c' c'') : Extends c c'' :=
  ⟨List.Subset.trans h.names h'.names, fun ha => h'.accepted (h.accepted ha)⟩

/-- A remote that is added stands beside those there were. -/
theorem extends_add {c c' : Client} {name : Text} {ip : Ipv4Addr} (hname : validMountName name = true)
    (h : c.add name (remoteUrl ip) = some c') : Extends c c' := by
  unfold Client.add at h
  split at h
  · cases h
  · obtain rfl := Option.some.inj h
    refine ⟨?_, fun ha r hr => ?_⟩
    · rw [names, names, List.map_append]
      exact List.subset_append_left _ _
    · cases List.mem_append.mp hr with
      | inl hold => exact ha r hold
      | inr hnew =>
        obtain rfl := List.mem_singleton.mp hnew
        refine ⟨hname, ?_⟩
        rw [List.intercalate_cons_cons, List.mem_append, List.mem_append, not_or, not_or]
        exact ⟨⟨not_mem_remoteUrl ip, by decide⟩, by decide⟩

theorem extends_switch {c c' : Client} {name : Text} (h : c.switch name = some c') :
    Extends c c' ∧ name ∈ names c' := by
  unfold Client.switch at h
  split at h
  · next hthere =>
    obtain rfl := Option.some.inj h
    exact ⟨⟨List.Subset.refl _, id⟩, url_isSome.mp hthere⟩
  · cases h

/-- Switching only ends well if the remote is there. -/
theorem ends_switch {env : AutoconfigureEnv} {c c' : Client} (h : Extends c c') :
    Ends (do let _ ← Incus.run env.switch (.switch env.remoteName)) c'
      (fun _ c'' => Extends c c'' ∧ env.remoteName ∈ names c'') (Extends c) := by
  rw [ends_bind]
  refine ends_run (fun _ c'' hdone => ?_) h
  obtain ⟨c3, hswitch, h3⟩ := Option.map_eq_some_iff.mp hdone
  obtain rfl : c3 = c'' := congrArg Prod.snd h3
  obtain ⟨hextends, hthere⟩ := extends_switch hswitch
  exact ⟨h.trans hextends, hthere⟩

/-- Wiring loses no remote, and where it ends well the remote is there. -/
theorem ends_wireRemote {env : AutoconfigureEnv} (ip : Ipv4Addr) (c : Client)
    (hname : validMountName env.remoteName = true) :
    Ends (wireRemote env ip) c (fun _ c' => Extends c c' ∧ env.remoteName ∈ names c')
      (Extends c) := by
  unfold wireRemote
  rw [ends_bind]
  refine ends_run (fun csv c1 hlist => ?_) (Extends.refl c)
  obtain rfl : c = c1 := congrArg Prod.snd (Option.some.inj hlist)
  split
  · exact ends_switch (Extends.refl c)
  · rw [ends_bind]
    refine ends_run (fun _ c2 hdone => ?_) (Extends.refl c)
    obtain ⟨c3, hadd, h3⟩ := Option.map_eq_some_iff.mp hdone
    obtain rfl : c3 = c2 := congrArg Prod.snd h3
    exact ends_switch (extends_add hname hadd)

/-! ### A second time -/

/-- How adding the remote would end makes a difference: it is asked for. -/
def Adds (env : AutoconfigureEnv) (ip : Ipv4Addr) (c : Client) : Prop :=
  ∃ fate, wireRemote {env with add := fate} ip c ≠ wireRemote env ip c

/-- With a listing that names the remote, wiring lists and switches. -/
theorem wireRemote_listed {env : AutoconfigureEnv} {ip : Ipv4Addr} {c : Client}
    (h : remoteExists c.listCsv env.remoteName = true) :
    wireRemote env ip c = (do
      let _ ← Incus.run env.list .list
      let _ ← Incus.run env.switch (.switch env.remoteName) : Cmd Client CliError Unit) c := by
  rw [wireRemote, Cmd.bind_apply, Cmd.bind_apply]
  cases hrun : Incus.run env.list .list c with
  | mk outcome c1 =>
    cases outcome with
    | error e => rfl
    | killed => rfl
    | ok csv =>
      have hcsv : c.listCsv = csv := congrArg Prod.fst (Option.some.inj (run_ok hrun))
      show (if remoteExists csv env.remoteName then _ else _ : Cmd Client CliError Unit) c1 = _
      rw [← hcsv, if_pos h]

theorem not_adds {env : AutoconfigureEnv} {ip : Ipv4Addr} {c : Client}
    (h : remoteExists c.listCsv env.remoteName = true) : ¬ Adds env ip c := by
  intro ⟨fate, hne⟩
  apply hne
  have hfate : remoteExists c.listCsv ({env with add := fate} : AutoconfigureEnv).remoteName = true := h
  rw [wireRemote_listed h, wireRemote_listed hfate]

/-- A remote that is there and not found is added again, which the client refuses. -/
theorem adds_again {env : AutoconfigureEnv} {ip : Ipv4Addr} {c : Client}
    (hlist : ∃ status stderr, env.list = .runs false status stderr) (hadd : env.add = .cannotRun)
    (hthere : env.remoteName ∈ names c) (h : remoteExists c.listCsv env.remoteName = false) :
    Adds env ip c := by
  obtain ⟨status, stderr, hlist⟩ := hlist
  have hunlisted : ∀ fate outcome, Incus.run fate (.add env.remoteName (remoteUrl ip)) c =
      (.error outcome, c) → wireRemote {env with add := fate} ip c = (.error outcome, c) := by
    intro fate outcome hrun
    have hok : Incus.run env.list .list c = (.ok c.listCsv, c) := by
      rw [hlist]
      rfl
    rw [wireRemote, Cmd.bind_apply, hok]
    show (if remoteExists c.listCsv env.remoteName then _ else _ : Cmd Client CliError Unit) c = _
    rw [h, if_neg Bool.false_ne_true, Cmd.bind_apply, hrun]
  let args := [' '].intercalate (Call.add env.remoteName (remoteUrl ip)).args
  have hrefused : Incus.run (.runs false none []) (.add env.remoteName (remoteUrl ip)) c =
      (.error (.incusFailed args (-1) []), c) := by
    have hnone : c.execute (.add env.remoteName (remoteUrl ip)) = none := by
      rw [Client.execute, Client.add, if_pos (url_isSome.mpr hthere)]
      rfl
    rw [Incus.run, if_neg Bool.false_ne_true, hnone]
    rfl
  have hexec : wireRemote env ip c = (.error (.incusExec args), c) := by
    have hsame : ({env with add := .cannotRun} : AutoconfigureEnv) = env := by rw [← hadd]
    rw [← hsame]
    exact hunlisted .cannotRun _ rfl
  refine ⟨.runs false none [], ?_⟩
  rw [hunlisted _ _ hrefused, hexec]
  intro heq
  cases congrArg Prod.fst heq

/-! ### In any run -/

/-- No client has lost a remote. -/
def Extended (w w' : World) : Prop := ∀ conf, Extends (w.incus conf) (w'.incus conf)

theorem extended_of_same {w w' : World} (h : SameClients w w') : Extended w w' := by
  intro conf
  rw [show w'.incus conf = w.incus conf from congrFun h conf]
  exact Extends.refl _

theorem Extended.trans {w w' w'' : World} (h : Extended w w') (h' : Extended w' w'') :
    Extended w w'' := fun conf => (h conf).trans (h' conf)

theorem extended_setIncus {w : World} {conf : Text} {c : Client} (h : Extends (w.incus conf) c) :
    Extended w (w.setIncus conf c) := by
  intro conf'
  by_cases hconf : conf' = conf
  · rw [hconf]
    simpa [World.setIncus] using h
  · have hother : (w.setIncus conf c).incus conf' = w.incus conf' := by
      simp [World.setIncus, hconf]
    rw [hother]
    exact Extends.refl _

theorem sameClients_cmdStop (env : StopEnv) (w : World) : SameClients w (cmdStop env w).2 :=
  cmdStop_keeps rfl rfl (fun pid p _ => signal_incus w pid p) fun _ _ hw' _ => hw'

section Run
variable {host : Host}

/-- An `autoconfigure` loses no remote, and where it ends well its own is there. -/
theorem ends_cmdAutoconfigure_extended {leasePath : Text} {vmIsRunning : Bool → World → Bool}
    (env : AutoconfigureEnv) (w : World) :
    Ends (cmdAutoconfigureWithRunner host leasePath vmIsRunning env) w
      (fun _ w' => Extended w w' ∧ env.remoteName ∈ names (w'.incus (env.confDir host)))
      (Extended w) := by
  have hstart : ∀ d, validMountName env.remoteName = true →
      copyCredentials host env w.disk = (.ok (), d) →
      Ends (startUnlessRunning host vmIsRunning env) (w.setDisk d) (fun _ => Extended w) (Extended w) := by
    intro d _ _
    have hwithin := (within_startUnlessRunning host vmIsRunning env).ends (w.setDisk d)
    exact hwithin.mono (fun _ _ h => extended_of_same h) fun _ h => extended_of_same h
  refine ends_cmdAutoconfigure_wiring (extended_of_same rfl) (fun d _ => extended_of_same rfl) hstart
    ?_ ?_ ?_ fun _ h => h
  · intro w' _ _ e _ hw'
    exact hw'.trans (extended_of_same (happen_incus w' e))
  · exact fun w' _ _ hw' _ => hw'.trans (extended_of_same rfl)
  · intro w' ip hname hw'
    rw [onIncus, ends_zoom]
    refine (ends_wireRemote ip (w'.incus (env.confDir host)) hname).mono (fun _ c hc => ?_) fun c hc => ?_
    · refine ⟨hw'.trans (extended_setIncus hc.1), ?_⟩
      simpa [World.setIncus] using hc.2
    · exact hw'.trans (extended_setIncus hc)

/-- No input takes a remote away. -/
theorem extended_step (w : World) (i : Input) : Extended w (step host w i) := by
  cases i with
  | event e => exact extended_of_same (happen_incus w e)
  | start env => exact extended_of_same (sameClients_cmdStart host env w)
  | stop env => exact extended_of_same (sameClients_cmdStop env w)
  | status env => exact extended_of_same (congrArg World.incus (cmdStatus_world host env w))
  | delete env =>
    have hdelete : Ends (cmdDelete env) w (fun _ => SameClients w) (SameClients w) :=
      ends_cmdDelete rfl (fun _ _ => rfl) fun _ _ _ => rfl
    exact extended_of_same hdelete.final
  | mount hostPath mountName => exact extended_of_same rfl
  | unmount mountName => exact extended_of_same rfl
  | autoconfigure env =>
    exact ((ends_cmdAutoconfigure_extended env w).mono (fun _ _ h => h.1) fun _ h => h).final

theorem extended_run (w : World) (inputs : List Input) : Extended w (run host w inputs) := by
  have hstep : ∀ w' i, Extended w w' → True → Extended w (step host w' i) :=
    fun w' i hw' _ => hw'.trans (extended_step w' i)
  exact Runs.run_invariant hstep (extended_of_same rfl) (Runs.along_of_forall fun _ _ _ => trivial)

end Run

/-- **A table's names are found exactly when they are none that spell the header, and
after an `autoconfigure` that ends well no later one adds its remote, unless its
name does.** -/
theorem listing_is_read (name : Text) :
    (∀ rows : List Row, (∀ r ∈ rows, r.Valid) →
      ((remoteExists (csv rows) name = true ↔ name ∈ rows.map Row.name) ↔
        ¬ (name ∈ rows.map Row.name ∧ isHeader name = true))) ∧
      ∀ (host : Host) (leasePath : Text) (vmIsRunning : Bool → World → Bool)
        (env : AutoconfigureEnv) (w w' : World) (inputs : List Input),
        env.remoteName = name → Accepted (w.incus (env.confDir host)) →
        cmdAutoconfigureWithRunner host leasePath vmIsRunning env w = (.ok (), w') →
        ((∀ (again : AutoconfigureEnv) (ip : Ipv4Addr), again.remoteName = name →
          ¬ Adds again ip ((run host w' inputs).incus (env.confDir host))) ↔
          isHeader name = false) := by
  refine ⟨fun rows hrows => ?_, ?_⟩
  · rw [remoteExists_csv hrows]
    cases isHeader name with
    | true => simp
    | false => simp
  · intro host leasePath vmIsRunning env w w' inputs hname haccepted hok
    obtain ⟨hfirst, hthere⟩ := (ends_cmdAutoconfigure_extended env w).of_ok hok
    have hrun : Extended w' (run host w' inputs) := extended_run w' inputs
    have hknown := (hrun (env.confDir host)).names hthere
    have htable := (hfirst.trans hrun (env.confDir host)).accepted haccepted
    rw [hname] at hknown
    constructor
    · intro hnever
      cases hheader : isHeader name with
      | false => rfl
      | true =>
        let again : AutoconfigureEnv := {env with list := .runs false none [], add := .cannotRun}
        have hlost : remoteExists ((run host w' inputs).incus (env.confDir host)).listCsv name = false := by
          rw [Bool.eq_false_iff]
          intro hfound
          have hnot := ((remoteExists_listCsv htable).mp hfound).2
          rw [hheader] at hnot
          exact absurd hnot (by decide)
        rw [← hname] at hknown hlost
        have hadds : Adds again ⟨0, 0, 0, 0⟩ ((run host w' inputs).incus (env.confDir host)) :=
          adds_again ⟨_, _, rfl⟩ rfl hknown hlost
        exact absurd hadds (hnever again _ hname)
    · intro hheader again ip hagain
      apply not_adds
      rw [hagain]
      exact (remoteExists_listCsv htable).mpr ⟨hknown, hheader⟩

/-- The default remote is not added again. -/
theorem malleus_is_read : ∀ (again : AutoconfigureEnv) (ip : Ipv4Addr),
    again.remoteName = defaultIncusRemoteName →
      ¬ Adds again ip ((run laptop (configure (provisioned [])).2 []).incus "/c".toList) :=
  ((listing_is_read defaultIncusRemoteName).2 laptop defaultDhcpLeasesPath (fun _ _ => true) given
    (provisioned []) _ [] rfl (fun _ hr => absurd hr List.not_mem_nil)
    (Prod.ext (by decide +kernel) rfl)).mpr (by decide)

/-- A remote whose name spells the header. -/
def named : AutoconfigureEnv := {given with remoteName := "name".toList}

def configureNamed (w : World) : Outcome CliError Unit × World :=
  cmdAutoconfigureWithRunner laptop defaultDhcpLeasesPath (fun _ _ => true) named w

def namedRow : Row := ⟨"name".toList, false, "https://192.168.64.5:8443".toList⟩

/-- The name is accepted and in the table, and not found; the second command adds the
remote again and fails. -/
theorem header_is_lost : validMountName "name".toList = true ∧ namedRow.Valid ∧
    "name".toList ∈ [namedRow].map Row.name ∧
    remoteExists (csv [namedRow]) "name".toList = false ∧
    (configureNamed (provisioned [])).1 = .ok () ∧
    (configureNamed (configureNamed (provisioned [])).2).1 =
      .error (.incusFailed "remote add name https://192.168.64.5:8443 --accept-certificate".toList
        (-1) []) := by
  refine ⟨by decide, ⟨by decide, by decide⟩, List.mem_singleton_self _, by decide +kernel,
    by decide +kernel, by decide +kernel⟩

end Malleus.RemoteList
