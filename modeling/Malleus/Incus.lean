import Malleus.Cli

/-! The incus client: a table of remotes, one of them current, and the three calls
that `autoconfigure` makes of it. -/
namespace Malleus
open Effect Strings

namespace Incus

structure Remote where
  name : Text
  url : Text
  /-- The further columns of the listing. -/
  columns : List Text
  deriving DecidableEq, Repr

/-- The remotes of a client in the order of its listing, and the name of the current one. -/
structure Client where
  remotes : List Remote
  current : Text
  deriving DecidableEq, Repr

namespace Client

/-- The URL of a remote. -/
def url (c : Client) (name : Text) : Option Text :=
  (c.remotes.find? fun r => r.name = name).map Remote.url

/-- A row of the listing, with the mark of the current remote behind its name. -/
def csvLine (c : Client) (r : Remote) : Text :=
  [','].intercalate
    ((if r.name = c.current then r.name ++ " (current)".toList else r.name) :: r.url :: r.columns)

/-- `incus remote list --format csv`. -/
def listCsv (c : Client) : Text := unlines (c.remotes.map c.csvLine)

/-- `incus remote add`: a name that is taken is refused. -/
def add (name url : Text) (c : Client) : Option Client :=
  if (c.url name).isSome then none
  else some {c with remotes := c.remotes ++
    [⟨name, url, ["incus".toList, "tls".toList, "NO".toList, "NO".toList, "NO".toList]⟩]}

/-- `incus remote switch`: only to a remote there is. -/
def switch (name : Text) (c : Client) : Option Client :=
  if (c.url name).isSome then some {c with current := name} else none

end Client

/-- The calls that malleus makes. -/
inductive Call where
  | list
  | add (name url : Text)
  | switch (name : Text)
  deriving DecidableEq, Repr

/-- The words that incus is run with. -/
def Call.args : Call → List Text
  | .list => ["remote".toList, "list".toList, "--format".toList, "csv".toList]
  | .add name url => ["remote".toList, "add".toList, name, url, "--accept-certificate".toList]
  | .switch name => ["remote".toList, "switch".toList, name]

/-- What the client prints and becomes, unless it refuses. -/
def Client.execute (c : Client) : Call → Option (Text × Client)
  | .list => some (c.listCsv, c)
  | .add name url => (c.add name url).map fun c' => ([], c')
  | .switch name => (c.switch name).map fun c' => ([], c')

/-- How running `incus` ends: it cannot be run, or it runs, and where it refuses or
fails of itself it has a status and says why. -/
inductive Fate where
  | cannotRun
  | runs (fails : Bool) (status : Option Int) (stderr : Text)
  deriving DecidableEq, Repr

/-- `ProcessIncusRunner::run`. -/
def run (fate : Fate) (call : Call) : Cmd Client CliError Text := fun c =>
  let args := [' '].intercalate call.args
  match fate with
  | .cannotRun => (.error (.incusExec args), c)
  | .runs fails status stderr =>
    match if fails then none else c.execute call with
    | some (stdout, c') => (.ok stdout, c')
    | none => (.error (.incusFailed args (status.getD (-1)) (trim stderr)), c)

/-- A call is carried out, or leaves the client as it was. -/
theorem ends_run {fate : Fate} {call : Call} {c : Client} {P : Text → Client → Prop}
    {Q : Client → Prop} (hdone : ∀ stdout c', c.execute call = some (stdout, c') → P stdout c')
    (hkept : Q c) : Ends (run fate call) c P Q := by
  unfold run Ends
  cases fate with
  | cannotRun => exact hkept
  | runs fails status stderr =>
    cases fails with
    | true => exact hkept
    | false =>
      dsimp only
      rw [if_neg Bool.false_ne_true]
      cases hexec : c.execute call with
      | none => exact hkept
      | some done =>
        obtain ⟨stdout, c'⟩ := done
        exact hdone stdout c' hexec

/-- A call that returns was carried out. -/
theorem run_ok {fate : Fate} {call : Call} {c c' : Client} {stdout : Text}
    (h : run fate call c = (.ok stdout, c')) : c.execute call = some (stdout, c') := by
  have hends : Ends (run fate call) c (fun stdout c' => c.execute call = some (stdout, c'))
      (fun _ => True) := ends_run (fun _ _ => id) trivial
  exact hends.of_ok h

section Client
variable {c c' : Client} {name url : Text}

/-- A new remote has its URL, and the others keep theirs. -/
theorem Client.url_of_add (h : c.add name url = some c') : c.url name = none ∧ c'.current = c.current ∧
    c'.url name = some url ∧ ∀ other, other ≠ name → c'.url other = c.url other := by
  unfold Client.add at h
  split at h
  · simp at h
  · next hnone =>
    obtain rfl := Option.some.inj h
    have hnone : c.url name = none := by simpa using hnone
    have hfind : c.remotes.find? (fun r => r.name = name) = none := by
      simpa [Client.url] using hnone
    refine ⟨hnone, rfl, ?_, fun other hne => ?_⟩
    · simp [Client.url, List.find?_append, hfind]
    · simp [Client.url, List.find?_append, hne.symm]

theorem Client.url_of_switch (h : c.switch name = some c') :
    (c.url name).isSome ∧ c'.current = name ∧ c'.url = c.url := by
  unfold Client.switch at h
  split at h
  · next hsome =>
    obtain rfl := Option.some.inj h
    exact ⟨hsome, rfl, rfl⟩
  · simp at h

end Client

end Incus

/-- Is the remote among the lines of the listing? -/
def remoteExists (remoteListCsv remoteName : Text) : Bool :=
  (lines remoteListCsv).any fun line =>
    let name := trimEndMatches " (current)".toList (trim ((line.splitOn ',').headD []))
    !name.isEmpty && !eqIgnoreAsciiCase name "name".toList && name == remoteName

end Malleus
