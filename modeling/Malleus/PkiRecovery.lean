import Malleus.Library.Runs
import Malleus.Pki

/-! Key material across interrupted calls.

`load_or_create` writes four files one after the other and loads them whenever
all four are there. A call that stops before the fourth write leaves the server
key missing, which every later call notices. Inside the fourth write there is
nothing to notice: `returns_generated` says that calls return exactly what was
generated as long as no call leaves the server key behind in part, and
`torn_server_key` is what happens otherwise. -/
namespace Malleus.Pki
open Effect Strings Storage

/-- The directory after one call. -/
def after (dir : Text) (d : StateDisk) (env : PkiEnv) : StateDisk := (loadOrCreate env dir d).2

/-- A call that gets to writing the server key and stops there has not begun or
has finished. -/
def WholeKey (d : StateDisk) (env : PkiEnv) : Prop :=
  Absent d → ReachesServerKey env → ∀ m n, Generates env m →
    (env.fault (.write .serverKey)).progress = some n → (encode m.server.keyPem).length ≤ n

/-- Some file is missing, or the four hold what one of the calls generated. -/
def Sound (calls : List PkiEnv) (d : StateDisk) : Prop :=
  Missing d ∨ ∃ env ∈ calls, ∃ m, Generates env m ∧ Holds d m

theorem Sound.mono {calls calls' : List PkiEnv} {d : StateDisk} (h : Sound calls d)
    (hs : ∀ env ∈ calls, env ∈ calls') : Sound calls' d := by
  rcases h with hm | ⟨env, hmem, m, hg, hh⟩
  · exact Or.inl hm
  · exact Or.inr ⟨env, hs env hmem, m, hg, hh⟩

/-- What a sound directory reads as was generated by one of the calls. -/
theorem Sound.generates {calls : List PkiEnv} {d : StateDisk} {m : PkiMaterial} (h : Sound calls d)
    (hm : Reads d m) : ∃ env ∈ calls, Generates env m := by
  rcases h with hmissing | ⟨env, henv, m', hg, hh⟩
  · exact absurd hmissing hm.not_missing
  · exact ⟨env, henv, hh.eq_of_reads hm ▸ hg⟩

/-- One call keeps the directory sound unless it cuts the server key short, and
what it returns was generated by it or by an earlier call. -/
theorem sound_loadOrCreate (dir : Text) {calls : List PkiEnv} {d : StateDisk} (hd : Sound calls d)
    (env : PkiEnv) :
    Ends (loadOrCreate env dir) d
      (fun m d' => Sound (calls ++ [env]) d' ∧ ∃ e ∈ calls ++ [env], Generates e m)
      (fun d' => WholeKey d env → Sound (calls ++ [env]) d') := by
  have hlast : env ∈ calls ++ [env] := by simp
  have hkept : Sound (calls ++ [env]) d := hd.mono fun e he => List.mem_append_left _ he
  refine ends_loadOrCreate ?_ ?_ (fun _ => hkept) ?_ ?_
  · intro m hm
    exact ⟨hkept, hkept.generates hm⟩
  · intro m d' _ hg hh
    exact ⟨Or.inr ⟨env, hlast, m, hg, hh⟩, env, hlast, hg⟩
  · intro d' _ hkey _
    exact Or.inl ⟨.serverKey, by decide, hkey⟩
  · intro m d' n habsent hreach hg hn hh hwhole
    exact Or.inr ⟨env, hlast, m, hg, hh (hwhole habsent hreach m n hg hn)⟩

/-- Any number of calls keeps the directory sound. -/
theorem sound_run (dir : Text) {past : List PkiEnv} {d : StateDisk} (hd : Sound past d)
    {calls : List PkiEnv} (hwhole : Runs.Along (after dir) WholeKey d calls) :
    Sound (past ++ calls) (Runs.run (after dir) d calls) := by
  induction calls generalizing past d with
  | nil => simpa using hd
  | cons env calls ih =>
    obtain ⟨henv, hrest⟩ := hwhole
    have hstep : Sound (past ++ [env]) (after dir d env) :=
      ((sound_loadOrCreate dir hd env).mono (fun _ _ h => h.1) fun _ h => h henv).final
    have := ih hstep hrest
    rwa [List.append_assoc, List.singleton_append] at this

/-- **Whatever fails, calls return whole generated material**, as long as no call
stops inside the write of the server key: both identities come from one call's
generation, this one's or an earlier one's. -/
theorem returns_generated (dir : Text) (d : StateDisk) (hd : Absent d) (calls : List PkiEnv)
    (hwhole : Runs.Along (after dir) WholeKey d calls) (last : PkiEnv) (m : PkiMaterial)
    (hok : (loadOrCreate last dir (Runs.run (after dir) d calls)).1 = .ok m) :
    ∃ env ∈ calls ++ [last], Generates env m := by
  have hstart : Sound [] d := Or.inl hd.missing
  have hprev := sound_run dir hstart hwhole
  exact ((sound_loadOrCreate dir hprev last).of_ok (Prod.ext hok rfl)).2

/-! ### A key cut short -/

/-- A generation, with the process killed after three bytes of the server key. -/
def tornKey : PkiEnv where
  generate name _ :=
    if name = "malleus-client".toList then .ok ⟨"CLIENT CERT".toList, "CLIENT KEY".toList⟩
    else .ok ⟨"SERVER CERT".toList, "SERVER KEY".toList⟩
  fault site := if site = .write .serverKey then .kills (some 3) else .none

def noFault : PkiEnv := {tornKey with fault := fun _ => .none}

/-- The next call takes the three bytes for the server's key. -/
theorem torn_server_key : ∃ m, (loadOrCreate noFault "pki".toList
      (Runs.run (after "pki".toList) noFiles [tornKey])).1 = .ok m ∧
    ¬ ∃ env ∈ [tornKey, noFault], Generates env m := by
  refine ⟨⟨⟨"CLIENT CERT".toList, "CLIENT KEY".toList⟩, ⟨"SERVER CERT".toList, "SER".toList⟩⟩,
    by decide +kernel, ?_⟩
  intro hgenerates
  obtain ⟨env, henv, _, hserver⟩ := hgenerates
  have henv : env.generate = tornKey.generate := by
    rcases List.mem_cons.mp henv with rfl | henv
    · rfl
    · rw [List.mem_singleton.mp henv]
      rfl
  rw [henv] at hserver
  revert hserver
  decide +kernel

/-- Two calls without faults: the second returns what the first generated. -/
theorem returns_generated_twice : ∃ env ∈ [noFault] ++ [noFault], Generates env
    ⟨⟨"CLIENT CERT".toList, "CLIENT KEY".toList⟩, ⟨"SERVER CERT".toList, "SERVER KEY".toList⟩⟩ :=
  returns_generated "pki".toList noFiles (fun _ _ => rfl) [noFault]
    ⟨fun _ _ _ _ _ hn => by simp [noFault, Fault.progress] at hn, trivial⟩ noFault _
    (by decide +kernel)

end Malleus.Pki
