import Malleus.PkiRecovery

/-! A first call that fails, and the call after it.

Nothing is taken away when a call stops between two writes, and the files it leaves
are refused from then on. `retry_returns` says after which failures the next call
succeeds all the same, and `key_write_strands` shows one after which none ever does. -/
namespace Malleus.Pki
open Effect Strings Storage

/-- The call stops before there is any file, or within the last write, in what it has
written of the server key a text. -/
def Recoverable (env : PkiEnv) : Prop :=
  env.fault .createDir ≠ .none ∨ (∀ m, ¬ Generates env m) ∨ (env.fault (.write .clientCert)).Prevents ∨
    (ReachesServerKey env ∧ ∃ m n, Generates env m ∧
      (env.fault (.write .serverKey)).progress = some n ∧
      (decode ((encode m.server.keyPem).take n)).isSome = true)

/-- The next call has a clean directory, or four files that it can read. -/
def Usable (d : StateDisk) : Prop := Absent d ∨ ∃ m, Reads d m

section Retry
variable {env : PkiEnv} {dir : Text} {d : StateDisk} {m : PkiMaterial}

/-- A call without faults succeeds exactly on a usable directory. -/
theorem returns_iff (hfault : ∀ site, env.fault site = .none) (hm : Generates env m) :
    (∃ m', (loadOrCreate env dir d).1 = .ok m') ↔ Usable d := by
  constructor
  · intro ⟨m', hok⟩
    have hends : Ends (loadOrCreate env dir) d (fun _ _ => Usable d) (fun _ => True) :=
      ends_loadOrCreate (fun m hm => Or.inr ⟨m, hm⟩) (fun _ _ habsent _ _ => Or.inl habsent) trivial
        (fun _ _ _ => trivial) fun _ _ _ _ _ _ _ _ => trivial
    exact hends.of_ok (Prod.ext hok rfl)
  · intro h
    cases h with
    | inl habsent => exact ⟨m, by rw [loadOrCreate_creates hfault habsent hm]⟩
    | inr hreads =>
      obtain ⟨m', hm'⟩ := hreads
      exact ⟨m', by rw [loadOrCreate_reads hfault hm']⟩

/-- One file that is there and one that is missing: the next call refuses. -/
theorem not_usable {f g : File} (hf : f ∈ pkiPaths) (hthere : (d.file f).isSome = true)
    (hg : g ∈ pkiPaths) (hmissing : d.file g = none) : ¬ Usable d := by
  intro h
  cases h with
  | inl habsent =>
    rw [habsent f hf] at hthere
    cases hthere
  | inr hreads =>
    obtain ⟨m', hm'⟩ := hreads
    exact hm'.not_missing ⟨g, hg, hmissing⟩

/-- Once the first file cannot be missed, only a tear in the last one leaves something to go on
with: the three before it are whole. -/
theorem recoverable_iff_last (hdir : env.fault .createDir = .none) (hm : Generates env m)
    (hcert : ¬ (env.fault (.write .clientCert)).Prevents) :
    Recoverable env ↔ ReachesServerKey env ∧ ∃ n, (env.fault (.write .serverKey)).progress = some n ∧
      (decode ((encode m.server.keyPem).take n)).isSome = true := by
  constructor
  · intro h
    obtain h | h | h | ⟨hreach, m', n, hm', hn, hdecodes⟩ := h
    · exact absurd hdir h
    · exact absurd hm (h m)
    · exact absurd h hcert
    · rw [hm'.unique hm] at hdecodes
      exact ⟨hreach, n, hn, hdecodes⟩
  · intro ⟨hreach, n, hn, hdecodes⟩
    exact Or.inr (Or.inr (Or.inr ⟨hreach, m, n, hm, hn, hdecodes⟩))

/-- With the client's certificate there and the server key missing, a call is stuck. -/
theorem stuck (hcert : (d.file .clientCert).isSome = true) (hkey : d.file .serverKey = none)
    (hr : ¬ Recoverable env) : Usable d ↔ Recoverable env :=
  iff_of_false (not_usable (by decide) hcert (by decide) hkey) hr

/-- Four files with a server key cut short are usable if what there is of it is a text. -/
theorem usable_persist {key : Bytes} {d' : StateDisk}
    (hcc : d'.file .clientCert = some (encode m.client.certPem))
    (hck : d'.file .clientKey = some (encode m.client.keyPem))
    (hsc : d'.file .serverCert = some (encode m.server.certPem)) (hsk : d'.file .serverKey = some key) :
    Usable d' ↔ (decode key).isSome = true := by
  constructor
  · intro h
    cases h with
    | inl habsent =>
      rw [habsent .clientCert (by decide)] at hcc
      cases hcc
    | inr hreads =>
      obtain ⟨m', hm'⟩ := hreads
      have hkey := hm'.serverKey
      rw [hsk, Option.bind_some] at hkey
      rw [hkey]
      rfl
  · intro h
    obtain ⟨t, ht⟩ := Option.isSome_iff_exists.mp h
    refine Or.inr ⟨⟨m.client, ⟨m.server.certPem, t⟩⟩, ?_, ?_, ?_, ?_⟩
    · rw [hcc, Option.bind_some, decode_encode]
    · rw [hck, Option.bind_some, decode_encode]
    · rw [hsc, Option.bind_some, decode_encode]
    · rw [hsk, Option.bind_some, ht]

/-- The four writes, from a directory without the files. -/
theorem ends_firstWrites (h : Absent d) (hthere : d.dir .pkiDir = true)
    (hdir : env.fault .createDir = .none) (hm : Generates env m) :
    Ends (do
      writeIdentity env .clientCert .clientKey m.client
      writeIdentity env .serverCert .serverKey m.server
      pure m : Do PkiMaterial) d (fun _ _ => True) (fun d' => Usable d' ↔ Recoverable env) := by
  have hkey : d.file .serverKey = none := h _ (by decide)
  rw [ends_bind, writeIdentity, ends_bind, io, ends_mapError]
  refine ends_write_of_dir hthere (fun hcc => ?_) (fun hcc hprogress => ?_) fun n hn => ?_
  · have hcert : ¬ (env.fault (.write .clientCert)).Prevents := fun hp => hp.1 hcc
    have hlast := recoverable_iff_last hdir hm hcert
    have hnever : ¬ ReachesServerKey env → ¬ Recoverable env := fun hreach hr => hreach (hlast.mp hr).1
    rw [io, ends_mapError]
    refine ends_write_of_dir hthere (fun hck => ?_) (fun hck _ => ?_) fun n hn => ?_
    · rw [ends_bind, writeIdentity, ends_bind, io, ends_mapError]
      refine ends_write_of_dir hthere (fun hsc => ?_) (fun hsc _ => ?_) fun n hn => ?_
      · rw [io, ends_mapError]
        have hreach : ReachesServerKey env := ⟨hdir, hcc, hck, hsc⟩
        refine ends_write_of_dir hthere (fun _ => trivial) (fun _ hprogress => ?_) fun n hn => ?_
        · refine stuck (by simp) (by simp [hkey]) fun hr => ?_
          obtain ⟨-, n, hn, -⟩ := hlast.mp hr
          rw [hprogress] at hn
          cases hn
        · rw [hlast, usable_persist (m := m) (by simp) (by simp) (by simp) (Disk.put_self ..)]
          constructor
          · exact fun hdecodes => ⟨hreach, n, hn, hdecodes⟩
          · intro hreached
            obtain ⟨_, n', hn', hdecodes⟩ := hreached
            obtain rfl : n = n' := Option.some.inj (hn.symm.trans hn')
            exact hdecodes
      · exact stuck (by simp) (by simp [hkey]) (hnever fun hreach => hsc hreach.serverCert)
      · refine stuck (by simp) (by simp [hkey]) (hnever fun hreach => ?_)
        rw [hreach.serverCert] at hn
        cases hn
    · exact stuck (by simp) (by simp [hkey]) (hnever fun hreach => hck hreach.clientKey)
    · refine stuck (by simp) (by simp [hkey]) (hnever fun hreach => ?_)
      rw [hreach.clientKey] at hn
      cases hn
  · exact iff_of_true (Or.inl h) (Or.inr (Or.inr (Or.inl ⟨hcc, hprogress⟩)))
  · have hcert : ¬ (env.fault (.write .clientCert)).Prevents := by
      intro hp
      rw [hp.2] at hn
      cases hn
    refine stuck (by simp) (by simp [hkey]) fun hr => ?_
    rw [((recoverable_iff_last hdir hm hcert).mp hr).1.clientCert] at hn
    cases hn

/-- Wherever a first call stops, what it leaves is usable exactly if the failure is
one of those. -/
theorem ends_first (h : Absent d) : Ends (loadOrCreate env dir) d (fun _ _ => True)
    (fun d' => Usable d' ↔ Recoverable env) := by
  have hclean : ∀ ds, Recoverable env → (Usable (d.mkdirs ds) ↔ Recoverable env) :=
    fun ds hr => iff_of_true (Or.inl h) hr
  unfold loadOrCreate
  rw [ends_bind, ends_of_eq (maybeLoad_absent h)]
  dsimp only
  rw [ends_bind, io, ends_mapError]
  refine ends_createDirAll (fun hdir => ?_) fun hdir ds => hclean ds (Or.inl hdir)
  rw [ends_bind, generateIdentity]
  cases hclient : env.generate "malleus-client".toList 1 with
  | error e =>
    refine hclean _ (Or.inr (Or.inl fun m hm => ?_))
    rw [hm.1] at hclient
    cases hclient
  | ok client =>
    dsimp only
    rw [ends_pure, ends_bind, generateIdentity]
    cases hserver : env.generate "malleus-server".toList 2 with
    | error e =>
      refine hclean _ (Or.inr (Or.inl fun m hm => ?_))
      rw [hm.2] at hserver
      cases hserver
    | ok server =>
      have hm : Generates env ⟨client, server⟩ := ⟨hclient, hserver⟩
      have habsent : Absent (d.mkdirs (Tree.path File Dir.pkiDir)) := h
      have hthere : (d.mkdirs (Tree.path File Dir.pkiDir)).dir .pkiDir = true :=
        Disk.mkdirs_dir _ (by decide)
      dsimp only
      rw [ends_pure]
      have hwrites := ends_firstWrites habsent hthere hdir hm
      exact hwrites

/-- **After a first call that failed, the next one without faults succeeds exactly when
the failure came before the first file, or within the last one at the end of a
character**: any other leaves the directory refused. -/
theorem retry_returns {first second : PkiEnv} (h : Absent d)
    (hfailed : ∀ m, (loadOrCreate first dir d).1 ≠ .ok m)
    (hfault : ∀ site, second.fault site = .none) (hm : Generates second m) :
    (∃ m', (loadOrCreate second dir (after dir d first)).1 = .ok m') ↔ Recoverable first := by
  rw [returns_iff hfault hm]
  have hfirst : Ends (loadOrCreate first dir) d (fun _ _ => True)
      (fun d' => Usable d' ↔ Recoverable first) := ends_first h
  obtain ⟨-, herror, hkilled⟩ := ends_iff.mp hfirst
  cases hrun : loadOrCreate first dir d with
  | mk outcome d' =>
    have hafter : after dir d first = d' := by rw [after, hrun]
    rw [hafter]
    cases outcome with
    | ok m' => exact absurd (by rw [hrun]) (hfailed m')
    | error e => exact herror e d' hrun
    | killed => exact hkilled d' hrun

/-- What no call without faults can use, no call changes. -/
theorem ends_unusable (h : ¬ Usable d) :
    Ends (loadOrCreate env dir) d (fun _ _ => False) (fun d' => d' = d) := by
  have habsent : ¬ Absent d := fun ha => h (Or.inl ha)
  exact ends_loadOrCreate (fun m hm => h (Or.inr ⟨m, hm⟩)) (fun _ _ ha _ _ => habsent ha) rfl
    (fun _ ha _ => absurd ha habsent) fun _ _ _ ha _ _ _ _ => absurd ha habsent

/-- A directory that is refused once is refused for ever. -/
theorem unusable_for_ever (h : ¬ Usable d) (calls : List PkiEnv) (m : PkiMaterial) :
    (loadOrCreate env dir (Runs.run (after dir) d calls)).1 ≠ .ok m := by
  have hsame : Runs.run (after dir) d calls = d := by
    have hstep : ∀ d' call, d' = d → True → after dir d' call = d := by
      intro d' call hd' _
      rw [hd']
      have hends : Ends (loadOrCreate call dir) d (fun _ _ => False) (fun d' => d' = d) := ends_unusable h
      exact (hends.mono (fun _ _ hf => hf.elim) fun _ hq => hq).final
    exact Runs.run_invariant hstep rfl (Runs.along_of_forall fun _ _ _ => trivial)
  rw [hsame]
  intro hok
  have hends : Ends (loadOrCreate env dir) d (fun _ _ => False) (fun d' => d' = d) := ends_unusable h
  exact hends.of_ok (Prod.ext hok rfl)

end Retry

/-- A first call without a directory to write to, and the call after it. -/
def noDirectory : PkiEnv :=
  {noFault with fault := fun site => if site = .createDir then .fails none else .none}

theorem noFault_generates : Generates noFault
    ⟨⟨"CLIENT CERT".toList, "CLIENT KEY".toList⟩, ⟨"SERVER CERT".toList, "SERVER KEY".toList⟩⟩ :=
  ⟨by decide, by decide⟩

theorem directory_retried : ∃ m,
    (loadOrCreate noFault "pki".toList (after "pki".toList noFiles noDirectory)).1 = .ok m := by
  have hfailed : ∀ m, (loadOrCreate noDirectory "pki".toList noFiles).1 ≠ .ok m := by
    intro m hok
    have herror : (loadOrCreate noDirectory "pki".toList noFiles).1 = .error (.io .failed) := by
      decide +kernel
    rw [herror] at hok
    cases hok
  exact (retry_returns (fun _ _ => rfl) hfailed (fun _ => rfl) noFault_generates).mpr
    (Or.inl (by decide))

/-- A call that cannot write the client's key. -/
def noKey : PkiEnv :=
  {noFault with fault := fun site => if site = .write .clientKey then .fails none else .none}

/-- The next call finds the certificate alone and refuses it, and no later one succeeds. -/
theorem key_write_strands :
    (loadOrCreate noKey "pki".toList noFiles).1 = .error (.io .failed) ∧
      (loadOrCreate noFault "pki".toList (after "pki".toList noFiles noKey)).1 =
        .error (.incompleteMaterial "pki".toList) ∧
      ∀ calls last m, (loadOrCreate last "pki".toList
        (Runs.run (after "pki".toList) (after "pki".toList noFiles noKey) calls)).1 ≠ .ok m := by
  refine ⟨by decide +kernel, by decide +kernel, fun calls last m => unusable_for_ever ?_ calls m⟩
  have hcert : ((after "pki".toList noFiles noKey).file .clientCert).isSome = true := by decide +kernel
  have hkey : (after "pki".toList noFiles noKey).file .serverKey = none := by decide +kernel
  exact not_usable (by decide) hcert (by decide) hkey

end Malleus.Pki
