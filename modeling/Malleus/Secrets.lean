import Mathlib.Data.List.Forall2
import Malleus.Observation

/-! The client's private key, which nothing shows but the files that hold it.

Two machines may differ in the key that is in `client.key`, in what incus directories have
as its copy, and in the keys that starts generate. `client_key_is_hidden` says that no
command tells them apart: it replies the same on both, and the disks, what vfkit and incus
are told, and the history stay the same but for the key itself. -/
namespace Malleus.Secrets
open Effect Strings Storage Observation

/-! ### Disks that differ in the key -/

/-- The key, and its copies. -/
def holdsKey : File → Bool
  | .clientKey | .confClientKey _ => true
  | _ => false

/-- The bytes are text, as `read_to_string` asks. -/
def readable (b : Bytes) : Bool := (decode b).isSome

/-- Two disks that agree but for the client's private key: its file and its copies are there on
both or on neither, and are text on both or on neither. -/
structure Veiled (d d' : StateDisk) : Prop where
  file : ∀ f, holdsKey f = false → d.file f = d'.file f
  dir : d.dir = d'.dir
  there : ∀ f, holdsKey f = true → (d.file f).isSome = (d'.file f).isSome
  text : (d.file .clientKey).map readable = (d'.file .clientKey).map readable

section Veiled
variable {d d' : StateDisk}

/-- The key is put on both disks, or the same bytes in any other file. -/
theorem veiled_put (h : Veiled d d') {f : File} {b b' : Bytes} (hsame : holdsKey f = false → b = b')
    (htext : f = .clientKey → readable b = readable b') : Veiled (d.put f b) (d'.put f b') := by
  have hkey : ∀ g, holdsKey g = true → (((d.put f b).file g).isSome = ((d'.put f b').file g).isSome) := by
    intro g hg
    by_cases hgf : g = f
    · rw [hgf, Disk.put_self, Disk.put_self]
      rfl
    · rw [Disk.put_of_ne d hgf, Disk.put_of_ne d' hgf]
      exact h.there g hg
  refine ⟨fun g hg => ?_, h.dir, hkey, ?_⟩
  · by_cases hgf : g = f
    · rw [hgf, Disk.put_self, Disk.put_self, hsame (hgf ▸ hg)]
    · rw [Disk.put_of_ne d hgf, Disk.put_of_ne d' hgf]
      exact h.file g hg
  · by_cases hf : File.clientKey = f
    · rw [hf, Disk.put_self, Disk.put_self, Option.map_some, Option.map_some, htext hf.symm]
    · rw [Disk.put_of_ne d hf, Disk.put_of_ne d' hf]
      exact h.text

theorem veiled_erase (h : Veiled d d') (f : File) : Veiled (d.erase f) (d'.erase f) := by
  have herase : ∀ {α : Type} (p : Option Bytes → α) (g : File), p (d.file g) = p (d'.file g) →
      p ((d.erase f).file g) = p ((d'.erase f).file g) := by
    intro α p g hg
    by_cases hgf : g = f
    · rw [hgf, Disk.erase_self, Disk.erase_self]
    · rwa [Disk.erase_of_ne d hgf, Disk.erase_of_ne d' hgf]
  exact ⟨fun g hg => herase id g (h.file g hg), h.dir, fun g hg => herase Option.isSome g (h.there g hg),
    herase (Option.map readable) _ h.text⟩

theorem veiled_eraseTree (h : Veiled d d') (files : File → Bool) (dirs : Dir → Bool) :
    Veiled (d.eraseTree files dirs) (d'.eraseTree files dirs) := by
  have herase : ∀ {α : Type} (p : Option Bytes → α) (g : File), p (d.file g) = p (d'.file g) →
      p ((d.eraseTree files dirs).file g) = p ((d'.eraseTree files dirs).file g) := by
    intro α p g hg
    show p (if files g then none else d.file g) = p (if files g then none else d'.file g)
    split
    · rfl
    · exact hg
  refine ⟨fun g hg => herase id g (h.file g hg), ?_, fun g hg => herase Option.isSome g (h.there g hg),
    herase (Option.map readable) _ h.text⟩
  show (fun x => d.dir x && !dirs x) = fun x => d'.dir x && !dirs x
  rw [h.dir]

theorem veiled_mkdirs (h : Veiled d d') (ds : List Dir) : Veiled (d.mkdirs ds) (d'.mkdirs ds) := by
  refine ⟨h.file, ?_, h.there, h.text⟩
  show (fun x => d.dir x || decide (x ∈ ds)) = fun x => d'.dir x || decide (x ∈ ds)
  rw [h.dir]

end Veiled

theorem hidden_of_shown {f : File} (h : Shown f) : holdsKey f = false := by
  obtain ⟨hstate, hkey⟩ := h
  cases f with
  | clientKey => exact absurd rfl hkey
  | confClientKey conf => cases hstate
  | _ => rfl

theorem veiled_view : View Shown Veiled where
  file h f hf := h.file f (hidden_of_shown hf)
  dir h := h.dir
  put h _ _ := veiled_put h (fun _ => rfl) fun _ => rfl
  erase h f := veiled_erase h f
  eraseTree h files dirs := veiled_eraseTree h files dirs
  mkdirs h ds := veiled_mkdirs h ds

/-! ### The commands on the key -/

/-- The key itself is all that reading it does not agree on. -/
theorem relates_readKey (fault : Fault) : Relates Veiled (fun b b' => readable b = readable b')
    (readFile fault .clientKey : Cmd StateDisk IoError Bytes) (readFile fault .clientKey) := by
  have hfound : Relates Veiled (fun found found' => found.map readable = found'.map readable)
      (Cmd.gets fun d => d.file .clientKey : Cmd StateDisk IoError (Option Bytes))
      (Cmd.gets fun d => d.file .clientKey) := relates_gets fun d d' h => h.text
  refine relates_bind_eq (respects_stage fault _ (fun _ _ _ h => h) fun _ _ h => h) fun _ => ?_
  refine relates_bind hfound fun found found' hfound => ?_
  cases found with
  | none =>
    cases found' with
    | none => exact relates_fail _
    | some b => cases hfound
  | some b =>
    cases found' with
    | none => cases hfound
    | some b' => exact relates_pure (Option.some.inj hfound)

/-- Reading the key succeeds on both disks or on neither. -/
theorem relates_readKeyText (fault : Fault) : Relates Veiled (fun _ _ => True)
    (readToString fault .clientKey : Cmd StateDisk IoError Text) (readToString fault .clientKey) := by
  refine relates_bind (relates_readKey fault) fun b b' hb => ?_
  unfold readable at hb
  cases hd : decode b with
  | none =>
    rw [hd, Option.isSome_none, eq_comm, Option.isSome_eq_false_iff, Option.isNone_iff_eq_none] at hb
    rw [hb]
    exact relates_fail _
  | some t =>
    rw [hd, Option.isSome_some, eq_comm, Option.isSome_iff_exists] at hb
    obtain ⟨t', ht'⟩ := hb
    rw [ht']
    exact relates_pure trivial

theorem respects_copyKey (fault : Fault) (conf : Text) :
    Respects Veiled (copy fault .clientKey (.confClientKey conf) : Cmd StateDisk IoError Unit) := by
  refine relates_bind (relates_readKey .none) fun b b' _ => ?_
  have hput : ∀ c c' : Bytes, ∀ d d', Veiled d d' →
      Veiled (d.put (.confClientKey conf) c) (d'.put (.confClientKey conf) c') :=
    fun c c' d d' h => veiled_put h (fun hno => nomatch hno) fun hno => nomatch hno
  exact relates_write veiled_view (fun n => hput _ _) (hput _ _)

/-! ### Keys that are generated -/

/-- The same identities, but for a client key in ASCII, as PEM texts are. -/
structure Rekeyed (env env' : PkiEnv) : Prop where
  fault : env.fault = env'.fault
  server : env.generate "malleus-server".toList 2 = env'.generate "malleus-server".toList 2
  client : env.generate "malleus-client".toList 1 = env'.generate "malleus-client".toList 1 ∨
    ∃ cert key key', env.generate "malleus-client".toList 1 = .ok ⟨cert, key⟩ ∧
      env'.generate "malleus-client".toList 1 = .ok ⟨cert, key'⟩ ∧
      (∀ c ∈ key, c.toNat < 128) ∧ ∀ c ∈ key', c.toNat < 128

/-- A part of a text in ASCII is a text. -/
theorem readable_take {key : Text} (h : ∀ c ∈ key, c.toNat < 128) (n : Nat) :
    readable ((encode key).take n) = true := by
  rw [take_encode h, readable, decode_encode]
  rfl

/-- Any part of such a key can be read. -/
theorem relates_writeKey {key key' : Text} (h : ∀ c ∈ key, c.toNat < 128) (h' : ∀ c ∈ key', c.toNat < 128)
    (fault : Fault) : Relates Veiled Eq
      (write fault .clientKey (encode key) : Cmd StateDisk IoError Unit)
      (write fault .clientKey (encode key')) := by
  have hwhole : readable (encode key) = readable (encode key') := by
    rw [readable, readable, decode_encode, decode_encode]
    rfl
  refine relates_write veiled_view (fun n d d' hd => ?_) fun d d' hd => ?_
  · exact veiled_put hd (fun hno => nomatch hno) fun _ => by rw [readable_take h, readable_take h']
  · exact veiled_put hd (fun hno => nomatch hno) fun _ => hwhole

theorem relates_client {env env' : PkiEnv} (h : Rekeyed env env') : Relates Veiled (SameButKey Veiled)
    (Pki.generateIdentity env "malleus-client".toList 1)
    (Pki.generateIdentity env' "malleus-client".toList 1) := by
  unfold Pki.generateIdentity
  obtain hsame | ⟨cert, key, key', hkey, hkey', hascii, hascii'⟩ := h.client
  · rw [hsame]
    cases env'.generate "malleus-client".toList 1 with
    | ok identity => exact relates_pure ⟨rfl, fun fault => respects_write veiled_view _ _⟩
    | error e => exact relates_fail e
  · rw [hkey, hkey']
    exact relates_pure ⟨rfl, relates_writeKey hascii hascii'⟩

/-- The veil is a view that all commands respect. -/
theorem veiled_observer : Observer Veiled Rekeyed where
  toView := veiled_view
  keyThere h := h.there .clientKey rfl
  reads := relates_readKeyText
  copies := respects_copyKey
  faults h := h.fault
  client := relates_client
  server {env env'} h := by
    unfold Pki.generateIdentity
    rw [h.server]
    cases env'.generate "malleus-server".toList 2 with
    | ok identity => exact relates_pure rfl
    | error e => exact relates_fail e

/-- **The client's key is hidden**: on machines that differ only in it, and whose starts
generate different ones, every command of any run gives the same reply, and afterwards the
processes, the incus clients, the history and every file but the key and its copies are
the same. -/
theorem client_key_is_hidden {host : Host} {w w' : World} {inputs inputs' : List Input}
    (hinputs : List.Forall₂ (Counterpart Rekeyed) inputs inputs') (h : Alike Veiled True w w') :
    replies host w inputs = replies host w' inputs' ∧
      Alike Veiled True (run host w inputs) (run host w' inputs') :=
  alike_run veiled_observer hinputs h

/-- The identities of `booting`, with another client key. -/
def otherKey : PkiEnv where
  generate name _ :=
    if name = "malleus-client".toList then
      .ok ⟨material.client.certPem, armoured "PRIVATE KEY".toList ["OTHER".toList]⟩
    else .ok material.server
  fault _ := .none

/-- vfkit is told the same with either key. -/
theorem client_key_is_hidden_booted :
    (run laptop nothing [.start (booting 100)]).log =
      (run laptop nothing [.start {booting 100 with pki := otherKey}]).log := by
  have hascii : ∀ name ∈ ["CLIENT".toList, "OTHER".toList],
      (armoured "PRIVATE KEY".toList [name]).all (fun c => c.toNat < 128) = true := by decide
  have hkey : ∀ name ∈ ["CLIENT".toList, "OTHER".toList],
      ∀ c ∈ armoured "PRIVATE KEY".toList [name], c.toNat < 128 :=
    fun name hname c hc => of_decide_eq_true (List.all_eq_true.mp (hascii name hname) c hc)
  have hkeys : Rekeyed (booting 100).pki otherKey :=
    ⟨rfl, by rfl, Or.inr ⟨_, _, _, rfl, rfl, hkey _ (by simp), hkey _ (by simp)⟩⟩
  have hsame : Alike Veiled True nothing nothing :=
    ⟨⟨fun _ _ => rfl, rfl, fun _ _ => rfl, rfl⟩, rfl, rfl, rfl, fun _ => rfl⟩
  exact (client_key_is_hidden (.cons (.start (booting 100) hkeys) .nil) hsame).2.log trivial

end Malleus.Secrets
