import Mathlib.Logic.Function.Basic
import Malleus.Library.Effect
import Malleus.Library.Strings

/-! A disk as the standard library's file functions see it.

Files are byte strings under names `F`, each in one of the directories `D`
(`Tree`). Every operation takes the `Fault` it meets: it may fail, or the process
may be killed, before, half way through or after its effect on the disk. What is
left of a half-done write is a prefix, and of a half-done resize a length on the
way to the new one. The `ends_` rules say where each operation can leave the
disk, and `Only S` is the frame: no file outside `S` was touched. -/
namespace Storage
open Effect
open Strings (Text)

abbrev Bytes := List UInt8

/-! ### Text in files -/

/-- A text in UTF-8. -/
def encode (t : Text) : Bytes := t.flatMap String.utf8EncodeChar

/-- The text of the bytes, if they are valid UTF-8. -/
def decode (b : Bytes) : Option Text := b.toByteArray.utf8Decode?.map Array.toList

@[simp] theorem decode_encode (t : Text) : decode (encode t) = some t := by
  have h : (encode t).toByteArray.utf8Decode? = some t.toArray :=
    List.utf8Decode?_utf8Encode (l := t)
  simp [decode, h]

theorem utf8_ascii {c : Char} (h : c.toNat < 128) : String.utf8EncodeChar c = [c.toNat.toUInt8] := by
  have hle : c.val.toNat ≤ 0x7f := Nat.le_of_lt_succ h
  rw [String.utf8EncodeChar]
  simp only [hle, if_true]
  rfl

theorem encode_ascii {t : Text} (h : ∀ c ∈ t, c.toNat < 128) :
    encode t = t.map fun c => c.toNat.toUInt8 := by
  induction t with
  | nil => rfl
  | cons c t ih =>
    have hc : String.utf8EncodeChar c = [c.toNat.toUInt8] := utf8_ascii (h c (List.mem_cons_self ..))
    rw [encode, List.flatMap_cons, hc, List.map_cons, ← ih fun d hd => h d (List.mem_cons_of_mem c hd)]
    rfl

/-- Text of one byte a character is cut off between two characters. -/
theorem take_encode {t : Text} (h : ∀ c ∈ t, c.toNat < 128) (n : Nat) :
    (encode t).take n = encode (t.take n) := by
  rw [encode_ascii h, encode_ascii fun c hc => h c (List.mem_of_mem_take hc), List.map_take]

/-- The ranges of the bytes that follow a lead byte, if it is one. -/
def followers (lead : UInt8) : Option (List (UInt8 × UInt8)) :=
  if lead < 0x80 then some []
  else if lead < 0xC2 then none
  else if lead < 0xE0 then some [(0x80, 0xBF)]
  else if lead < 0xF0 then
    some [(if lead = 0xE0 then 0xA0 else 0x80, if lead = 0xED then 0x9F else 0xBF), (0x80, 0xBF)]
  else if lead < 0xF5 then
    some [(if lead = 0xF0 then 0x90 else 0x80, if lead = 0xF4 then 0x8F else 0xBF), (0x80, 0xBF),
      (0x80, 0xBF)]
  else none

/-- How many of the following bytes are there as they should be. -/
def following : List (UInt8 × UInt8) → Bytes → Nat
  | (lo, hi) :: ranges, b :: rest => if lo ≤ b ∧ b ≤ hi then following ranges rest + 1 else 0
  | _, _ => 0

/-- A character from its lead byte and the bytes that follow. -/
def assemble (lead : UInt8) (rest : Bytes) : Char :=
  let payload := if rest = [] then lead.toNat else lead.toNat % Nat.pow 2 (6 - rest.length)
  Char.ofNat (rest.foldl (fun n b => 64 * n + b.toNat % 64) payload)

/-- `String::from_utf8_lossy`: every longest piece of a malformed sequence becomes U+FFFD. -/
def fromUtf8Lossy (b : Bytes) : Text := go b.length b
where
  go : Nat → Bytes → Text
    | fuel + 1, lead :: rest =>
      match followers lead with
      | none => '\uFFFD' :: go fuel rest
      | some ranges =>
        let n := following ranges rest
        (if n = ranges.length then assemble lead (rest.take n) else '\uFFFD') :: go fuel (rest.drop n)
    | _, _ => []

/-! ### Disks -/

/-- Where files live: the directory of a file, and a directory with those above
it, outermost first. -/
class Tree (F : Type) (D : outParam Type) where
  parent : F → D
  path : D → List D

/-- What each file holds, if it is there, and which directories are there. -/
structure Disk (F D : Type) where
  file : F → Option Bytes
  dir : D → Bool

/-- What an operation fails with; `failed` is whatever the system meets. -/
inductive IoError where
  | notFound
  | invalidData (message : String)
  | invalidInput (message : String)
  | failed
  deriving DecidableEq, Repr

variable {F D : Type}

namespace Disk

section Files
variable [DecidableEq F]

def put (f : F) (b : Bytes) (d : Disk F D) : Disk F D :=
  {d with file := Function.update d.file f (some b)}

def erase (f : F) (d : Disk F D) : Disk F D := {d with file := Function.update d.file f none}

@[simp] theorem put_self (d : Disk F D) (f : F) (b : Bytes) : (d.put f b).file f = some b := by
  simp [put]

@[simp] theorem put_of_ne (d : Disk F D) {f g : F} (h : g ≠ f) (b : Bytes) :
    (d.put f b).file g = d.file g := by
  simp [put, h]

/-- Writing what is there changes nothing. -/
theorem put_same {d : Disk F D} {f : F} {b : Bytes} (h : d.file f = some b) : d.put f b = d := by
  simp [put, ← h]

/-- Only the last of two writes to a file shows. -/
@[simp] theorem put_put (d : Disk F D) (f : F) (b c : Bytes) : (d.put f b).put f c = d.put f c := by
  simp [put]

@[simp] theorem put_dir (d : Disk F D) (f : F) (b : Bytes) : (d.put f b).dir = d.dir := rfl

@[simp] theorem erase_self (d : Disk F D) (f : F) : (d.erase f).file f = none := by
  simp [erase]

@[simp] theorem erase_of_ne (d : Disk F D) {f g : F} (h : g ≠ f) :
    (d.erase f).file g = d.file g := by
  simp [erase, h]

@[simp] theorem erase_dir (d : Disk F D) (f : F) : (d.erase f).dir = d.dir := rfl

end Files

/-- Every file and directory of a tree, gone. -/
def eraseTree (files : F → Bool) (dirs : D → Bool) (d : Disk F D) : Disk F D :=
  {file := fun f => if files f then none else d.file f, dir := fun x => d.dir x && !dirs x}

variable [DecidableEq D]

def mkdirs (ds : List D) (d : Disk F D) : Disk F D :=
  {d with dir := fun x => d.dir x || decide (x ∈ ds)}

@[simp] theorem mkdirs_file (d : Disk F D) (ds : List D) : (d.mkdirs ds).file = d.file := rfl

theorem mkdirs_dir (d : Disk F D) {ds : List D} {x : D} (h : x ∈ ds) :
    (d.mkdirs ds).dir x = true := by
  simp [mkdirs, h]

@[simp] theorem mkdirs_nil (d : Disk F D) : d.mkdirs [] = d := by
  simp [mkdirs]

end Disk

/-- The bytes at length `n`: cut off, or continued with zeros. -/
def resize (n : Nat) (b : Bytes) : Bytes := b.take n ++ List.replicate (n - b.length) 0

@[simp] theorem length_resize (n : Nat) (b : Bytes) : (resize n b).length = n := by
  simp only [resize, List.length_append, List.length_take, List.length_replicate]
  omega

theorem resize_of_le {n : Nat} {b : Bytes} (h : b.length ≤ n) :
    resize n b = b ++ List.replicate (n - b.length) 0 := by
  simp [resize, List.take_of_length_le h]

/-- The length a resize to `n` has reached after `k` bytes of it. -/
def reached (n k length : Nat) : Nat :=
  if length ≤ n then min (length + k) n else max (length - k) n

/-- 2^63: the system takes a file's length as a signed number of 64 bits. -/
def lengthLimit : Nat := 9223372036854775808

/-! ### Operations -/

/-- `Path::exists`. -/
def present (f : F) : Cmd (Disk F D) IoError Bool := Cmd.gets fun d => (d.file f).isSome

/-- Create a directory and those above it. -/
def createDirAll [DecidableEq D] [Tree F D] (fault : Fault) (x : D) : Cmd (Disk F D) IoError Unit :=
  stage fault .failed (fun n => Disk.mkdirs ((Tree.path F x).take n)) (Disk.mkdirs (Tree.path F x))

/-- `fs::read`. -/
def readFile (fault : Fault) (f : F) : Cmd (Disk F D) IoError Bytes := do
  stage fault .failed (fun _ d => d) (fun d => d)
  match ← Cmd.gets fun d => d.file f with
  | some b => pure b
  | none => Cmd.fail .notFound

/-- `fs::read_to_string`: a file that is no text is an error of its own. -/
def readToString (fault : Fault) (f : F) : Cmd (Disk F D) IoError Text := do
  match decode (← readFile fault f) with
  | some t => pure t
  | none => Cmd.fail (.invalidData "stream did not contain valid UTF-8")

/-- Open a file that is there for writing; it keeps what it holds. -/
def openWrite (fault : Fault) (f : F) : Cmd (Disk F D) IoError Unit := do
  let _ ← readFile fault f

/-- Remove a tree; one that stops part way has removed the first files of `order`. -/
def removeDirAll [DecidableEq F] (fault : Fault) (files : F → Bool) (dirs : D → Bool)
    (order : List F) : Cmd (Disk F D) IoError Unit :=
  stage fault .failed
    (fun n => Disk.eraseTree (fun f => files f && (order.take n).contains f) fun _ => false)
    (Disk.eraseTree files dirs)

section Operations
variable [DecidableEq F] [Tree F D]

/-- Create or empty the file and write to it; its directory has to be there. -/
def write (fault : Fault) (f : F) (b : Bytes) : Cmd (Disk F D) IoError Unit := do
  if ← Cmd.gets fun d => d.dir (Tree.parent f) then
    stage fault .failed (fun n => Disk.put f (b.take n)) (Disk.put f b)
  else
    Cmd.fail .notFound

/-- Open for writing, creating the file or emptying the one that is there. -/
def createFile (fault : Fault) (f : F) : Cmd (Disk F D) IoError Unit := write fault f []

/-- The source is read as the copy is made: only the copy shows how far it got. -/
def copy (fault : Fault) (src dst : F) : Cmd (Disk F D) IoError Unit := do
  write fault dst (← readFile .none src)

/-- A length that overflows the system's is refused, and the file left as it is. -/
def setLen (fault : Fault) (f : F) (n : Nat) : Cmd (Disk F D) IoError Unit := do
  let b ← readFile .none f
  if n < lengthLimit then
    stage fault .failed (fun k => Disk.put f (resize (reached n k b.length) b))
      (Disk.put f (resize n b))
  else
    stage fault .failed (fun _ d => d) (fun d => d)
    Cmd.fail (.invalidInput "out of range integral type conversion attempted")

/-- `fs::remove_file`, which leaves the file if it fails. -/
def removeFile (fault : Fault) (f : F) : Cmd (Disk F D) IoError Unit := do
  if ← present f then
    stage fault .failed (fun _ => Disk.erase f) (Disk.erase f)
  else
    Cmd.fail .notFound

end Operations

/-! ### Operations that meet no fault -/

section NoFault
variable {d : Disk F D} {f : F} {b : Bytes}

theorem present_apply (d : Disk F D) (f : F) : present f d = (.ok (d.file f).isSome, d) := rfl

theorem createDirAll_none [DecidableEq D] [Tree F D] (d : Disk F D) (x : D) :
    createDirAll .none x d = (.ok (), d.mkdirs (Tree.path F x)) := rfl

theorem readFile_none (h : d.file f = some b) : readFile .none f d = (.ok b, d) := by
  unfold readFile
  rw [Cmd.bind_of_ok (stage_none ..), Cmd.bind_of_ok (Cmd.gets_apply ..), h]
  rfl

theorem readToString_none {t : Text} (h : d.file f = some b) (ht : decode b = some t) :
    readToString .none f d = (.ok t, d) := by
  unfold readToString
  rw [Cmd.bind_of_ok (readFile_none h), ht]
  rfl

theorem openWrite_none (h : d.file f = some b) : openWrite .none f d = (.ok (), d) :=
  Cmd.bind_of_ok (readFile_none h) _

variable [DecidableEq F]

theorem setLen_none (h : d.file f = some b) {n : Nat} (hn : n < lengthLimit) :
    setLen .none f n d = (.ok (), d.put f (resize n b)) := by
  unfold setLen
  rw [Cmd.bind_of_ok (readFile_none h), if_pos hn]
  rfl

theorem setLen_overflow (h : d.file f = some b) {n : Nat} (hn : lengthLimit ≤ n) :
    setLen .none f n d =
      (.error (.invalidInput "out of range integral type conversion attempted"), d) := by
  unfold setLen
  rw [Cmd.bind_of_ok (readFile_none h), if_neg (Nat.not_lt.mpr hn)]
  rfl

theorem removeFile_none (h : d.file f = some b) : removeFile .none f d = (.ok (), d.erase f) := by
  unfold removeFile present
  rw [Cmd.bind_of_ok (Cmd.gets_apply ..), h]
  rfl

variable [Tree F D]

theorem write_none (h : d.dir (Tree.parent f) = true) (b : Bytes) :
    write .none f b d = (.ok (), d.put f b) := by
  unfold write
  rw [Cmd.bind_of_ok (Cmd.gets_apply ..), if_pos h]
  rfl

theorem copy_none {src : F} (hsrc : d.file src = some b) (h : d.dir (Tree.parent f) = true) :
    copy .none src f d = (.ok (), d.put f b) := by
  unfold copy
  rw [Cmd.bind_of_ok (readFile_none hsrc)]
  exact write_none h b

end NoFault

/-! ### Operations that are stopped -/

section Stopped
variable {fault : Fault} (h : fault ≠ .none)
include h

theorem readFile_stop (f : F) (d : Disk F D) : readFile fault f d = (fault.stop .failed, d) := by
  unfold readFile
  refine Cmd.bind_of_stop ?_ _
  rw [stage_of_ne h]
  cases fault.progress <;> rfl

theorem removeFile_stop [DecidableEq F] {f : F} {d : Disk F D} {b : Bytes} (hb : d.file f = some b) :
    removeFile fault f d = (fault.stop .failed, if fault.progress.isSome then d.erase f else d) := by
  unfold removeFile present
  rw [Cmd.bind_of_ok (Cmd.gets_apply ..), hb, Option.isSome_some, if_pos rfl, stage_of_ne h]
  cases fault.progress <;> rfl

end Stopped

/-! ### Where the operations leave the disk -/

section Rules
variable {fault : Fault} {f : F} {b : Bytes} {d : Disk F D} {Q : Disk F D → Prop}

theorem ends_present {P : Bool → Disk F D → Prop} :
    Ends (present f) d P Q ↔ P (d.file f).isSome d := Iff.rfl

theorem ends_createDirAll [DecidableEq D] [Tree F D] {x : D} {P : Unit → Disk F D → Prop}
    (hw : fault = .none → P () (d.mkdirs (Tree.path F x)))
    (hq : fault ≠ .none → ∀ ds, Q (d.mkdirs ds)) : Ends (createDirAll fault x) d P Q := by
  refine ends_stage hw (fun h _ => ?_) fun n hn => hq (fun h => ?_) _
  · rw [← d.mkdirs_nil]
    exact hq h []
  · rw [h] at hn
    cases hn

theorem ends_readFile {P : Bytes → Disk F D → Prop}
    (hw : ∀ b, fault = .none → d.file f = some b → P b d)
    (hq : (fault = .none → d.file f = none) → Q d) : Ends (readFile fault f) d P Q := by
  unfold readFile
  rw [ends_bind]
  refine ends_stage (fun h => ?_) (fun h _ => hq fun h' => absurd h' h) fun n hn => hq fun h => ?_
  · rw [ends_bind, ends_gets]
    cases hf : d.file f with
    | some b => exact hw b h hf
    | none => exact hq fun _ => hf
  · rw [h] at hn
    simp [Fault.progress] at hn

theorem ends_readToString {P : Text → Disk F D → Prop}
    (hw : ∀ b t, fault = .none → d.file f = some b → decode b = some t → P t d)
    (hq : (fault = .none → (d.file f).bind decode = none) → Q d) :
    Ends (readToString fault f) d P Q := by
  unfold readToString
  rw [ends_bind]
  refine ends_readFile (fun b h hb => ?_) fun h => hq fun hfault => by rw [h hfault]; rfl
  cases ht : decode b with
  | some t => exact hw b t h hb ht
  | none => exact hq fun _ => by rw [hb]; exact ht

theorem ends_openWrite {P : Unit → Disk F D → Prop}
    (hw : ∀ b, fault = .none → d.file f = some b → P () d)
    (hq : ((d.file f).isSome → fault ≠ .none) → Q d) : Ends (openWrite fault f) d P Q := by
  unfold openWrite
  rw [ends_bind]
  refine ends_readFile (fun b h hb => hw b h hb) fun h => hq fun hsome hfault => ?_
  rw [h hfault] at hsome
  simp at hsome

variable [DecidableEq F]

theorem ends_removeDirAll {files : F → Bool} {dirs : D → Bool} {order : List F}
    {P : Unit → Disk F D → Prop} (hw : fault = .none → P () (d.eraseTree files dirs)) (hq : Q d)
    (hp : ∀ n, fault.progress = some n →
      Q (d.eraseTree (fun f => files f && (order.take n).contains f) fun _ => false)) :
    Ends (removeDirAll fault files dirs order) d P Q := ends_stage hw (fun _ _ => hq) hp

/-- A resize is kept from beginning by a fault, or because the length overflows. -/
theorem ends_setLen {n : Nat} {P : Unit → Disk F D → Prop}
    (hw : ∀ b, fault = .none → n < lengthLimit → d.file f = some b → P () (d.put f (resize n b)))
    (hq : ((d.file f).isSome → lengthLimit ≤ n ∨ fault ≠ .none ∧ fault.progress = none) → Q d)
    (hp : ∀ b k, d.file f = some b → n < lengthLimit → fault.progress = some k →
      Q (d.put f (resize (reached n k b.length) b))) :
    Ends (setLen fault f n) d P Q := by
  unfold setLen readFile
  rw [ends_bind, ends_bind]
  refine ends_stage (fun _ => ?_) (fun h => absurd rfl h) fun k hk => by simp [Fault.progress] at hk
  rw [ends_bind, ends_gets]
  cases hf : d.file f with
  | none => exact hq (by simp [hf])
  | some b =>
    show Ends (if n < lengthLimit then _ else _) d P Q
    split
    · next hn =>
      exact ends_stage (fun h => hw b h hn hf) (fun h h' => hq fun _ => Or.inr ⟨h, h'⟩)
        fun k hk => hp b k hf hn hk
    · next hn =>
      have hstays : Q d := hq fun _ => Or.inl (Nat.le_of_not_lt hn)
      rw [ends_bind]
      exact ends_stage (fun _ => hstays) (fun _ _ => hstays) fun _ _ => hstays

theorem ends_removeFile {P : Unit → Disk F D → Prop}
    (hw : fault = .none → P () (d.erase f))
    (hq : ((d.file f).isSome → fault ≠ .none ∧ fault.progress = none) → Q d)
    (hp : fault.progress.isSome → Q (d.erase f)) :
    Ends (removeFile fault f) d P Q := by
  unfold removeFile
  rw [ends_bind, ends_present]
  split
  · exact ends_stage hw (fun h h' => hq fun _ => ⟨h, h'⟩) fun n hn => hp (by rw [hn]; rfl)
  · next habsent => exact hq fun h => absurd h habsent

variable [Tree F D]

theorem ends_write {P : Unit → Disk F D → Prop}
    (hw : fault = .none → d.dir (Tree.parent f) = true → P () (d.put f b)) (hq : Q d)
    (hp : ∀ n, fault.progress = some n → Q (d.put f (b.take n))) :
    Ends (write fault f b) d P Q := by
  unfold write
  rw [ends_bind, ends_gets]
  split
  · next hdir => exact ends_stage (fun h => hw h hdir) (fun _ _ => hq) hp
  · exact hq

/-- Where the directory is there, only a fault keeps a write from happening. -/
theorem ends_write_of_dir {P : Unit → Disk F D → Prop} (hdir : d.dir (Tree.parent f) = true)
    (hw : fault = .none → P () (d.put f b))
    (hs : fault ≠ .none → fault.progress = none → Q d)
    (hp : ∀ n, fault.progress = some n → Q (d.put f (b.take n))) : Ends (write fault f b) d P Q := by
  unfold write
  rw [ends_bind, ends_gets, if_pos hdir]
  exact ends_stage hw hs hp

theorem ends_createFile {P : Unit → Disk F D → Prop}
    (hw : fault = .none → d.dir (Tree.parent f) = true → P () (d.put f [])) (hq : Q d)
    (hp : fault.progress.isSome → Q (d.put f [])) : Ends (createFile fault f) d P Q := by
  refine ends_write hw hq fun n hn => ?_
  rw [List.take_nil]
  exact hp (by rw [hn]; rfl)

theorem ends_copy {src : F} {P : Unit → Disk F D → Prop}
    (hw : ∀ b, fault = .none → d.dir (Tree.parent f) = true → d.file src = some b → P () (d.put f b))
    (hq : Q d)
    (hp : ∀ b n, d.file src = some b → fault.progress = some n → Q (d.put f (b.take n))) :
    Ends (copy fault src f) d P Q := by
  unfold copy
  rw [ends_bind]
  refine ends_readFile (fun b _ hb => ?_) fun _ => hq
  exact ends_write (fun h hdir => hw b h hdir hb) hq fun n hn => hp b n hb hn

end Rules

/-! ### Frames -/

/-- No file outside `S` was touched. -/
def Only (S : F → Prop) (d d' : Disk F D) : Prop := ∀ f, ¬ S f → d'.file f = d.file f

section Frames
variable {S S' : F → Prop} {f : F} (fault : Fault)

theorem Only.refl (d : Disk F D) : Only S d d := fun _ _ => rfl

theorem Only.trans (d d' d'' : Disk F D) (h : Only S d d') (h' : Only S d' d'') : Only S d d'' :=
  fun f hf => (h' f hf).trans (h f hf)

theorem Only.mono {d d' : Disk F D} (h : Only S d d') (hs : ∀ f, S f → S' f) : Only S' d d' :=
  fun f hf => h f fun hS => hf (hs f hS)

theorem only_mkdirs [DecidableEq D] (d : Disk F D) (ds : List D) : Only S d (d.mkdirs ds) :=
  fun _ _ => rfl

theorem within_createDirAll [DecidableEq D] [Tree F D] (x : D) :
    Within (Only S) (createDirAll fault x : Cmd (Disk F D) IoError Unit) :=
  within_of_ends fun d => ends_createDirAll (fun _ => only_mkdirs d _) fun _ _ => only_mkdirs d _

theorem within_readToString {R : Disk F D → Disk F D → Prop} (hr : ∀ d, R d d) (f : F) :
    Within R (readToString fault f) :=
  within_of_ends fun d => ends_readToString (fun _ _ _ _ _ => hr d) fun _ => hr d

theorem ne_of_outside {f g : F} (hf : S f) (hg : ¬ S g) : g ≠ f := by
  intro heq
  subst heq
  exact hg hf

section Writes
variable [DecidableEq F]

theorem only_put (d : Disk F D) (hf : S f) (b : Bytes) : Only S d (d.put f b) :=
  fun _ hg => Disk.put_of_ne d (ne_of_outside hf hg) b

theorem only_erase (d : Disk F D) (hf : S f) : Only S d (d.erase f) :=
  fun _ hg => Disk.erase_of_ne d (ne_of_outside hf hg)

variable [Tree F D]

theorem within_write (hf : S f) (b : Bytes) :
    Within (Only S) (write fault f b : Cmd (Disk F D) IoError Unit) :=
  within_of_ends fun d =>
    ends_write (fun _ _ => only_put d hf b) (Only.refl d) fun _ _ => only_put d hf _

theorem within_copy (src : F) (hf : S f) :
    Within (Only S) (copy fault src f : Cmd (Disk F D) IoError Unit) :=
  within_of_ends fun d =>
    ends_copy (fun _ _ _ _ => only_put d hf _) (Only.refl d) fun _ _ _ _ => only_put d hf _

end Writes

end Frames

end Storage
