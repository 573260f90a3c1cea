import Mathlib.Data.List.GetD
import Mathlib.Data.List.TakeDrop
import Malleus.Config
import Malleus.Library.Filling

/-! `image.rs`: the base image, the root disk cloned from it, and the pool disk.

Each artifact is made in more than one step behind an `exists` check, and any
step may stop part way; `ImageEnv` says what one call meets. -/
namespace Malleus
open Effect Strings Storage Filling

inductive ImageError where
  | io (e : IoError)
  | download (reason : Text)
  | unsupportedArch (arch : Text)
  | notADiskImage (path snippet : Text)
  deriving DecidableEq, Repr

namespace Image

/-- Bytes needed to cover both the protective MBR and the GPT header sector. -/
def headerLen : Nat := 520

/-- How much of a rejected file is quoted back in the error. -/
def snippetLen : Nat := 120

/-- `b"EFI PART"`. -/
def efiPart : Bytes := [0x45, 0x46, 0x49, 0x20, 0x50, 0x41, 0x52, 0x54]

/-- A header with the signature of a boot record at the end of the first sector, or that of a
partition table at the beginning of the second. -/
def looksLikeDiskImage (header : Bytes) : Bool :=
  let hasMbrSignature :=
    512 ≤ header.length && header.getD 510 0 == 0x55 && header.getD 511 0 == 0xAA
  let hasGptHeader := headerLen ≤ header.length && (header.drop 512).take 8 == efiPart
  hasMbrSignature || hasGptHeader

/-- `char::is_control`: Unicode's category Cc. -/
def isControl (c : Char) : Bool := c.toNat ≤ 0x1F || (0x7F ≤ c.toNat && c.toNat ≤ 0x9F)

/-- The beginning of a rejected file, fit for a message. -/
def describeHeader (header : Bytes) : Text :=
  trim (((fromUtf8Lossy header).map fun c => if isControl c then ' ' else c).take snippetLen)

/-- How much one read returns: something while there is something, and no more than
there is space for; `chunk` is the system's choice. -/
def readSize (chunk : Option Nat) (rest : Bytes) (space : Nat) : Nat :=
  min (max 1 (chunk.getD space)) (min space rest.length)

/-- The loop of `read_full`: `filled` bytes of the buffer are in, `rest` is what the
file still has. A read gets at least one byte, so the space left is fuel enough. -/
def readLoop : Nat → List Nat → Bytes → Nat → Bytes → Nat × Bytes
  | 0, _, _, filled, buf => (filled, buf)
  | fuel + 1, chunks, rest, filled, buf =>
    if filled < buf.length then
      let n := readSize chunks.head? rest (buf.length - filled)
      if n = 0 then (filled, buf)
      else
        readLoop fuel chunks.tail (rest.drop n) (filled + n)
          (buf.take filled ++ rest.take n ++ buf.drop (filled + n))
    else (filled, buf)

/-- Read until the buffer is full or the file is at its end, however short the single reads are.
-/
def readFull (chunks : List Nat) (file buf : Bytes) : Nat × Bytes :=
  readLoop buf.length chunks file 0 buf

/-- The size of a read is one that the system may choose. -/
theorem readSize_mayReturn (chunk : Option Nat) {s : Loop UInt8} (hspace : s.filled < s.buf.length) :
    s.MayReturn (readSize chunk s.rest (s.buf.length - s.filled)) := by
  refine ⟨?_, ?_, fun hzero => ?_⟩
  · rw [Loop.space, readSize]
    omega
  · rw [readSize]
    omega
  · rw [readSize] at hzero
    have : s.rest.length = 0 := by omega
    exact List.length_eq_zero_iff.mp this

/-- The loop makes a run of reads, and ends where the run stops. -/
theorem readLoop_run (fuel : Nat) (chunks : List Nat) (s : Loop UInt8)
    (hfuel : s.buf.length - s.filled ≤ fuel) : ∃ sizes t, Reads s sizes t ∧ t.Stops ∧
      readLoop fuel chunks s.rest s.filled s.buf = (t.filled, t.buf) := by
  induction fuel generalizing chunks s with
  | zero => exact ⟨[], s, .done s, .full (by omega), rfl⟩
  | succ fuel ih =>
    rw [readLoop]
    by_cases hspace : s.filled < s.buf.length
    · have hmay := readSize_mayReturn chunks.head? hspace
      rw [if_pos hspace]
      dsimp only
      generalize readSize chunks.head? s.rest (s.buf.length - s.filled) = n at hmay ⊢
      by_cases hzero : n = 0
      · rw [if_pos hzero]
        rw [hzero] at hmay
        exact ⟨[], s, .done s, .empty hspace hmay, rfl⟩
      · have hless : (s.read n).buf.length - (s.read n).filled ≤ fuel := by
          have := length_read hmay
          show (s.read n).buf.length - (s.filled + n) ≤ fuel
          omega
        obtain ⟨sizes, t, hrun, hstop, hloop⟩ := ih chunks.tail (s.read n) hless
        rw [if_neg hzero]
        exact ⟨n :: sizes, t, .read hspace (Nat.pos_of_ne_zero hzero) hmay hrun, hstop, hloop⟩
    · rw [if_neg hspace]
      exact ⟨[], s, .done s, .full (by omega), rfl⟩

/-- However the system splits the reads, the buffer gets the file as far as it reaches. -/
theorem readFull_eq (chunks : List Nat) (file buf : Bytes) :
    readFull chunks file buf =
      (min file.length buf.length, file.take buf.length ++ buf.drop file.length) := by
  obtain ⟨sizes, t, hrun, hstop, hloop⟩ :=
    readLoop_run buf.length chunks ⟨buf, 0, file⟩ (Nat.sub_le _ _)
  obtain ⟨hfilled, hbuf⟩ := (reads_fills hrun).2 hstop
  rw [readFull, ← hfilled, ← hbuf]
  exact hloop

/-! ### What a call meets -/

/-- The places where `ensure_images` can stop. -/
inductive Site where
  | createImagesDir
  | removeDownload
  | openImage (f : File)
  | readImage (f : File)
  | removeRejected (f : File)
  | copyRoot
  | openRoot
  | resizeRoot
  | createPool
  | resizePool
  deriving DecidableEq, Repr

/-- How the download ends; `left` is how much of it reached the disk, `none` when
the file was not even created. -/
inductive Curl where
  | notRun
  | delivers
  | fails (status : Text) (left : Option Nat)
  | killed (left : Option Nat)
  deriving DecidableEq, Repr

end Image

/-- What one call of `ensure_images` meets: the image the server holds, the
download, how the system splits the reads of a file, and the faults. -/
structure ImageEnv where
  remote : Bytes
  curl : Image.Curl
  chunks : File → List Nat
  fault : Image.Site → Fault

namespace Image

abbrev Do (α : Type) := Cmd StateDisk ImageError α

def io {α : Type} (m : Cmd StateDisk IoError α) : Do α := m.mapError .io

/-! ### The functions -/

/-- Where the artifacts are, for the texts of errors. -/
structure Names where
  stateDir : Text
  arch : Text

/-- Debian's name of the architecture; there are images for two. -/
def debianArch (arch : Text) : Option Text :=
  if arch = "aarch64".toList then some "arm64".toList
  else if arch = "x86_64".toList then some "amd64".toList
  else none

def imageUrl (debianArch : Text) : Text :=
  "https://cloud.debian.org/images/cloud/bookworm/latest/debian-12-genericcloud-".toList ++
    debianArch ++ ".raw".toList

/-- Reject a file unless it opens like a disk image, deleting it if it does not. -/
def verifyDiskImage (env : ImageEnv) (path : File → Text) (f : File) : Do Unit := do
  let file ← io (readFile (env.fault (.openImage f)) f)
  io (stage (env.fault (.readImage f)) .failed (fun _ d => d) (fun d => d))
  let (read, buf) := readFull (env.chunks f) file (List.replicate headerLen 0)
  let header := buf.take read
  if looksLikeDiskImage header then
    pure ()
  else
    io (removeFile (env.fault (.removeRejected f)) f)
    Cmd.fail (.notADiskImage (path f) (describeHeader header))

/-- The header check, on a whole file. -/
def Accepted (b : Bytes) : Prop := looksLikeDiskImage (b.take headerLen) = true

instance (b : Bytes) : Decidable (Accepted b) := inferInstanceAs (Decidable (_ = true))

/-- The smallest disk image: one sector, with the signature at its end. -/
def oneSector : Bytes := List.replicate 510 0 ++ [0x55, 0xAA]

theorem oneSector_accepted : Accepted oneSector := by decide +kernel

/-- What the buffer holds after the reads is the file's first bytes. -/
theorem header_eq (chunks : List Nat) (file : Bytes) :
    (readFull chunks file (List.replicate headerLen 0)).2.take
      (readFull chunks file (List.replicate headerLen 0)).1 = file.take headerLen := by
  rw [readFull_eq, List.length_replicate]
  rcases Nat.le_total file.length headerLen with h | h
  · rw [min_eq_left h, List.take_of_length_le h, List.take_left]
  · rw [min_eq_right h, List.take_append_of_le_length (by simp [h]), List.take_take, min_self]

/-- What a download leaves behind, and whether the program goes on after it. -/
def keep (left : Option Nat) (remote : Bytes) (d : StateDisk) : StateDisk :=
  match left with
  | none => d
  | some n => d.put .baseImage (remote.take n)

/-- Run curl to the file itself. What a failed download has left is taken away again, as far as
it can be; of one that is killed it stays. -/
def download (env : ImageEnv) (url : Text) : Do Unit := do
  match env.curl with
  | .notRun => Cmd.fail (.io .failed)
  | .delivers => Cmd.modify (Disk.put .baseImage env.remote)
  | .fails status left =>
    Cmd.modify (keep left env.remote)
    -- Leave nothing behind that a later run would mistake for a cache hit.
    let _ ← (removeFile (env.fault .removeDownload) .baseImage).attempt
    Cmd.fail (.download ("curl exited with status ".toList ++ status ++ " for ".toList ++ url))
  | .killed left =>
    Cmd.modify (keep left env.remote)
    Cmd.die

/-- `gib * 1024 * 1024 * 1024` in `u64`, which wraps in a release build. -/
def sizeBytes (gib : UInt64) : UInt64 := gib * 1024 * 1024 * 1024

/-- A base image that is there is taken for a cache hit. -/
def fetchBaseImage (env : ImageEnv) (url : Text) : Do Unit := do
  if ← io (present .baseImage) then pure () else download env url

/-- Copy the base image and set the copy's length. The disk has its name from the first byte of
the copy on: one that a call leaves half made is passed over by the next. -/
def createRootDisk (env : ImageEnv) (cfg : Config) : Do Unit := do
  if ← io (present .rootRaw) then pure ()
  else
    io (copy (env.fault .copyRoot) .baseImage .rootRaw)
    io (openWrite (env.fault .openRoot) .rootRaw)
    io (setLen (env.fault .resizeRoot) .rootRaw (sizeBytes cfg.rootDiskGib).toNat)

/-- Make an empty file and set its length; here too the name comes first. -/
def createPoolDisk (env : ImageEnv) (cfg : Config) : Do Unit := do
  if ← io (present .poolRaw) then pure ()
  else
    io (createFile (env.fault .createPool) .poolRaw)
    io (setLen (env.fault .resizePool) .poolRaw (sizeBytes cfg.poolDiskGib).toNat)

/-- The base image, the root disk and the pool disk, in this order. The first two are checked on
every call; the pool disk never is. -/
def ensureImages (names : Names) (env : ImageEnv) (cfg : Config) : Do Unit := do
  io (createDirAll (env.fault .createImagesDir) .imagesDir)
  match debianArch names.arch with
  | none => Cmd.fail (.unsupportedArch names.arch)
  | some arch =>
    let path := File.display names.stateDir arch
    fetchBaseImage env (imageUrl arch)
    verifyDiskImage env path .baseImage
    createRootDisk env cfg
    verifyDiskImage env path .rootRaw
    createPoolDisk env cfg

/-! ### Calls without faults -/

/-- A longer header of the same file still looks like a disk image. -/
theorem looksLikeDiskImage_append {h : Bytes} (hok : looksLikeDiskImage h = true) (z : Bytes) :
    looksLikeDiskImage (h ++ z) = true := by
  simp only [looksLikeDiskImage, Bool.or_eq_true, Bool.and_eq_true, decide_eq_true_eq,
    List.length_append] at *
  rcases hok with ⟨⟨hlen, hfirst⟩, hsecond⟩ | ⟨hlen, hgpt⟩
  · left
    rw [List.getD_append _ _ _ _ (by omega), List.getD_append _ _ _ _ (by omega)]
    exact ⟨⟨by omega, hfirst⟩, hsecond⟩
  · right
    have : 520 ≤ h.length := hlen
    rw [List.drop_append_of_le_length (by omega),
      List.take_append_of_le_length (by rw [List.length_drop]; omega)]
    exact ⟨by omega, hgpt⟩

/-- Growing a file keeps its header. -/
theorem Accepted.resize {b : Bytes} (h : Accepted b) {n : Nat} (hn : b.length ≤ n) :
    Accepted (Storage.resize n b) := by
  rw [resize_of_le hn, Accepted, List.take_append]
  exact looksLikeDiskImage_append h _

/-- The check sees no more of a file than its header. -/
theorem Accepted.resize_header {b : Bytes} (h : Accepted b) {n : Nat} (hn : headerLen ≤ n) :
    Accepted (Storage.resize n b) := by
  cases Nat.le_total b.length n with
  | inl hgrow => exact h.resize hgrow
  | inr hcut =>
    have hlen : n ≤ (b.take n).length := by
      rw [List.length_take]
      omega
    rw [Accepted, Storage.resize, List.take_append_of_le_length (Nat.le_trans hn hlen), List.take_take,
      Nat.min_eq_left hn]
    exact h

section NoFault
variable {env : ImageEnv} {cfg : Config} {d : StateDisk} {b : Bytes}

/-- Without faults a file is kept or taken away, as its header says. -/
theorem verifyDiskImage_apply {path : File → Text} {f : File}
    (hfault : ∀ site, env.fault site = .none) (hb : d.file f = some b) :
    verifyDiskImage env path f d =
      if Accepted b then (.ok (), d)
      else (.error (.notADiskImage (path f) (describeHeader (b.take headerLen))), d.erase f) := by
  unfold verifyDiskImage io
  rw [hfault, hfault, hfault, Cmd.bind_of_ok (Cmd.mapError_of_ok (readFile_none hb) _),
    Cmd.bind_of_ok (Cmd.mapError_of_ok (stage_none ..) _)]
  dsimp only
  rw [header_eq]
  by_cases hok : Accepted b
  · have hheader : looksLikeDiskImage (b.take headerLen) = true := hok
    rw [if_pos hheader, if_pos hok]
    rfl
  · have hheader : ¬ looksLikeDiskImage (b.take headerLen) = true := hok
    rw [if_neg hheader, if_neg hok, Cmd.bind_of_ok (Cmd.mapError_of_ok (removeFile_none hb) _)]
    rfl

/-- A cache hit: nothing is fetched. -/
theorem fetchBaseImage_present {url : Text} (hb : d.file .baseImage = some b) :
    fetchBaseImage env url d = (.ok (), d) := by
  unfold fetchBaseImage io
  rw [Cmd.bind_of_ok (Cmd.mapError_of_ok (present_apply ..) _), hb]
  rfl

theorem createRootDisk_present (hroot : d.file .rootRaw = some b) :
    createRootDisk env cfg d = (.ok (), d) := by
  unfold createRootDisk io
  rw [Cmd.bind_of_ok (Cmd.mapError_of_ok (present_apply ..) _), hroot]
  rfl

theorem createPoolDisk_present (hpool : d.file .poolRaw = some b) :
    createPoolDisk env cfg d = (.ok (), d) := by
  unfold createPoolDisk io
  rw [Cmd.bind_of_ok (Cmd.mapError_of_ok (present_apply ..) _), hpool]
  rfl

/-- The base image that a call goes on with. -/
def baseOf (env : ImageEnv) (d : StateDisk) : Bytes := (d.file .baseImage).getD env.remote

/-- The disk is still to be made, at a length that no file can have. -/
def Oversized (f : File) (gib : UInt64) (d : StateDisk) : Prop :=
  d.file f = none ∧ lengthLimit ≤ (sizeBytes gib).toNat

instance (f : File) (gib : UInt64) (d : StateDisk) : Decidable (Oversized f gib d) :=
  inferInstanceAs (Decidable (_ ∧ _))

theorem not_oversized_of_some {f : File} {gib : UInt64} (h : d.file f = some b) :
    ¬ Oversized f gib d := by
  rintro ⟨hnone, -⟩
  rw [h] at hnone
  cases hnone

theorem not_oversized_of_lt {f : File} {gib : UInt64} (h : (sizeBytes gib).toNat < lengthLimit) :
    ¬ Oversized f gib d := fun hover => Nat.not_lt.mpr hover.2 h

/-- What `set_len` hands back for a length that overflows. -/
def overflow : ImageError := .io (.invalidInput "out of range integral type conversion attempted")

/-- The root disk made from it, unless there is one. -/
def rootOf (env : ImageEnv) (cfg : Config) (d : StateDisk) : Bytes :=
  (d.file .rootRaw).getD (resize (sizeBytes cfg.rootDiskGib).toNat (baseOf env d))

/-- The pool disk that a call leaves: the one there is, or one that reads as zeros. -/
def poolOf (cfg : Config) (d : StateDisk) : Bytes :=
  (d.file .poolRaw).getD (resize (sizeBytes cfg.poolDiskGib).toNat [])

/-- Where nothing is in the way, the base image is what was there or what the server sends. -/
theorem fetchBaseImage_apply {url : Text} (hcurl : d.file .baseImage = none → env.curl = .delivers) :
    fetchBaseImage env url d = (.ok (), d.put .baseImage (baseOf env d)) := by
  cases hbase : d.file .baseImage with
  | some b => rw [fetchBaseImage_present hbase, baseOf, hbase, Option.getD_some, Disk.put_same hbase]
  | none =>
    unfold fetchBaseImage io
    rw [Cmd.bind_of_ok (Cmd.mapError_of_ok (present_apply ..) _), hbase]
    dsimp only [Option.isSome_none]
    rw [if_neg (by decide), download, hcurl hbase, baseOf, hbase]
    rfl

/-- The resize of a file that is there, without a fault. -/
theorem setLen_apply {f : File} {n : Nat} (h : d.file f = some b) :
    io (setLen .none f n) d =
      if lengthLimit ≤ n then (.error overflow, d) else (.ok (), d.put f (resize n b)) := by
  split
  · next hn => rw [io, Cmd.mapError, setLen_overflow h hn, overflow]
  · next hn => exact Cmd.mapError_of_ok (setLen_none h (Nat.lt_of_not_le hn)) _

/-- A size that overflows leaves the copy as it was made. -/
theorem createRootDisk_apply (hfault : ∀ site, env.fault site = .none)
    (hb : d.file .baseImage = some b) (hdir : d.dir .stateDir = true) :
    createRootDisk env cfg d =
      if Oversized .rootRaw cfg.rootDiskGib d then (.error overflow, d.put .rootRaw b)
      else (.ok (), d.put .rootRaw
        ((d.file .rootRaw).getD (resize (sizeBytes cfg.rootDiskGib).toNat b))) := by
  cases hroot : d.file .rootRaw with
  | some root =>
    rw [if_neg (not_oversized_of_some hroot), createRootDisk_present hroot, Option.getD_some,
      Disk.put_same hroot]
  | none =>
    have hcopy : copy .none File.baseImage File.rootRaw d = (.ok (), d.put .rootRaw b) :=
      copy_none hb hdir
    unfold createRootDisk
    rw [io, Cmd.bind_of_ok (Cmd.mapError_of_ok (present_apply ..) _), hroot, hfault, hfault, hfault]
    dsimp only [Option.isSome_none]
    rw [if_neg (by decide), io, Cmd.bind_of_ok (Cmd.mapError_of_ok hcopy _), io,
      Cmd.bind_of_ok (Cmd.mapError_of_ok (openWrite_none (Disk.put_self ..)) _),
      setLen_apply (Disk.put_self ..), Disk.put_put, Option.getD_none]
    exact if_congr (and_iff_right hroot).symm rfl rfl

/-- A size that `set_len` refuses leaves an empty file. -/
theorem createPoolDisk_apply (hfault : ∀ site, env.fault site = .none)
    (hdir : d.dir .stateDir = true) :
    createPoolDisk env cfg d =
      if Oversized .poolRaw cfg.poolDiskGib d then (.error overflow, d.put .poolRaw [])
      else (.ok (), d.put .poolRaw (poolOf cfg d)) := by
  cases hpool : d.file .poolRaw with
  | some pool =>
    rw [if_neg (not_oversized_of_some hpool), createPoolDisk_present hpool, poolOf, hpool,
      Option.getD_some, Disk.put_same hpool]
  | none =>
    have hcreate : write .none File.poolRaw [] d = (.ok (), d.put .poolRaw []) := write_none hdir []
    unfold createPoolDisk createFile
    rw [io, Cmd.bind_of_ok (Cmd.mapError_of_ok (present_apply ..) _), hpool, hfault, hfault]
    dsimp only [Option.isSome_none]
    rw [if_neg (by decide), io, Cmd.bind_of_ok (Cmd.mapError_of_ok hcreate _),
      setLen_apply (Disk.put_self ..), Disk.put_put, poolOf, hpool, Option.getD_none]
    exact if_congr (and_iff_right hpool).symm rfl rfl

/-- The artifacts are there, and those that are checked pass. -/
structure Imaged (d : StateDisk) : Prop where
  base : ∃ b, d.file .baseImage = some b ∧ Accepted b
  root : ∃ b, d.file .rootRaw = some b ∧ Accepted b
  pool : ∃ b, d.file .poolRaw = some b

/-- The base image is there, or will be downloaded. -/
def Fetchable (env : ImageEnv) (d : StateDisk) (b : Bytes) : Prop :=
  d.file .baseImage = some b ∨ (d.file .baseImage = none ∧ env.curl = .delivers ∧ env.remote = b)

theorem Fetchable.curl (h : Fetchable env d b) : d.file .baseImage = none → env.curl = .delivers := by
  intro hnone
  cases h with
  | inl hb => rw [hb] at hnone; cases hnone
  | inr hdelivers => exact hdelivers.2.1

theorem Fetchable.baseOf_eq (h : Fetchable env d b) : baseOf env d = b := by
  rw [baseOf]
  cases h with
  | inl hb => rw [hb, Option.getD_some]
  | inr hdelivers => rw [hdelivers.1, Option.getD_none, hdelivers.2.2]

/-- The disk once the base image is there. -/
def withBase (env : ImageEnv) (d : StateDisk) : StateDisk :=
  (d.mkdirs (Tree.path File Dir.imagesDir)).put .baseImage (baseOf env d)

/-- The disk once the root disk is there as well. -/
def withRoot (env : ImageEnv) (cfg : Config) (d : StateDisk) : StateDisk :=
  (withBase env d).put .rootRaw (rootOf env cfg d)

variable {names : Names} {arch : Text} (harch : debianArch names.arch = some arch)
  (hfault : ∀ site, env.fault site = .none)
include harch hfault

/-- **A call that meets no fault**, whatever it finds: it stops at the first artifact
that does not pass, and takes that away, or at the first disk whose size overflows, and
leaves that without its size. -/
theorem ensureImages_apply (hcurl : d.file .baseImage = none → env.curl = .delivers) :
    ensureImages names env cfg d =
      if Accepted (baseOf env d) then
        if Oversized .rootRaw cfg.rootDiskGib d then
          (.error overflow, (withBase env d).put .rootRaw (baseOf env d))
        else if Accepted (rootOf env cfg d) then
          if Oversized .poolRaw cfg.poolDiskGib d then
            (.error overflow, (withRoot env cfg d).put .poolRaw [])
          else
            (.ok (), (withRoot env cfg d).put .poolRaw (poolOf cfg d))
        else
          (.error (.notADiskImage (File.display names.stateDir arch .rootRaw)
            (describeHeader ((rootOf env cfg d).take headerLen))), (withRoot env cfg d).erase .rootRaw)
      else
        (.error (.notADiskImage (File.display names.stateDir arch .baseImage)
          (describeHeader ((baseOf env d).take headerLen))), (withBase env d).erase .baseImage) := by
  have hdir : (withBase env d).dir .stateDir = true := Disk.mkdirs_dir _ (by decide)
  have hbase : (withBase env d).file .baseImage = some (baseOf env d) := Disk.put_self ..
  have hroot : (withBase env d).file .rootRaw = d.file .rootRaw := Disk.put_of_ne _ (by decide) _
  have hmade : (withRoot env cfg d).file .rootRaw = some (rootOf env cfg d) := Disk.put_self ..
  have hdir' : (withRoot env cfg d).dir .stateDir = true := hdir
  have hpool : poolOf cfg (withRoot env cfg d) = poolOf cfg d := by
    rw [poolOf, withRoot, Disk.put_of_ne _ (by decide), withBase, Disk.put_of_ne _ (by decide)]
    rfl
  have hfetch : fetchBaseImage env (imageUrl arch) (d.mkdirs (Tree.path File Dir.imagesDir)) =
      (.ok (), withBase env d) := fetchBaseImage_apply hcurl
  have hoverRoot : Oversized .rootRaw cfg.rootDiskGib (withBase env d) ↔
      Oversized .rootRaw cfg.rootDiskGib d := by rw [Oversized, hroot, Oversized]
  have hoverPool : Oversized .poolRaw cfg.poolDiskGib (withRoot env cfg d) ↔
      Oversized .poolRaw cfg.poolDiskGib d := by
    rw [Oversized, withRoot, Disk.put_of_ne _ (by decide), withBase, Disk.put_of_ne _ (by decide)]
    rfl
  have hcreate : createRootDisk env cfg (withBase env d) =
      if Oversized .rootRaw cfg.rootDiskGib d then
        (.error overflow, (withBase env d).put .rootRaw (baseOf env d))
      else (.ok (), withRoot env cfg d) := by
    rw [createRootDisk_apply hfault hbase hdir, hroot]
    exact if_congr hoverRoot rfl rfl
  unfold ensureImages
  rw [hfault, io, Cmd.bind_of_ok (Cmd.mapError_of_ok (createDirAll_none ..) _), harch]
  dsimp only
  rw [Cmd.bind_of_ok hfetch]
  by_cases hokb : Accepted (baseOf env d)
  · have hverify : verifyDiskImage env (File.display names.stateDir arch) .baseImage (withBase env d) =
        (.ok (), withBase env d) := by
      rw [verifyDiskImage_apply hfault hbase, if_pos hokb]
    rw [if_pos hokb, Cmd.bind_of_ok hverify, Cmd.bind_apply, hcreate]
    by_cases hover : Oversized .rootRaw cfg.rootDiskGib d
    · rw [if_pos hover, if_pos hover]
    rw [if_neg hover, if_neg hover]
    dsimp only
    by_cases hokr : Accepted (rootOf env cfg d)
    · have hverify : verifyDiskImage env (File.display names.stateDir arch) .rootRaw
          (withRoot env cfg d) = (.ok (), withRoot env cfg d) := by
        rw [verifyDiskImage_apply hfault hmade, if_pos hokr]
      rw [if_pos hokr, Cmd.bind_of_ok hverify, createPoolDisk_apply hfault hdir', hpool]
      exact if_congr hoverPool rfl rfl
    · rw [if_neg hokr, Cmd.bind_apply, verifyDiskImage_apply hfault hmade, if_neg hokr]
  · rw [if_neg hokb, Cmd.bind_apply, verifyDiskImage_apply hfault hbase, if_neg hokb]

/-- A call that finds no root disk makes it from the base image. -/
theorem ensureImages_creates (hb : Fetchable env d b) (hok : Accepted b)
    (hsize : b.length ≤ (sizeBytes cfg.rootDiskGib).toNat)
    (hrootLen : (sizeBytes cfg.rootDiskGib).toNat < lengthLimit)
    (hpoolLen : (sizeBytes cfg.poolDiskGib).toNat < lengthLimit) (hroot : d.file .rootRaw = none) :
    ∃ d', ensureImages names env cfg d = (.ok (), d') ∧ Imaged d' ∧ d'.dir .stateDir = true := by
  have hbase : baseOf env d = b := hb.baseOf_eq
  have hrootOf : rootOf env cfg d = resize (sizeBytes cfg.rootDiskGib).toNat b := by
    rw [rootOf, hroot, Option.getD_none, hbase]
  have hokr : Accepted (rootOf env cfg d) := by
    rw [hrootOf]
    exact hok.resize hsize
  rw [ensureImages_apply harch hfault hb.curl, hbase, if_pos hok, if_neg (not_oversized_of_lt hrootLen),
    if_pos hokr, if_neg (not_oversized_of_lt hpoolLen)]
  refine ⟨_, rfl, ⟨⟨b, ?_, hok⟩, ⟨rootOf env cfg d, ?_, hokr⟩, ⟨_, Disk.put_self ..⟩⟩, ?_⟩
  · simp [withRoot, withBase, hbase]
  · simp [withRoot]
  · exact Disk.mkdirs_dir _ (by decide)

/-- A call keeps artifacts that pass the check. -/
theorem ensureImages_keeps (h : Imaged d) :
    ensureImages names env cfg d = (.ok (), d.mkdirs (Tree.path File Dir.imagesDir)) := by
  obtain ⟨⟨base, hbase, hokb⟩, ⟨root, hroot, hokr⟩, ⟨pool, hpool⟩⟩ := h
  have hbaseOf : baseOf env d = base := by rw [baseOf, hbase, Option.getD_some]
  have hrootOf : rootOf env cfg d = root := by rw [rootOf, hroot, Option.getD_some]
  have hpoolOf : poolOf cfg d = pool := by rw [poolOf, hpool, Option.getD_some]
  have hcurl : d.file .baseImage = none → env.curl = .delivers := by
    intro hnone
    rw [hbase] at hnone
    cases hnone
  rw [ensureImages_apply harch hfault hcurl, withRoot, withBase, hbaseOf, hrootOf, hpoolOf,
    if_pos hokb, if_neg (not_oversized_of_some hroot), if_pos hokr,
    if_neg (not_oversized_of_some hpool), Disk.put_same (d := d.mkdirs _) hbase, Disk.put_same (d := d.mkdirs _) hroot,
    Disk.put_same (d := d.mkdirs _) hpool]

end NoFault

/-! ### What a call leaves -/

/-- What stands under the image's name if the download stops: `n` bytes of it,
unless `curl` failed and the program took them away again. -/
inductive DownloadLeft (env : ImageEnv) : Nat → Prop
  | killed (n : Nat) (hcurl : env.curl = .killed (some n)) : DownloadLeft env n
  | failed (status : Text) (n : Nat) (hcurl : env.curl = .fails status (some n))
      (hkept : env.fault .removeDownload ≠ .none)
      (hprogress : (env.fault .removeDownload).progress = none) : DownloadLeft env n

/-- What stands under `root.raw` if making it from `base` stops. -/
inductive RootLeft (env : ImageEnv) (size : Nat) (base : Bytes) : Bytes → Prop
  | copied (n : Nat) (hcopy : (env.fault .copyRoot).progress = some n) :
      RootLeft env size base (base.take n)
  | unopened (hcopy : env.fault .copyRoot = .none) (hopen : env.fault .openRoot ≠ .none) :
      RootLeft env size base base
  | unsized (hcopy : env.fault .copyRoot = .none) (hopen : env.fault .openRoot = .none)
      (hresize : lengthLimit ≤ size ∨
        env.fault .resizeRoot ≠ .none ∧ (env.fault .resizeRoot).progress = none) :
      RootLeft env size base base
  | resized (k : Nat) (hcopy : env.fault .copyRoot = .none) (hopen : env.fault .openRoot = .none)
      (hsize : size < lengthLimit) (hprogress : (env.fault .resizeRoot).progress = some k) :
      RootLeft env size base (resize (reached size k base.length) base)

/-- What stands under `pool.raw` if making it stops. -/
inductive PoolLeft (env : ImageEnv) (size : Nat) : Bytes → Prop
  | created (hcreate : (env.fault .createPool).progress.isSome) : PoolLeft env size []
  | unsized (hcreate : env.fault .createPool = .none)
      (hresize : lengthLimit ≤ size ∨
        env.fault .resizePool ≠ .none ∧ (env.fault .resizePool).progress = none) :
      PoolLeft env size []
  | resized (k : Nat) (hcreate : env.fault .createPool = .none) (hsize : size < lengthLimit)
      (hprogress : (env.fault .resizePool).progress = some k) :
      PoolLeft env size (resize (reached size k 0) [])

section Rules
variable {env : ImageEnv} {cfg : Config} {d : StateDisk} {Q : StateDisk → Prop}
variable {P : Unit → StateDisk → Prop}

/-- The disk is left as it is, or without the rejected file. -/
theorem ends_verifyDiskImage {path : File → Text} {f : File}
    (hw : ∀ b, env.fault (.openImage f) = .none → env.fault (.readImage f) = .none →
      d.file f = some b → Accepted b → P () d) (hq : Q d)
    (hbad : ∀ b, d.file f = some b → ¬ Accepted b → Q (d.erase f)) :
    Ends (verifyDiskImage env path f) d P Q := by
  unfold verifyDiskImage io
  rw [ends_bind, ends_mapError]
  refine ends_readFile (fun b hopen hb => ?_) fun _ => hq
  rw [ends_bind, ends_mapError]
  refine ends_stage (fun hread => ?_) (fun _ _ => hq) fun _ _ => hq
  dsimp only
  rw [header_eq]
  split
  · next hok => exact hw b hopen hread hb hok
  · next hno =>
    rw [ends_bind, ends_mapError]
    exact ends_removeFile (fun _ => hbad b hb hno) (fun _ => hq) fun _ => hbad b hb hno

/-- A base image that is there stays; else it is downloaded. -/
theorem ends_fetchBaseImage {url : Text} (hpresent : ∀ b, d.file .baseImage = some b → P () d)
    (hdelivered : d.file .baseImage = none → env.curl = .delivers →
      P () (d.put .baseImage env.remote)) (hq : Q d)
    (hleft : ∀ n, d.file .baseImage = none → DownloadLeft env n →
      Q (d.put .baseImage (env.remote.take n)))
    (hgone : d.file .baseImage = none → ∀ b, Q ((d.put .baseImage b).erase .baseImage)) :
    Ends (fetchBaseImage env url) d P Q := by
  unfold fetchBaseImage io
  rw [ends_bind, ends_mapError, ends_present]
  cases hbase : d.file .baseImage with
  | some b => exact hpresent b hbase
  | none =>
    show Ends (download env url) d P Q
    unfold download
    split
    · exact hq
    · next hcurl => exact hdelivered hbase hcurl
    · next status left hcurl =>
      rw [ends_bind, ends_modify, ends_bind]
      refine ends_attempt (fun _ d' => Ends (Cmd.fail _) d' P Q) ?_ fun _ h => h
      unfold removeFile
      rw [ends_bind, ends_present]
      cases left with
      | none => simpa [keep, hbase] using hq
      | some n =>
        have hleft : (env.fault .removeDownload) ≠ .none →
            (env.fault .removeDownload).progress = none →
            Q (d.put .baseImage (env.remote.take n)) :=
          fun hkept hprogress => hleft n hbase (.failed status n hcurl hkept hprogress)
        simp only [keep, Disk.put_self, Option.isSome_some, if_true, ends_fail]
        cases hfault : env.fault .removeDownload with
        | none => exact hgone hbase _
        | fails done =>
          cases done with
          | none => exact hleft (by simp [hfault]) (by simp [hfault, Fault.progress])
          | some _ => exact hgone hbase _
        | kills done =>
          cases done with
          | none => exact hleft (by simp [hfault]) (by simp [hfault, Fault.progress])
          | some _ => exact hgone hbase _
    · next left hcurl =>
      rw [ends_bind, ends_modify, ends_die]
      cases left with
      | none => exact hq
      | some n => exact hleft n hbase (.killed n hcurl)

/-- A root disk that is there stays; else it is cloned from the base image and resized. -/
theorem ends_createRootDisk (hpresent : ∀ b, d.file .rootRaw = some b → P () d)
    (hcreated : ∀ base, env.fault .copyRoot = .none → env.fault .openRoot = .none →
      env.fault .resizeRoot = .none → (sizeBytes cfg.rootDiskGib).toNat < lengthLimit →
      d.file .rootRaw = none → d.file .baseImage = some base →
      P () (d.put .rootRaw (resize (sizeBytes cfg.rootDiskGib).toNat base))) (hq : Q d)
    (hleft : ∀ base b, d.file .rootRaw = none → d.file .baseImage = some base →
      RootLeft env (sizeBytes cfg.rootDiskGib).toNat base b → Q (d.put .rootRaw b)) :
    Ends (createRootDisk env cfg) d P Q := by
  unfold createRootDisk io
  rw [ends_bind, ends_mapError, ends_present]
  cases hroot : d.file .rootRaw with
  | some b => exact hpresent b hroot
  | none =>
    dsimp only [Option.isSome_none]
    rw [if_neg (by decide), ends_bind, ends_mapError]
    refine ends_copy (fun base hcopy _ hbase => ?_) hq fun base n hbase hn =>
      hleft base _ hroot hbase (.copied n hn)
    -- from here on the copy is complete
    have hthere : ((d.put .rootRaw base).file .rootRaw).isSome := by simp
    rw [ends_bind, ends_mapError]
    refine ends_openWrite (fun _ hopen _ => ?_) fun hopen =>
      hleft base base hroot hbase (.unopened hcopy (hopen hthere))
    rw [ends_mapError]
    refine ends_setLen (fun b hresize hsize hb => ?_) (fun hstop => ?_) fun b k hb hsize hk => ?_
    · obtain rfl : base = b := by simpa using hb
      simpa using hcreated base hcopy hopen hresize hsize hroot hbase
    · exact hleft base base hroot hbase (.unsized hcopy hopen (hstop hthere))
    · obtain rfl : base = b := by simpa using hb
      simpa using hleft base _ hroot hbase (.resized k hcopy hopen hsize hk)

/-- A pool disk that is there stays; else it is created and resized. -/
theorem ends_createPoolDisk (hpresent : ∀ b, d.file .poolRaw = some b → P () d)
    (hcreated : d.file .poolRaw = none →
      P () (d.put .poolRaw (resize (sizeBytes cfg.poolDiskGib).toNat []))) (hq : Q d)
    (hleft : ∀ b, d.file .poolRaw = none → PoolLeft env (sizeBytes cfg.poolDiskGib).toNat b →
      Q (d.put .poolRaw b)) : Ends (createPoolDisk env cfg) d P Q := by
  unfold createPoolDisk io
  rw [ends_bind, ends_mapError, ends_present]
  cases hpool : d.file .poolRaw with
  | some b => exact hpresent b hpool
  | none =>
    dsimp only [Option.isSome_none]
    rw [if_neg (by decide), ends_bind, ends_mapError]
    refine ends_createFile (fun hcreate _ => ?_) hq fun hstop =>
      hleft _ hpool (.created hstop)
    have hthere : ((d.put .poolRaw []).file .poolRaw).isSome := by simp
    rw [ends_mapError]
    refine ends_setLen (fun b _ _ hb => ?_) (fun hstop => ?_) fun b k hb hsize hk => ?_
    · obtain rfl : [] = b := by simpa using hb
      simpa using hcreated hpool
    · exact hleft _ hpool (.unsized hcreate (hstop hthere))
    · obtain rfl : [] = b := by simpa using hb
      simpa using hleft _ hpool (.resized k hcreate hsize hk)

end Rules

/-! ### The artifacts are all that is touched -/

def imageFiles : List File := [.baseImage, .rootRaw, .poolRaw]

theorem Imaged.of_only {d d' : StateDisk} {S : File → Prop} (h : Imaged d) (hd : Only S d d')
    (hs : ∀ f ∈ imageFiles, ¬ S f) : Imaged d' where
  base := by rw [hd _ (hs _ (by decide))]; exact h.base
  root := by rw [hd _ (hs _ (by decide))]; exact h.root
  pool := by rw [hd _ (hs _ (by decide))]; exact h.pool

/-- A file that passes the check is left alone, wherever the check stops. -/
theorem ends_verifyDiskImage_accepted {env : ImageEnv} {path : File → Text} {f : File} {d : StateDisk}
    (h : ∃ b, d.file f = some b ∧ Accepted b) :
    Ends (verifyDiskImage env path f) d (fun _ d' => d' = d) (fun d' => d' = d) := by
  obtain ⟨b, hb, hok⟩ := h
  refine ends_verifyDiskImage (fun _ _ _ _ _ => rfl) rfl fun b' hb' hno => ?_
  obtain rfl : b = b' := Option.some.inj (hb.symm.trans hb')
  exact absurd hok hno

/-- A call that finds the artifacts leaves every file alone, wherever it stops. -/
theorem ends_ensureImages_imaged {names : Names} {env : ImageEnv} {cfg : Config} {d : StateDisk}
    (h : Imaged d) : Ends (ensureImages names env cfg) d (fun _ d' => d'.file = d.file)
      (fun d' => d'.file = d.file) := by
  unfold ensureImages
  rw [ends_bind, io, ends_mapError]
  refine ends_createDirAll (fun _ => ?_) fun _ _ => rfl
  let d0 := d.mkdirs (Tree.path File Dir.imagesDir)
  have h0 : Imaged d0 := ⟨h.base, h.root, h.pool⟩
  obtain ⟨base, hbase, -⟩ := h0.base
  obtain ⟨root, hroot, -⟩ := h0.root
  obtain ⟨pool, hpool⟩ := h0.pool
  split
  · rfl
  · rw [ends_bind, ends_of_eq (fetchBaseImage_present hbase), ends_bind]
    refine (ends_verifyDiskImage_accepted h0.base).mono ?_ (by rintro _ rfl; rfl)
    rintro _ _ rfl
    rw [ends_bind, ends_of_eq (createRootDisk_present hroot), ends_bind]
    refine (ends_verifyDiskImage_accepted h0.root).mono ?_ (by rintro _ rfl; rfl)
    rintro _ _ rfl
    rw [ends_of_eq (createPoolDisk_present hpool)]
    rfl

section Frames
variable (env : ImageEnv) (cfg : Config)

theorem within_fetchBaseImage (url : Text) : Within (Only (· ∈ imageFiles)) (fetchBaseImage env url) := by
  have hbase : File.baseImage ∈ imageFiles := by decide
  exact within_of_ends fun d => ends_fetchBaseImage (fun _ _ => Only.refl d)
    (fun _ _ => only_put d hbase _) (Only.refl d) (fun _ _ _ => only_put d hbase _)
    fun _ b => Only.trans d _ _ (only_put d hbase b) (only_erase _ hbase)

theorem within_verifyDiskImage (path : File → Text) {f : File} (hf : f ∈ imageFiles) :
    Within (Only (· ∈ imageFiles)) (verifyDiskImage env path f) :=
  within_of_ends fun d => ends_verifyDiskImage (fun _ _ _ _ _ => Only.refl d) (Only.refl d)
    fun _ _ _ => only_erase d hf

theorem within_createRootDisk : Within (Only (· ∈ imageFiles)) (createRootDisk env cfg) := by
  have hroot : File.rootRaw ∈ imageFiles := by decide
  exact within_of_ends fun d => ends_createRootDisk (fun _ _ => Only.refl d)
    (fun _ _ _ _ _ _ _ => only_put d hroot _) (Only.refl d) fun _ _ _ _ _ => only_put d hroot _

theorem within_createPoolDisk : Within (Only (· ∈ imageFiles)) (createPoolDisk env cfg) := by
  have hpool : File.poolRaw ∈ imageFiles := by decide
  exact within_of_ends fun d => ends_createPoolDisk (fun _ _ => Only.refl d)
    (fun _ => only_put d hpool _) (Only.refl d) fun _ _ _ => only_put d hpool _

/-- The images are all that a call changes. -/
theorem within_ensureImages (names : Names) :
    Within (Only (· ∈ imageFiles)) (ensureImages names env cfg) := by
  unfold ensureImages
  refine within_bind Only.trans (within_mapError (within_createDirAll _ _) _) fun _ => ?_
  split
  · exact within_fail Only.refl _
  · refine within_bind Only.trans (within_fetchBaseImage env _) fun _ => ?_
    refine within_bind Only.trans (within_verifyDiskImage env _ (by decide)) fun _ => ?_
    refine within_bind Only.trans (within_createRootDisk env cfg) fun _ => ?_
    refine within_bind Only.trans (within_verifyDiskImage env _ (by decide)) fun _ => ?_
    exact within_createPoolDisk env cfg

end Frames

end Image

end Malleus
