import Malleus.Image

/-! How the system splits the reads of an image.

`read_full` asks again until its buffer is full or a read returns nothing, and
`verify_disk_image` removes a file on the strength of what is then in the buffer.
`header_decides` says that every way of splitting the reads comes to the same buffer, and
that the check goes by the file's first 520 bytes and by nothing else of it. -/
namespace Malleus.Image
open Effect Strings Storage Filling

/-! ### The loop and the runs of reads -/

/-- A size that the system may choose is what the read returns. -/
theorem readSize_some {s : Loop UInt8} {n : Nat} (hn : 0 < n) (h : s.MayReturn n) :
    readSize (some n) s.rest (s.buf.length - s.filled) = n := by
  have hspace := h.space
  have hdata := h.data
  rw [Loop.space] at hspace
  rw [readSize, Option.getD_some]
  omega

/-- The loop goes through any run of reads, read by read. -/
theorem readLoop_reads {s t : Loop UInt8} {sizes : List Nat} (hrun : Reads s sizes t) (hstop : t.Stops)
    {fuel : Nat} (hfuel : s.buf.length - s.filled ≤ fuel) :
    readLoop fuel sizes s.rest s.filled s.buf = (t.filled, t.buf) := by
  induction hrun generalizing fuel with
  | done s =>
    cases fuel with
    | zero => rfl
    | succ fuel =>
      rw [readLoop]
      cases hstop with
      | full hfull => rw [if_neg (by omega)]
      | empty hspace hzero =>
        have hsize : readSize ([] : List Nat).head? s.rest (s.buf.length - s.filled) = 0 := by
          rw [hzero.progress rfl, readSize, List.length_nil]
          omega
        rw [if_pos hspace]
        dsimp only
        rw [hsize, if_pos rfl]
  | @read s t n sizes hspace hn h _ ih =>
    obtain ⟨fuel, rfl⟩ := Nat.exists_eq_succ_of_ne_zero (by omega : fuel ≠ 0)
    have hless : (s.read n).buf.length - (s.read n).filled ≤ fuel := by
      rw [length_read h]
      show s.buf.length - (s.filled + n) ≤ fuel
      omega
    rw [Nat.succ_eq_add_one, readLoop, if_pos hspace]
    dsimp only
    rw [List.head?_cons, readSize_some hn h, if_neg (by omega)]
    exact ih hstop hless

/-- Any run of reads that stops is what `read_full` makes of it. -/
theorem readFull_reads {file buf : Bytes} {sizes : List Nat} {s : Loop UInt8}
    (hrun : Reads ⟨buf, 0, file⟩ sizes s) (hstop : s.Stops) :
    readFull sizes file buf = (s.filled, s.buf) := readLoop_reads hrun hstop (Nat.sub_le _ _)

/-! ### The check -/

/-- What the check makes of a file that begins with `header`: how it ends, and whether it
removes the file. -/
def verdict (fault : Site → Fault) (path : File → Text) (f : File) (header : Bytes) :
    Outcome ImageError Unit × Bool :=
  if fault (.openImage f) ≠ .none then ((fault (.openImage f)).stop (.io .failed), false)
  else if fault (.readImage f) ≠ .none then ((fault (.readImage f)).stop (.io .failed), false)
  else if looksLikeDiskImage header then (.ok (), false)
  else if fault (.removeRejected f) ≠ .none then
    ((fault (.removeRejected f)).stop (.io .failed), (fault (.removeRejected f)).progress.isSome)
  else (.error (.notADiskImage (path f) (describeHeader header)), true)

section Verdict
variable {env : ImageEnv} {path : File → Text} {f : File} {d : StateDisk} {b : Bytes}

theorem verifyDiskImage_unopened (h : env.fault (.openImage f) ≠ .none) :
    verifyDiskImage env path f d = ((env.fault (.openImage f)).stop (.io .failed), d) := by
  unfold verifyDiskImage io
  exact Cmd.bind_of_stop (Cmd.mapError_of_stop (readFile_stop h f d) _) _

/-- A header that cannot be read is not judged: the file stays. -/
theorem verifyDiskImage_unread (hopen : env.fault (.openImage f) = .none)
    (h : env.fault (.readImage f) ≠ .none) (hb : d.file f = some b) :
    verifyDiskImage env path f d = ((env.fault (.readImage f)).stop (.io .failed), d) := by
  have hstage : stage (env.fault (.readImage f)) IoError.failed (fun _ d => d) (fun d => d) d =
      ((env.fault (.readImage f)).stop .failed, d) := by
    rw [stage_of_ne h]
    cases (env.fault (.readImage f)).progress <;> rfl
  unfold verifyDiskImage io
  rw [hopen, Cmd.bind_of_ok (Cmd.mapError_of_ok (readFile_none hb) _)]
  exact Cmd.bind_of_stop (Cmd.mapError_of_stop hstage _) _

/-- With the header in the buffer, what is left is the check of it. -/
theorem verifyDiskImage_read (hopen : env.fault (.openImage f) = .none)
    (hread : env.fault (.readImage f) = .none) (hb : d.file f = some b) :
    verifyDiskImage env path f d =
      (if looksLikeDiskImage (b.take headerLen) then pure ()
        else do
          io (removeFile (env.fault (.removeRejected f)) f)
          Cmd.fail (.notADiskImage (path f) (describeHeader (b.take headerLen))) : Do Unit) d := by
  unfold verifyDiskImage io
  rw [hopen, hread, Cmd.bind_of_ok (Cmd.mapError_of_ok (readFile_none hb) _),
    Cmd.bind_of_ok (Cmd.mapError_of_ok (stage_none ..) _)]
  dsimp only
  rw [header_eq]

/-- The check goes by the header alone, whatever fails on the way. -/
theorem verifyDiskImage_verdict (hb : d.file f = some b) :
    verifyDiskImage env path f d = ((verdict env.fault path f (b.take headerLen)).1,
      if (verdict env.fault path f (b.take headerLen)).2 then d.erase f else d) := by
  rw [verdict]
  by_cases hopen : env.fault (.openImage f) = .none
  swap
  · rw [if_pos hopen, verifyDiskImage_unopened hopen]
    rfl
  rw [if_neg (not_not_intro hopen)]
  by_cases hread : env.fault (.readImage f) = .none
  swap
  · rw [if_pos hread, verifyDiskImage_unread hopen hread hb]
    rfl
  rw [if_neg (not_not_intro hread), verifyDiskImage_read hopen hread hb]
  by_cases hok : looksLikeDiskImage (b.take headerLen) = true
  · rw [if_pos hok, if_pos hok]
    rfl
  rw [if_neg hok, if_neg hok]
  by_cases hremove : env.fault (.removeRejected f) = .none
  · rw [if_neg (not_not_intro hremove), hremove, io,
      Cmd.bind_of_ok (Cmd.mapError_of_ok (removeFile_none hb) _)]
    rfl
  · rw [if_pos hremove, io]
    exact Cmd.bind_of_stop (Cmd.mapError_of_stop (removeFile_stop hremove hb) _) _

end Verdict

/-- **The header decides**, however the reads are split: every run of reads goes on until it
stops, after no more reads than the buffer has places, and where it stops `read_full` has
the file as far as it and the buffer reach; and the check goes by the first 520 bytes. -/
theorem header_decides (file : Bytes) :
    (∀ (buf : Bytes) (sizes : List Nat) (s : Loop UInt8), Reads ⟨buf, 0, file⟩ sizes s →
      sizes.length ≤ buf.length ∧
      (s.Stops ∨ s.filled < s.buf.length ∧ ∃ n, 0 < n ∧ s.MayReturn n) ∧
      (s.Stops → readFull sizes file buf = (s.filled, s.buf) ∧
        s.filled = min file.length buf.length ∧
        s.buf = file.take buf.length ++ buf.drop file.length)) ∧
    ∀ (env : ImageEnv) (path : File → Text) (f : File) (d : StateDisk), d.file f = some file →
      verifyDiskImage env path f d = ((verdict env.fault path f (file.take 520)).1,
        if (verdict env.fault path f (file.take 520)).2 then d.erase f else d) := by
  refine ⟨fun buf sizes s hrun => ?_, fun env path f d hd => verifyDiskImage_verdict hd⟩
  obtain ⟨hlength, hfills⟩ := reads_fills hrun
  exact ⟨hlength, stops_or_reads s, fun hstop => ⟨readFull_reads hrun hstop, hfills hstop⟩⟩

/-- One sector, in three reads into the buffer of the check. -/
theorem header_decides_three : readFull [100, 300, 112] oneSector (List.replicate 520 0) =
    (512, oneSector ++ List.replicate 8 0) := by
  let start : Loop UInt8 := ⟨List.replicate 520 0, 0, oneSector⟩
  have hrun : Reads start [100, 300, 112] (((start.read 100).read 300).read 112) :=
    .read (by decide +kernel) (by decide) ⟨by decide +kernel, by decide +kernel, by simp⟩
      (.read (by decide +kernel) (by decide) ⟨by decide +kernel, by decide +kernel, by simp⟩
        (.read (by decide +kernel) (by decide) ⟨by decide +kernel, by decide +kernel, by simp⟩ (.done _)))
  have hend : (((start.read 100).read 300).read 112).rest = [] := by decide +kernel
  have hstop : (((start.read 100).read 300).read 112).Stops :=
    .empty (by decide +kernel) ⟨Nat.zero_le _, Nat.zero_le _, fun _ => hend⟩
  obtain ⟨hread, hfilled, hbuf⟩ := ((header_decides oneSector).1 _ _ _ hrun).2.2 hstop
  rw [hread, hfilled, hbuf]
  decide +kernel

end Malleus.Image
