import Mathlib.Data.List.Basic
import Malleus.Provision

/-! The `write_files` section as cloud-init reads it.

An entry's content is a literal block: its first line with something on it gives the
indentation, and it goes up to the first one that is indented less.
`readWriteFiles_render` says that the entries come out with the texts that went in,
each ending in exactly one line feed. -/
namespace Malleus.Provision
open Strings

/-! ### Reading -/

def isBlank (l : Text) : Bool := l.all (· == ' ')

/-- The indentation of the block that begins here, below a key of indentation `parent`. -/
def blockIndent (parent : Nat) (ls : List Text) : Nat :=
  match ls.find? fun l => !isBlank l with
  | some l => max (parent + 1) (l.takeWhile (· == ' ')).length
  | none => parent + 1

/-- The line belongs to a block of this indentation. -/
def inBlock (indent : Nat) (l : Text) : Bool :=
  isBlank l || (List.replicate indent ' ').isPrefixOf l

/-- The content of the block that begins here; empty lines at its end do not count. -/
def readBlock (parent : Nat) (ls : List Text) : Text :=
  let indent := blockIndent parent ls
  unlines (trimEndBy (·.isEmpty) ((ls.takeWhile (inBlock indent)).map (·.drop indent)))

/-- The path of the entry that begins with this line. -/
def entryPath (l : Text) : Option Text :=
  if "  - path: ".toList.isPrefixOf l then some (l.drop "  - path: ".toList.length) else none

/-- The entries from here on, a path and a content each. -/
def readEntries : Nat → List Text → List (Text × Text)
  | fuel + 1, l :: rest =>
    match entryPath l with
    | none => []
    | some path =>
      let body := (rest.dropWhile (· ≠ "    content: |".toList)).tail
      (path, readBlock 4 body) :: readEntries fuel (body.dropWhile (inBlock (blockIndent 4 body)))
  | _, _ => []

/-- Paths and contents of the entries below `write_files`, as cloud-init reads them. -/
def readWriteFiles (doc : Text) : List (Text × Text) :=
  let entries := ((lines doc).dropWhile (· ≠ "write_files:".toList)).tail
  readEntries entries.length entries

/-! ### Blocks -/

/-- A content that a block can carry: something stands at its very beginning, and
nowhere a carriage return. -/
structure BlockText (content : Text) : Prop where
  no_cr : '\r' ∉ content
  start : ∃ c, content.head? = some c ∧ c ≠ ' ' ∧ c ≠ '\n'

/-- The text with exactly one line feed at its end. -/
def oneNewline (content : Text) : Text := trimEndBy (· == '\n') content ++ ['\n']

/-- A content as `push_block` writes it, six spaces deep. -/
def blockLines (content : Text) : List Text :=
  ((trimEndBy (· == '\n') content).splitOn '\n').map (List.replicate 6 ' ' ++ ·)

section Block
variable {content : Text} (h : BlockText content)
include h

omit h in

/-- Line feeds at the end of a content are taken off before it is split. -/
theorem getLast_trimmed (content : Text) : (trimEndBy (· == '\n') content).getLast? ≠ some '\n' := by
  intro hlast
  have := trimEndBy_getLast hlast
  simp at this

omit h in
theorem mem_of_mem_trimmed {c : Char} (hc : c ∈ trimEndBy (· == '\n') content) : c ∈ content :=
  (isPrefix_trimEndBy ..).subset hc

/-- The first line is not empty and not indented. -/
theorem BlockText.split :
    ∃ c l ls, (trimEndBy (· == '\n') content).splitOn '\n' = (c :: l) :: ls ∧ c ≠ ' ' := by
  obtain ⟨c, hhead, hspace, hnewline⟩ := h.start
  obtain ⟨t, rfl⟩ := List.head?_eq_some_iff.mp hhead
  have hc : (c == '\n') = false := by simpa using hnewline
  obtain ⟨l, ls, hl⟩ := List.exists_cons_of_ne_nil
    (List.splitOnP_ne_nil (· == '\n') (trimEndBy (· == '\n') t))
  refine ⟨c, l, ls, ?_, hspace⟩
  have htrim : trimEndBy (· == '\n') (c :: t) = c :: trimEndBy (· == '\n') t :=
    trimEndBy_cons (· == '\n') hc t
  rw [htrim, List.splitOn, List.splitOnP_cons_eq_if_modifyHead, if_neg (by simp [hc]), hl]
  rfl

theorem BlockText.some_line : trimEndBy (· == '\n') content ≠ [] := by
  obtain ⟨c, l, ls, hsplit, -⟩ := h.split
  intro hnil
  simp [hnil] at hsplit

theorem pushBlock_eq : pushBlock 6 content = unlines (blockLines content) := by
  rw [pushBlock, lines_eq_splitOn h.some_line (getLast_trimmed content) fun hc =>
    h.no_cr (mem_of_mem_trimmed hc), blockLines]

theorem blockLines_plain : ∀ l ∈ blockLines content, Plain l := by
  intro l hl
  obtain ⟨line, hline, rfl⟩ := List.mem_map.mp hl
  refine ⟨fun hc => ?_, fun hc => ?_⟩
  · rcases List.mem_append.mp hc with hc | hc
    · simp at hc
    · exact not_mem_of_mem_splitOn hline hc
  · rcases List.mem_append.mp hc with hc | hc
    · simp at hc
    · exact h.no_cr (mem_of_mem_trimmed (mem_of_mem_line hline hc))

omit h in
theorem blockLines_inBlock (content : Text) : ∀ l ∈ blockLines content, inBlock 6 l = true := by
  intro l hl
  obtain ⟨line, _, rfl⟩ := List.mem_map.mp hl
  have hprefix : (List.replicate 6 ' ').isPrefixOf (List.replicate 6 ' ' ++ line) = true :=
    List.isPrefixOf_iff_prefix.mpr (List.prefix_append ..)
  rw [inBlock, hprefix, Bool.or_true]

omit h in
/-- A block ends where a line is indented less. -/
theorem dropWhile_blockLines {rest : List Text} (hrest : ∀ l ∈ rest.head?, inBlock 6 l = false) :
    (blockLines content ++ rest).dropWhile (inBlock 6) = rest := by
  rw [List.dropWhile_append_of_pos (blockLines_inBlock content)]
  cases rest with
  | nil => rfl
  | cons l rest => exact List.dropWhile_cons_of_neg (by simp [hrest l rfl])

/-- The first line that is not blank sets the indentation, and it is the six spaces of
`push_block`. -/
theorem blockIndent_blockLines (rest : List Text) : blockIndent 4 (blockLines content ++ rest) = 6 := by
  obtain ⟨c, l, ls, hsplit, hspace⟩ := h.split
  have hc : (c == ' ') = false := by simpa using hspace
  have hblank : isBlank (List.replicate 6 ' ' ++ c :: l) = false := by
    rw [isBlank, List.all_append, List.all_cons, hc]
    simp
  have hindent : ((List.replicate 6 ' ' ++ c :: l).takeWhile (· == ' ')).length = 6 := by
    rw [List.takeWhile_append_of_pos (by simp), List.takeWhile_cons_of_neg (by simp [hc])]
    rfl
  rw [blockIndent, blockLines, hsplit, List.map_cons, List.cons_append,
    List.find?_cons_of_pos (by rw [hblank]; rfl)]
  dsimp only
  rw [hindent]
  rfl

/-- A block is read as the content it was written for, with one line feed at its end. -/
theorem readBlock_blockLines {rest : List Text} (hrest : ∀ l ∈ rest.head?, inBlock 6 l = false) :
    readBlock 4 (blockLines content ++ rest) = oneNewline content := by
  have htake : (blockLines content ++ rest).takeWhile (inBlock 6) = blockLines content := by
    rw [List.takeWhile_append_of_pos (blockLines_inBlock content)]
    cases rest with
    | nil => simp
    | cons l rest => rw [List.takeWhile_cons_of_neg (by simp [hrest l rfl]), List.append_nil]
  have hstrip : (blockLines content).map (·.drop 6) =
      (trimEndBy (· == '\n') content).splitOn '\n' := by
    rw [blockLines, List.map_map]
    exact (List.map_congr_left fun l _ => List.drop_left' (by simp)).trans (List.map_id _)
  have hlast := last_line_ne_nil h.some_line (getLast_trimmed content)
  rw [readBlock, blockIndent_blockLines h, htake, hstrip, trimEndBy_of_getLast fun l hl => by simp [hlast l hl],
    unlines_splitOn, oneNewline]

end Block

/-! ### Entries -/

/-- An entry of `write_files`. -/
structure FileEntry where
  path : Text
  permissions : Text
  content : Text

/-- The entry's path and permissions fit on a line each, and its content in a block. -/
structure FileEntry.Valid (e : FileEntry) : Prop where
  path : Plain e.path
  permissions : Plain e.permissions
  content : BlockText e.content

def FileEntry.lines (e : FileEntry) : List Text :=
  ["  - path: ".toList ++ e.path, "    permissions: \"".toList ++ e.permissions ++ "\"".toList,
    "    content: |".toList] ++ blockLines e.content

/-- An entry by its lines. -/
theorem writeFile_eq {e : FileEntry} (h : e.Valid) :
    writeFile e.path e.permissions e.content = unlines e.lines := by
  rw [writeFile, pushBlock_eq h.content, FileEntry.lines, unlines_append]

theorem FileEntry.lines_plain {e : FileEntry} (h : e.Valid) : ∀ l ∈ e.lines, Plain l := by
  intro l hl
  rcases List.mem_append.mp hl with hl | hl
  · simp only [List.mem_cons, List.not_mem_nil, or_false] at hl
    rcases hl with rfl | rfl | rfl
    · simpa [Plain] using h.path
    · simpa [Plain] using h.permissions
    · decide
  · exact blockLines_plain h.content l hl

/-- An entry's first line belongs to no block. -/
theorem inBlock_path (path : Text) : inBlock 6 ("  - path: ".toList ++ path) = false := by
  rw [inBlock, isBlank, List.all_append]
  rfl

/-- An entry is read with its path and its content; reading goes on after its block. -/
theorem readEntries_entry {e : FileEntry} (h : e.Valid) {rest : List Text}
    (hrest : ∀ l ∈ rest.head?, inBlock 6 l = false) (fuel : Nat) :
    readEntries (fuel + 1) (e.lines ++ rest) =
      (e.path, oneNewline e.content) :: readEntries fuel rest := by
  have hentry : entryPath ("  - path: ".toList ++ e.path) = some e.path := by
    have hprefix : "  - path: ".toList.isPrefixOf ("  - path: ".toList ++ e.path) = true :=
      List.isPrefixOf_iff_prefix.mpr (List.prefix_append ..)
    rw [entryPath, if_pos hprefix, List.drop_left]
  have hskip : ∀ ls : List Text, (("    permissions: \"".toList ++ e.permissions ++ "\"".toList) ::
      "    content: |".toList :: ls).dropWhile (· ≠ "    content: |".toList) =
        "    content: |".toList :: ls := by
    intro ls
    rw [List.dropWhile_cons_of_pos (by simp), List.dropWhile_cons_of_neg (by simp)]
  rw [FileEntry.lines, List.append_assoc]
  show readEntries (fuel + 1) (("  - path: ".toList ++ e.path) ::
    ("    permissions: \"".toList ++ e.permissions ++ "\"".toList) :: "    content: |".toList ::
      (blockLines e.content ++ rest)) = _
  rw [readEntries, hentry]
  dsimp only
  rw [hskip, List.tail_cons, readBlock_blockLines h.content hrest, blockIndent_blockLines h.content,
    dropWhile_blockLines hrest]

/-- All entries are read, up to a line that begins something else. -/
theorem readEntries_entries {entries : List FileEntry} (h : ∀ e ∈ entries, e.Valid) {l : Text}
    {rest : List Text} (hblock : inBlock 6 l = false) (hentry : entryPath l = none) {fuel : Nat}
    (hfuel : entries.length < fuel) :
    readEntries fuel (entries.flatMap FileEntry.lines ++ l :: rest) =
      entries.map fun e => (e.path, oneNewline e.content) := by
  induction entries generalizing fuel with
  | nil =>
    obtain ⟨n, rfl⟩ := Nat.exists_eq_succ_of_ne_zero (by omega : fuel ≠ 0)
    rw [List.flatMap_nil, List.nil_append, Nat.succ_eq_add_one, readEntries, hentry]
    rfl
  | cons e entries ih =>
    obtain ⟨n, rfl⟩ := Nat.exists_eq_succ_of_ne_zero (by omega : fuel ≠ 0)
    have hnext : ∀ m ∈ (entries.flatMap FileEntry.lines ++ l :: rest).head?, inBlock 6 m = false := by
      cases entries with
      | nil => simpa using hblock
      | cons e' entries =>
        intro m hm
        obtain rfl : "  - path: ".toList ++ e'.path = m := by
          simpa [FileEntry.lines] using hm
        exact inBlock_path e'.path
    rw [List.flatMap_cons, List.append_assoc, Nat.succ_eq_add_one,
      readEntries_entry (h e (List.mem_cons_self ..)) hnext,
      ih (fun e' he => h e' (List.mem_cons_of_mem e he)) (by simpa using hfuel)]
    rfl

/-! ### The whole document -/

/-- The lines above `write_files`, which are the same in every document. -/
def preambleLines : List Text :=
  ["#cloud-config".toList, "output: \x7ball: '| tee /dev/hvc0'\x7d".toList, "network:".toList,
    "  version: 2".toList, "  ethernets:".toList, "    all:".toList, "      match:".toList,
    "        name: \"*\"".toList, "      dhcp4: true".toList, "bootcmd:".toList,
    "  - [sh, -c, \"echo $(date) bootcmd started > /dev/hvc0\"]".toList,
    "  - [ modprobe, virtio_console ]".toList, "  - [ modprobe, virtiofs ]".toList]

theorem preamble_eq : preamble = unlines (preambleLines ++ ["write_files:".toList]) := by
  decide +kernel

theorem preambleLines_plain : ∀ l ∈ preambleLines ++ ["write_files:".toList], Plain l := by
  iterate 14 refine List.forall_mem_cons.mpr ⟨plain_literal rfl (by decide), ?_⟩
  exact List.forall_mem_nil _

/-- What follows the files begins with a section of its own. -/
theorem sections_head (spec : ProvisionSpec) : ∃ l ls,
    lines (mountsSection spec ++ runcmdSection spec) = l :: ls ∧ inBlock 6 l = false ∧
      entryPath l = none := by
  have hrun : ∃ ls, lines (runcmdSection spec) = "runcmd:".toList :: ls := by
    rw [runcmdSection, List.append_assoc, List.append_assoc, List.append_assoc, List.cons_append,
      unlines_cons, lines_append (by decide)]
    exact ⟨_, rfl⟩
  rw [mountsSection]
  split
  · rw [List.cons_append, unlines_cons, List.append_assoc, List.cons_append, lines_append (by decide)]
    exact ⟨_, _, rfl, by decide, by decide⟩
  · obtain ⟨ls, hls⟩ := hrun
    exact ⟨_, ls, hls, by decide, by decide⟩

/-- A document that is rendered, part by part. -/
theorem renderUserData_ok {spec : ProvisionSpec} {doc : Text} (h : renderUserData spec = .ok doc) :
    doc = preamble ++
      writeFile "/var/lib/incus/server.crt".toList "0644".toList spec.serverCertPem ++
      writeFile "/var/lib/incus/server.key".toList "0600".toList spec.serverKeyPem ++
      writeFile "/var/lib/malleus/client.crt".toList "0644".toList spec.clientCertPem ++
      writeFile "/var/lib/malleus/preseed.yaml".toList "0644".toList (renderPreseed spec.bridgeCidr) ++
      mountsSection spec ++ runcmdSection spec := by
  rw [renderUserData] at h
  cases hv : validate spec with
  | error e => rw [hv] at h; cases h
  | ok _ => rw [hv] at h; exact (Except.ok.inj h).symm

theorem trim_unlines (ls : List Text) {l : Text} (hne : l ≠ []) (hn : '\n' ∉ l) :
    trimEndBy (· == '\n') (unlines (ls ++ [l])) = unlines ls ++ l := by
  have hsplit : unlines (ls ++ [l]) = unlines ls ++ l ++ ['\n'] := by simp
  rw [hsplit]
  refine trimEndBy_append (by simp) fun c hc => ?_
  obtain ⟨d, hd⟩ := Option.isSome_iff_exists.mp (List.getLast?_isSome.mpr hne)
  rw [List.getLast?_append, hd] at hc
  obtain rfl : d = c := by simpa using hc
  have : d ≠ '\n' := fun h => hn (h ▸ List.mem_of_getLast? hd)
  simpa using this

/-- A text of whole lines, the last of them not empty, keeps its one line feed. -/
theorem oneNewline_unlines (ls : List Text) {l : Text} (hne : l ≠ []) (hn : '\n' ∉ l) :
    oneNewline (unlines (ls ++ [l])) = unlines (ls ++ [l]) := by
  rw [oneNewline, trim_unlines ls hne hn]
  simp

theorem blockText_unlines {ls : List Text} (hcr : ∀ l ∈ ls, '\r' ∉ l)
    (hstart : ∃ c, (unlines ls).head? = some c ∧ c ≠ ' ' ∧ c ≠ '\n') : BlockText (unlines ls) where
  no_cr := by
    intro hc
    obtain ⟨m, hm, hc⟩ := List.mem_flatMap.mp hc
    exact hcr m hm (by simpa using hc)
  start := hstart

/-- The preseed is a text that comes out of its block as it went in. -/
theorem renderPreseed_block {bridgeCidr : Text} (h : '\r' ∉ bridgeCidr) :
    BlockText (renderPreseed bridgeCidr) := by
  refine blockText_unlines ?_ ⟨'c', rfl, by decide, by decide⟩
  have hhead : ∀ m ∈ preseedHead, '\r' ∉ m := by
    iterate 6 refine List.forall_mem_cons.mpr ⟨not_mem_literal rfl (by decide), ?_⟩
    exact List.forall_mem_nil _
  have htail : ∀ m ∈ preseedTail, '\r' ∉ m := by
    iterate 14 refine List.forall_mem_cons.mpr ⟨not_mem_literal rfl (by decide), ?_⟩
    exact List.forall_mem_nil _
  intro m hm
  simp only [List.mem_append, List.mem_singleton] at hm
  rcases hm with (hm | rfl) | hm
  · exact hhead m hm
  · simpa using h
  · exact htail m hm

/-- The entries of the document, in order. -/
def fileEntries (spec : ProvisionSpec) : List FileEntry :=
  [⟨"/var/lib/incus/server.crt".toList, "0644".toList, spec.serverCertPem⟩,
    ⟨"/var/lib/incus/server.key".toList, "0600".toList, spec.serverKeyPem⟩,
    ⟨"/var/lib/malleus/client.crt".toList, "0644".toList, spec.clientCertPem⟩,
    ⟨"/var/lib/malleus/preseed.yaml".toList, "0644".toList, renderPreseed spec.bridgeCidr⟩]

/-- **The files come out as they went in**, each text ending in exactly one line feed. -/
theorem readWriteFiles_render {spec : ProvisionSpec} {doc : Text} (hdoc : renderUserData spec = .ok doc)
    (hcert : BlockText spec.serverCertPem) (hkey : BlockText spec.serverKeyPem)
    (hclient : BlockText spec.clientCertPem) (hcidr : '\r' ∉ spec.bridgeCidr) :
    readWriteFiles doc = (fileEntries spec).map fun e => (e.path, oneNewline e.content) := by
  obtain ⟨l, rest, hsections, hblock, hentry⟩ := sections_head spec
  have hvalid : ∀ e ∈ fileEntries spec, e.Valid := by
    intro e he
    simp only [fileEntries, List.mem_cons, List.not_mem_nil, or_false] at he
    rcases he with rfl | rfl | rfl | rfl
    · exact ⟨of_decide_eq_true rfl, of_decide_eq_true rfl, hcert⟩
    · exact ⟨of_decide_eq_true rfl, of_decide_eq_true rfl, hkey⟩
    · exact ⟨of_decide_eq_true rfl, of_decide_eq_true rfl, hclient⟩
    · exact ⟨of_decide_eq_true rfl, of_decide_eq_true rfl, renderPreseed_block hcidr⟩
  have hrendered : doc = unlines (preambleLines ++ ["write_files:".toList]) ++
      (unlines ((fileEntries spec).flatMap FileEntry.lines) ++
        (mountsSection spec ++ runcmdSection spec)) := by
    have hfiles : unlines ((fileEntries spec).flatMap FileEntry.lines) =
        (fileEntries spec).flatMap fun e => writeFile e.path e.permissions e.content := by
      rw [unlines, List.flatMap_assoc]
      exact List.flatMap_congr fun e he => (writeFile_eq (hvalid e he)).symm
    rw [renderUserData_ok hdoc, preamble_eq, hfiles]
    simp only [fileEntries, List.flatMap_cons, List.flatMap_nil, List.append_nil, List.append_assoc]
  have hlines : lines doc = preambleLines ++ "write_files:".toList ::
      ((fileEntries spec).flatMap FileEntry.lines ++ l :: rest) := by
    rw [hrendered, lines_unlines_append preambleLines_plain, lines_unlines_append, hsections]
    · simp
    · intro m hm
      obtain ⟨e, he, hm⟩ := List.mem_flatMap.mp hm
      exact FileEntry.lines_plain (hvalid e he) m hm
  rw [readWriteFiles, hlines, List.dropWhile_append_of_pos (by decide +kernel),
    List.dropWhile_cons_of_neg (by simp)]
  dsimp only [List.tail_cons]
  refine readEntries_entries hvalid hblock hentry ?_
  have hlength : 4 ≤ ((fileEntries spec).flatMap FileEntry.lines).length := by
    simp only [fileEntries, FileEntry.lines, List.flatMap_cons, List.length_append, List.length_cons]
    omega
  rw [List.length_append, List.length_cons]
  show 4 < _
  omega

end Malleus.Provision
