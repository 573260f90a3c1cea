import Mathlib.Data.List.Basic
import Malleus.Vm

/-! The argument vector as vfkit reads it.

A flag is followed by its value; the values of `--bootloader`, `--device` and
`--cloud-init` are options between commas, each a name with the value after its
first `=`. `readArgs_buildArgs` says which specifications come out as they went
in: nothing is escaped, so exactly those without a comma in any text. A number
always comes out. -/
namespace Malleus.Vm
open Strings Numbers

/-! ### Reading -/

/-- A name, and its value if it has one. -/
abbrev VmOption := Text × Option Text

/-- A name with the value behind its first `=`, or a name alone. -/
def readOption (t : Text) : VmOption :=
  match splitOnce '=' t with
  | some (name, value) => (name, some value)
  | none => (t, none)

/-- The options between the commas of a value. -/
def readOptions (t : Text) : List VmOption := (t.splitOn ',').map readOption

/-- An option as it was written. -/
def VmOption.written : VmOption → Text
  | (name, some value) => name ++ '=' :: value
  | (name, none) => name

/-- Flags and values in alternation. -/
def flags : List Text → List (Text × Text)
  | flag :: value :: rest => (flag, value) :: flags rest
  | _ => []

/-- The values given to a flag. -/
def pick (flag : Text) (pairs : List (Text × Text)) : List Text :=
  pairs.filterMap fun pair => if pair.1 = flag then some pair.2 else none

/-- The options of every occurrence of a flag. -/
def occurrences (flag : Text) (args : List Text) : List (List VmOption) :=
  (pick flag (flags args)).map readOptions

/-- The devices of a kind; the kind is the first option. -/
def ofKind (kind : Text) (devices : List (List VmOption)) : List (List VmOption) :=
  devices.filter fun options => options.head? = some (kind, none)

/-- The options of every `--device` of a kind. -/
def devices (kind : Text) (args : List Text) : List (List VmOption) :=
  ofKind kind (occurrences "--device".toList args)

/-- Every value given to a name. -/
def values (name : Text) (options : List VmOption) : List Text :=
  options.filterMap fun (key, value) => if key = name then value else none

/-- The port at the end of the URI that vfkit is to serve its REST interface on. -/
def uriPort (uri : Text) : Option Nat :=
  (uri.dropPrefix? "tcp://localhost:".toList).bind (fromStrRadix 10 UInt16.size)

/-- What vfkit is told about the fields of a specification: every value it is given. -/
structure Reading where
  cpus : List (Option Nat)
  memoryMib : List (Option Nat)
  efiStore : List Text
  disks : List Text
  mac : List Text
  readyPort : List (Option Nat)
  readySocket : List Text
  shares : List (List Text × List Text)
  cloudInit : List Text
  restfulPort : List (Option Nat)
  serialLog : List Text
  deriving DecidableEq, Repr

/-- What the vector tells vfkit. -/
def readArgs (args : List Text) : Reading where
  cpus := (pick "--cpus".toList (flags args)).map (fromStrRadix 10 UInt32.size)
  memoryMib := (pick "--memory".toList (flags args)).map (fromStrRadix 10 UInt64.size)
  efiStore := (occurrences "--bootloader".toList args).flatMap (values "variable-store".toList)
  disks := (devices "virtio-blk".toList args).flatMap (values "path".toList)
  mac := (devices "virtio-net".toList args).flatMap (values "mac".toList)
  readyPort := ((devices "virtio-vsock".toList args).flatMap (values "port".toList)).map
    (fromStrRadix 10 UInt32.size)
  readySocket := (devices "virtio-vsock".toList args).flatMap (values "socketURL".toList)
  shares := (devices "virtio-fs".toList args).map fun options =>
    (values "sharedDir".toList options, values "mountTag".toList options)
  cloudInit := (occurrences "--cloud-init".toList args).flatMap fun options =>
    options.map VmOption.written
  restfulPort := (pick "--restful-uri".toList (flags args)).map uriPort
  serialLog := (devices "virtio-serial".toList args).flatMap (values "logFilePath".toList)

/-- Every text of a reading. -/
def Reading.texts (r : Reading) : List Text :=
  r.efiStore ++ r.disks ++ r.mac ++ r.readySocket ++ r.cloudInit ++
    r.shares.flatMap (fun share => share.1 ++ share.2) ++ r.serialLog

/-- What vfkit is meant to be told. -/
def reading (spec : VmSpec) : Reading where
  cpus := [some spec.cpus.toNat]
  memoryMib := [some spec.memoryMib.toNat]
  efiStore := [spec.efiStore]
  disks := [spec.rootDisk, spec.poolDisk]
  mac := [spec.mac]
  readyPort := [some spec.readyPort.toNat]
  readySocket := [spec.readySocket]
  shares := spec.shares.map fun share => ([share.hostPath], [share.tag])
  cloudInit := [spec.userData, spec.metaData]
  restfulPort := [some spec.restfulPort.toNat]
  serialLog := spec.serialLog.toList

/-- Every text that is spliced into an argument. -/
def texts (spec : VmSpec) : List Text :=
  [spec.efiStore, spec.rootDisk, spec.poolDisk, spec.mac, spec.readySocket, spec.userData,
    spec.metaData] ++ spec.shares.flatMap (fun share => [share.hostPath, share.tag]) ++
    spec.serialLog.toList

/-! ### What reading gives -/

section Options
variable {t name : Text}

theorem readOption_value (h : '=' ∉ name) (v : Text) :
    readOption (name ++ '=' :: v) = (name, some v) := by
  rw [readOption, splitOnce_append h]

theorem readOption_bare (h : '=' ∉ t) : readOption t = (t, none) := by
  rw [readOption, splitOnce_eq_none h]

@[simp] theorem written_readOption (t : Text) : (readOption t).written = t := by
  by_cases h : '=' ∈ t
  · obtain ⟨name, v, rfl, hname⟩ := List.eq_append_cons_of_mem h
    rw [readOption_value hname]
    rfl
  · rw [readOption_bare h]
    rfl

/-- A value is part of what was written. -/
theorem mem_written {option : VmOption} {v : Text} (h : option.2 = some v) {c : Char} (hc : c ∈ v) :
    c ∈ option.written := by
  obtain ⟨name, _⟩ := option
  cases h
  show c ∈ name ++ '=' :: v
  simp [hc]

theorem readOptions_cons (h : ',' ∉ t) (u : Text) :
    readOptions (t ++ ',' :: u) = readOption t :: readOptions u := by
  rw [readOptions, List.splitOn_append_cons_self_of_not_mem h]
  rfl

theorem readOptions_singleton (h : ',' ∉ t) : readOptions t = [readOption t] := by
  rw [readOptions, List.splitOn_eq_singleton h]
  rfl

/-- No option that is read holds a comma. -/
theorem not_mem_written {option : VmOption} (h : option ∈ readOptions t) : ',' ∉ option.written := by
  obtain ⟨piece, hpiece, rfl⟩ := List.mem_map.mp h
  rw [written_readOption]
  exact not_mem_of_mem_splitOn hpiece

theorem not_mem_values {v : Text} (h : v ∈ values name (readOptions t)) : ',' ∉ v := by
  obtain ⟨⟨key, value⟩, hoption, hv⟩ := List.mem_filterMap.mp h
  dsimp only at hv
  split at hv
  · exact fun hc => not_mem_written hoption (mem_written hv hc)
  · simp at hv

theorem readOptions_of_occurrence {flag : Text} {args : List Text} {options : List VmOption}
    (h : options ∈ occurrences flag args) : ∃ t, options = readOptions t := by
  obtain ⟨t, _, rfl⟩ := List.mem_map.mp h
  exact ⟨t, rfl⟩

theorem readOptions_of_device {kind : Text} {args : List Text} {options : List VmOption}
    (h : options ∈ devices kind args) : ∃ t, options = readOptions t :=
  readOptions_of_occurrence (List.mem_filter.mp h).1

theorem not_mem_deviceValues {kind v : Text} {args : List Text}
    (h : v ∈ (devices kind args).flatMap (values name)) : ',' ∉ v := by
  obtain ⟨options, hoptions, hv⟩ := List.mem_flatMap.mp h
  obtain ⟨t, rfl⟩ := readOptions_of_device hoptions
  exact not_mem_values hv

/-- No text that is read holds a comma, whatever the vector. -/
theorem not_mem_readArgs {args : List Text} (h : t ∈ (readArgs args).texts) : ',' ∉ t := by
  simp only [Reading.texts, readArgs, List.mem_append, List.flatMap_map] at h
  rcases h with (((((h | h) | h) | h) | h) | h) | h
  · obtain ⟨options, hoptions, hv⟩ := List.mem_flatMap.mp h
    obtain ⟨u, rfl⟩ := readOptions_of_occurrence hoptions
    exact not_mem_values hv
  · exact not_mem_deviceValues h
  · exact not_mem_deviceValues h
  · exact not_mem_deviceValues h
  · obtain ⟨options, hoptions, hv⟩ := List.mem_flatMap.mp h
    obtain ⟨u, rfl⟩ := readOptions_of_occurrence hoptions
    obtain ⟨option, hoption, rfl⟩ := List.mem_map.mp hv
    exact not_mem_written hoption
  · obtain ⟨options, hoptions, hv⟩ := List.mem_flatMap.mp h
    obtain ⟨u, rfl⟩ := readOptions_of_device hoptions
    rcases List.mem_append.mp hv with hv | hv
    · exact not_mem_values hv
    · exact not_mem_values hv
  · exact not_mem_deviceValues h

end Options

/-! ### The pairs of the vector -/

/-- The vector from pairs of a flag and its value. -/
def alternating (pairs : List (Text × Text)) : List Text := pairs.flatMap fun p => [p.1, p.2]

/-- The pairs before those of the shares. -/
def ownPairs (spec : VmSpec) : List (Text × Text) :=
  [("--cpus".toList, decimal spec.cpus.toNat), ("--memory".toList, decimal spec.memoryMib.toNat),
    ("--bootloader".toList, "efi,variable-store=".toList ++ spec.efiStore ++ ",create".toList),
    ("--device".toList, "virtio-blk,path=".toList ++ spec.rootDisk),
    ("--device".toList, "virtio-blk,path=".toList ++ spec.poolDisk),
    ("--device".toList, "virtio-net,nat,mac=".toList ++ spec.mac),
    ("--device".toList, "virtio-vsock,port=".toList ++ decimal spec.readyPort.toNat ++
      ",socketURL=".toList ++ spec.readySocket ++ ",listen".toList),
    ("--device".toList, "virtio-rng".toList)]

def sharePair (share : Share) : Text × Text := ("--device".toList, shareArg share)

def cloudInit (spec : VmSpec) : Text := spec.userData ++ ",".toList ++ spec.metaData

/-- The pairs after that of `--cloud-init`. -/
def lastPairs (spec : VmSpec) : List (Text × Text) :=
  ("--restful-uri".toList, "tcp://localhost:".toList ++ decimal spec.restfulPort.toNat) ::
    spec.serialLog.toList.map fun log => ("--device".toList, "virtio-serial,logFilePath=".toList ++ log)

def pairsOf (spec : VmSpec) : List (Text × Text) :=
  ownPairs spec ++ spec.shares.map sharePair ++ ("--cloud-init".toList, cloudInit spec) :: lastPairs spec

theorem alternating_append (a b : List (Text × Text)) :
    alternating (a ++ b) = alternating a ++ alternating b := List.flatMap_append

theorem buildArgs_pairs (spec : VmSpec) : buildArgs spec = alternating (pairsOf spec) := by
  have hserial : serialArgs spec.serialLog = alternating (spec.serialLog.toList.map fun log =>
      ("--device".toList, "virtio-serial,logFilePath=".toList ++ log)) := by
    cases spec.serialLog <;> rfl
  have hshares : spec.shares.flatMap shareArgs = alternating (spec.shares.map sharePair) := by
    rw [alternating, List.flatMap_map]
    rfl
  rw [pairsOf, alternating_append, alternating_append, buildArgs, hserial, hshares, List.append_assoc]
  rfl

theorem flags_alternating (pairs : List (Text × Text)) : flags (alternating pairs) = pairs := by
  induction pairs with
  | nil => rfl
  | cons p pairs ih =>
    have hcons : alternating (p :: pairs) = p.1 :: p.2 :: alternating pairs := rfl
    rw [hcons, flags, ih]

/-- The vector alternates between flags and values. -/
theorem flags_buildArgs (spec : VmSpec) : flags (buildArgs spec) = pairsOf spec := by
  rw [buildArgs_pairs, flags_alternating]

/-! ### Reading what was built -/

section Pick
variable {flag name : Text} {α : Type} (f : α → Text) (xs : List α)

@[simp] theorem pick_nil : pick flag [] = [] := rfl

@[simp] theorem pick_cons (value : Text) (rest : List (Text × Text)) :
    pick flag ((name, value) :: rest) = if name = flag then value :: pick flag rest else pick flag rest := by
  rw [pick, List.filterMap_cons]
  split <;> simp_all [pick]

@[simp] theorem pick_append (a b : List (Text × Text)) : pick flag (a ++ b) = pick flag a ++ pick flag b :=
  List.filterMap_append

theorem pick_map : pick flag (xs.map fun x => (flag, f x)) = xs.map f := by
  induction xs with
  | nil => rfl
  | cons x xs ih => simp [ih]

theorem pick_map_of_ne (h : name ≠ flag) : pick flag (xs.map fun x => (name, f x)) = [] := by
  induction xs with
  | nil => rfl
  | cons x xs ih => simp [ih, h]

end Pick

section OfKind
variable {kind kind' : Text} {α : Type} (f : α → List VmOption) (xs : List α)

@[simp] theorem ofKind_nil : ofKind kind [] = [] := rfl

@[simp] theorem ofKind_cons (options : List VmOption) (rest : List (List VmOption)) :
    ofKind kind (((kind', none) :: options) :: rest) =
      if kind' = kind then ((kind', none) :: options) :: ofKind kind rest else ofKind kind rest := by
  simp [ofKind, List.filter_cons]

@[simp] theorem ofKind_append (a b : List (List VmOption)) :
    ofKind kind (a ++ b) = ofKind kind a ++ ofKind kind b := List.filter_append ..

theorem ofKind_map : ofKind kind (xs.map fun x => (kind, none) :: f x) =
    xs.map fun x => (kind, none) :: f x := by
  induction xs with
  | nil => rfl
  | cons x xs ih => simp [ih]

theorem ofKind_map_of_ne (h : kind' ≠ kind) : ofKind kind (xs.map fun x => (kind', none) :: f x) = [] := by
  induction xs with
  | nil => rfl
  | cons x xs ih => simp [ih, h]

end OfKind

section Built
variable {t u : Text}

theorem readOptions_bootloader (ht : ',' ∉ t) :
    readOptions ("efi,variable-store=".toList ++ t ++ ",create".toList) =
      [("efi".toList, none), ("variable-store".toList, some t), ("create".toList, none)] := by
  have hsplit : "efi,variable-store=".toList ++ t ++ ",create".toList =
      "efi".toList ++ ',' :: (("variable-store".toList ++ '=' :: t) ++ ',' :: "create".toList) := by simp
  rw [hsplit, readOptions_cons (by decide), readOptions_cons, readOptions_singleton (by decide),
    readOption_bare (by decide), readOption_value (by decide), readOption_bare (by decide)]
  simpa using ht

/-- A kind and one option with a value. -/
theorem readOptions_kind (kind name : Text) (hkind : ',' ∉ kind) (hbare : '=' ∉ kind)
    (hname : ',' ∉ name) (hkey : '=' ∉ name) (ht : ',' ∉ t) :
    readOptions (kind ++ ',' :: (name ++ '=' :: t)) = [(kind, none), (name, some t)] := by
  rw [readOptions_cons hkind, readOptions_singleton, readOption_bare hbare, readOption_value hkey]
  simp [hname, ht]

theorem readOptions_disk (ht : ',' ∉ t) : readOptions ("virtio-blk,path=".toList ++ t) =
    [("virtio-blk".toList, none), ("path".toList, some t)] := by
  have hsplit : "virtio-blk,path=".toList ++ t =
      "virtio-blk".toList ++ ',' :: ("path".toList ++ '=' :: t) := by simp
  rw [hsplit, readOptions_kind _ _ (by decide) (by decide) (by decide) (by decide) ht]

theorem readOptions_serial (ht : ',' ∉ t) : readOptions ("virtio-serial,logFilePath=".toList ++ t) =
    [("virtio-serial".toList, none), ("logFilePath".toList, some t)] := by
  have hsplit : "virtio-serial,logFilePath=".toList ++ t =
      "virtio-serial".toList ++ ',' :: ("logFilePath".toList ++ '=' :: t) := by simp
  rw [hsplit, readOptions_kind _ _ (by decide) (by decide) (by decide) (by decide) ht]

theorem readOptions_net (ht : ',' ∉ t) : readOptions ("virtio-net,nat,mac=".toList ++ t) =
    [("virtio-net".toList, none), ("nat".toList, none), ("mac".toList, some t)] := by
  have hsplit : "virtio-net,nat,mac=".toList ++ t =
      "virtio-net".toList ++ ',' :: ("nat".toList ++ ',' :: ("mac".toList ++ '=' :: t)) := by simp
  rw [hsplit, readOptions_cons (by decide), readOption_bare (by decide),
    readOptions_kind _ _ (by decide) (by decide) (by decide) (by decide) ht]

theorem readOptions_vsock (port : Nat) (ht : ',' ∉ t) :
    readOptions ("virtio-vsock,port=".toList ++ decimal port ++ ",socketURL=".toList ++ t ++
      ",listen".toList) = [("virtio-vsock".toList, none), ("port".toList, some (decimal port)),
        ("socketURL".toList, some t), ("listen".toList, none)] := by
  have hport : ',' ∉ decimal port := fun h => absurd (decimal_digits port ',' h) (by decide)
  have hsplit : "virtio-vsock,port=".toList ++ decimal port ++ ",socketURL=".toList ++ t ++
      ",listen".toList = "virtio-vsock".toList ++ ',' :: (("port".toList ++ '=' :: decimal port) ++
        ',' :: (("socketURL".toList ++ '=' :: t) ++ ',' :: "listen".toList)) := by simp
  rw [hsplit, readOptions_cons (by decide), readOptions_cons (by simp [hport]),
    readOptions_cons (by simp [ht]), readOptions_singleton (by decide), readOption_bare (by decide),
    readOption_value (by decide), readOption_value (by decide), readOption_bare (by decide)]

theorem readOptions_shareArg {share : Share} (hpath : ',' ∉ share.hostPath) (htag : ',' ∉ share.tag) :
    readOptions (shareArg share) = [("virtio-fs".toList, none),
      ("sharedDir".toList, some share.hostPath), ("mountTag".toList, some share.tag)] := by
  have hsplit : shareArg share = "virtio-fs".toList ++ ',' :: (("sharedDir".toList ++ '=' ::
      share.hostPath) ++ ',' :: ("mountTag".toList ++ '=' :: share.tag)) := by
    unfold shareArg
    simp
  rw [hsplit, readOptions_cons (by decide), readOptions_cons (by simp [hpath]),
    readOptions_singleton (by simp [htag]), readOption_bare (by decide), readOption_value (by decide),
    readOption_value (by decide)]

theorem readOptions_cloudInit (ht : ',' ∉ t) (hu : ',' ∉ u) :
    (readOptions (t ++ ",".toList ++ u)).map VmOption.written = [t, u] := by
  have hsplit : t ++ ",".toList ++ u = t ++ ',' :: u := by simp
  rw [hsplit, readOptions_cons ht, readOptions_singleton hu]
  simp

end Built

/-- The values of the `--device` flags, in order. -/
def deviceArgs (spec : VmSpec) : List Text :=
  ["virtio-blk,path=".toList ++ spec.rootDisk, "virtio-blk,path=".toList ++ spec.poolDisk,
    "virtio-net,nat,mac=".toList ++ spec.mac,
    "virtio-vsock,port=".toList ++ decimal spec.readyPort.toNat ++ ",socketURL=".toList ++
      spec.readySocket ++ ",listen".toList,
    "virtio-rng".toList] ++
  (spec.shares.map shareArg ++
    spec.serialLog.toList.map fun log => "virtio-serial,logFilePath=".toList ++ log)

theorem occurrences_device (spec : VmSpec) :
    occurrences "--device".toList (buildArgs spec) = (deviceArgs spec).map readOptions := by
  have hshares : pick "--device".toList (spec.shares.map sharePair) = spec.shares.map shareArg :=
    pick_map shareArg spec.shares
  rw [occurrences, flags_buildArgs, pairsOf, pick_append, pick_append, hshares]
  simp [ownPairs, lastPairs, pick_map, deviceArgs]

/-- A flag that no device has is not one of the shares' flags either. -/
theorem pick_buildArgs (spec : VmSpec) (flag : Text) (h : "--device".toList ≠ flag) :
    pick flag (flags (buildArgs spec)) = pick flag (ownPairs spec) ++
      pick flag (("--cloud-init".toList, cloudInit spec) :: lastPairs spec) := by
  have hshares : pick flag (spec.shares.map sharePair) = [] := pick_map_of_ne shareArg spec.shares h
  rw [flags_buildArgs, pairsOf, pick_append, pick_append, hshares, List.append_nil]

theorem occurrences_bootloader (spec : VmSpec) :
    occurrences "--bootloader".toList (buildArgs spec) =
      [readOptions ("efi,variable-store=".toList ++ spec.efiStore ++ ",create".toList)] := by
  rw [occurrences, pick_buildArgs spec _ (by decide)]
  simp [ownPairs, lastPairs, pick_map_of_ne]

theorem occurrences_cloudInit (spec : VmSpec) :
    occurrences "--cloud-init".toList (buildArgs spec) =
      [readOptions (spec.userData ++ ",".toList ++ spec.metaData)] := by
  rw [occurrences, pick_buildArgs spec _ (by decide)]
  simp [ownPairs, cloudInit, lastPairs, pick_map_of_ne]

theorem pick_cpus (spec : VmSpec) :
    pick "--cpus".toList (flags (buildArgs spec)) = [decimal spec.cpus.toNat] := by
  rw [pick_buildArgs spec _ (by decide)]
  simp [ownPairs, lastPairs, pick_map_of_ne]

theorem pick_memory (spec : VmSpec) :
    pick "--memory".toList (flags (buildArgs spec)) = [decimal spec.memoryMib.toNat] := by
  rw [pick_buildArgs spec _ (by decide)]
  simp [ownPairs, lastPairs, pick_map_of_ne]

theorem pick_restfulUri (spec : VmSpec) : pick "--restful-uri".toList (flags (buildArgs spec)) =
    ["tcp://localhost:".toList ++ decimal spec.restfulPort.toNat] := by
  rw [pick_buildArgs spec _ (by decide)]
  simp [ownPairs, lastPairs, pick_map_of_ne]

theorem uriPort_localhost (port : UInt16) :
    uriPort ("tcp://localhost:".toList ++ decimal port.toNat) = some port.toNat := by
  rw [uriPort, List.dropPrefix?_append_of_beq _ (beq_self_eq_true _), Option.bind_some,
    fromStrRadix_decimal port.toNat_lt]

/-- The options of every device, when no text holds a comma. -/
theorem readOptions_deviceArgs {spec : VmSpec} (h : ∀ t ∈ texts spec, ',' ∉ t) :
    (deviceArgs spec).map readOptions =
      [[("virtio-blk".toList, none), ("path".toList, some spec.rootDisk)],
        [("virtio-blk".toList, none), ("path".toList, some spec.poolDisk)],
        [("virtio-net".toList, none), ("nat".toList, none), ("mac".toList, some spec.mac)],
        [("virtio-vsock".toList, none), ("port".toList, some (decimal spec.readyPort.toNat)),
          ("socketURL".toList, some spec.readySocket), ("listen".toList, none)],
        [("virtio-rng".toList, none)]] ++
      (spec.shares.map (fun share => [("virtio-fs".toList, none),
        ("sharedDir".toList, some share.hostPath), ("mountTag".toList, some share.tag)]) ++
        spec.serialLog.toList.map fun log =>
          [("virtio-serial".toList, none), ("logFilePath".toList, some log)]) := by
  have hshares : (spec.shares.map shareArg).map readOptions =
      spec.shares.map (fun share => [("virtio-fs".toList, none),
        ("sharedDir".toList, some share.hostPath), ("mountTag".toList, some share.tag)]) := by
    rw [List.map_map]
    refine List.map_congr_left fun share hs => ?_
    simp only [texts, List.mem_append, List.mem_flatMap] at h
    exact readOptions_shareArg (h _ (Or.inl (Or.inr ⟨share, hs, by simp⟩)))
      (h _ (Or.inl (Or.inr ⟨share, hs, by simp⟩)))
  have hserial : (spec.serialLog.toList.map fun log => "virtio-serial,logFilePath=".toList ++ log).map
      readOptions = spec.serialLog.toList.map fun log =>
        [("virtio-serial".toList, none), ("logFilePath".toList, some log)] := by
    rw [List.map_map]
    exact List.map_congr_left fun log hl => readOptions_serial (h _ (List.mem_append_right _ hl))
  have hrng : readOptions "virtio-rng".toList = [("virtio-rng".toList, none)] := by
    rw [readOptions_singleton (by decide), readOption_bare (by decide)]
  rw [deviceArgs, List.map_append, List.map_append, hshares, hserial]
  simp only [List.map_cons, List.map_nil, hrng]
  rw [readOptions_disk, readOptions_disk, readOptions_net, readOptions_vsock] <;>
    exact h _ (by simp [texts])

section Devices
variable {spec : VmSpec} (h : ∀ t ∈ texts spec, ',' ∉ t)
include h

theorem devices_disk : devices "virtio-blk".toList (buildArgs spec) =
    [[("virtio-blk".toList, none), ("path".toList, some spec.rootDisk)],
      [("virtio-blk".toList, none), ("path".toList, some spec.poolDisk)]] := by
  rw [devices, occurrences_device, readOptions_deviceArgs h, ofKind_append, ofKind_append,
    ofKind_map_of_ne _ _ (by decide), ofKind_map_of_ne _ _ (by decide)]
  rfl

theorem devices_net : devices "virtio-net".toList (buildArgs spec) =
    [[("virtio-net".toList, none), ("nat".toList, none), ("mac".toList, some spec.mac)]] := by
  rw [devices, occurrences_device, readOptions_deviceArgs h, ofKind_append, ofKind_append,
    ofKind_map_of_ne _ _ (by decide), ofKind_map_of_ne _ _ (by decide)]
  rfl

theorem devices_vsock : devices "virtio-vsock".toList (buildArgs spec) =
    [[("virtio-vsock".toList, none), ("port".toList, some (decimal spec.readyPort.toNat)),
      ("socketURL".toList, some spec.readySocket), ("listen".toList, none)]] := by
  rw [devices, occurrences_device, readOptions_deviceArgs h, ofKind_append, ofKind_append,
    ofKind_map_of_ne _ _ (by decide), ofKind_map_of_ne _ _ (by decide)]
  rfl

theorem devices_fs : devices "virtio-fs".toList (buildArgs spec) =
    spec.shares.map fun share => [("virtio-fs".toList, none),
      ("sharedDir".toList, some share.hostPath), ("mountTag".toList, some share.tag)] := by
  rw [devices, occurrences_device, readOptions_deviceArgs h, ofKind_append, ofKind_append, ofKind_map,
    ofKind_map_of_ne _ _ (by decide), List.append_nil]
  rfl

theorem devices_serial : devices "virtio-serial".toList (buildArgs spec) =
    spec.serialLog.toList.map fun log =>
      [("virtio-serial".toList, none), ("logFilePath".toList, some log)] := by
  rw [devices, occurrences_device, readOptions_deviceArgs h, ofKind_append, ofKind_append, ofKind_map,
    ofKind_map_of_ne _ _ (by decide)]
  rfl

end Devices

/-- **A specification is read back exactly if no text in it holds a comma.** -/
theorem readArgs_buildArgs (spec : VmSpec) :
    readArgs (buildArgs spec) = reading spec ↔ ∀ t ∈ texts spec, ',' ∉ t := by
  constructor
  · intro h t ht
    have hread : t ∈ (readArgs (buildArgs spec)).texts := by
      rw [h]
      simp only [texts, List.mem_append, List.mem_flatMap, List.mem_cons, List.not_mem_nil, or_false] at ht
      simp only [reading, Reading.texts, List.mem_append, List.mem_cons, List.not_mem_nil, or_false,
        List.flatMap_map, List.mem_flatMap, List.cons_append, List.nil_append]
      simpa only [or_assoc] using ht
    exact not_mem_readArgs hread
  · intro h
    have hefi : ',' ∉ spec.efiStore := h _ (by simp [texts])
    have huser : ',' ∉ spec.userData := h _ (by simp [texts])
    have hmeta : ',' ∉ spec.metaData := h _ (by simp [texts])
    rw [readArgs, reading, pick_cpus, pick_memory, pick_restfulUri, occurrences_bootloader,
      readOptions_bootloader hefi, occurrences_cloudInit, devices_disk h, devices_net h, devices_vsock h,
      devices_fs h, devices_serial h, Reading.mk.injEq]
    refine ⟨?_, ?_, rfl, rfl, rfl, ?_, rfl, ?_, ?_, ?_, ?_⟩
    · rw [List.map_singleton, fromStrRadix_decimal spec.cpus.toNat_lt]
    · rw [List.map_singleton, fromStrRadix_decimal spec.memoryMib.toNat_lt]
    · show [fromStrRadix 10 UInt32.size (decimal spec.readyPort.toNat)] = _
      rw [fromStrRadix_decimal spec.readyPort.toNat_lt]
    · rw [List.map_map]
      rfl
    · rw [List.flatMap_singleton, readOptions_cloudInit huser hmeta]
    · rw [List.map_singleton, uriPort_localhost]
    · cases spec.serialLog <;> rfl

/-! ### A path with a comma -/

/-- What `start` asks for when the state directory is `/s,x`. -/
def commaSpec : VmSpec where
  cpus := 4
  memoryMib := 4096
  efiStore := "/s,x/efi-store".toList
  rootDisk := "/s,x/root.raw".toList
  poolDisk := "/s,x/pool.raw".toList
  mac := "52:54:00:12:34:56".toList
  userData := "/s,x/user-data".toList
  metaData := "/s,x/meta-data".toList
  networkConfig := none
  readySocket := "/s,x/ready.sock".toList
  readyPort := 5
  restfulPort := 8444
  shares := [⟨"/s,x".toList, "malleus-state".toList⟩]
  serialLog := some "/s,x/vfkit.guest.log".toList

/-- Every path comes out cut at the comma: the root disk is read as `/s`. -/
theorem comma_splits_paths : readArgs (buildArgs commaSpec) ≠ reading commaSpec ∧
    (readArgs (buildArgs commaSpec)).disks = ["/s".toList, "/s".toList] := by
  decide +kernel

end Malleus.Vm
