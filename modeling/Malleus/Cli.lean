import Malleus.Image
import Malleus.Pki
import Malleus.Provision

/-! `main.rs`: what every command shares. The constants, the ways in which a command
fails, what the host provides, and the rules for names and directories. -/
namespace Malleus
open Effect Strings Storage

def defaultBridgeCidr : Text := "10.174.0.1/24".toList
def defaultVmMac : Text := "52:54:00:12:34:56".toList
def defaultIncusRemoteName : Text := "malleus".toList
def defaultIncusHttpsPort : UInt16 := 8443
def defaultDhcpLeasesPath : Text := "/var/db/dhcpd_leases".toList
def defaultReadyPort : UInt32 := 5
def defaultRestfulPort : UInt16 := 8444

/-- The name the guest goes by, in its leases and in the errors about it. -/
def vmName : Text := "malleus".toList

/-- What a command fails with, as `main` prints it. -/
inductive CliError where
  | io (e : IoError)
  | configParse (path reason : Text)
  | configValidation (e : ConfigError)
  | pki (e : PkiError)
  | provision (e : ProvisionError)
  | image (e : ImageError)
  | missingMountName (path : Text)
  | invalidMountName (name : Text)
  | invalidRemoteName (name : Text)
  | missingPkiMaterial (dir : Text)
  | missingVmIp (searchedPaths mac name reason : Text)
  | vfkitNotFound
  | vfkitExec (reason : Text)
  | vfkitExited (status : Int) (stderr : Text)
  | incusExec (args : Text)
  | incusFailed (args : Text) (status : Int) (stderr : Text)
  deriving DecidableEq, Repr

/-- What the commands of one state directory find around them: its path, the
machine's architecture, the TOML parser, and the environment variables. -/
structure Host where
  stateDir : Text
  arch : Text
  parseConfig : Text → Except Text Config
  home : Option Text
  incusConf : Option Text

namespace Host

def names (host : Host) : Image.Names := ⟨host.stateDir, host.arch⟩

/-- The path of one of the files beside the images. -/
def path (host : Host) (f : File) : Text := f.display host.stateDir []

def pkiDir (host : Host) : Text := join host.stateDir "pki".toList

def homeDir (host : Host) : Text := host.home.getD ".".toList

/-- Where the client's copies go: to `INCUS_CONF`, or below the home directory where that is
empty or not set. -/
def defaultIncusConfDir (host : Host) : Text :=
  match host.incusConf.filter (· ≠ []) with
  | some dir => dir
  | none => join host.homeDir ".config/incus-malleus".toList

end Host

/-- Where the state directory is without `--state-dir`. -/
def defaultStateDir (home : Option Text) : Text := join (home.getD ".".toList) ".malleus".toList

/-! ### Names -/

/-- The filter on the names of mounts and remotes. -/
def validMountName (name : Text) : Bool := !(trim name).isEmpty && name.all Provision.isNameChar

/-- A name that is accepted: some characters, all of them of names. -/
theorem chars_of_validMountName {name : Text} (h : validMountName name = true) :
    name ≠ [] ∧ ∀ c ∈ name, Provision.isNameChar c = true := by
  rw [validMountName, Bool.and_eq_true] at h
  obtain ⟨hne, hall⟩ := h
  refine ⟨fun he => ?_, List.all_eq_true.mp hall⟩
  rw [he] at hne
  exact absurd hne (by decide)

theorem not_mem_of_validMountName {name : Text} (h : validMountName name = true) {c : Char}
    (hc : Provision.isNameChar c = false) : c ∉ name := by
  intro hmem
  have hname := (chars_of_validMountName h).2 c hmem
  rw [hc] at hname
  exact Bool.false_ne_true hname

/-- The codes of white space. -/
def whitespaceCodes : List Nat :=
  [9, 10, 11, 12, 13, 32, 0x85, 0xA0, 0x1680, 0x2000, 0x2001, 0x2002, 0x2003, 0x2004, 0x2005,
    0x2006, 0x2007, 0x2008, 0x2009, 0x200A, 0x2028, 0x2029, 0x202F, 0x205F, 0x3000]

theorem isWhitespace_of_isNameChar {c : Char} (h : Provision.isNameChar c = true) :
    isWhitespace c = false := by
  have hnames : ∀ n ∈ whitespaceCodes, Provision.isNameChar (Char.ofNat n) = false := by decide
  rw [Bool.eq_false_iff]
  intro hspace
  have hcode : c.toNat ∈ whitespaceCodes := by
    simp only [isWhitespace, Bool.or_eq_true, Bool.and_eq_true, decide_eq_true_eq, beq_iff_eq] at hspace
    simp only [whitespaceCodes, List.mem_cons, List.not_mem_nil, or_false]
    omega
  have hno := hnames _ hcode
  rw [Char.ofNat_toNat, h] at hno
  cases hno

/-- A name has characters of the list only, and one at least. White space is none of them, so
trimming has no say. -/
theorem validMountName_iff {name : Text} :
    validMountName name = true ↔ name ≠ [] ∧ ∀ c ∈ name, Provision.isNameChar c = true := by
  constructor
  · exact chars_of_validMountName
  · intro ⟨hne, hchars⟩
    rw [validMountName, trim_eq_self fun c hc => isWhitespace_of_isNameChar (hchars c hc)]
    simpa [hne] using hchars

/-- `Path::file_name`: the last component, unless it is `..`. -/
def fileName (path : Text) : Option Text :=
  (((path.splitOn '/').filter fun c => c ≠ [] ∧ c ≠ ['.']).getLast?).filter (· ≠ ['.', '.'])

/-- The name of a mount that is given none: the last component of its path. -/
def deriveMountName (hostPath : Text) : Except CliError Text :=
  match (fileName hostPath).filter (· ≠ []) with
  | some name => .ok name
  | none => .error (.missingMountName hostPath)

/-- A derived name is a component of the path. -/
theorem deriveMountName_ok {hostPath name : Text} (h : deriveMountName hostPath = .ok name) :
    name ∈ hostPath.splitOn '/' ∧ name ≠ [] ∧ '/' ∉ name := by
  unfold deriveMountName at h
  split at h
  · next found hfound =>
    obtain rfl : found = name := by simpa using h
    obtain ⟨hfile, hne⟩ := Option.filter_eq_some_iff.mp hfound
    obtain ⟨hlast, -⟩ := Option.filter_eq_some_iff.mp hfile
    have hmem : found ∈ hostPath.splitOn '/' := (List.mem_filter.mp (List.mem_of_getLast? hlast)).1
    exact ⟨hmem, by simpa using hne, not_mem_of_mem_splitOn hmem⟩
  · simp at h

end Malleus
