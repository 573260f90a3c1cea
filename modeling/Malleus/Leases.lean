import Malleus.Library.Numbers

/-! `leases.rs`: the guest's address in the DHCP server's lease file, or in the
host's ARP table.

The lease file is read as words; between two braces every word says something
about one record, whatever the order. `fold_readWord` says what a run of words
amounts to, and `scan_closed` what a record does to the search. -/
namespace Malleus.Leases
open Strings Numbers

/-! ### Hardware addresses -/

/-- Six octets, each with two digits in lower case; none for any other text. The numbers are
read by `u8::from_str_radix`, which takes a sign and zeros before them. -/
def normalizeMac (mac : Text) : Option Text := do
  let octets ← (mac.splitOn ':').mapM fun part => (fromStrRadix 16 256 part).map fun byte =>
    hexPair (UInt8.ofNat byte)
  if octets.length ≠ 6 then none else some ([':'].intercalate octets)

/-! ### Lease files -/

/-- What is known of the record that is being read. -/
structure Record where
  ip : Option Ipv4Addr
  hwMatched : Bool
  nameMatched : Bool
  deriving DecidableEq, Repr

/-- Nothing yet. -/
def Record.fresh : Record := ⟨none, false, false⟩

/-- The text after the first comma, or all of it. -/
def afterComma (value : Text) : Text :=
  match splitOnce ',' value with
  | some (_, mac) => mac
  | none => value

def isTrailing (c : Char) : Bool := c == ';' || c == ','

/-- The value of a hardware address field, behind the type that stands before its comma. Nothing
matches a wanted address that is malformed. -/
def matchesMac (wantedMac : Option Text) (value : Text) : Bool :=
  match wantedMac with
  | none => false
  | some wanted => normalizeMac (afterComma value) = some wanted

/-- The value of a name field, to the letter. -/
def matchesName (name : Option Text) (value : Text) : Bool :=
  match name with
  | none => false
  | some wantedName => value = wantedName

/-- One word between braces: `key=value`, or nothing of interest. -/
def readWord (wantedMac name : Option Text) (r : Record) (word : Text) : Record :=
  match splitOnce '=' word with
  | none => r
  | some (key, value) =>
    let value := trimEndBy isTrailing value
    if key = "ip_address".toList then {r with ip := Ipv4Addr.parse value}
    else if key = "hw_address".toList ∨ key = "identifier".toList then
      {r with hwMatched := r.hwMatched || matchesMac wantedMac value}
    else if key = "name".toList then {r with nameMatched := r.nameMatched || matchesName name value}
    else r

/-- The address of a record that matched. -/
def Record.found (r : Record) : Option Ipv4Addr := if r.hwMatched || r.nameMatched then r.ip else none

/-- The loop of `find_lease` over the words of the file. -/
def scan (wantedMac name : Option Text) : Record → List Text → Option Ipv4Addr
  | _, [] => none
  | r, word :: rest =>
    if word = ['{'] then scan wantedMac name .fresh rest
    else if word = ['}'] then
      match r.found with
      | some ip => some ip
      | none => scan wantedMac name .fresh rest
    else scan wantedMac name (readWord wantedMac name r word) rest

/-- Braces are words of their own. -/
def pad (t : Text) : Text := t.flatMap fun c => if c = '{' ∨ c = '}' then [' ', c, ' '] else [c]

/-- The words of the file, with every brace a word of its own. -/
def tokens (contents : Text) : List Text := words isAsciiWhitespace (pad contents)

/-- The address of the first record that has one and matches, by the hardware address or by the
name. -/
def findLease (contents mac : Text) (name : Option Text) : Option Ipv4Addr :=
  scan (normalizeMac mac) name .fresh (tokens contents)

/-! ### What a run of words amounts to -/

/-- The key and the value of a word. -/
def field (word : Text) : Option (Text × Text) :=
  (splitOnce '=' word).map fun (key, value) => (key, trimEndBy isTrailing value)

/-- What a word says about the address. -/
def ipOf (word : Text) : Option (Option Ipv4Addr) :=
  match field word with
  | some (key, value) => if key = "ip_address".toList then some (Ipv4Addr.parse value) else none
  | none => none

/-- The word names the wanted hardware address. -/
def hitsMac (wantedMac : Option Text) (word : Text) : Bool :=
  match field word with
  | some (key, value) =>
    (key = "hw_address".toList || key = "identifier".toList) && matchesMac wantedMac value
  | none => false

/-- The word names the wanted host. -/
def hitsName (name : Option Text) (word : Text) : Bool :=
  match field word with
  | some (key, value) => key = "name".toList && matchesName name value
  | none => false

section Written
variable {key value tail : Text} (hkey : '=' ∉ key) (htail : ∀ c ∈ tail, isTrailing c = true)
include hkey htail

/-- The punctuation behind a value is no part of it. -/
theorem field_written : field (key ++ '=' :: (value ++ tail)) = some (key, trimEndBy isTrailing value) := by
  rw [field, splitOnce_append hkey]
  exact congrArg some (congrArg (Prod.mk key) (trimEndBy_append_tail htail value))

theorem ipOf_written : ipOf (key ++ '=' :: (value ++ tail)) =
    if key = "ip_address".toList then some (Ipv4Addr.parse (trimEndBy isTrailing value)) else none := by
  rw [ipOf, field_written hkey htail]

theorem hitsMac_written (wantedMac : Option Text) : hitsMac wantedMac (key ++ '=' :: (value ++ tail)) =
    ((key = "hw_address".toList || key = "identifier".toList) &&
      matchesMac wantedMac (trimEndBy isTrailing value)) := by
  rw [hitsMac, field_written hkey htail]

theorem hitsName_written (name : Option Text) : hitsName name (key ++ '=' :: (value ++ tail)) =
    (key = "name".toList && matchesName name (trimEndBy isTrailing value)) := by
  rw [hitsName, field_written hkey htail]

end Written

section Scan
variable {wantedMac name : Option Text}

/-- The three things that a word can say are independent of each other. -/
theorem readWord_eq (r : Record) (word : Text) : readWord wantedMac name r word =
    ⟨(ipOf word).getD r.ip, r.hwMatched || hitsMac wantedMac word, r.nameMatched || hitsName name word⟩ := by
  have hip_hw : "ip_address".toList ≠ "hw_address".toList := by decide
  have hip_id : "ip_address".toList ≠ "identifier".toList := by decide
  have hip_name : "ip_address".toList ≠ "name".toList := by decide
  have hhw_name : "hw_address".toList ≠ "name".toList := by decide
  have hid_name : "identifier".toList ≠ "name".toList := by decide
  unfold readWord ipOf hitsMac hitsName field
  generalize "ip_address".toList = ipKey at *
  generalize "hw_address".toList = hwKey at *
  generalize "identifier".toList = idKey at *
  generalize "name".toList = nameKey at *
  rcases splitOnce '=' word with _ | ⟨key, value⟩
  · simp
  dsimp only [Option.map_some]
  by_cases hip : key = ipKey
  · subst hip
    simp [hip_hw, hip_id, hip_name]
  by_cases hhw : key = hwKey ∨ key = idKey
  · rcases hhw with rfl | rfl <;> simp [hip_hw.symm, hip_id.symm, hhw_name, hid_name]
  obtain ⟨hhw, hid⟩ := not_or.mp hhw
  by_cases hname : key = nameKey
  · subst hname
    simp [hip, hhw, hid]
  · simp [hip, hhw, hid, hname]

/-- The last address counts, and any match. -/
theorem fold_readWord (ws : List Text) (r : Record) : ws.foldl (readWord wantedMac name) r =
    ⟨(ws.filterMap ipOf).getLast?.getD r.ip, r.hwMatched || ws.any (hitsMac wantedMac),
      r.nameMatched || ws.any (hitsName name)⟩ := by
  induction ws generalizing r with
  | nil => simp
  | cons word ws ih =>
    rw [List.foldl_cons, ih, readWord_eq]
    cases hip : ipOf word with
    | none => simp [hip, Bool.or_assoc]
    | some ip => simp [hip, Bool.or_assoc, List.getLast?_cons]

/-- The words up to a brace are read one after the other. -/
theorem scan_words {ws : List Text} (h : ∀ word ∈ ws, word ≠ ['{'] ∧ word ≠ ['}']) (r : Record)
    (rest : List Text) : scan wantedMac name r (ws ++ rest) =
      scan wantedMac name (ws.foldl (readWord wantedMac name) r) rest := by
  induction ws generalizing r with
  | nil => rfl
  | cons word ws ih =>
    obtain ⟨hopen, hclose⟩ := h word (List.mem_cons_self ..)
    rw [List.cons_append, scan, if_neg hopen, if_neg hclose, List.foldl_cons]
    exact ih (fun w hw => h w (List.mem_cons_of_mem word hw)) _

/-- A record between braces: its address if it matches, else the search goes on afresh. -/
theorem scan_record {ws : List Text} (h : ∀ word ∈ ws, word ≠ ['{'] ∧ word ≠ ['}']) (r : Record)
    (rest : List Text) : scan wantedMac name r (['{'] :: (ws ++ ['}'] :: rest)) =
      match (ws.foldl (readWord wantedMac name) .fresh).found with
      | some ip => some ip
      | none => scan wantedMac name .fresh rest := by
  rw [scan, if_pos rfl, scan_words h, scan, if_neg (by decide), if_pos rfl]

end Scan

/-! ### The ARP table -/

def isParenthesis (c : Char) : Bool := c == '(' || c == ')'

/-- One line of `arp -an`: `? (ip) at mac on ...`. -/
def arpLine (wantedMac : Text) (line : Text) : Option Ipv4Addr :=
  match words isAsciiWhitespace line with
  | _ :: ipPart :: at_ :: macPart :: _ =>
    if at_ = "at".toList ∧ normalizeMac macPart = some wantedMac then
      Ipv4Addr.parse (trimEndBy isParenthesis (ipPart.dropWhile isParenthesis))
    else none
  | _ => none

/-- The address of the first line of the ARP table with this hardware address. -/
def findInArp (arpOutput mac : Text) : Option Ipv4Addr := do
  let wantedMac ← normalizeMac mac
  (lines arpOutput).findSome? (arpLine wantedMac)

end Malleus.Leases
