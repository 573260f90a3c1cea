import Malleus.LeaseFile

/-! The records of any lease file.

A record is what a closing brace closes, back to the brace before it or to the
beginning of the file. `findLease_records` says that the search gives what the
first record with an answer says; `leased_found` says when records of the wanted
hardware address come before those that only have the name. -/
namespace Malleus.Leases
open Strings Numbers

/-! ### Octets -/

/-- The six octets of a text. -/
def Mac.read (mac : Text) : Option Mac := do
  let octets ← (mac.splitOn ':').mapM fun part => (fromStrRadix 16 256 part).map UInt8.ofNat
  if h : octets.length = 6 then some ⟨octets, h⟩ else none

theorem mapM_map_some {α β γ : Type} (f : α → Option β) (g : β → γ) (xs : List α) :
    (xs.mapM fun x => (f x).map g) = (xs.mapM f).map (List.map g) := by
  induction xs with
  | nil => rfl
  | cons x xs ih =>
    rw [List.mapM_cons, List.mapM_cons, ih]
    cases f x with
    | none => rfl
    | some b => cases xs.mapM f <;> rfl

/-- Two texts are rewritten to the same one just when they have the same octets. -/
theorem normalizeMac_eq_read (mac : Text) : normalizeMac mac = (Mac.read mac).map Mac.canonical := by
  have hmapM := mapM_map_some (fun part => (fromStrRadix 16 256 part).map UInt8.ofNat) hexPair (mac.splitOn ':')
  simp only [Option.map_map, Function.comp_def] at hmapM
  rw [normalizeMac, Mac.read, hmapM]
  cases (mac.splitOn ':').mapM fun part => (fromStrRadix 16 256 part).map UInt8.ofNat with
  | none => rfl
  | some octets =>
    by_cases h : octets.length = 6 <;> simp [h, Mac.canonical]

/-- What a word says about the hardware address, as itself or as an identifier. -/
def macOf (word : Text) : Option Mac :=
  match field word with
  | some (key, value) =>
    if key = "hw_address".toList ∨ key = "identifier".toList then Mac.read (afterComma value) else none
  | none => none

/-- The word gives the wanted octets. -/
def namesMac (wanted : Option Mac) (word : Text) : Bool :=
  (macOf word).isSome && decide (macOf word = wanted)

/-- Comparing two normalized texts is comparing what they are read as. -/
theorem matchesMac_eq_read (mac value : Text) : matchesMac (normalizeMac mac) value =
    ((Mac.read (afterComma value)).isSome && decide (Mac.read (afterComma value) = Mac.read mac)) := by
  rw [normalizeMac_eq_read]
  cases hwanted : Mac.read mac with
  | none => cases Mac.read (afterComma value) <;> rfl
  | some wanted =>
    dsimp only [matchesMac, Option.map_some]
    rw [normalizeMac_eq_read]
    cases Mac.read (afterComma value) with
    | none => rfl
    | some m => simpa using ⟨Mac.canonical_injective, fun h => h ▸ rfl⟩

theorem macOf_field {word key value : Text} (h : field word = some (key, value)) : macOf word =
    if key = "hw_address".toList ∨ key = "identifier".toList then Mac.read (afterComma value)
    else none := by
  rw [macOf, h]

theorem hitsMac_eq_namesMac (mac word : Text) :
    hitsMac (normalizeMac mac) word = namesMac (Mac.read mac) word := by
  cases hfield : field word with
  | none =>
    have hnone : macOf word = none := by rw [macOf, hfield]
    rw [hitsMac, hfield, namesMac, hnone]
    rfl
  | some entry =>
    obtain ⟨key, value⟩ := entry
    rw [hitsMac, hfield]
    dsimp only
    rw [matchesMac_eq_read, ← Bool.decide_or, namesMac]
    by_cases hkey : key = "hw_address".toList ∨ key = "identifier".toList
    · have hread : macOf word = Mac.read (afterComma value) := (macOf_field hfield).trans (if_pos hkey)
      rw [hread, decide_eq_true hkey, Bool.true_and]
    · have hnone : macOf word = none := (macOf_field hfield).trans (if_neg hkey)
      rw [hnone, decide_eq_false hkey]
      rfl

/-! ### Records -/

/-- The words of the records that close, in order; `run` is what has been read of the next. -/
def recordsFrom (run : List Text) : List Text → List (List Text)
  | [] => []
  | word :: rest =>
    if word = ['{'] then recordsFrom [] rest
    else if word = ['}'] then run :: recordsFrom [] rest
    else recordsFrom (run ++ [word]) rest

/-- The words of the file, by the record that they stand in. -/
def records (contents : Text) : List (List Text) := recordsFrom [] (tokens contents)

/-- The address of a record; a later one replaces an earlier one. -/
def address (r : List Text) : Option Ipv4Addr := (r.filterMap ipOf).getLast?.getD none

/-- All addresses that it names, replaced or not. -/
def addresses (r : List Text) : List Ipv4Addr := r.filterMap fun word => (ipOf word).join

/-- A record of the hardware address. -/
def OfMac (wanted : Option Mac) (r : List Text) : Prop := r.any (namesMac wanted) = true

instance (wanted : Option Mac) (r : List Text) : Decidable (OfMac wanted r) :=
  inferInstanceAs (Decidable (_ = true))

/-- A record of the hardware address, with an address that parses. -/
def Leased (wanted : Option Mac) (r : List Text) : Prop := OfMac wanted r ∧ addresses r ≠ []

instance (wanted : Option Mac) (r : List Text) : Decidable (Leased wanted r) :=
  inferInstanceAs (Decidable (_ ∧ _))

/-- A record of the hardware address whose last address parses. -/
def Current (wanted : Option Mac) (r : List Text) : Prop := OfMac wanted r ∧ (address r).isSome

instance (wanted : Option Mac) (r : List Text) : Decidable (Current wanted r) :=
  inferInstanceAs (Decidable (_ ∧ _))

/-- A record of the host name whose last address parses. -/
def Named (name : Option Text) (r : List Text) : Prop :=
  r.any (hitsName name) = true ∧ (address r).isSome

instance (name : Option Text) (r : List Text) : Decidable (Named name r) :=
  inferInstanceAs (Decidable (_ ∧ _))

theorem mem_addresses {r : List Text} {ip : Ipv4Addr} (h : address r = some ip) : ip ∈ addresses r := by
  rw [address] at h
  cases hlast : (r.filterMap ipOf).getLast? with
  | none =>
    rw [hlast] at h
    cases h
  | some last =>
    rw [hlast, Option.getD_some] at h
    obtain ⟨word, hword, hip⟩ := List.mem_filterMap.mp (List.mem_of_getLast? hlast)
    exact List.mem_filterMap.mpr ⟨word, hword, by rw [hip, h]; rfl⟩

theorem Current.leased {wanted : Option Mac} {r : List Text} (h : Current wanted r) : Leased wanted r := by
  obtain ⟨ip, hip⟩ := Option.isSome_iff_exists.mp h.2
  exact ⟨h.1, List.ne_nil_of_mem (mem_addresses hip)⟩

/-- What the search has of a record when it closes. -/
def answer (wanted : Option Mac) (name : Option Text) (r : List Text) : Option Ipv4Addr :=
  if r.any (namesMac wanted) || r.any (hitsName name) then address r else none

section Search
variable {wanted : Option Mac} {name : Option Text} {r : List Text}

/-- What is known at the end of a record is what the record answers. -/
theorem found_fold (mac : Text) (name : Option Text) (r : List Text) :
    (r.foldl (readWord (normalizeMac mac) name) .fresh).found = answer (Mac.read mac) name r := by
  have hmac : hitsMac (normalizeMac mac) = namesMac (Mac.read mac) :=
    funext (hitsMac_eq_namesMac mac)
  rw [fold_readWord, hmac]
  rfl

/-- The search goes through the records in order, and takes the first answer. Induction over the
words: the run of those since the last brace is carried along. -/
theorem scan_records (mac : Text) (name : Option Text) (run ws : List Text) :
    scan (normalizeMac mac) name (run.foldl (readWord (normalizeMac mac) name) .fresh) ws =
      (recordsFrom run ws).findSome? (answer (Mac.read mac) name) := by
  induction ws generalizing run with
  | nil => rfl
  | cons word rest ih =>
    unfold scan recordsFrom
    split
    · exact ih []
    split
    · rw [List.findSome?_cons, found_fold]
      cases answer (Mac.read mac) name run with
      | none => exact ih []
      | some ip => rfl
    · rw [← ih (run ++ [word]), List.foldl_append]
      rfl

/-- The search gives what the first record with an answer says. -/
theorem findLease_records (contents mac : Text) (name : Option Text) :
    findLease contents mac name = (records contents).findSome? (answer (Mac.read mac) name) :=
  scan_records mac name [] (tokens contents)

end Search

/-! ### Runs between braces -/

/-- The two words that end a record. -/
def isBrace (word : Text) : Bool := word == ['{'] || word == ['}']

/-- The runs of words that a cut at every brace makes, as far as a closing brace follows. -/
def closedRuns (ws : List Text) : List (List Text) :=
  ((ws.splitOnP isBrace).zip (ws.filter isBrace)).filterMap fun r =>
    if r.2 = ['}'] then some r.1 else none

/-- The run has an address that parses, and the hardware address or the name. -/
def answers (wanted : Option Mac) (name : Option Text) (run : List Text) : Bool :=
  (address run).isSome && (run.any (namesMac wanted) || run.any (hitsName name))

theorem isBrace_eq_false {word : Text} (hopen : word ≠ ['{']) (hclose : word ≠ ['}']) :
    isBrace word = false := by
  simp [isBrace, hopen, hclose]

/-- A brace ends the run before it, and the next begins. -/
theorem closedRuns_append {run rest : List Text} {word : Text} (hrun : ∀ w ∈ run, isBrace w = false)
    (hword : isBrace word = true) : closedRuns (run ++ word :: rest) =
      if word = ['}'] then run :: closedRuns rest else closedRuns rest := by
  have hfilter : (run ++ word :: rest).filter isBrace = word :: rest.filter isBrace := by
    rw [List.filter_append, List.filter_eq_nil_iff.mpr (by simpa using hrun), List.nil_append,
      List.filter_cons_of_pos hword]
  rw [closedRuns, hfilter, List.splitOnP_append_cons _ _ hword, List.splitOnP_eq_singleton hrun,
    List.singleton_append, List.zip_cons_cons, List.filterMap_cons, closedRuns]
  dsimp only
  by_cases hclose : word = ['}']
  · rw [if_pos hclose, if_pos hclose]
  · rw [if_neg hclose, if_neg hclose]

/-- The records are the runs that close, whatever has been read of the first of them. -/
theorem recordsFrom_eq_closedRuns {run : List Text} (hrun : ∀ w ∈ run, isBrace w = false)
    (ws : List Text) : recordsFrom run ws = closedRuns (run ++ ws) := by
  have hnil : ∀ w ∈ ([] : List Text), isBrace w = false := fun w hw => absurd hw (List.not_mem_nil)
  induction ws generalizing run with
  | nil =>
    rw [recordsFrom, closedRuns, List.append_nil, List.filter_eq_nil_iff.mpr (by simpa using hrun),
      List.zip_nil_right, List.filterMap_nil]
  | cons word rest ih =>
    rw [recordsFrom]
    by_cases hopen : word = ['{']
    · subst hopen
      rw [if_pos rfl, ih hnil, closedRuns_append hrun rfl, if_neg (by decide), List.nil_append]
    by_cases hclose : word = ['}']
    · subst hclose
      rw [if_neg hopen, if_pos rfl, ih hnil, closedRuns_append hrun rfl, if_pos rfl, List.nil_append]
    · rw [if_neg hopen, if_neg hclose, ih, List.append_assoc, List.singleton_append]
      intro w hw
      cases List.mem_append.mp hw with
      | inl hmem => exact hrun w hmem
      | inr hmem =>
        obtain rfl := List.mem_singleton.mp hmem
        exact isBrace_eq_false hopen hclose

theorem findSome_answers (wanted : Option Mac) (name : Option Text) (rs : List (List Text)) :
    rs.findSome? (answer wanted name) = (rs.find? (answers wanted name)).bind address := by
  induction rs with
  | nil => rfl
  | cons r rs ih =>
    rw [List.findSome?_cons, List.find?_cons, answer, answers]
    by_cases hmatch : (r.any (namesMac wanted) || r.any (hitsName name)) = true
    · rw [if_pos hmatch, hmatch, Bool.and_true]
      cases haddress : address r with
      | none => exact ih
      | some ip => exact haddress.symm
    · rw [if_neg hmatch, Bool.eq_false_iff.mpr hmatch, Bool.and_false]
      exact ih

/-- **No text confuses the search**: it takes the address of the first run between braces
that closes, has an address and has what is wanted. -/
theorem findLease_closedRuns (contents mac : Text) (name : Option Text) :
    findLease contents mac name =
      ((closedRuns (tokens contents)).find? (answers (Mac.read mac) name)).bind address := by
  rw [findLease_records, findSome_answers, records,
    recordsFrom_eq_closedRuns fun w hw => absurd hw (List.not_mem_nil), List.nil_append]

/-! ### Namesakes -/

/-- The record that the search takes its result from. -/
def used (wanted : Option Mac) (name : Option Text) (rs : List (List Text)) : Option (List Text) :=
  rs.find? (answers wanted name)

/-- The address that is returned is that of the record that is used. -/
theorem findLease_used (contents mac : Text) (name : Option Text) :
    findLease contents mac name = (used (Mac.read mac) name (records contents)).bind address := by
  rw [findLease_records, findSome_answers, used]

/-- What is wanted of the search: a lease of the hardware address is found if there is one, and
a record that has only the name is used if there is no record of the hardware address at all. -/
structure PrefersMac (contents mac : Text) (name : Option Text) : Prop where
  leased : (∃ r ∈ records contents, Leased (Mac.read mac) r) →
    ∃ r ∈ records contents, Leased (Mac.read mac) r ∧
      ∃ ip ∈ addresses r, findLease contents mac name = some ip
  nameLast : ∀ r ∈ used (Mac.read mac) name (records contents), ¬ OfMac (Mac.read mac) r →
    ∀ s ∈ records contents, ¬ OfMac (Mac.read mac) s

/-- The first record with the host name and an address that stands before every record of
the hardware address with one. -/
def namesake (wanted : Option Mac) (name : Option Text) (rs : List (List Text)) :
    Option (List Text) :=
  (rs.takeWhile fun r => !decide (Current wanted r)).find? fun r => decide (Named name r)

/-- If there is a record of the hardware address, no namesake with an address stands before
all those with one, and their addresses are not all replaced by what does not parse. -/
def MacFirst (wanted : Option Mac) (name : Option Text) (rs : List (List Text)) : Prop :=
  (∃ r ∈ rs, OfMac wanted r) → namesake wanted name rs = none ∧
    ((∃ r ∈ rs, Leased wanted r) → ∃ r ∈ rs, Current wanted r)

section Namesakes
variable {wanted : Option Mac} {name : Option Text} {r : List Text} {rs : List (List Text)}

/-- A record answers if it is current, or has the name and an address. -/
theorem answers_iff : answers wanted name r = true ↔ Current wanted r ∨ Named name r := by
  rw [answers, Bool.and_eq_true, Bool.or_eq_true, and_comm, or_and_right]
  rfl

/-- A namesake has not got the hardware address. -/
theorem not_ofMac_namesake (h : namesake wanted name rs = some r) : ¬ OfMac wanted r := by
  have hfound := List.find?_some h
  have hnamed : Named name r := of_decide_eq_true hfound
  have hbefore := List.mem_takeWhile_imp (List.mem_of_find?_eq_some h)
  have hcurrent : ¬ Current wanted r := by simpa using hbefore
  exact fun hmac => hcurrent ⟨hmac, hnamed.2⟩

/-- The search uses a namesake if there is one, else the first record of the hardware address. -/
theorem used_eq (wanted : Option Mac) (name : Option Text) (rs : List (List Text)) :
    used wanted name rs =
      (namesake wanted name rs).or (rs.find? fun r => decide (Current wanted r)) := by
  induction rs with
  | nil => rfl
  | cons r rs ih =>
    rw [used, List.find?_cons, namesake, List.takeWhile_cons, List.find?_cons]
    by_cases hcurrent : Current wanted r
    · -- no record stands before this one
      rw [answers_iff.mpr (Or.inl hcurrent), decide_eq_true hcurrent]
      rfl
    rw [decide_eq_false hcurrent, Bool.not_false, if_pos rfl, List.find?_cons]
    by_cases hnamed : Named name r
    · rw [answers_iff.mpr (Or.inr hnamed), decide_eq_true hnamed]
      rfl
    · have hno : answers wanted name r = false :=
        Bool.eq_false_iff.mpr fun h => (answers_iff.mp h).elim hcurrent hnamed
      rw [hno, decide_eq_false hnamed]
      exact ih

theorem used_of_namesake (h : namesake wanted name rs = some r) : used wanted name rs = some r := by
  rw [used_eq, h]
  rfl

/-- Without a namesake only a record of the hardware address is used. -/
theorem current_of_used (h : namesake wanted name rs = none) (hr : used wanted name rs = some r) :
    r ∈ rs ∧ Current wanted r := by
  rw [used_eq, h, Option.none_or] at hr
  have hfound := List.find?_some hr
  exact ⟨List.mem_of_find?_eq_some hr, of_decide_eq_true hfound⟩

end Namesakes

/-- **The hardware address comes first** exactly if no namesake with an address stands before
its records, and no lease of it is lost to a later address that does not parse. The search
returns the address of the record that it uses. -/
theorem leased_found (contents mac : Text) (name : Option Text) :
    findLease contents mac name = (used (Mac.read mac) name (records contents)).bind address ∧
      (PrefersMac contents mac name ↔ MacFirst (Mac.read mac) name (records contents)) := by
  refine ⟨findLease_used contents mac name, ?_⟩
  constructor
  · intro h hmac
    obtain ⟨s, hs, hsMac⟩ := hmac
    have hnone : namesake (Mac.read mac) name (records contents) = none := by
      cases hn : namesake (Mac.read mac) name (records contents) with
      | none => rfl
      | some n =>
        have hused := h.nameLast n (Option.mem_def.mpr (used_of_namesake hn)) (not_ofMac_namesake hn)
        exact absurd hsMac (hused s hs)
    refine ⟨hnone, fun hleased => ?_⟩
    obtain ⟨_, _, _, ip, _, hfound⟩ := h.leased hleased
    rw [findLease_used] at hfound
    obtain ⟨r, hr, _⟩ := Option.bind_eq_some_iff.mp hfound
    exact ⟨r, current_of_used hnone hr⟩
  · intro h
    refine ⟨fun hleased => ?_, fun r hr hname s hs hsMac => ?_⟩
    · obtain ⟨s, hs, hsMac, _⟩ := id hleased
      obtain ⟨hnone, hcurrent⟩ := h ⟨s, hs, hsMac⟩
      obtain ⟨u, hu⟩ : ∃ u, used (Mac.read mac) name (records contents) = some u := by
        obtain ⟨c, hc, hcCurrent⟩ := hcurrent hleased
        rw [used, ← Option.isSome_iff_exists, List.find?_isSome]
        exact ⟨c, hc, answers_iff.mpr (Or.inl hcCurrent)⟩
      obtain ⟨humem, hucurrent⟩ := current_of_used hnone hu
      obtain ⟨ip, hip⟩ := Option.isSome_iff_exists.mp hucurrent.2
      refine ⟨u, humem, hucurrent.leased, ip, mem_addresses hip, ?_⟩
      rw [findLease_used, hu, Option.bind_some, hip]
    · obtain ⟨hnone, -⟩ := h ⟨s, hs, hsMac⟩
      exact hname (current_of_used hnone (Option.mem_def.mp hr)).2.1

/-- Another machine's lease under the same host name stands first. -/
def namesakeText : Text :=
  ("\x7b\n\tname=debian\n\tip_address=192.168.64.9\n\thw_address=1,aa:bb:cc:dd:ee:ff\n\x7d\n" ++
    "\x7b\n\tname=debian\n\tip_address=192.168.64.5\n\thw_address=1,52:54:0:12:34:56\n\x7d\n").toList

/-- The guest has a lease, and the other machine's address is found. -/
theorem namesake_found :
    ¬ PrefersMac namesakeText "52:54:00:12:34:56".toList (some "debian".toList) ∧
      findLease namesakeText "52:54:00:12:34:56".toList (some "debian".toList) =
        some ⟨192, 168, 64, 9⟩ := by
  have hleased : ∃ r ∈ records namesakeText, Leased (Mac.read "52:54:00:12:34:56".toList) r := by
    decide +kernel
  have hother : findLease namesakeText "52:54:00:12:34:56".toList (some "debian".toList) =
      some ⟨192, 168, 64, 9⟩ := by decide +kernel
  have hnone : ∀ r ∈ records namesakeText, Leased (Mac.read "52:54:00:12:34:56".toList) r →
      ⟨192, 168, 64, 9⟩ ∉ addresses r := by decide +kernel
  refine ⟨fun h => ?_, hother⟩
  obtain ⟨r, hr, hl, ip, hip, hfound⟩ := h.leased hleased
  obtain rfl := Option.some.inj (hfound.symm.trans hother)
  exact hnone r hr hl hip

end Malleus.Leases
