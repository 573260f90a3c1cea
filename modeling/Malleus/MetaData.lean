import Malleus.Library.Yaml
import Malleus.Provision

/-! The texts that go into a document as they are.

A hostname and a bridge address are written after a key, without quotes, and the filter
only asks that they are not blank. `lands_once` says which of them are read as one value
each: those without a line break. -/
namespace Malleus.Provision
open Strings Yaml

/-! ### What should be read -/

def idLine (hostname : Text) : Text := "instance-id: malleus-".toList ++ hostname

def hostnameLine (hostname : Text) : Text := "local-hostname: ".toList ++ hostname

def addressLine (bridgeCidr : Text) : Text := "      ipv4.address: ".toList ++ bridgeCidr

/-- The keys and the values of the lines of `meta-data`. -/
def metaEntries (doc : Text) : List (Option (Text × Text)) := (filledLines doc).map entry

/-- Each text is one value: the two keys of `meta-data` are all there is in it, and two
preseeds differ in the line of the address alone. -/
structure LandsOnce (hostname doc bridgeCidr other : Text) : Prop where
  entries : metaEntries doc =
    [some ("instance-id".toList, "malleus-".toList ++ hostname),
      some ("local-hostname".toList, hostname)]
  preseed : ∃ before after : List Text,
    filledLines (renderPreseed bridgeCidr) = before ++ addressLine bridgeCidr :: after ∧
    filledLines (renderPreseed other) = before ++ addressLine other :: after

/-- The text stays on its line. -/
def OneLine (t : Text) : Prop := ∀ c ∈ t, isBreak c = false

instance (t : Text) : Decidable (OneLine t) := List.decidableBAll _ t

/-! ### What is read -/

theorem renderMetaData_ok {spec : ProvisionSpec} {doc : Text} (h : renderMetaData spec = .ok doc) :
    doc = "instance-id: malleus-".toList ++ spec.hostname ++ "\nlocal-hostname: ".toList ++
      spec.hostname ++ "\n".toList := by
  rw [renderMetaData] at h
  cases hv : validate spec with
  | error e => rw [hv] at h; cases h
  | ok _ => rw [hv] at h; exact (Except.ok.inj h).symm

theorem two_lines {a b b' e : Text} (hb : b' = '\n' :: b) (he : e = ['\n']) (t : Text) :
    a ++ t ++ b' ++ t ++ e = unlines [a ++ t, b ++ t] := by
  rw [hb, he]
  simp

theorem entry_line {a key u : Text} (ha : a = key ++ ':' :: ' ' :: u) (hkey : ':' ∉ key) (t : Text) :
    entry (a ++ t) = some (key, u ++ t) := by
  rw [ha, List.append_assoc, List.cons_append, List.cons_append, entry_append hkey]

/-- A key and its text fill one line. -/
theorem filled_append {a t : Text} (ha : a ≠ [] ∧ OneLine a) (ht : OneLine t) :
    a ++ t ≠ [] ∧ OneLine (a ++ t) := by
  refine ⟨List.append_ne_nil_of_left_ne_nil ha.1 t, fun c hc => ?_⟩
  cases List.mem_append.mp hc with
  | inl hc => exact ha.2 c hc
  | inr hc => exact ht c hc

theorem metaEntries_oneLine {spec : ProvisionSpec} {doc : Text} (hdoc : renderMetaData spec = .ok doc)
    (h : OneLine spec.hostname) : metaEntries doc =
      [some ("instance-id".toList, "malleus-".toList ++ spec.hostname),
        some ("local-hostname".toList, spec.hostname)] := by
  have hlines : doc = unlines [idLine spec.hostname, hostnameLine spec.hostname] := by
    rw [renderMetaData_ok hdoc]
    exact two_lines (by decide) (by decide) _
  have hid : entry (idLine spec.hostname) =
      some ("instance-id".toList, "malleus-".toList ++ spec.hostname) :=
    entry_line (by decide) (by decide) _
  have hname : entry (hostnameLine spec.hostname) =
      some ("local-hostname".toList, [] ++ spec.hostname) := entry_line (by decide) (by decide) _
  rw [metaEntries, hlines, filledLines_unlines, List.map_cons, List.map_cons, hid, hname]
  · rfl
  · intro l hl
    rw [List.mem_cons, List.mem_singleton] at hl
    obtain rfl | rfl := hl
    · exact filled_append (by decide) h
    · exact filled_append (by decide) h

/-- The preseed is read line by line. -/
theorem preseed_oneLine {bridgeCidr : Text} (h : OneLine bridgeCidr) :
    filledLines (renderPreseed bridgeCidr) = preseedHead ++ addressLine bridgeCidr :: preseedTail := by
  have hhead : ∀ l ∈ preseedHead, l ≠ [] ∧ OneLine l := by decide +kernel
  have htail : ∀ l ∈ preseedTail, l ≠ [] ∧ OneLine l := by decide +kernel
  have haddress : addressLine bridgeCidr ≠ [] ∧ OneLine (addressLine bridgeCidr) :=
    filled_append (by decide) h
  rw [renderPreseed, filledLines_unlines]
  · rw [List.append_assoc, List.singleton_append]
    rfl
  · intro l hl
    rw [List.mem_append, List.mem_append, List.mem_singleton] at hl
    obtain (hl | rfl) | hl := hl
    · exact hhead l hl
    · exact haddress
    · exact htail l hl

/-- A line that was read has no break in it. -/
theorem oneLine_address {t bridgeCidr : Text} (h : addressLine bridgeCidr ∈ filledLines t) :
    OneLine bridgeCidr :=
  fun c hc => (mem_words h).2 c (List.mem_append_right _ hc)

/-- **A hostname and an address are one value each** exactly when they have no line break. -/
theorem lands_once {spec : ProvisionSpec} {doc : Text} (hdoc : renderMetaData spec = .ok doc)
    (other : Text) : LandsOnce spec.hostname doc spec.bridgeCidr other ↔
      OneLine spec.hostname ∧ OneLine spec.bridgeCidr ∧ OneLine other := by
  constructor
  · intro h
    obtain ⟨before, after, hbridge, hother⟩ := h.preseed
    have hmem : some ("local-hostname".toList, spec.hostname) ∈ metaEntries doc := by
      rw [h.entries]
      exact List.mem_cons_of_mem _ (List.mem_singleton_self _)
    obtain ⟨l, hl, hentry⟩ := List.mem_map.mp hmem
    refine ⟨not_isBreak_value hl hentry, oneLine_address (t := renderPreseed spec.bridgeCidr) ?_,
      oneLine_address (t := renderPreseed other) ?_⟩
    · rw [hbridge]
      exact List.mem_append_right _ (List.mem_cons_self ..)
    · rw [hother]
      exact List.mem_append_right _ (List.mem_cons_self ..)
  · intro h
    exact ⟨metaEntries_oneLine hdoc h.1, _, _, preseed_oneLine h.2.1, preseed_oneLine h.2.2⟩

def sampleSpec (hostname bridgeCidr : Text) : ProvisionSpec where
  hostname := hostname
  bridgeCidr := bridgeCidr
  clientCertPem := "CERT".toList
  serverCertPem := "CERT".toList
  serverKeyPem := "KEY".toList
  mounts := []
  stateTag := none

theorem lands_once_malleus : LandsOnce "malleus".toList
    "instance-id: malleus-malleus\nlocal-hostname: malleus\n".toList "10.174.0.1/24".toList
    "10.0.0.1/24".toList := by
  have hdoc : renderMetaData (sampleSpec "malleus".toList "10.174.0.1/24".toList) =
      .ok "instance-id: malleus-malleus\nlocal-hostname: malleus\n".toList := by decide
  exact (lands_once hdoc "10.0.0.1/24".toList).mpr (by decide)

/-- A hostname with a line feed is accepted and adds a key, and so does an address. -/
theorem hostname_adds_key :
    (∃ doc, renderMetaData (sampleSpec "a\npublic-keys: evil".toList "10.174.0.1/24".toList) = .ok doc ∧
      some ("public-keys".toList, "evil".toList) ∈ metaEntries doc ∧
      ¬ LandsOnce "a\npublic-keys: evil".toList doc "10.174.0.1/24".toList "10.0.0.1/24".toList) ∧
    validate (sampleSpec "malleus".toList "10.0.0.1/24\n      ipv4.dhcp: \"false\"".toList) = .ok () ∧
      "      ipv4.dhcp: \"false\"".toList ∈
        filledLines (renderPreseed "10.0.0.1/24\n      ipv4.dhcp: \"false\"".toList) := by
  refine ⟨⟨_, rfl, by decide +kernel, fun h => ?_⟩, by decide, by decide +kernel⟩
  have hentries := congrArg List.length h.entries
  exact absurd hentries (by decide +kernel)

end Malleus.Provision
