import Malleus.Boot
import Malleus.Library.Polling

/-! What the search for the guest's address comes to.

`places` lists what one turn of `resolve_vm_ip` has before it, in order of priority, and
`turn` says what the turn makes of it, without the list of places searched that the loop
carries along: that list is the same from the first turn on (`allSearched_again`). The
code's loop is then the polling loop over `turn` (`resolveLoop_poll`), and its answers
and errors are read off the first turn that does not wait. -/
namespace Malleus
open Effect Strings Numbers Storage Polling

namespace AddressSearch

/-! ### One turn -/

def leasedIp (contents : Text) : Option Ipv4Addr := Leases.findLease contents defaultVmMac (some vmName)

def arpIp (stdout : Text) : Option Ipv4Addr := Leases.findInArp stdout defaultVmMac

/-- The lease file beside the one that is passed. -/
def otherLeases : Text := "/var/db/dhcp_leases".toList

def arpTable : Text := "host ARP table".toList

/-- Where an address may be, in order of priority, and the one that is there. -/
def places (leasePath : Text) (poll : Poll) (d : StateDisk) : List (Source × Option Ipv4Addr) :=
  [(.restApi, poll.restApi.bind vfkitIp),
    (.vsock, poll.vsock.bind vsockIp),
    (.guestIp, (poll.text d .guestIp).bind guestIpOf),
    (.serialLog, (poll.text d .guestLog).bind serialLogIp),
    (.leases, (poll.leases leasePath).bind leasedIp),
    (.leases, (poll.leases otherLeases).bind leasedIp),
    (.arp, poll.arp.bind arpIp)]

/-- The first address there is. -/
def firstAddress (leasePath : Text) (poll : Poll) (d : StateDisk) : Option (Source × Ipv4Addr) :=
  (places leasePath poll d).findSome? fun place => place.2.map (Prod.mk place.1)

/-- The places searched, once a turn has searched them all. -/
def allSearched (leasePath : Text) (searched : List Text) : List Text :=
  addSearched arpTable (addSearched otherLeases (addSearched leasePath searched))

/-- The places that an error names: those of the first turn and of every later one. -/
def searchedPlaces (leasePath : Text) : List Text := allSearched leasePath initialSearched

def leaseReason (path : Text) (contents : Option Text) : Text :=
  path ++ if contents.isSome then ": no matching record".toList
    else ": not found or inaccessible".toList

def arpReason (stdout : Option Text) : Text :=
  if stdout.isSome then "ARP table: no entry for MAC".toList
  else "ARP table: command failed or unavailable".toList

/-- Why a turn found nothing. -/
def reasons (leasePath : Text) (poll : Poll) : List Text :=
  [leaseReason leasePath (poll.leases leasePath), leaseReason otherLeases (poll.leases otherLeases),
    arpReason poll.arp]

/-- The first file with the guest's address decides; one without is put among the places and the
reasons. -/
theorem searchLeases_cons (leases : Text → Option Text) (path : Text) (paths searched reasons : List Text) :
    searchLeases leases (path :: paths) searched reasons =
      ((leases path).bind leasedIp).elim
        (searchLeases leases paths (addSearched path searched)
          (reasons ++ [leaseReason path (leases path)]))
        fun ip => .found ip .leases := by
  rw [searchLeases]
  cases hleases : leases path with
  | none => rfl
  | some contents =>
    cases hip : Leases.findLease contents defaultVmMac (some vmName) with
    | none => simp [leasedIp, hip, leaseReason]
    | some ip => simp [leasedIp, hip]

/-- The table answers, or is the last place that is named. -/
theorem searchArp_eq (arp : Option Text) (searched reasons : List Text) :
    searchArp arp searched reasons =
      (arp.bind arpIp).elim (.nothing (addSearched arpTable searched) (reasons ++ [arpReason arp]))
        fun ip => .found ip .arp := by
  cases arp with
  | none => rfl
  | some stdout =>
    unfold searchArp
    cases hip : Leases.findInArp stdout defaultVmMac with
    | none =>
      have hnone : (some stdout).bind arpIp = none := hip
      rw [hnone]
      dsimp only
      rw [hip]
      rfl
    | some ip =>
      have hsome : (some stdout).bind arpIp = some ip := hip
      rw [hsome]
      dsimp only
      rw [hip]
      rfl

/-- A look finds the first address there is, or has searched every place. -/
theorem look_eq (leasePath : Text) (poll : Poll) (d : StateDisk) (searched : List Text) :
    look leasePath poll d searched =
      (firstAddress leasePath poll d).elim
        (.nothing (allSearched leasePath searched) (reasons leasePath poll))
        fun found => .found found.2 found.1 := by
  unfold look firstAddress places
  cases poll.restApi.bind vfkitIp with
  | some ip => rfl
  | none =>
  cases poll.vsock.bind vsockIp with
  | some ip => rfl
  | none =>
  cases (poll.text d .guestIp).bind guestIpOf with
  | some ip => rfl
  | none =>
  cases (poll.text d .guestLog).bind serialLogIp with
  | some ip => rfl
  | none =>
  -- what is left are the lease files and the ARP table
  have hother : "/var/db/dhcp_leases".toList = otherLeases := rfl
  dsimp only
  rw [hother, searchLeases_cons, searchLeases_cons, searchLeases]
  cases (poll.leases leasePath).bind leasedIp with
  | some ip => rfl
  | none =>
  cases (poll.leases otherLeases).bind leasedIp with
  | some ip => rfl
  | none =>
  show searchArp poll.arp _ _ = _
  rw [searchArp_eq]
  cases poll.arp.bind arpIp with
  | some ip => rfl
  | none => rfl

/-! ### The places searched -/

theorem mem_addSearched {place other : Text} {searched : List Text} :
    other ∈ addSearched place searched ↔ other = place ∨ other ∈ searched := by
  unfold addSearched
  split
  · next h =>
    constructor
    · exact Or.inr
    · rintro (rfl | h')
      · exact h
      · exact h'
  · rw [List.mem_append, List.mem_singleton, or_comm]

theorem addSearched_of_mem {place : Text} {searched : List Text} (h : place ∈ searched) :
    addSearched place searched = searched := if_pos h

/-- A second turn has no new place to add. -/
theorem allSearched_again (leasePath : Text) (searched : List Text) :
    allSearched leasePath (allSearched leasePath searched) = allSearched leasePath searched := by
  have hlease : leasePath ∈ allSearched leasePath searched :=
    mem_addSearched.mpr (.inr (mem_addSearched.mpr (.inr (mem_addSearched.mpr (.inl rfl)))))
  have hother : otherLeases ∈ allSearched leasePath searched :=
    mem_addSearched.mpr (.inr (mem_addSearched.mpr (.inl rfl)))
  have harp : arpTable ∈ allSearched leasePath searched := mem_addSearched.mpr (.inl rfl)
  calc allSearched leasePath (allSearched leasePath searched)
      = addSearched arpTable (addSearched otherLeases (allSearched leasePath searched)) := by
        rw [allSearched, addSearched_of_mem hlease]
    _ = addSearched arpTable (allSearched leasePath searched) := by rw [addSearched_of_mem hother]
    _ = allSearched leasePath searched := addSearched_of_mem harp

/-! ### The loop -/

section Loop
variable (host : Host) (vmIsRunning : Bool → World → Bool) (leasePath : Text)

/-- What one turn comes to, in the world it meets. -/
def settle (w : World) (poll : Poll) : Turn World (Outcome CliError Ipv4Addr × World) :=
  if vmIsRunning poll.ps w then
    match firstAddress leasePath poll w.disk with
    | some found =>
      .done (.ok found.2,
        w.note (.answered found.2 found.1 w.namedRun (w.lastWritten .guestIp)))
    | none =>
      if poll.expired then
        .done (.error (timedOut poll w.disk (searchedPlaces leasePath) (reasons leasePath poll)), w)
      else .again w
  else .done (.error (notRunning host poll w.disk), w)

/-- The world after what happens before these turns. -/
def after (w : World) (polls : List Poll) : World := (polls.flatMap Poll.before).foldl happen w

def turn (w : World) (poll : Poll) : Turn World (Outcome CliError Ipv4Addr × World) :=
  settle host vmIsRunning leasePath (after w [poll]) poll

theorem after_cons (w : World) (poll : Poll) (polls : List Poll) :
    after w (poll :: polls) = after (after w [poll]) polls := by
  simp [after]

theorem after_append (w : World) (early late : List Poll) :
    after w (early ++ late) = after (after w early) late := by
  simp [after]

/-- **The code's loop is the polling loop over its turns**, however far it has got with
the list of what it searched. -/
theorem resolveLoop_poll {polls : List Poll} {searched : List Text} {w : World}
    (hsearched : allSearched leasePath searched = searchedPlaces leasePath) :
    resolveLoop host vmIsRunning leasePath polls searched w =
      (poll (turn host vmIsRunning leasePath) w polls).getD (.killed, after w polls) := by
  induction polls generalizing w searched with
  | nil => rfl
  | cons p polls ih =>
    have hw : p.before.foldl happen w = after w [p] := by simp [after]
    rw [poll, after_cons]
    unfold resolveLoop turn settle
    rw [Cmd.bind_of_ok (Cmd.modify_apply ..), hw, Cmd.bind_of_ok (Cmd.gets_apply ..),
      Cmd.bind_of_ok (Cmd.gets_apply ..), look_eq]
    cases vmIsRunning p.ps (after w [p]) with
    | false => rfl
    | true =>
      rw [if_pos rfl, if_pos rfl, hsearched]
      cases firstAddress leasePath p (after w [p]).disk with
      | some found => rfl
      | none =>
        cases p.expired with
        | true => rfl
        | false => exact ih (allSearched_again leasePath initialSearched)

/-- The VM runs, no place has an address, and there is time left. -/
structure Fruitless (w : World) (poll : Poll) : Prop where
  running : vmIsRunning poll.ps w = true
  nothing : firstAddress leasePath poll w.disk = none
  time : poll.expired = false

/-- Every one of these turns is fruitless, in the world it meets. -/
def AllFruitless (w : World) (polls : List Poll) : Prop :=
  ∀ early poll late, polls = early ++ poll :: late →
    Fruitless vmIsRunning leasePath (after w (early ++ [poll])) poll

theorem allFruitless_cons {w : World} {poll : Poll} {polls : List Poll} :
    AllFruitless vmIsRunning leasePath w (poll :: polls) ↔
      Fruitless vmIsRunning leasePath (after w [poll]) poll ∧
        AllFruitless vmIsRunning leasePath (after w [poll]) polls := by
  constructor
  · intro h
    refine ⟨h [] poll polls rfl, fun early p late hpolls => ?_⟩
    rw [← after_cons, ← List.cons_append]
    exact h (poll :: early) p late (by rw [hpolls, List.cons_append])
  · rintro ⟨hfirst, hrest⟩ early p late hpolls
    cases early with
    | nil =>
      obtain ⟨rfl, -⟩ := List.cons.inj hpolls
      exact hfirst
    | cons p' early =>
      obtain ⟨rfl, htail⟩ := List.cons.inj hpolls
      rw [List.cons_append, after_cons]
      exact hrest early p late htail

section Settle
variable {host vmIsRunning leasePath} {w w' : World} {p : Poll} {ip : Ipv4Addr} {e : CliError}

/-- The turn waits where it has found nothing and there is time, and leaves the world as it met
it. -/
theorem settle_again : settle host vmIsRunning leasePath w p = .again w' ↔
    Fruitless vmIsRunning leasePath w p ∧ w' = w := by
  unfold settle
  constructor
  · intro h
    split at h
    · next hrunning =>
      split at h
      · cases h
      · next hnothing =>
        split at h
        · cases h
        · next htime =>
          cases h
          exact ⟨⟨hrunning, hnothing, by simpa using htime⟩, rfl⟩
    · cases h
  · rintro ⟨⟨hrunning, hnothing, htime⟩, rfl⟩
    rw [if_pos hrunning, hnothing, htime]
    rfl

/-- The turn answers with the first address there is while the VM runs. -/
theorem settle_ok : settle host vmIsRunning leasePath w p = .done (.ok ip, w') ↔
    vmIsRunning p.ps w = true ∧ ∃ source, firstAddress leasePath p w.disk = some (source, ip) ∧
      w' = w.note (.answered ip source w.namedRun (w.lastWritten .guestIp)) := by
  unfold settle
  constructor
  · intro h
    split at h
    · next hrunning =>
      split at h
      · next found hfound =>
        cases h
        exact ⟨hrunning, found.1, hfound, rfl⟩
      · split at h
        · cases h
        · cases h
    · cases h
  · rintro ⟨hrunning, source, hfound, rfl⟩
    rw [if_pos hrunning, hfound]

/-- What the error says depends on whether the VM runs. -/
theorem settle_error : settle host vmIsRunning leasePath w p = .done (.error e, w') ↔
    w' = w ∧ ((vmIsRunning p.ps w = false ∧ e = notRunning host p w.disk) ∨
      (vmIsRunning p.ps w = true ∧ firstAddress leasePath p w.disk = none ∧ p.expired = true ∧
        e = timedOut p w.disk (searchedPlaces leasePath) (reasons leasePath p))) := by
  unfold settle
  constructor
  · intro h
    split at h
    · next hrunning =>
      split at h
      · cases h
      · next hnothing =>
        split at h
        · next hexpired =>
          cases h
          exact ⟨rfl, Or.inr ⟨hrunning, hnothing, hexpired, rfl⟩⟩
        · cases h
    · next hrunning =>
      cases h
      exact ⟨rfl, Or.inl ⟨by simpa using hrunning, rfl⟩⟩
  · rintro ⟨rfl, ⟨hrunning, rfl⟩ | ⟨hrunning, hnothing, hexpired, rfl⟩⟩
    · rw [if_neg (by simp [hrunning])]
    · rw [if_pos hrunning, hnothing, if_pos hexpired]

end Settle

/-- The loop waits through turns that are all without fruit. -/
theorem waits_iff {w w' : World} {polls : List Poll} :
    Waits (turn host vmIsRunning leasePath) w polls w' ↔
      AllFruitless vmIsRunning leasePath w polls ∧ w' = after w polls := by
  induction polls generalizing w with
  | nil =>
    constructor
    · intro h
      cases h
      exact ⟨fun early p late hpolls => by simp at hpolls, rfl⟩
    · rintro ⟨-, rfl⟩
      exact .nil _
  | cons p polls ih =>
    rw [allFruitless_cons, after_cons w p polls]
    constructor
    · intro h
      cases h with
      | cons hturn hrest =>
        obtain ⟨hfirst, rfl⟩ := settle_again.mp hturn
        obtain ⟨hall, hw'⟩ := ih.mp hrest
        exact ⟨⟨hfirst, hall⟩, hw'⟩
    · rintro ⟨⟨hfirst, hall⟩, rfl⟩
      exact .cons (settle_again.mpr ⟨hfirst, rfl⟩) (ih.mpr ⟨hall, rfl⟩)

end Loop

/-! ### The search -/

section Search
variable {host : Host} {vmIsRunning : Bool → World → Bool} {leasePath : Text} {polls : List Poll}
variable {w w' : World} {p : Poll} {ip : Ipv4Addr} {e : CliError}

/-- The search ends as the first turn says that does not wait. -/
theorem resolveVmIp_done {outcome : Outcome CliError Ipv4Addr} (hend : outcome ≠ .killed) :
    resolveVmIp host vmIsRunning leasePath none polls w = (outcome, w') ↔
      ∃ early p late, polls = early ++ p :: late ∧ AllFruitless vmIsRunning leasePath w early ∧
        settle host vmIsRunning leasePath (after w (early ++ [p])) p = .done (outcome, w') := by
  have hpoll : resolveVmIp host vmIsRunning leasePath none polls w = (outcome, w') ↔
      poll (turn host vmIsRunning leasePath) w polls = some (outcome, w') := by
    rw [resolveVmIp, resolveLoop_poll host vmIsRunning leasePath rfl]
    cases poll (turn host vmIsRunning leasePath) w polls with
    | some done => simp
    | none =>
      constructor
      · intro h
        exact absurd (congrArg Prod.fst h).symm hend
      · intro h
        cases h
  rw [hpoll, poll_eq_some_iff]
  constructor
  · rintro ⟨early, p, late, w1, hpolls, hwaits, hdone⟩
    obtain ⟨hall, rfl⟩ := (waits_iff ..).mp hwaits
    refine ⟨early, p, late, hpolls, hall, ?_⟩
    rw [after_append]
    exact hdone
  · rintro ⟨early, p, late, hpolls, hall, hdone⟩
    rw [after_append] at hdone
    exact ⟨early, p, late, _, hpolls, (waits_iff ..).mpr ⟨hall, rfl⟩, hdone⟩

/-- **The search answers with the first address in the first turn that has one**, while the
VM runs and there is time: no later turn, and no place further down the list, is asked. -/
theorem answers_first : resolveVmIp host vmIsRunning leasePath none polls w = (.ok ip, w') ↔
    ∃ early p late source, polls = early ++ p :: late ∧
      AllFruitless vmIsRunning leasePath w early ∧
      vmIsRunning p.ps (after w (early ++ [p])) = true ∧
      firstAddress leasePath p (after w (early ++ [p])).disk = some (source, ip) ∧
      w' = (after w (early ++ [p])).note (.answered ip source (after w (early ++ [p])).namedRun
        ((after w (early ++ [p])).lastWritten .guestIp)) := by
  rw [resolveVmIp_done (by simp)]
  constructor
  · rintro ⟨early, p, late, hpolls, hall, hdone⟩
    obtain ⟨hrunning, source, hfound, hw'⟩ := settle_ok.mp hdone
    exact ⟨early, p, late, source, hpolls, hall, hrunning, hfound, hw'⟩
  · rintro ⟨early, p, late, source, hpolls, hall, hrunning, hfound, hw'⟩
    exact ⟨early, p, late, hpolls, hall, settle_ok.mpr ⟨hrunning, source, hfound, hw'⟩⟩

/-- **The search fails for one of two reasons**: a turn finds that the VM does not run, or
the last one in time finds nothing. The places it then names are the same however
often it has looked, and the reasons are those of the last look. -/
theorem fails_iff : resolveVmIp host vmIsRunning leasePath none polls w = (.error e, w') ↔
    ∃ early p late, polls = early ++ p :: late ∧ AllFruitless vmIsRunning leasePath w early ∧
      w' = after w (early ++ [p]) ∧
      ((vmIsRunning p.ps w' = false ∧ e = notRunning host p w'.disk) ∨
        (vmIsRunning p.ps w' = true ∧ firstAddress leasePath p w'.disk = none ∧ p.expired = true ∧
          e = timedOut p w'.disk (searchedPlaces leasePath) (reasons leasePath p))) := by
  rw [resolveVmIp_done (by simp)]
  constructor
  · rintro ⟨early, p, late, hpolls, hall, hdone⟩
    obtain ⟨rfl, hreason⟩ := settle_error.mp hdone
    exact ⟨early, p, late, hpolls, hall, rfl, hreason⟩
  · rintro ⟨early, p, late, hpolls, hall, rfl, hreason⟩
    exact ⟨early, p, late, hpolls, hall, settle_error.mpr ⟨rfl, hreason⟩⟩

/-! ### How long it looks -/

/-- The time the search has, and its pause between two turns, in milliseconds. -/
def timeout : Nat := 60000

/-- The pause between two turns, in milliseconds. -/
def pause : Nat := 2000

/-- A turn never ends the process. -/
theorem settle_ne_killed {done : World} :
    settle host vmIsRunning leasePath w p ≠ .done (.killed, done) := by
  unfold settle
  intro h
  split at h
  · split at h
    · cases h
    · split at h
      · cases h
      · cases h
  · cases h

/-- **The search ends within 31 turns**, whatever it meets: with turns at least two seconds
apart, the 60 seconds are over at the latest then. -/
theorem ends_in_time {timed : List (Poll × Nat)} (hpaced : Paced pause Prod.snd timed)
    (hexpired : ∀ t ∈ timed, t.1.expired = decide (timeout ≤ t.2)) (hlong : 30 < timed.length) :
    resolveVmIp host vmIsRunning leasePath none (timed.map Prod.fst) w =
        resolveVmIp host vmIsRunning leasePath none ((timed.map Prod.fst).take 31) w ∧
      (resolveVmIp host vmIsRunning leasePath none (timed.map Prod.fst) w).1 ≠ .killed := by
  have hwait : ∀ t ∈ timed, ∀ w w', turn host vmIsRunning leasePath w t.1 = .again w' →
      t.2 < timeout := by
    intro t ht w w' hagain
    have htime := (settle_again.mp hagain).1.time
    rw [hexpired t ht, decide_eq_false_iff_not] at htime
    exact Nat.lt_of_not_le htime
  obtain ⟨done, hdone⟩ := poll_answers hwait hpaced (n := 30) (s := w) (by decide) hlong
  rw [poll_map Prod.fst, List.map_take] at hdone
  have hall := poll_append_of_some hdone ((timed.map Prod.fst).drop 31)
  rw [List.take_append_drop] at hall
  have hresolve : ∀ polls, resolveVmIp host vmIsRunning leasePath none polls w =
      (poll (turn host vmIsRunning leasePath) w polls).getD (.killed, after w polls) :=
    fun polls => resolveLoop_poll host vmIsRunning leasePath rfl
  rw [hresolve, hresolve, hall, hdone]
  refine ⟨rfl, fun hkilled => ?_⟩
  obtain ⟨early, p, late, w1, -, -, hturn⟩ := poll_eq_some_iff.mp hdone
  have hsettle : settle host vmIsRunning leasePath (after w1 [p]) p = .done (.killed, done.2) := by
    rw [← show done.1 = Outcome.killed from hkilled]
    exact hturn
  exact settle_ne_killed hsettle

end Search

/-- A turn that finds nothing, `2 * i` seconds into the search. -/
def silent (i : Nat) : Poll × Nat where
  fst :=
    { before := []
      ps := true
      restApi := none
      vsock := none
      readable := fun _ => false
      leases := fun _ => none
      arp := none
      expired := decide (timeout ≤ pause * i) }
  snd := pause * i

theorem ends_in_time_silent : (resolveVmIp laptop (fun _ _ => true) defaultDhcpLeasesPath none
    (((List.range 31).map silent).map Prod.fst) nothing).1 ≠ .killed := by
  have hpaced : Paced pause Prod.snd ((List.range 31).map silent) :=
    (List.isChain_map silent).mpr (by decide)
  have hexpired : ∀ t ∈ (List.range 31).map silent, t.1.expired = decide (timeout ≤ t.2) := by
    intro t ht
    obtain ⟨i, -, rfl⟩ := List.mem_map.mp ht
    rfl
  exact (ends_in_time hpaced hexpired (by decide)).2

end AddressSearch

end Malleus
