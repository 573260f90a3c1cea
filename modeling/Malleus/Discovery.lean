import Malleus.Leases
import Malleus.World

/-! The guest's address: `resolve_vm_ip` and the sources it asks.

Every turn of the loop first asks whether the VM is running, and then each source
in order. A `Poll` is what one turn meets; when the polls run out the process has
been killed while it waited. -/
namespace Malleus
open Effect Strings Numbers Storage

/-! ### The REST API -/

/-- A value of `serde_json`; the fields of an object are in order, with the first of a name in
force. -/
inductive Json where
  | null
  | bool (b : Bool)
  | number (literal : Text)
  | string (t : Text)
  | array (items : List Json)
  | object (fields : List (Text × Json))

namespace Json

/-- `Value::get`, which finds nothing in what is no object. -/
def get (key : Text) : Json → Option Json
  | object fields => (fields.find? fun field => field.1 = key).map Prod.snd
  | _ => none

def asStr : Json → Option Text
  | string t => some t
  | _ => none

def asArray : Json → Option (List Json)
  | array items => some items
  | _ => none

end Json

/-- The address of a device, if it is the network device. -/
def virtionetIp (dev : Json) : Option Text :=
  if (dev.get "kind".toList).bind Json.asStr = some "virtionet".toList then
    (dev.get "ip".toList).bind Json.asStr
  else none

/-- `query_vfkit_ip`, from the parsed response. -/
def vfkitIp (v : Json) : Option Ipv4Addr :=
  let ipOf (v : Json) : Option Text := (v.get "ip".toList).bind Json.asStr
  let ipStr := ((v.get "vm".toList).bind ipOf).or ((ipOf v).or ((v.get "network".toList).bind ipOf))
  (ipStr.bind Ipv4Addr.parse).or
    ((((v.get "devices".toList).bind Json.asArray).bind fun arr => arr.findSome? virtionetIp).bind
      Ipv4Addr.parse)

/-! ### Texts that name the address -/

/-- `query_vsock_ip`, from what the readiness socket sends. -/
def vsockIp (reply : Text) : Option Ipv4Addr := (words isWhitespace reply).head?.bind Ipv4Addr.parse

/-- The state share's `guest-ip`. -/
def guestIpOf (contents : Text) : Option Ipv4Addr := Ipv4Addr.parse (trim contents)

/-- The address that a line of the serial log reports. -/
def reportedIp (line : Text) : Option Ipv4Addr :=
  (after "Reported IP ".toList line).bind fun part =>
    Ipv4Addr.parse ((words isWhitespace part).headD [])

/-- The last report in the guest's serial log. -/
def serialLogIp (contents : Text) : Option Ipv4Addr := (lines contents).reverse.findSome? reportedIp

/-! ### One look at every source -/

/-- What one turn of the loop meets. -/
structure Poll where
  /-- What happened while it waited. -/
  before : List Event
  /-- Whether `ps` can be run. -/
  ps : Bool
  restApi : Option Json
  vsock : Option Text
  /-- Whether a file can be read now. -/
  readable : File → Bool
  leases : Text → Option Text
  arp : Option Text
  expired : Bool

/-- An address, or the sources that were searched in vain and why. -/
inductive Look where
  | found (ip : Ipv4Addr) (source : Source)
  | nothing (searched reasons : List Text)
  deriving DecidableEq, Repr

/-- A place is named once, where it came up first. -/
def addSearched (place : Text) (searched : List Text) : List Text :=
  if place ∈ searched then searched else searched ++ [place]

/-- The loop over the lease files. -/
def searchLeases (leases : Text → Option Text) :
    List Text → List Text → List Text → Look
  | [], searched, reasons => .nothing searched reasons
  | path :: paths, searched, reasons =>
    let searched := addSearched path searched
    match leases path with
    | some contents =>
      match Leases.findLease contents defaultVmMac (some vmName) with
      | some ip => .found ip .leases
      | none => searchLeases leases paths searched (reasons ++ [path ++ ": no matching record".toList])
    | none =>
      searchLeases leases paths searched (reasons ++ [path ++ ": not found or inaccessible".toList])

/-- The last place of a turn: the ARP table of the host. -/
def searchArp (arp : Option Text) (searched reasons : List Text) : Look :=
  let searched := addSearched "host ARP table".toList searched
  match arp with
  | some stdout =>
    match Leases.findInArp stdout defaultVmMac with
    | some ip => .found ip .arp
    | none => .nothing searched (reasons ++ ["ARP table: no entry for MAC".toList])
  | none => .nothing searched (reasons ++ ["ARP table: command failed or unavailable".toList])

/-- The text of a file, if it is there, can be read and is text. -/
def Poll.text (poll : Poll) (d : StateDisk) (f : File) : Option Text :=
  if poll.readable f then (d.file f).bind decode else none

/-- The sources in their order of priority. -/
def look (leasePath : Text) (poll : Poll) (d : StateDisk) (searched : List Text) : Look :=
  match poll.restApi.bind vfkitIp with
  | some ip => .found ip .restApi
  | none =>
  match poll.vsock.bind vsockIp with
  | some ip => .found ip .vsock
  | none =>
  match (poll.text d .guestIp).bind guestIpOf with
  | some ip => .found ip .guestIp
  | none =>
  match (poll.text d .guestLog).bind serialLogIp with
  | some ip => .found ip .serialLog
  | none =>
  match searchLeases poll.leases [leasePath, "/var/db/dhcp_leases".toList] searched [] with
  | .found ip source => .found ip source
  | .nothing searched reasons => searchArp poll.arp searched reasons

/-! ### The loop -/

def missingVmIp (searchedPaths reason : Text) : CliError :=
  .missingVmIp searchedPaths defaultVmMac vmName reason

/-- The last lines of a text, last first. -/
def lastLines (n : Nat) (contents : Text) : List Text := (lines contents).reverse.take n

def bars (ls : List Text) : Text := " | ".toList.intercalate ls

/-- The error when the probe finds no VM: what vfkit said last, and whether its socket is there.
-/
def notRunning (host : Host) (poll : Poll) (d : StateDisk) : CliError :=
  let socket :=
    if (d.file .readySock).isSome then []
    else "; VM readiness socket `".toList ++ host.path .readySock ++ "` missing".toList
  let errors :=
    match lastLines 3 ((poll.text d .vfkitErr).getD []) with
    | [] => []
    | ls => "; last hypervisor errors: ".toList ++ bars ls
  missingVmIp "PID check".toList ("VM is not running (checked PID file)".toList ++ socket ++ errors)

/-- The error when the deadline is over: the guest's last lines, what it has reported, and why
each place of the last turn gave nothing. -/
def timedOut (poll : Poll) (d : StateDisk) (searched reasons : List Text) : CliError :=
  let guestLog :=
    match poll.text d .guestLog with
    | none => "guest serial log not found".toList
    | some contents =>
      match lastLines 5 contents with
      | [] => "guest serial log is empty".toList
      | ls => "last guest logs: ".toList ++ bars ls
  let guestIp :=
    if (d.file .guestIp).isSome then
      "virtio-fs guest-ip file exists but contains no valid IP".toList
    else "virtio-fs guest-ip file missing".toList
  missingVmIp (", ".toList.intercalate searched)
    ("; ".toList.intercalate (reasons ++ [guestLog, guestIp]))

/-- Give the address back. -/
def answer (ip : Ipv4Addr) (source : Source) : Do Ipv4Addr := do
  record (.answered ip source (← Cmd.gets World.namedRun) (← Cmd.gets (World.lastWritten .guestIp)))
  pure ip

/-- The sources that are searched on every turn. -/
def initialSearched : List Text :=
  ["vfkit REST API".toList, "vsock readiness signal".toList, "virtio-fs state share".toList,
    "guest serial log".toList]

section Resolve
variable (host : Host) (vmIsRunning : Bool → World → Bool) (leasePath : Text)

/-- Turn after turn, until one finds an address, finds the VM gone or finds the deadline over.
-/
def resolveLoop : List Poll → List Text → Do Ipv4Addr
  | [], _ => Cmd.die
  | poll :: polls, searched => do
    Cmd.modify fun w => poll.before.foldl happen w
    let d ← Cmd.gets World.disk
    if ← Cmd.gets (vmIsRunning poll.ps) then
      match look leasePath poll d searched with
      | .found ip source => answer ip source
      | .nothing searched reasons =>
        if poll.expired then Cmd.fail (timedOut poll d searched reasons)
        else resolveLoop polls searched
    else Cmd.fail (notRunning host poll d)

/-- An address that is given is taken as it is; any other is searched for. -/
def resolveVmIp (vmIp : Option Ipv4Addr) (polls : List Poll) : Do Ipv4Addr :=
  match vmIp with
  | some ip => answer ip .explicit
  | none => resolveLoop host vmIsRunning leasePath polls initialSearched

end Resolve

/-! ### What the loop does -/

/-- An address that the lease files give is noted as theirs. -/
theorem searchLeases_source {leases : Text → Option Text} {paths searched reasons : List Text}
    {ip : Ipv4Addr} {source : Source}
    (h : searchLeases leases paths searched reasons = .found ip source) : source = .leases := by
  induction paths generalizing searched reasons with
  | nil => simp [searchLeases] at h
  | cons path paths ih =>
    unfold searchLeases at h
    dsimp only at h
    split at h
    · split at h
      · exact (Look.found.inj h).2.symm
      · exact ih h
    · exact ih h

theorem searchArp_source {arp : Option Text} {searched reasons : List Text} {ip : Ipv4Addr}
    {source : Source} (h : searchArp arp searched reasons = .found ip source) : source = .arp := by
  unfold searchArp at h
  dsimp only at h
  split at h
  · split at h
    · exact (Look.found.inj h).2.symm
    · simp at h
  · simp at h

/-- An address from the state share is the one in `guest-ip`. -/
theorem look_guestIp {leasePath : Text} {poll : Poll} {d : StateDisk} {searched : List Text}
    {ip : Ipv4Addr} (h : look leasePath poll d searched = .found ip .guestIp) :
    ∃ b, d.file .guestIp = some b ∧ (decode b).bind guestIpOf = some ip := by
  unfold look at h
  split at h
  · simp at h
  · split at h
    · simp at h
    · split at h
      · next found hfound =>
        obtain rfl : found = ip := by simpa using h
        obtain ⟨t, ht, hip⟩ := Option.bind_eq_some_iff.mp hfound
        unfold Poll.text at ht
        split at ht
        · obtain ⟨b, hb, hbt⟩ := Option.bind_eq_some_iff.mp ht
          exact ⟨b, hb, by rw [hbt]; exact hip⟩
        · simp at ht
      · split at h
        · simp at h
        · split at h
          · next hleases =>
            obtain ⟨-, rfl⟩ : _ ∧ _ := by simpa using h
            exact absurd (searchLeases_source hleases) (by decide)
          · exact absurd (searchArp_source h) (by decide)

section Rules
variable {host : Host} {vmIsRunning : Bool → World → Bool} {leasePath : Text}
variable {w : World} {I : World → Prop} {P : Ipv4Addr → World → Prop}

theorem ends_answer {ip : Ipv4Addr} {source : Source} {Q : World → Prop}
    (h : P ip (w.note (.answered ip source w.namedRun (w.lastWritten .guestIp)))) :
    Ends (answer ip source) w P Q := h

/-- What each event keeps, all events before a turn keep. -/
theorem happen_invariant {events : List Event} (hI : I w)
    (hevent : ∀ w, ∀ e ∈ events, I w → I (happen w e)) : I (events.foldl happen w) := by
  induction events generalizing w with
  | nil => exact hI
  | cons e events ih =>
    exact ih (hevent w e (List.mem_cons_self ..) hI) fun w e' he' =>
      hevent w e' (List.mem_cons_of_mem e he')

/-- The loop keeps what the events of the polls preserve, and stops at the first address. -/
theorem ends_resolveLoop {polls : List Poll} {searched : List Text} (hI : I w)
    (hevent : ∀ w, ∀ poll ∈ polls, ∀ e ∈ poll.before, I w → I (happen w e))
    (hanswer : ∀ w ip source, I w → (∃ poll ∈ polls, ∃ searched, vmIsRunning poll.ps w = true ∧
      look leasePath poll w.disk searched = .found ip source) →
      P ip (w.note (.answered ip source w.namedRun (w.lastWritten .guestIp)))) :
    Ends (resolveLoop host vmIsRunning leasePath polls searched) w P I := by
  induction polls generalizing w searched with
  | nil => exact hI
  | cons poll polls ih =>
    have hI : I (poll.before.foldl happen w) :=
      happen_invariant hI fun w => hevent w poll (List.mem_cons_self ..)
    unfold resolveLoop
    rw [ends_bind, ends_modify, ends_bind, ends_gets, ends_bind, ends_gets]
    split
    · next hrunning =>
      split
      · next ip source hlook =>
        exact ends_answer (hanswer _ ip source hI
          ⟨poll, List.mem_cons_self .., searched, hrunning, hlook⟩)
      · split
        · exact hI
        · refine ih hI (fun w p hp => hevent w p (List.mem_cons_of_mem poll hp)) ?_
          rintro w ip source h ⟨p, hp, hfound⟩
          exact hanswer w ip source h ⟨p, List.mem_cons_of_mem poll hp, hfound⟩
    · exact hI

/-- What the first look finds is the answer. -/
theorem resolveLoop_found {poll : Poll} {polls : List Poll} {searched : List Text} {ip : Ipv4Addr}
    {source : Source} {w' : World} (hw' : poll.before.foldl happen w = w')
    (hrunning : vmIsRunning poll.ps w' = true)
    (hlook : look leasePath poll w'.disk searched = .found ip source) :
    resolveLoop host vmIsRunning leasePath (poll :: polls) searched w =
      (.ok ip, w'.note (.answered ip source w'.namedRun (w'.lastWritten .guestIp))) := by
  unfold resolveLoop
  rw [Cmd.bind_of_ok (Cmd.modify_apply ..), hw', Cmd.bind_of_ok (Cmd.gets_apply ..),
    Cmd.bind_of_ok (Cmd.gets_apply ..), if_pos hrunning, hlook]
  rfl

/-- An address that is given is the answer. -/
theorem resolveVmIp_given (host : Host) (vmIsRunning : Bool → World → Bool) (leasePath : Text)
    (ip : Ipv4Addr) (polls : List Poll) (w : World) :
    resolveVmIp host vmIsRunning leasePath (some ip) polls w =
      (.ok ip, w.note (.answered ip .explicit w.namedRun (w.lastWritten .guestIp))) := rfl

/-- The address was given, or a poll found it while the VM was running. -/
def Answers (vmIsRunning : Bool → World → Bool) (leasePath : Text) (vmIp : Option Ipv4Addr)
    (polls : List Poll) (w : World) (ip : Ipv4Addr) (source : Source) : Prop :=
  (vmIp = some ip ∧ source = .explicit) ∨
    (vmIp = none ∧ ∃ poll ∈ polls, ∃ searched, vmIsRunning poll.ps w = true ∧
      look leasePath poll w.disk searched = .found ip source)

/-- How the search ends: with an address that is given or that a turn answers, or with what
every event keeps. -/
theorem ends_resolveVmIp {vmIp : Option Ipv4Addr} {polls : List Poll} (hI : I w)
    (hevent : ∀ w, ∀ poll ∈ polls, ∀ e ∈ poll.before, I w → I (happen w e))
    (hanswer : ∀ w ip source, I w → Answers vmIsRunning leasePath vmIp polls w ip source →
      P ip (w.note (.answered ip source w.namedRun (w.lastWritten .guestIp)))) :
    Ends (resolveVmIp host vmIsRunning leasePath vmIp polls) w P I := by
  unfold resolveVmIp
  split
  · exact ends_answer (hanswer w _ _ hI (Or.inl ⟨rfl, rfl⟩))
  · exact ends_resolveLoop hI hevent fun w ip source h hfound =>
      hanswer w ip source h (Or.inr ⟨rfl, hfound⟩)

end Rules

end Malleus
