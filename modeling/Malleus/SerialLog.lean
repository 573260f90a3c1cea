import Mathlib.Data.List.Forall2
import Mathlib.Data.List.Infix
import Malleus.Discovery

/-! The guest's address in its serial log.

The scripts of the cloud-init document print the address, and `resolveVmIp` reads it
back from the log: it goes by the byte offset of a marker, with the marker's length
written out. `scanLog_eq` says that this never slices out of range, and
`last_report_found` that the last report is what it finds, whatever else is in the log. -/
namespace Malleus
open Strings Numbers

/-! ### The scan over bytes -/

/-- What the guest's script puts before the address. -/
def reportMarker : Text := "Reported IP ".toList

/-- One line of the log: the text after the marker is a slice; `none` if it cannot be made. -/
def scanLine (line : Text) : Option (Option Ipv4Addr) :=
  match findAt reportMarker line with
  | none => some none
  | some pos =>
    (sliceFrom line (pos + 12)).map fun part => Ipv4Addr.parse ((words isWhitespace part).headD [])

/-- The loop over the lines, which stops at the first address. -/
def scanLines : List Text → Option (Option Ipv4Addr)
  | [] => some none
  | line :: rest =>
    match scanLine line with
    | none => none
    | some (some ip) => some (some ip)
    | some none => scanLines rest

/-- The last report of the log; none at all where a slice would not start at a character. -/
def scanLog (contents : Text) : Option (Option Ipv4Addr) := scanLines (lines contents).reverse

/-- The marker is twelve bytes long. -/
theorem byteLength_marker : byteLength reportMarker = 12 := by decide

/-- The slice starts where a character starts, so the line is read in full. -/
theorem scanLine_eq (line : Text) : scanLine line = some (reportedIp line) := by
  rw [scanLine, reportedIp]
  obtain ⟨hfind, hafter⟩ | ⟨u, part, hline, hfind, hafter⟩ := findAt_cases reportMarker line
  · rw [hfind, show after "Reported IP ".toList line = none from hafter]
    rfl
  · have hslice : sliceFrom line (byteLength u + 12) = some part := by
      have := sliceFrom_append (u ++ reportMarker) part
      rwa [byteLength_append, byteLength_marker, List.append_assoc, ← hline] at this
    rw [hfind, show after "Reported IP ".toList line = some part from hafter]
    dsimp only
    rw [hslice]
    rfl

theorem scanLines_eq (ls : List Text) : scanLines ls = some (ls.findSome? reportedIp) := by
  induction ls with
  | nil => rfl
  | cons line rest ih =>
    rw [scanLines, scanLine_eq, List.findSome?_cons]
    cases reportedIp line with
    | none => exact ih
    | some ip => rfl

/-- The slice can always be made, and the scan gives what the last report says. -/
theorem scanLog_eq (contents : Text) : scanLog contents = some (serialLogIp contents) :=
  scanLines_eq (lines contents).reverse

/-! ### What is in the log -/

/-- What the scripts print, with the address or with the variable that holds it. -/
def reportText (address channel : Text) : Text :=
  reportMarker ++ (address ++ " via ".toList ++ channel)

/-- A line of the log, and the address it reports. -/
inductive LogLine : Option Ipv4Addr → Text → Prop
  | report {u : Text} (hu : ¬ reportMarker <:+: u) (ip : Ipv4Addr) {channel : Text}
      (hchannel : channel = "virtio-fs".toList ∨ channel = "vsock".toList) :
      LogLine (some ip) (u ++ reportText ip.toText channel)
  | other {line : Text} (h : ∀ u part, line = u ++ (reportMarker ++ part) →
      ∀ word ∈ (words isWhitespace part).head?, Ipv4Addr.parse word = none) : LogLine none line

theorem infix_literal {s : String} {t u : Text} (hs : s = String.ofList t) (h : contains u t = true) :
    u <:+: s.toList := by
  rw [toList_literal hs]
  exact contains_iff.mp h

/-- Both scripts print a report. -/
theorem scripts_report (tag : Text) :
    reportText "$IP".toList "virtio-fs".toList <:+: Provision.reportScript tag ∧
      reportText "$IP".toList "vsock".toList <:+: Provision.vsockScript := by
  constructor
  · unfold Provision.reportScript
    iterate 3 apply List.infix_append_of_infix_left
    apply List.infix_append_of_infix_right
    exact infix_literal rfl (by decide +kernel)
  · unfold Provision.vsockScript
    apply List.infix_append_of_infix_left
    apply List.infix_append_of_infix_right
    exact infix_literal rfl (by decide +kernel)

/-- A line with the marker in it only before what is no address. -/
theorem LogLine.of_tails {line : Text} (h : ∀ t ∈ line.tails, reportMarker <+: t →
    (words isWhitespace (t.drop 12)).head?.bind Ipv4Addr.parse = none) : LogLine none line := by
  refine .other fun u part hline word hword => ?_
  have htail : reportMarker ++ part ∈ line.tails := by
    rw [List.mem_tails, hline]
    exact List.suffix_append _ _
  have hpart : (reportMarker ++ part).drop 12 = part := List.drop_left' (by decide)
  have hnone := h _ htail (List.prefix_append _ _)
  rwa [hpart, Option.mem_def.mp hword, Option.bind_some] at hnone

/-- The first word after the marker is the address. -/
theorem words_report (ip : Ipv4Addr) (channel : Text) :
    (words isWhitespace (ip.toText ++ " via ".toList ++ channel)).headD [] = ip.toText := by
  have hvia : " via ".toList ++ channel = ' ' :: ("via ".toList ++ channel) := rfl
  rw [List.append_assoc, hvia, words_append_cons (by decide),
    words_singleton ip.toText_ne_nil ip.toText_no_space]
  rfl

/-- A line of a report gives its address, and another line gives none. -/
theorem reportedIp_line {report : Option Ipv4Addr} {line : Text} (h : LogLine report line) :
    reportedIp line = report := by
  rw [reportedIp]
  cases h with
  | @report u hu ip channel _ =>
    have hafter : after "Reported IP ".toList (u ++ reportText ip.toText channel) =
        some (ip.toText ++ " via ".toList ++ channel) :=
      after_append (by decide) hu _
    rw [hafter, Option.bind_some, words_report, Ipv4Addr.parse_toText]
  | other h =>
    obtain ⟨_, hafter⟩ | ⟨u, part, hline, _, hafter⟩ := findAt_cases reportMarker line
    · rw [show after "Reported IP ".toList line = none from hafter]
      rfl
    · rw [show after "Reported IP ".toList line = some part from hafter, Option.bind_some]
      cases hwords : words isWhitespace part with
      | nil => decide
      | cons word _ => exact h u part hline word (by rw [hwords]; rfl)

/-- The last report counts, whatever stands between. -/
theorem scanLog_reports {reports : List (Option Ipv4Addr)} {contents : Text}
    (h : List.Forall₂ LogLine reports (lines contents)) :
    scanLog contents = some (reports.filterMap id).getLast? := by
  have hreports : (lines contents).filterMap reportedIp = reports.filterMap id := by
    generalize lines contents = ls at h
    induction h with
    | nil => rfl
    | @cons report line reports ls hline _ ih =>
      rw [List.filterMap_cons, List.filterMap_cons, reportedIp_line hline, ih]
      rfl
  rw [scanLog_eq, serialLogIp, ← List.getLast?_filterMap, hreports]

/-- **The last report is found**: both scripts print one, and whatever the other lines of
the log are, the scan gives its address and no slice fails. -/
theorem last_report_found (tag : Text) :
    reportText "$IP".toList "virtio-fs".toList <:+: Provision.reportScript tag ∧
      reportText "$IP".toList "vsock".toList <:+: Provision.vsockScript ∧
      ∀ (reports : List (Option Ipv4Addr)) (contents : Text),
        List.Forall₂ LogLine reports (lines contents) →
          scanLog contents = some (reports.filterMap id).getLast? :=
  ⟨(scripts_report tag).1, (scripts_report tag).2, fun _ _ => scanLog_reports⟩

/-- A command's own text, a report, and a report that was cut off. -/
def sampleLog : Text :=
  ("+ echo Reported IP $IP via vsock\n[ 12.3] \u00fcnit: Reported IP 192.168.64.5 via virtio-fs\r\n" ++
    "login: Reported IP 192.168\n").toList

theorem last_report_found_sample : scanLog sampleLog = some (some ⟨192, 168, 64, 5⟩) := by
  have hlines : lines sampleLog = ["+ echo Reported IP $IP via vsock".toList,
      "[ 12.3] \u00fcnit: ".toList ++ reportText (Ipv4Addr.toText ⟨192, 168, 64, 5⟩) "virtio-fs".toList,
      "login: Reported IP 192.168".toList] := by decide +kernel
  have hlog : List.Forall₂ LogLine [none, some ⟨192, 168, 64, 5⟩, none] (lines sampleLog) := by
    rw [hlines]
    refine .cons (.of_tails (by decide +kernel)) (.cons (.report ?_ _ (Or.inl rfl))
      (.cons (.of_tails (by decide +kernel)) .nil))
    exact fun h => absurd (contains_iff.mpr h) (by decide +kernel)
  exact (last_report_found []).2.2 _ _ hlog

end Malleus
