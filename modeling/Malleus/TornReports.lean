import Malleus.SerialLog

/-! Reports of the guest's address that are read while it is still writing them.

The guest sends one line through the readiness socket, puts it in the state share's
`guest-ip`, and prints it on its console; no reader waits for the end of the line.
`torn_report_reads` says what each makes of a report of which only the first bytes are
there: nothing as long as the last octet is missing, and then the address with the digits
of it that have arrived, which need not be the guest's. -/
namespace Malleus.TornReports
open Strings Numbers Storage

/-! ### Reports -/

/-- The line that the scripts write. -/
def report (ip : Ipv4Addr) : Text := ip.toText ++ ['\n']

/-- The address up to its last octet. -/
def network (ip : Ipv4Addr) : Text :=
  ['.'].intercalate ([ip.a, ip.b, ip.c].map fun o => decimal o.toNat) ++ ['.']

/-- What the first `n` characters of an address say. -/
def torn (ip : Ipv4Addr) (n : Nat) : Option Ipv4Addr :=
  if n ≤ (network ip).length then none
  else some {ip with d := UInt8.ofNat (ip.d.toNat / 10 ^ (ip.toText.length - n))}

variable (ip : Ipv4Addr)

theorem toText_eq : ip.toText = network ip ++ decimal ip.d.toNat := by
  simp [Ipv4Addr.toText, Ipv4Addr.octets, network, List.intercalate_cons_cons]

theorem length_toText : ip.toText.length = (network ip).length + (decimal ip.d.toNat).length := by
  rw [toText_eq, List.length_append]

theorem network_lt : (network ip).length < ip.toText.length := by
  have := List.length_pos_iff.mpr (decimal_ne_nil ip.d.toNat)
  have := length_toText ip
  omega

/-! ### Addresses that are cut off -/

theorem forall₂_of_mapM {α β : Type} {f : α → Option β} {xs : List α} {ys : List β}
    (h : xs.mapM f = some ys) : List.Forall₂ (fun x y => f x = some y) xs ys := by
  induction xs generalizing ys with
  | nil =>
    obtain rfl := Option.some.inj h
    exact .nil
  | cons x xs ih =>
    rw [List.mapM_cons] at h
    obtain ⟨y, hy, h⟩ := Option.bind_eq_some_iff.mp h
    obtain ⟨ys, hys, h⟩ := Option.bind_eq_some_iff.mp h
    obtain rfl := Option.some.inj h
    exact .cons hy (ih hys)

/-- What reads as an address has three dots, and something after the last. -/
theorem parse_shape {t : Text} (h : Ipv4Addr.parse t = some ip) :
    3 ≤ t.count '.' ∧ t.getLast? ≠ some '.' := by
  have hjoin : ['.'].intercalate (t.splitOn '.') = t := List.intercalate_splitOn '.'
  unfold Ipv4Addr.parse at h
  split at h
  · next a b c d hoctets =>
    have hpieces := forall₂_of_mapM hoctets
    have hdots : ∀ piece ∈ t.splitOn '.', '.' ∉ piece := fun _ hp => not_mem_of_mem_splitOn hp
    generalize t.splitOn '.' = pieces at hjoin hpieces hdots
    obtain _ | ⟨_, _ | ⟨_, _ | ⟨_, _ | @⟨last, _, _, _, hd, _ | _⟩⟩⟩⟩ := hpieces
    have hne : last ≠ [] := by
      rintro rfl
      simp [Ipv4Addr.parseOctet, parseDigits] at hd
    have hlast : last.getLast? ≠ some '.' := fun heq =>
      hdots last (by simp) (List.mem_of_getLast? heq)
    rw [← hjoin]
    simp only [List.intercalate_cons_cons, List.intercalate_singleton]
    refine ⟨?_, ?_⟩
    · simp only [List.count_append, List.count_singleton_self]
      omega
    · simp only [← List.append_assoc]
      rwa [List.getLast?_append_of_ne_nil _ hne]
  · cases h

/-- Without the last octet there is no address. -/
theorem parse_network {n : Nat} (hn : n ≤ (network ip).length) :
    Ipv4Addr.parse ((network ip).take n) = none := by
  by_contra hne
  obtain ⟨ip', hip'⟩ := Option.ne_none_iff_exists'.mp hne
  obtain ⟨hdots, hlast⟩ := parse_shape ip' hip'
  obtain ⟨init, hinit, hcount⟩ : ∃ init, network ip = init ++ ['.'] ∧ init.count '.' = 2 := by
    refine ⟨_, rfl, ?_⟩
    have hnone : ∀ o : UInt8, (decimal o.toNat).count '.' = 0 :=
      fun o => List.count_eq_zero.mpr (Ipv4Addr.dot_not_mem_decimal _)
    simp [List.intercalate_cons_cons, hnone]
  rw [hinit] at hn hdots hlast
  by_cases hwhole : n = (init ++ ['.']).length
  · rw [hwhole, List.take_length] at hlast
    simp at hlast
  · have hle : n ≤ init.length := by
      rw [List.length_append, List.length_singleton] at hn hwhole
      omega
    rw [List.take_append_of_le_length hle] at hdots
    have := (List.take_sublist n init).count_le '.'
    omega

/-- Within the address: the last octet loses digits, and before that nothing can be read. -/
theorem parse_take_of_le {n : Nat} (hn : n ≤ ip.toText.length) :
    Ipv4Addr.parse (ip.toText.take n) = torn ip n := by
  unfold torn
  split
  · next hle =>
    rw [toText_eq, List.take_append_of_le_length hle]
    exact parse_network ip hle
  · next hlt =>
    obtain ⟨k, hk, hdigits⟩ : ∃ k, ip.toText.length - n = k ∧ k < (decimal ip.d.toNat).length := by
      have := length_toText ip
      exact ⟨_, rfl, by omega⟩
    have htake : ip.toText.take n = Ipv4Addr.toText {ip with d := UInt8.ofNat (ip.d.toNat / 10 ^ k)} := by
      have hfits : ip.d.toNat / 10 ^ k < 256 := (Nat.div_le_self ..).trans_lt ip.d.toNat_lt
      have hvalue : (UInt8.ofNat (ip.d.toNat / 10 ^ k)).toNat = ip.d.toNat / 10 ^ k :=
        UInt8.toNat_ofNat_of_lt' hfits
      have hlength := length_toText ip
      have hsplit : n = (network ip).length + ((decimal ip.d.toNat).length - k) := by omega
      rw [toText_eq, toText_eq, hvalue, ← take_decimal hdigits, hsplit, List.take_length_add_append]
      rfl
    rw [hk, htake, Ipv4Addr.parse_toText]

theorem torn_of_le {n : Nat} (h : ip.toText.length ≤ n) : torn ip n = some ip := by
  have hlt := network_lt ip
  rw [torn, if_neg (by omega), Nat.sub_eq_zero_of_le h, Nat.pow_zero, Nat.div_one, UInt8.ofNat_toNat]

/-- What is read of an address that is cut off. -/
theorem parse_take (n : Nat) : Ipv4Addr.parse (ip.toText.take n) = torn ip n := by
  by_cases hn : n ≤ ip.toText.length
  · exact parse_take_of_le ip hn
  · rw [List.take_of_length_le (by omega), torn_of_le ip (by omega), Ipv4Addr.parse_toText]

/-! ### The readers -/

theorem toText_printable : ∀ c ∈ ip.toText, 32 ≤ c.toNat ∧ c.toNat < 127 := by
  intro c hc
  rcases ip.toText_chars c hc with hdigit | rfl
  · simp only [Char.isDigit, Bool.and_eq_true, decide_eq_true_eq, ge_iff_le,
      UInt32.le_iff_toNat_le] at hdigit
    have hrange : 48 ≤ c.toNat ∧ c.toNat ≤ 57 := hdigit
    omega
  · decide

theorem report_ascii : ∀ c ∈ report ip, c.toNat < 128 := by
  intro c hc
  rcases List.mem_append.mp hc with htext | hfeed
  · exact (toText_printable ip c htext).2.trans (by decide)
  · rw [List.mem_singleton.mp hfeed]
    decide

/-- The first bytes of a report are its first characters. -/
theorem decode_report (n : Nat) :
    decode ((encode (report ip)).take n) = some ((report ip).take n) := by
  rw [take_encode (report_ascii ip), decode_encode]

/-- The readers take off the line feed, if it is there. -/
theorem read_word {t feed : Text} (ht : ∀ c ∈ t, isWhitespace c = false)
    (hfeed : ∀ c ∈ feed, isWhitespace c = true) :
    guestIpOf (t ++ feed) = Ipv4Addr.parse t ∧ vsockIp (t ++ feed) = Ipv4Addr.parse t := by
  have hwords : words isWhitespace (t ++ feed) = words isWhitespace t := by
    cases feed with
    | nil => rw [List.append_nil]
    | cons c feed =>
      have hgap := words_gap (fun d hd => hfeed d (List.mem_cons_of_mem c hd)) []
      rw [List.append_nil, words_nil] at hgap
      rw [words_append_cons (hfeed c (List.mem_cons_self ..)), hgap, List.append_nil]
  cases t with
  | nil =>
    have htrim : trim feed = [] := by
      rw [trim, List.dropWhile_eq_nil_iff.mpr hfeed]
      rfl
    rw [guestIpOf, vsockIp, hwords, List.nil_append, htrim, words_nil]
    exact ⟨rfl, by decide⟩
  | cons c t =>
    have htrim : trim (c :: t ++ feed) = c :: t := by
      have hc : isWhitespace c = false := ht c (List.mem_cons_self ..)
      rw [trim, List.cons_append, List.dropWhile_cons_of_neg (by simp [hc]), ← List.cons_append,
        trimEndBy_append_tail hfeed]
      exact trimEndBy_of_getLast fun d hd => ht d (List.mem_of_getLast? hd)
    rw [guestIpOf, vsockIp, hwords, htrim, words_singleton (by simp) ht]
    exact ⟨rfl, rfl⟩

/-- Both readers take the line feed off, where the report has come to it. -/
theorem read_report (n : Nat) :
    guestIpOf ((report ip).take n) = torn ip n ∧ vsockIp ((report ip).take n) = torn ip n := by
  have htake : (report ip).take n = ip.toText.take n ++ ['\n'].take (n - ip.toText.length) :=
    List.take_append
  rw [htake, ← parse_take]
  refine read_word (fun c hc => ip.toText_no_space c (List.mem_of_mem_take hc)) fun c hc => ?_
  rw [List.mem_singleton.mp (List.mem_of_mem_take hc)]
  decide

/-- Digits that are missing only make the octet smaller. -/
theorem torn_some {n : Nat} {ip' : Ipv4Addr} (h : torn ip n = some ip') :
    ip'.a = ip.a ∧ ip'.b = ip.b ∧ ip'.c = ip.c ∧ ip'.d ≤ ip.d := by
  unfold torn at h
  split at h
  · cases h
  · obtain rfl := Option.some.inj h
    have hle : ip.d.toNat / 10 ^ (ip.toText.length - n) ≤ ip.d.toNat := Nat.div_le_self ..
    refine ⟨rfl, rfl, rfl, UInt8.le_iff_toNat_le.mpr ?_⟩
    rwa [UInt8.toNat_ofNat_of_lt' (hle.trans_lt ip.d.toNat_lt)]

/-- The guest's own address is read once all of it is there, and not before. -/
theorem torn_eq_iff (n : Nat) : torn ip n = some ip ↔ ip.toText.length ≤ n := by
  refine ⟨fun h => ?_, torn_of_le ip⟩
  by_contra hshort
  have hlength := length_toText ip
  have hfits : ip.d.toNat / 10 ^ (ip.toText.length - n) < 256 :=
    (Nat.div_le_self ..).trans_lt ip.d.toNat_lt
  unfold torn at h
  split at h
  · cases h
  · have hd := congrArg (fun a => a.d.toNat) (Option.some.inj h)
    rw [UInt8.toNat_ofNat_of_lt' hfits] at hd
    have hpow : 1 < 10 ^ (ip.toText.length - n) := Nat.one_lt_pow (by omega) (by decide)
    obtain hzero | hpos := Nat.eq_zero_or_pos ip.d.toNat
    · -- a zero is a single digit, so there is no first part of it
      have hone : (decimal ip.d.toNat).length = 1 := by rw [hzero]; rfl
      omega
    · have := Nat.div_lt_self hpos hpow
      omega

/-- **A torn report reads as what there is of it**: of any number of its bytes, the state
share and the readiness socket give nothing while the last octet is missing, and then an
address of the guest's network; it is the guest's just when the whole address is there. -/
theorem torn_report_reads (n : Nat) :
    (decode ((encode (report ip)).take n)).bind guestIpOf = torn ip n ∧
      (decode ((encode (report ip)).take n)).bind vsockIp = torn ip n ∧
      (∀ ip', torn ip n = some ip' →
        ip'.a = ip.a ∧ ip'.b = ip.b ∧ ip'.c = ip.c ∧ ip'.d ≤ ip.d) ∧
      (torn ip n = some ip ↔ ip.toText.length ≤ n) := by
  rw [decode_report]
  exact ⟨(read_report ip n).1, (read_report ip n).2, fun _ => torn_some ip, torn_eq_iff ip n⟩

/-! ### The serial log -/

theorem headD_words {t rest : Text} (ht : ∀ c ∈ t, isWhitespace c = false)
    (hrest : ∀ c ∈ rest.head?, isWhitespace c = true) (hempty : t = [] → rest = []) :
    (words isWhitespace (t ++ rest)).headD [] = t := by
  rw [List.headD_eq_head?_getD, words_head]
  cases t with
  | nil => simp [hempty rfl]
  | cons c t =>
    rw [List.cons_append, List.dropWhile_cons_of_neg (by simp [ht c]), ← List.cons_append,
      List.takeWhile_append_of_pos (by simpa using ht)]
    cases rest with
    | nil => simp
    | cons e rest => rw [List.takeWhile_cons_of_neg (by simp [hrest e rfl]), List.append_nil]

/-- The word after the marker is the address, or what there is of it. -/
theorem headD_report (channel : Text) (n : Nat) :
    Ipv4Addr.parse ((words isWhitespace ((ip.toText ++ " via ".toList ++ channel).take n)).headD []) =
      torn ip n := by
  have hhead : ∀ c ∈ ((" via ".toList ++ channel).take (n - ip.toText.length)).head?,
      isWhitespace c = true := by
    intro c hc
    cases hm : n - ip.toText.length with
    | zero => simp [hm] at hc
    | succ m =>
      have hvia : " via ".toList ++ channel = ' ' :: ("via ".toList ++ channel) := rfl
      rw [hm, hvia, List.take_succ_cons] at hc
      obtain rfl := Option.some.inj hc
      decide
  have hempty : ip.toText.take n = [] → (" via ".toList ++ channel).take (n - ip.toText.length) = [] := by
    intro hnil
    obtain rfl | hnone := List.take_eq_nil_iff.mp hnil
    · rw [Nat.zero_sub, List.take_zero]
    · exact absurd hnone ip.toText_ne_nil
  have hword := headD_words (fun c hc => ip.toText_no_space c (List.mem_of_mem_take hc)) hhead hempty
  rw [List.append_assoc, List.take_append, hword, parse_take]

/-- A line that ends inside a report. -/
theorem reportedIp_torn {u channel : Text} (hu : ¬ reportMarker <:+: u) (k : Nat) :
    reportedIp (u ++ (reportText ip.toText channel).take k) = torn ip (k - 12) := by
  have hmarker : reportMarker.length = 12 := by decide
  rw [reportText, reportedIp, List.take_append, hmarker]
  by_cases hk : k < 12
  · have hlt : (reportMarker.take k).length < 12 := by
      rw [List.length_take]
      omega
    have hno : ¬ reportMarker <:+: u ++ reportMarker.take k :=
      not_infix_append_prefix (by decide) hu (List.take_prefix ..) hlt
    have hnone : after "Reported IP ".toList (u ++ reportMarker.take k) = none := by
      rw [Option.eq_none_iff_forall_ne_some]
      intro part hpart
      exact hno (contains_iff.mp (by rw [contains, show after reportMarker _ = _ from hpart]; rfl))
    rw [Nat.sub_eq_zero_of_le hk.le, List.take_zero, List.append_nil, hnone]
    rfl
  · rw [List.take_of_length_le (by omega)]
    have hafter : after "Reported IP ".toList
        (u ++ (reportMarker ++ (ip.toText ++ " via ".toList ++ channel).take (k - 12))) =
          some ((ip.toText ++ " via ".toList ++ channel).take (k - 12)) :=
      after_append (by decide) hu _
    rw [hafter, Option.bind_some, headD_report]

/-- What the last line reports goes before the reports above it. -/
theorem serialLogIp_append {above last : Text} (habove : ∀ c ∈ above.getLast?, c = '\n')
    (hlast : '\n' ∉ last) :
    serialLogIp (above ++ last) = (reportedIp last).or (serialLogIp above) := by
  rw [serialLogIp, serialLogIp, lines_append_of_ended habove]
  by_cases hne : last = []
  · subst hne
    have hnone : reportedIp [] = none := by decide
    rw [hnone, show lines [] = [] from rfl, List.append_nil, Option.none_or]
  · rw [lines_singleton hne hlast, List.reverse_append, List.findSome?_append, List.reverse_singleton,
      List.findSome?_singleton]

theorem report_printable {channel : Text}
    (hchannel : channel = "virtio-fs".toList ∨ channel = "vsock".toList) :
    ∀ c ∈ reportText ip.toText channel, 32 ≤ c.toNat ∧ c.toNat < 127 := by
  have hall : ∀ t ∈ [reportMarker, " via ".toList, "virtio-fs".toList, "vsock".toList],
      t.all (fun c => 32 ≤ c.toNat ∧ c.toNat < 127) = true := by decide
  have hliteral : ∀ t ∈ [reportMarker, " via ".toList, "virtio-fs".toList, "vsock".toList],
      ∀ c ∈ t, 32 ≤ c.toNat ∧ c.toNat < 127 :=
    fun t ht c hc => of_decide_eq_true (List.all_eq_true.mp (hall t ht) c hc)
  intro c hc
  simp only [reportText, List.mem_append] at hc
  obtain hmarker | (htext | hvia) | hname := hc
  · exact hliteral _ (by simp) c hmarker
  · exact toText_printable ip c htext
  · exact hliteral " via ".toList (by simp) c hvia
  · refine hliteral channel ?_ c hname
    rcases hchannel with rfl | rfl <;> simp

/-- **A torn report hides the ones above it**: where the log ends inside a report, its last
line counts as soon as the last octet has begun, and before that the log reads as if it
ended with the line above. What stands above may be anything, and so may what the line
begins with, short of a report. -/
theorem torn_log_reads {above u channel : Text} (habove : ∀ c ∈ above.getLast?, c = '\n')
    (hu : '\n' ∉ u) (hmarker : ¬ reportMarker <:+: u)
    (hchannel : channel = "virtio-fs".toList ∨ channel = "vsock".toList) (k : Nat) :
    (decode (encode (above ++ u) ++ (encode (reportText ip.toText channel)).take k)).bind serialLogIp =
      (torn ip (k - 12)).or (serialLogIp above) := by
  have hprintable := report_printable ip hchannel
  have hascii : ∀ c ∈ reportText ip.toText channel, c.toNat < 128 :=
    fun c hc => (hprintable c hc).2.trans (by decide)
  have hline : '\n' ∉ u ++ (reportText ip.toText channel).take k :=
    List.not_mem_append hu fun h => absurd (hprintable _ (List.mem_of_mem_take h)).1 (by decide)
  have hbytes : encode (above ++ u) ++ (encode (reportText ip.toText channel)).take k =
      encode (above ++ (u ++ (reportText ip.toText channel).take k)) := by
    rw [take_encode hascii, ← List.append_assoc]
    simp [encode]
  rw [hbytes, decode_encode, Option.bind_some, serialLogIp_append habove hline, reportedIp_torn ip hmarker]

/-- Without its last digit, the second report names the host. -/
theorem torn_log_reads_host :
    (decode (encode ("Reported IP 192.168.64.12 via virtio-fs\r\n".toList ++ "\r".toList) ++
      (encode (reportText (Ipv4Addr.toText ⟨192, 168, 64, 12⟩) "vsock".toList)).take 24)).bind serialLogIp =
        some ⟨192, 168, 64, 1⟩ := by
  have htorn : torn ⟨192, 168, 64, 12⟩ 12 = some ⟨192, 168, 64, 1⟩ := by decide
  have hmarker : ¬ reportMarker <:+: "\r".toList := fun h => absurd (contains_iff.mpr h) (by decide)
  have hlast : ("Reported IP 192.168.64.12 via virtio-fs\r\n".toList).getLast? = some '\n' := by decide
  have hended : ∀ c ∈ ("Reported IP 192.168.64.12 via virtio-fs\r\n".toList).getLast?, c = '\n' :=
    fun c hc => Option.some.inj ((Option.mem_def.mp hc).symm.trans hlast)
  have hread := torn_log_reads ⟨192, 168, 64, 12⟩ hended (by decide) hmarker (Or.inr rfl) 24
  rw [hread, htorn]
  rfl

end Malleus.TornReports
