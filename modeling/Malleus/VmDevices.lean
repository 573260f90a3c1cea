import Malleus.Provision
import Malleus.VmOptions

/-! The devices of the argument vector, in order.

The guest numbers its disks as they come. `buildArgs_devices` says that no path and no
tag is taken for a flag, that the devices come in a fixed order whatever the shares, and
that the second disk is the one on which the preseed makes the storage pool. -/
namespace Malleus.Vm
open Strings Numbers

/-! ### Flags and values -/

/-- The flags that the program uses. -/
def flagNames : List Text :=
  ["--cpus".toList, "--memory".toList, "--bootloader".toList, "--device".toList,
    "--cloud-init".toList, "--restful-uri".toList]

/-- The flags of a direct kernel boot, which vfkit takes all together or not at all. -/
def kernelFlags : List Text := ["--kernel".toList, "--initrd".toList, "--kernel-cmdline".toList]

/-- What follows the flag directly, wherever it stands. -/
def following (flag : Text) (args : List Text) : List Text :=
  (args.zip args.tail).filterMap fun window => if window.1 = flag then some window.2 else none

/-- A disk of the guest. -/
def isDisk (device : Text) : Bool := "virtio-blk,".toList.isPrefixOf device

/-- The name that the guest gives to its disks, counted from zero. -/
def diskName (i : Nat) : Text := "/dev/vd".toList ++ [Char.ofNat ('a'.toNat + i)]

theorem mem_alternating {t : Text} {pairs : List (Text × Text)} (h : t ∈ alternating pairs) :
    ∃ p ∈ pairs, t = p.1 ∨ t = p.2 := by
  obtain ⟨p, hp, ht⟩ := List.mem_flatMap.mp h
  exact ⟨p, hp, by simpa using ht⟩

theorem not_flag_of_head {t : Text} {c : Char} (h : t.head? = some c) (hc : c ≠ '-') :
    t ∉ flagNames ++ kernelFlags := by
  intro hmem
  have hdash : ∀ flag ∈ flagNames ++ kernelFlags, flag.head? = some '-' := by decide
  have := hdash t hmem
  rw [h] at this
  exact hc (Option.some.inj this)

theorem not_flag_of_comma {t : Text} (h : ',' ∈ t) : t ∉ flagNames ++ kernelFlags := by
  intro hmem
  have hcomma : ∀ flag ∈ flagNames ++ kernelFlags, ',' ∉ flag := by decide
  exact hcomma t hmem h

theorem not_flag_decimal (n : Nat) : decimal n ∉ flagNames ++ kernelFlags := by
  obtain ⟨c, t, ht⟩ := List.exists_cons_of_ne_nil (decimal_ne_nil n)
  have hdigit := decimal_digits n c (by simp [ht])
  refine not_flag_of_head (by rw [ht]; rfl) fun hdash => ?_
  rw [hdash] at hdigit
  exact absurd hdigit (by decide)

/-- No value of the vector is a flag. -/
theorem values_not_flags (spec : VmSpec) :
    ∀ p ∈ pairsOf spec, p.1 ∈ flagNames ∧ p.2 ∉ flagNames ++ kernelFlags := by
  have hcpus : "--cpus".toList ∈ flagNames := by decide
  have hmemory : "--memory".toList ∈ flagNames := by decide
  have hbootloader : "--bootloader".toList ∈ flagNames := by decide
  have hdevice : "--device".toList ∈ flagNames := by decide
  have hcloudInit : "--cloud-init".toList ∈ flagNames := by decide
  have hrestful : "--restful-uri".toList ∈ flagNames := by decide
  intro p hp
  rw [pairsOf, List.mem_append, List.mem_append] at hp
  obtain (hp | hp) | hp := hp
  · simp only [ownPairs, List.mem_cons, List.not_mem_nil, or_false] at hp
    obtain rfl | rfl | rfl | rfl | rfl | rfl | rfl | rfl := hp
    · exact ⟨hcpus, not_flag_decimal _⟩
    · exact ⟨hmemory, not_flag_decimal _⟩
    · exact ⟨hbootloader, not_flag_of_head (c := 'e') rfl (by decide)⟩
    all_goals exact ⟨hdevice, not_flag_of_head (c := 'v') rfl (by decide)⟩
  · obtain ⟨share, _, rfl⟩ := List.mem_map.mp hp
    exact ⟨hdevice, not_flag_of_head (c := 'v') rfl (by decide)⟩
  · rw [lastPairs, List.mem_cons, List.mem_cons] at hp
    obtain rfl | rfl | hp := hp
    · exact ⟨hcloudInit, not_flag_of_comma (by simp [cloudInit])⟩
    · exact ⟨hrestful, not_flag_of_head (c := 't') rfl (by decide)⟩
    · obtain ⟨log, _, rfl⟩ := List.mem_map.mp hp
      exact ⟨hdevice, not_flag_of_head (c := 'v') rfl (by decide)⟩

/-! ### The scan -/

theorem following_cons {flag f v : Text} (hv : v ≠ flag) (rest : List Text) :
    following flag (f :: v :: rest) =
      if f = flag then v :: following flag rest else following flag rest := by
  have hrest : ((v :: rest).zip rest).filterMap (fun window =>
      if window.1 = flag then some window.2 else none) = following flag rest := by
    cases rest with
    | nil => rfl
    | cons g rest =>
      rw [List.zip_cons_cons, List.filterMap_cons]
      dsimp only
      rw [if_neg hv]
      rfl
  rw [following, List.tail_cons, List.zip_cons_cons, List.filterMap_cons, hrest]
  dsimp only
  by_cases hf : f = flag
  · rw [if_pos hf, if_pos hf]
  · rw [if_neg hf, if_neg hf]

/-- Where no value is the flag, the scan over adjacent arguments reads the pairs. -/
theorem following_pairs {flag : Text} {pairs : List (Text × Text)} (h : ∀ p ∈ pairs, p.2 ≠ flag) :
    following flag (alternating pairs) = pick flag pairs := by
  induction pairs with
  | nil => rfl
  | cons p pairs ih =>
    have hcons : alternating (p :: pairs) = p.1 :: p.2 :: alternating pairs := rfl
    rw [hcons, following_cons (h p (List.mem_cons_self ..)),
      ih fun q hq => h q (List.mem_cons_of_mem p hq), pick_cons]

/-! ### The order -/

/-- The devices every guest has. -/
def ownDevices (spec : VmSpec) : List Text :=
  ["virtio-blk,path=".toList ++ spec.rootDisk, "virtio-blk,path=".toList ++ spec.poolDisk,
    "virtio-net,nat,mac=".toList ++ spec.mac,
    "virtio-vsock,port=".toList ++ decimal spec.readyPort.toNat ++ ",socketURL=".toList ++
      spec.readySocket ++ ",listen".toList,
    "virtio-rng".toList]

def serialDevices (spec : VmSpec) : List Text :=
  spec.serialLog.toList.map fun log => "virtio-serial,logFilePath=".toList ++ log

theorem pick_before (spec : VmSpec) :
    pick "--device".toList (ownPairs spec ++ spec.shares.map sharePair) =
      ownDevices spec ++ spec.shares.map shareArg := by
  have hshares : pick "--device".toList (spec.shares.map sharePair) = spec.shares.map shareArg :=
    pick_map shareArg spec.shares
  rw [pick_append, hshares]
  rfl

theorem pick_after (spec : VmSpec) : pick "--device".toList (lastPairs spec) = serialDevices spec := by
  rw [lastPairs, pick_cons, if_neg (by decide)]
  exact pick_map _ _

/-- Around `--cloud-init`: what stands before it and after it, with the devices. -/
structure Around (spec : VmSpec) (before after : List Text) : Prop where
  args : buildArgs spec = before ++ "--cloud-init".toList :: cloudInit spec :: after
  not_before : "--cloud-init".toList ∉ before
  not_after : "--cloud-init".toList ∉ after
  devices_before : following "--device".toList before = ownDevices spec ++ spec.shares.map shareArg
  devices_after : following "--device".toList after = serialDevices spec

theorem flag_before {spec : VmSpec} {p : Text × Text}
    (hp : p ∈ ownPairs spec ++ spec.shares.map sharePair) : p.1 ≠ "--cloud-init".toList := by
  have hown : (ownPairs spec).map Prod.fst = ["--cpus".toList, "--memory".toList,
      "--bootloader".toList, "--device".toList, "--device".toList, "--device".toList,
      "--device".toList, "--device".toList] := rfl
  have hnot : "--cloud-init".toList ∉ ["--cpus".toList, "--memory".toList, "--bootloader".toList,
      "--device".toList, "--device".toList, "--device".toList, "--device".toList,
      "--device".toList] := by decide
  have hdevice : "--device".toList ≠ "--cloud-init".toList := by decide
  cases List.mem_append.mp hp with
  | inl hp =>
    have hmem : p.1 ∈ (ownPairs spec).map Prod.fst := List.mem_map.mpr ⟨p, hp, rfl⟩
    intro heq
    rw [hown, heq] at hmem
    exact hnot hmem
  | inr hp =>
    obtain ⟨share, _, rfl⟩ := List.mem_map.mp hp
    exact hdevice

theorem flag_after {spec : VmSpec} {p : Text × Text} (hp : p ∈ lastPairs spec) :
    p.1 ≠ "--cloud-init".toList := by
  have hrestful : "--restful-uri".toList ≠ "--cloud-init".toList := by decide
  have hdevice : "--device".toList ≠ "--cloud-init".toList := by decide
  cases List.mem_cons.mp hp with
  | inl heq =>
    subst heq
    exact hrestful
  | inr hp =>
    obtain ⟨log, _, rfl⟩ := List.mem_map.mp hp
    exact hdevice

theorem around_cloudInit (spec : VmSpec) : Around spec
    (alternating (ownPairs spec ++ spec.shares.map sharePair)) (alternating (lastPairs spec)) := by
  have hvalues := values_not_flags spec
  have hbefore : ∀ p ∈ ownPairs spec ++ spec.shares.map sharePair, p ∈ pairsOf spec :=
    fun p hp => List.mem_append_left _ hp
  have hafter : ∀ p ∈ lastPairs spec, p ∈ pairsOf spec :=
    fun p hp => List.mem_append_right _ (List.mem_cons_of_mem _ hp)
  have hvalue : ∀ p ∈ pairsOf spec, ∀ flag ∈ flagNames, p.2 ≠ flag := by
    intro p hp flag hflag heq
    exact (hvalues p hp).2 (List.mem_append_left _ (heq ▸ hflag))
  have hdevice : "--device".toList ∈ flagNames := by decide
  have hcloudInit : "--cloud-init".toList ∈ flagNames := by decide
  refine ⟨?_, ?_, ?_, ?_, ?_⟩
  · rw [buildArgs_pairs, pairsOf, alternating_append]
    rfl
  · intro hmem
    obtain ⟨p, hp, heq | heq⟩ := mem_alternating hmem
    · exact flag_before hp heq.symm
    · exact hvalue p (hbefore p hp) _ hcloudInit heq.symm
  · intro hmem
    obtain ⟨p, hp, heq | heq⟩ := mem_alternating hmem
    · exact flag_after hp heq.symm
    · exact hvalue p (hafter p hp) _ hcloudInit heq.symm
  · rw [following_pairs fun p hp => hvalue p (hbefore p hp) _ hdevice, pick_before]
  · rw [following_pairs fun p hp => hvalue p (hafter p hp) _ hdevice, pick_after]

theorem following_device (spec : VmSpec) : following "--device".toList (buildArgs spec) =
    ownDevices spec ++ spec.shares.map shareArg ++ serialDevices spec := by
  have hdevice : "--device".toList ∈ flagNames ++ kernelFlags := by decide
  have hcloudInit : "--cloud-init".toList ≠ "--device".toList := by decide
  rw [buildArgs_pairs, following_pairs fun p hp heq => (values_not_flags spec p hp).2 (heq ▸ hdevice),
    pairsOf, pick_append, pick_before, pick_cons, if_neg hcloudInit, pick_after]

theorem filter_disks (spec : VmSpec) :
    (ownDevices spec ++ spec.shares.map shareArg ++ serialDevices spec).filter isDisk =
      ["virtio-blk,path=".toList ++ spec.rootDisk, "virtio-blk,path=".toList ++ spec.poolDisk] := by
  have hshares : (spec.shares.map shareArg).filter isDisk = [] := by
    rw [List.filter_eq_nil_iff]
    intro device hdevice
    obtain ⟨share, _, rfl⟩ := List.mem_map.mp hdevice
    exact Bool.false_ne_true
  have hserial : (serialDevices spec).filter isDisk = [] := by
    rw [List.filter_eq_nil_iff]
    intro device hdevice
    obtain ⟨log, _, rfl⟩ := List.mem_map.mp hdevice
    exact Bool.false_ne_true
  rw [List.filter_append, List.filter_append, hshares, hserial, List.append_nil, List.append_nil]
  rfl

/-- The preseed's pool is on the second disk. -/
theorem source_mem_preseed (bridgeCidr : Text) :
    "      source: ".toList ++ diskName 1 ∈ (Provision.renderPreseed bridgeCidr).splitOn '\n' := by
  have hsource : "      source: ".toList ++ diskName 1 ∈ Provision.preseedTail := by decide
  exact mem_splitOn_unlines (List.mem_append_right _ hsource) (by decide)

/-- **The devices come in a fixed order**: flags and values alternate, no value is a flag, no
argument asks for a direct kernel boot, and the scan for devices finds the guest's own, then the
shares, all before `--cloud-init`, then the serial log. The second disk is the pool, under the
name that the preseed has for it. -/
theorem buildArgs_devices (spec : VmSpec) (bridgeCidr : Text) :
    (∃ pairs : List (Text × Text), buildArgs spec = alternating pairs ∧
      ∀ p ∈ pairs, p.1 ∈ flagNames ∧ p.2 ∉ flagNames) ∧
    (∀ flag ∈ kernelFlags, flag ∉ buildArgs spec) ∧
    following "--device".toList (buildArgs spec) =
      ownDevices spec ++ spec.shares.map shareArg ++ serialDevices spec ∧
    (∃ before after : List Text, Around spec before after) ∧
    (following "--device".toList (buildArgs spec)).filter isDisk =
      ["virtio-blk,path=".toList ++ spec.rootDisk, "virtio-blk,path=".toList ++ spec.poolDisk] ∧
    "      source: ".toList ++ diskName 1 ∈ (Provision.renderPreseed bridgeCidr).splitOn '\n' := by
  have hvalues := values_not_flags spec
  have hdisjoint : ∀ flag ∈ kernelFlags, flag ∉ flagNames := by decide
  refine ⟨⟨pairsOf spec, buildArgs_pairs spec, fun p hp => ?_⟩, ?_, following_device spec,
    ⟨_, _, around_cloudInit spec⟩, ?_, source_mem_preseed bridgeCidr⟩
  · exact ⟨(hvalues p hp).1, fun hmem => (hvalues p hp).2 (List.mem_append_left _ hmem)⟩
  · intro flag hflag hmem
    rw [buildArgs_pairs] at hmem
    obtain ⟨p, hp, rfl | rfl⟩ := mem_alternating hmem
    · exact hdisjoint _ hflag (hvalues p hp).1
    · exact (hvalues p hp).2 (List.mem_append_right _ hflag)
  · rw [following_device, filter_disks]

end Malleus.Vm
