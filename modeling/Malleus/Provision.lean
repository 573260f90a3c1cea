import Malleus.Library.Numbers

/-! `provision.rs`: the cloud-init documents.

A document is built line by line; `writeFile` is one entry of `write_files`, its
content a literal block indented by six spaces. -/
namespace Malleus
open Strings

/-- A host share exposed to the guest with a virtio-fs mount tag. -/
structure MountSpec where
  tag : Text
  deriving DecidableEq, Repr

/-- What cloud-init is to set up in the guest. -/
structure ProvisionSpec where
  hostname : Text
  bridgeCidr : Text
  clientCertPem : Text
  serverCertPem : Text
  serverKeyPem : Text
  mounts : List MountSpec
  stateTag : Option Text
  deriving DecidableEq, Repr

/-- The field of a specification that is rejected. -/
inductive ProvisionError where
  | emptyHostname
  | emptyBridgeCidr
  | emptyMountTag
  | invalidMountTag (tag : Text)
  deriving DecidableEq, Repr

namespace Provision

/-! ### Validation -/

/-- Letters, digits, `-`, `_` and `.`: what tags and names are made of. -/
def isNameChar (c : Char) : Bool := c.isAlphanum || c == '-' || c == '_' || c == '.'

/-- The filter on tags, which go into paths and commands. -/
def validateMountTag (tag : Text) : Except ProvisionError Unit :=
  if (trim tag).isEmpty then .error .emptyMountTag
  else if tag.all isNameChar then .ok ()
  else .error (.invalidMountTag tag)

/-- The texts that must not be empty, then the tags in order. -/
def validate (spec : ProvisionSpec) : Except ProvisionError Unit := do
  if (trim spec.hostname).isEmpty then throw .emptyHostname
  if (trim spec.bridgeCidr).isEmpty then throw .emptyBridgeCidr
  for mount in spec.mounts do
    validateMountTag mount.tag
  match spec.stateTag with
  | some tag => validateMountTag tag
  | none => pure ()

/-! ### Blocks -/

/-- The lines of the content, indented; line feeds at its end do not count. -/
def pushBlock (indent : Nat) (content : Text) : Text :=
  unlines ((lines (trimEndBy (· == '\n') content)).map (List.replicate indent ' ' ++ ·))

/-- The preseed around the bridge's address. -/
def preseedHead : List Text :=
  ["config:".toList, "  core.https_address: \"[::]:8443\"".toList, "networks:".toList,
    "  - name: incusbr0".toList, "    type: bridge".toList, "    config:".toList]

def preseedTail : List Text :=
  ["      ipv4.nat: \"true\"".toList, "      ipv6.address: none".toList, "storage_pools:".toList,
    "  - name: default".toList, "    driver: btrfs".toList, "    config:".toList,
    "      source: /dev/vdb".toList, "profiles:".toList, "  - name: default".toList,
    "    devices:".toList, "      eth0:".toList, "        type: nic".toList,
    "        network: incusbr0".toList, "        name: eth0".toList]

/-- What incus is set up with in the guest; the range is spliced in as it is. -/
def renderPreseed (bridgeCidr : Text) : Text :=
  unlines (preseedHead ++ ["      ipv4.address: ".toList ++ bridgeCidr] ++ preseedTail)

def renderNetworkConfig : Option Text :=
  some (unlines ["version: 2".toList, "ethernets:".toList, "  all:".toList, "    match:".toList,
    "      name: \"*\"".toList, "    dhcp4: true".toList])

/-- An entry of `write_files`. -/
def writeFile (path permissions content : Text) : Text :=
  unlines ["  - path: ".toList ++ path, "    permissions: \"".toList ++ permissions ++ "\"".toList,
    "    content: |".toList] ++ pushBlock 6 content

/-! ### Sections -/

/-- The network configuration, indented below a key of the document. -/
def networkSection : Text :=
  match renderNetworkConfig with
  | some nc => unlines ["network:".toList] ++ pushBlock 2 nc
  | none => []

/-- A share as a line of fstab, in six columns. -/
def mountLine (tag : Text) : Text :=
  "  - [ \"".toList ++ tag ++ "\", \"/mnt/mac/".toList ++ tag ++
    "\", \"virtiofs\", \"defaults,_netdev\", \"0\", \"0\" ]".toList

/-- The shares, with the state share last; no section if there are none. -/
def mountsSection (spec : ProvisionSpec) : Text :=
  if !spec.mounts.isEmpty || spec.stateTag.isSome then
    unlines ("mounts:".toList :: spec.mounts.map (fun mount => mountLine mount.tag) ++
      (spec.stateTag.map mountLine).toList)
  else []

/-- Mount the state share and write the guest's address to it. -/
def reportScript (tag : Text) : Text :=
  "  - [sh, -c, \"(while true; do TAG=\\\"$1\\\"; DIR=\\\"/mnt/mac/$TAG\\\"; echo ".toList ++
  "\\\"$(date) [malleus] checking network and mounting $TAG\\\" > /dev/hvc0; mkdir ".toList ++
  "-p \\\"$DIR\\\"; if ! mountpoint -q \\\"$DIR\\\"; then mount -t virtiofs ".toList ++
  "\\\"$TAG\\\" \\\"$DIR\\\" || echo \\\"$(date) [malleus] virtio-fs mount ".toList ++
  "failed\\\" > /dev/hvc0; fi; if [ -d \\\"$DIR\\\" ]; then IP=$(ip -4 addr show | ".toList ++
  "grep 'inet ' | grep -v '127.0.0.1' | head -n 1 | awk '\x7bprint $2\x7d' | cut ".toList ++
  "-d/ -f1); if [ -n \\\"$IP\\\" ]; then echo \\\"$IP\\\" > \\\"$DIR\\\"/guest-ip; ".toList ++
  "echo \\\"Reported IP $IP via virtio-fs\\\" | tee -a \\\"$DIR\\\"/guest-ip.log > ".toList ++
  "/dev/hvc0; break; fi; fi; sleep 2; done) &\", \"\", \"".toList ++
  tag ++ "\"]".toList

/-- Offer the guest's address on the vsock port. -/
def vsockScript : Text :=
  "  - [sh, -c, \"(while true; do IP=$(ip -4 addr show | grep 'inet ' | grep -v ".toList ++
  "'127.0.0.1' | head -n 1 | awk '\x7bprint $2\x7d' | cut -d/ -f1); if [ -n ".toList ++
  "\\\"$IP\\\" ]; then echo \\\"[malleus] Network is UP with IP $IP\\\" > ".toList ++
  "/dev/hvc0; ping -c 1 192.168.64.1 > /dev/hvc0 2>&1 || echo \\\"[malleus] Host ".toList ++
  "ping failed\\\" > /dev/hvc0; if command -v socat >/dev/null 2>&1; then echo ".toList ++
  "\\\"Reported IP $IP via vsock\\\" > /dev/hvc0; echo \\\"$IP\\\" | socat - ".toList ++
  "VSOCK-LISTEN:5,reuseaddr; break; fi; fi; sleep 2; done) &\", \"\", \"\"]".toList

/-- The commands of the first boot, in order. -/
def runcmdSection (spec : ProvisionSpec) : Text :=
  unlines (["runcmd:".toList,
    "  - [sh, -c, \"echo $(date) [malleus] runcmd started > /dev/hvc0\"]".toList,
    "  - [sh, -c, \"dmesg | grep -iE 'virtio|eth0|enp' > /dev/hvc0\"]".toList] ++
    (spec.stateTag.map reportScript).toList ++
    [vsockScript,
    "  - [mkdir, -p, /etc/apt/keyrings]".toList,
    "  - [sh, -c, \"curl -fsSL https://pkgs.zabbly.com/key.asc -o ".toList ++
      "/etc/apt/keyrings/zabbly.asc\"]".toList,
    "  - [sh, -c, \"echo 'deb [signed-by=/etc/apt/keyrings/zabbly.asc] ".toList ++
      "https://pkgs.zabbly.com/incus/stable /' > ".toList ++
      "/etc/apt/sources.list.d/zabbly-incus-stable.list\"]".toList,
    "  - [apt-get, update]".toList,
    "  - [apt-get, install, -y, incus, socat]".toList,
    "  - [sh, -c, \"incus admin init --preseed < /var/lib/malleus/preseed.yaml\"]".toList,
    "  - [incus, config, trust, add-certificate, /var/lib/malleus/client.crt, ".toList ++
      "--name, malleus-client, --type, client]".toList] ++
    spec.mounts.map (fun mount => "  - [mkdir, -p, /mnt/mac/".toList ++ mount.tag ++ "]".toList) ++
    (if spec.mounts.isEmpty then [] else ["  - [mount, -a]".toList]))

/-! ### Documents -/

/-- The document up to the first entry of `write_files`. -/
def preamble : Text :=
  unlines ["#cloud-config".toList, "output: \x7ball: '| tee /dev/hvc0'\x7d".toList] ++
  networkSection ++
  unlines ["bootcmd:".toList,
    "  - [sh, -c, \"echo $(date) bootcmd started > /dev/hvc0\"]".toList,
    "  - [ modprobe, virtio_console ]".toList, "  - [ modprobe, virtiofs ]".toList,
    "write_files:".toList]

/-- The whole document, of a specification that passes its checks. -/
def renderUserData (spec : ProvisionSpec) : Except ProvisionError Text := do
  validate spec
  let preseed := renderPreseed spec.bridgeCidr
  pure (preamble ++
    writeFile "/var/lib/incus/server.crt".toList "0644".toList spec.serverCertPem ++
    writeFile "/var/lib/incus/server.key".toList "0600".toList spec.serverKeyPem ++
    writeFile "/var/lib/malleus/client.crt".toList "0644".toList spec.clientCertPem ++
    writeFile "/var/lib/malleus/preseed.yaml".toList "0644".toList preseed ++
    mountsSection spec ++ runcmdSection spec)

/-- Two lines with the host name. -/
def renderMetaData (spec : ProvisionSpec) : Except ProvisionError Text := do
  validate spec
  pure ("instance-id: malleus-".toList ++ spec.hostname ++ "\nlocal-hostname: ".toList ++
    spec.hostname ++ "\n".toList)

end Provision

end Malleus
