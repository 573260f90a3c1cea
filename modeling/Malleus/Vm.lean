import Malleus.Files
import Malleus.Library.Numbers

/-! `vm.rs`: the argument vector that vfkit is started with. -/
namespace Malleus
open Strings Numbers

/-- A host directory exposed to the guest over virtio-fs. -/
structure Share where
  hostPath : Text
  tag : Text
  deriving DecidableEq, Repr

/-- Everything needed to construct a vfkit invocation. -/
structure VmSpec where
  cpus : UInt32
  memoryMib : UInt64
  efiStore : Text
  rootDisk : Text
  poolDisk : Text
  mac : Text
  userData : Text
  metaData : Text
  networkConfig : Option Text
  readySocket : Text
  readyPort : UInt32
  restfulPort : UInt16
  shares : List Share
  serialLog : Option Text
  deriving DecidableEq, Repr

namespace Vm

/-- The `--device` of a share. -/
def shareArg (share : Share) : Text :=
  "virtio-fs,sharedDir=".toList ++ share.hostPath ++ ",mountTag=".toList ++ share.tag

def shareArgs (share : Share) : List Text := ["--device".toList, shareArg share]

/-- The `--device` of the guest's serial console. -/
def serialArgs : Option Text → List Text
  | none => []
  | some log => ["--device".toList, "virtio-serial,logFilePath=".toList ++ log]

/-- `build_args`: flags and values, none of them escaped. -/
def buildArgs (spec : VmSpec) : List Text :=
  ["--cpus".toList, decimal spec.cpus.toNat,
    "--memory".toList, decimal spec.memoryMib.toNat,
    "--bootloader".toList, "efi,variable-store=".toList ++ spec.efiStore ++ ",create".toList,
    "--device".toList, "virtio-blk,path=".toList ++ spec.rootDisk,
    "--device".toList, "virtio-blk,path=".toList ++ spec.poolDisk,
    "--device".toList, "virtio-net,nat,mac=".toList ++ spec.mac,
    "--device".toList,
    "virtio-vsock,port=".toList ++ decimal spec.readyPort.toNat ++ ",socketURL=".toList ++
      spec.readySocket ++ ",listen".toList,
    "--device".toList, "virtio-rng".toList] ++
  spec.shares.flatMap shareArgs ++
  ["--cloud-init".toList, spec.userData ++ ",".toList ++ spec.metaData,
    "--restful-uri".toList, "tcp://localhost:".toList ++ decimal spec.restfulPort.toNat] ++
  serialArgs spec.serialLog

end Vm

end Malleus
