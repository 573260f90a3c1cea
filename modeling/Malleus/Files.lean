import Malleus.Library.Storage

/-! The files malleus works with, by the names the source gives them.

Everything lives under the state directory except the two credentials that
`autoconfigure` copies into an incus config directory. That directory is named
by its path and lies outside the state directory: none of its files is one of
malleus's own. -/
namespace Malleus
open Strings Storage

inductive Dir where
  | stateDir
  | imagesDir
  | pkiDir
  | incusConfDir (path : Text)
  deriving DecidableEq, Repr

inductive File where
  | configToml
  | baseImage
  | rootRaw
  | poolRaw
  | clientCert
  | clientKey
  | serverCert
  | serverKey
  | userData
  | metaData
  | vfkitArgs
  | vfkitLog
  | vfkitErr
  | vfkitPid
  | readySock
  | guestIp
  | guestLog
  | confClientCert (dir : Text)
  | confClientKey (dir : Text)
  deriving DecidableEq, Repr

namespace File

def parent : File → Dir
  | baseImage => .imagesDir
  | clientCert | clientKey | serverCert | serverKey => .pkiDir
  | confClientCert dir | confClientKey dir => .incusConfDir dir
  | _ => .stateDir

/-- What `remove_dir_all` of the state directory takes away; the copies for incus lie elsewhere. -/
def inStateDir : File → Bool
  | confClientCert _ | confClientKey _ => false
  | _ => true

end File

namespace Dir

def inStateDir : Dir → Bool
  | incusConfDir _ => false
  | _ => true

/-- A directory and those above it that malleus makes, outermost first. -/
def path : Dir → List Dir
  | stateDir => [stateDir]
  | imagesDir => [stateDir, imagesDir]
  | pkiDir => [stateDir, pkiDir]
  | incusConfDir dir => [incusConfDir dir]

end Dir

instance : Tree File Dir := ⟨File.parent, Dir.path⟩

/-- The files and directories that malleus has to do with. -/
abbrev StateDisk := Disk File Dir

/-- No state directory, and nothing beside it. -/
def noFiles : StateDisk := ⟨fun _ => none, fun _ => false⟩

/-- `Path::join` of a directory and a relative name. -/
def join (dir name : Text) : Text :=
  if dir = [] ∨ dir.getLast? = some '/' then dir ++ name else dir ++ '/' :: name

/-- The path of a file, given the state directory and Debian's name for the
architecture. -/
def File.display (stateDir debianArch : Text) : File → Text
  | .configToml => join stateDir "config.toml".toList
  | .baseImage =>
    join (join stateDir "images".toList)
      ("debian-12-genericcloud-".toList ++ debianArch ++ ".raw".toList)
  | .rootRaw => join stateDir "root.raw".toList
  | .poolRaw => join stateDir "pool.raw".toList
  | .clientCert => join (join stateDir "pki".toList) "client.crt".toList
  | .clientKey => join (join stateDir "pki".toList) "client.key".toList
  | .serverCert => join (join stateDir "pki".toList) "server.crt".toList
  | .serverKey => join (join stateDir "pki".toList) "server.key".toList
  | .userData => join stateDir "user-data".toList
  | .metaData => join stateDir "meta-data".toList
  | .vfkitArgs => join stateDir "vfkit.args".toList
  | .vfkitLog => join stateDir "vfkit.log".toList
  | .vfkitErr => join stateDir "vfkit.err".toList
  | .vfkitPid => join stateDir "vfkit.pid".toList
  | .readySock => join stateDir "ready.sock".toList
  | .guestIp => join stateDir "guest-ip".toList
  | .guestLog => join stateDir "vfkit.guest.log".toList
  | .confClientCert dir => join dir "client.crt".toList
  | .confClientKey dir => join dir "client.key".toList

end Malleus
