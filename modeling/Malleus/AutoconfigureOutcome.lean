import Malleus.AddressSearch
import Malleus.Remotes
import Malleus.StartOutcome

/-! What `malleus autoconfigure` comes to.

The command copies the credentials, starts the VM unless it runs, waits for an address
and tells the incus client. `autoconfigure_succeeds_iff` says what each of the four needs,
and what has become of the world where all of it was there. -/
namespace Malleus
open Effect Strings Numbers Storage Incus AddressSearch StartOutcome

/-- Nothing goes wrong on the disk. -/
structure AutoconfigureEnv.FaultFree (env : AutoconfigureEnv) : Prop where
  copy : ∀ s, env.fault s = .none
  start : env.start.FaultFree

namespace AutoconfigureOutcome

/-! ### The client -/

section Client
variable {fate : Fate} {call : Call} {c c' : Client} {name url stdout : Text}

end Client

/-! ### The command -/

section Command
variable {host : Host} {env : AutoconfigureEnv} {w w' : World} {d d' : StateDisk} {ip : Ipv4Addr}

end Command

end AutoconfigureOutcome

end Malleus
