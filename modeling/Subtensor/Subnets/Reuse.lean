import Subtensor.Subnets.Items

/-!
# Reused subnet identifiers

A removed identifier is given to the next network that is registered. Neither
the removal nor the registration lists every storage item of a subnet: what
both leave out is handed over from the old subnet to the new one.
-/

namespace Subtensor

open Lib Swap Children

namespace Storage

variable {A B H : Type} [DecidableEq A]

/-! ## Storage without the subnet -/

end Storage

/-! ## What is left -/

namespace SubnetItems

variable {A H : Type} [DecidableEq A]

end SubnetItems

namespace Storage

variable {A B H : Type} [DecidableEq A] {rt : Runtime A B (SwapStorage A)}
  {initial : InitialValues} {symbolForSubnet : NetUid → List UInt8} {netuid : NetUid}
  {call : Registration A} {s s' : Storage A B H}

/-! ## A registration that starts fresh -/

def atBlock (s : Storage A B H) (block : U64) : Storage A B H :=
  { s with net := { s.net with chain := { s.net.chain with block := block } } }

end Storage

end Subtensor
