import ObserverRelay.Text.Blank
/-!
# Resources of the proxy

What can be asked of the network proxy, and the path segments under which it answers. The
segments are raw text: whatever escapes they need are made when a URL is built.
-/
namespace ObserverRelay.Relay

/-- A resource of the proxy. -/
inductive Resource
  | networkStatus (shard : Nat)
  | epochStart (shard epoch : Nat)
  | blockByNonce (shard nonce : Nat)
  | account (address : String)
  | accountToken (address token : String)
  | sendTransaction
  deriving DecidableEq, Repr

namespace Resource

/-- The raw segments of the resource's path. -/
def segments : Resource → List String
  | networkStatus shard => ["network", "status", toString shard]
  | epochStart shard epoch =>
    ["network", "epoch-start", toString shard, "by-epoch", toString epoch]
  | blockByNonce shard nonce => ["block", toString shard, "by-nonce", toString nonce]
  | account address => ["address", address]
  | accountToken address token => ["address", address, "esdt", token]
  | sendTransaction => ["transaction", "send"]

/-- The segments joined by slashes, without escapes. -/
def display (r : Resource) : String := Text.joinWith "/" r.segments

end Resource

end ObserverRelay.Relay
