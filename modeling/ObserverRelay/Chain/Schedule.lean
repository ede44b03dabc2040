import ObserverRelay.Chain.Argument
import ObserverRelay.Chain.Word
/-!
# Gas

What a chain charges: a fixed part and a part for each octet of data, and more for each way of
carrying tokens. All sums are of 64-bit words, and one that does not fit is reported.
-/
namespace ObserverRelay.Chain

/-- A chain and what it charges. -/
structure Schedule where
  chainId : String
  minGas : UInt64
  gasPerOctet : UInt64
  gasPrice : UInt64
  tokenGas : UInt64
  tokenExtraGas : UInt64
  itemGas : UInt64
  itemExtraGas : UInt64
  /-- Charged once for each transfer among several. -/
  multiGas : UInt64
  relayGas : UInt64
  deriving DecidableEq, Repr

namespace Schedule

/-- The usual charges on a chain. -/
def new (chainId : String) : Schedule where
  chainId := chainId
  minGas := 50000
  gasPerOctet := 1500
  gasPrice := 1000000000
  tokenGas := 200000
  tokenExtraGas := 100000
  itemGas := 200000
  itemExtraGas := 800000
  multiGas := 200000
  relayGas := 50000

/-- The gas for data of a length. -/
def dataGas (s : Schedule) (data : Bytes) : Except Overflow UInt64 := do
  let octets ← Word.times s.gasPerOctet data.length
  Word.add s.minGas octets

end Schedule

/-- How tokens are carried: one whose units are all alike, one item of a collection, or any
number of both. -/
inductive Carriage
  | token (t : Transfer)
  | item (t : Transfer)
  | multi (ts : List Transfer)
  deriving DecidableEq, Repr

namespace Carriage

/-- How to carry tokens together with native currency. The currency goes last. -/
def of (native : Amount) (ts : List Transfer) : Carriage :=
  if native.toNat = 0 then
    match ts with
    | [t] => if t.isFungible then token t else item t
    | ts => multi ts
  else multi (ts ++ [.native native])

/-- The pieces for one transfer among several. -/
def triple (t : Transfer) : List String :=
  [Hex.encode (Bytes.ofText t.token), encodeUnsigned t.nonce.toNat, encodeUnsigned t.amount.toNat]

/-- The pieces of the data. A name for the way comes first. -/
def pieces (receiver : Address) : Carriage → List String
  | token t => ["ESDTTransfer", Hex.encode (Bytes.ofText t.token), encodeUnsigned t.amount.toNat]
  | item t => "ESDTNFTTransfer" :: (triple t ++ [receiver.hex])
  | multi ts =>
    "MultiESDTNFTTransfer" :: receiver.hex :: encodeUnsigned ts.length :: ts.flatMap triple

/-- Whom the transaction is addressed to. A sender carries items to itself, and the data names
the receiver. -/
def target (sender receiver : Address) : Carriage → Address
  | token _ => receiver
  | item _ | multi _ => sender

/-- The gas that the way of carrying costs. -/
def gas (s : Schedule) : Carriage → Except Overflow UInt64
  | token _ => Word.add s.tokenGas s.tokenExtraGas
  | item _ => Word.add s.itemGas s.itemExtraGas
  | multi ts => do
    let each ← Word.times s.multiGas ts.length
    Word.add each s.itemExtraGas

end Carriage

end ObserverRelay.Chain
