import ObserverRelay.Chain.Schedule
import ObserverRelay.Chain.Transaction
/-!
# Building transactions

Unsigned transactions for what is done on a test network: carrying currency and tokens,
deploying and calling contracts, and letting somebody else pay. Their nonce is zero until a
nonce book assigns one.
-/
namespace ObserverRelay.Chain

/-- The marker of the virtual machine behind the code of a new contract. -/
def machineMarker : String := "0500"

/-- The rights of a new contract: to be upgraded, read and paid by others. -/
def contractRights : String := "0504"

/-- The data whose pieces stand between `@` signs. -/
def joinPieces (pieces : List String) : Bytes := Bytes.ofText (Text.joinWith "@" pieces)

namespace Schedule

/-- An unsigned transaction without a nonce. -/
def transaction (s : Schedule) (sender : Address) (receiver : Address) (value : Amount)
    (gasLimit : UInt64) (data : Bytes) : Transaction where
  nonce := 0
  value := value
  receiver := receiver.bech32
  sender := sender.bech32
  gasPrice := s.gasPrice
  gasLimit := gasLimit
  data := data
  chainId := s.chainId
  version := Transaction.currentVersion
  signature := none
  relayer := none
  relayerSignature := none

/-- Carries native currency, with data of any kind. -/
def nativeTransfer (s : Schedule) (sender receiver : Address) (amount : Amount) (data : Bytes) :
    Except Overflow Transaction := do
  let gas ← s.dataGas data
  return s.transaction sender receiver amount gas data

/-- Carries tokens, and native currency among them. Without tokens it is a plain transfer. -/
def tokenTransfer (s : Schedule) (sender receiver : Address) (native : Amount)
    (transfers : List Transfer) : Except Overflow Transaction :=
  if transfers = [] then s.nativeTransfer sender receiver native []
  else do
    let carriage := Carriage.of native transfers
    let carriageGas ← carriage.gas s
    let data := joinPieces (carriage.pieces receiver)
    let dataGas ← s.dataGas data
    let gas ← Word.add dataGas carriageGas
    return s.transaction sender (carriage.target sender receiver) .zero gas data

/-- Deploys the code of a contract. -/
def contractDeploy (s : Schedule) (sender : Address) (code : Bytes) (args : List Argument)
    (gasLimit : UInt64) (amount : Amount) : Transaction :=
  let pieces := [Hex.encode code, machineMarker, contractRights] ++ args.map Argument.hex
  s.transaction sender .deployTarget amount gasLimit (joinPieces pieces)

/-- Calls a function of a contract, bringing tokens along. The caller sets the gas, yet the gas
for carrying tokens has to fit into a word. -/
def contractCall (s : Schedule) (sender contract : Address) (function : String)
    (args : List Argument) (gasLimit : UInt64) (native : Amount) (transfers : List Transfer) :
    Except Overflow Transaction :=
  let tail := args.map Argument.hex
  if transfers = [] then
    .ok (s.transaction sender contract native gasLimit (joinPieces (function :: tail)))
  else do
    let carriage := Carriage.of native transfers
    let _ ← carriage.gas s
    let pieces := carriage.pieces contract ++ Hex.encode (Bytes.ofText function) :: tail
    return s.transaction sender (carriage.target sender contract) .zero gasLimit
      (joinPieces pieces)

/-- Lets a relayer pay for a transaction. -/
def relay (s : Schedule) (t : Transaction) (relayer : Address) : Except Overflow Transaction := do
  let gas ← Word.add t.gasLimit s.relayGas
  return { t with relayer := some relayer.bech32, gasLimit := gas }

end Schedule

end ObserverRelay.Chain
