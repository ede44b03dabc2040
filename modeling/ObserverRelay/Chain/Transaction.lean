import ObserverRelay.Chain.Amount
import ObserverRelay.Json.Decoder
import ObserverRelay.Json.Printer
import ObserverRelay.Text.Base64
/-!
# Transactions and their wire form

On the wire a transaction is a JSON object. The amount is a string of digits and the data is
in base64; empty data and absent signatures are left out.
-/
namespace ObserverRelay.Chain

open Json

/-- A transaction of the chain. -/
structure Transaction where
  nonce : UInt64
  value : Amount
  receiver : String
  sender : String
  gasPrice : UInt64
  gasLimit : UInt64
  data : Bytes
  chainId : String
  version : UInt32
  signature : Option String
  relayer : Option String
  relayerSignature : Option String
  deriving DecidableEq, Repr

namespace Transaction

/-- The version of the transactions built here. -/
def currentVersion : UInt32 := 2

/-- The data as text, if it is one. -/
def dataText? (t : Transaction) : Option String := Bytes.text? t.data

/-- Whether somebody else pays for the transaction. -/
def isRelayed (t : Transaction) : Bool := t.relayer.isSome

/-- Whether the sender has signed. -/
def isSigned (t : Transaction) : Bool := t.signature.isSome

/-- The member with an optional text, if it is there. -/
def optionalMember (name : String) : Option String → Members
  | none => []
  | some s => [(name, .string s)]

/-- The member with the data in base64, unless it is empty. -/
def dataMember (data : Bytes) : Members :=
  if data = [] then [] else [("data", .string (Bytes.lossyText (Base64.encode data)))]

/-- The members of the wire form in order. -/
def members (t : Transaction) : Members :=
  [("nonce", .ofNat t.nonce.toNat), ("value", .string t.value.text),
    ("receiver", .string t.receiver), ("sender", .string t.sender),
    ("gasPrice", .ofNat t.gasPrice.toNat), ("gasLimit", .ofNat t.gasLimit.toNat)] ++
  dataMember t.data ++
  [("chainID", .string t.chainId), ("version", .ofNat t.version.toNat)] ++
  optionalMember "signature" t.signature ++
  optionalMember "relayer" t.relayer ++
  optionalMember "relayerSignature" t.relayerSignature

/-- The wire form as a value. -/
def toValue (t : Transaction) : Value := .object t.members

/-- The wire form as text. -/
def wire (t : Transaction) : String := t.toValue.render

/-- What has been read of a transaction. -/
structure Draft where
  nonce : Option UInt64
  value : Option Amount
  receiver : Option String
  sender : Option String
  gasPrice : Option UInt64
  gasLimit : Option UInt64
  data : Option Bytes
  chainId : Option String
  version : Option UInt32
  signature : Option (Option String)
  relayer : Option (Option String)
  relayerSignature : Option (Option String)

/-- Nothing read yet. -/
def Draft.empty : Draft :=
  ⟨none, none, none, none, none, none, none, none, none, none, none, none⟩

/-- The transaction of a draft. Data and signatures may be missing; of the other members the
first missing one counts. -/
def Draft.finish (d : Draft) : Except Cause Transaction := do
  let nonce ← Decoder.need "nonce" d.nonce
  let value ← Decoder.need "value" d.value
  let receiver ← Decoder.need "receiver" d.receiver
  let sender ← Decoder.need "sender" d.sender
  let gasPrice ← Decoder.need "gasPrice" d.gasPrice
  let gasLimit ← Decoder.need "gasLimit" d.gasLimit
  let chainId ← Decoder.need "chainID" d.chainId
  let version ← Decoder.need "version" d.version
  return {
    nonce, value, receiver, sender, gasPrice, gasLimit, chainId, version
    data := d.data.getD []
    signature := d.signature.getD none
    relayer := d.relayer.getD none
    relayerSignature := d.relayerSignature.getD none }

/-- A word of 64 bits. -/
def wordDecoder : Decoder UInt64 := Decoder.natural64.map Nat.toUInt64

/-- An amount in a string of digits. -/
def amountDecoder : Decoder Amount :=
  Decoder.string.refine fun s => (Amount.read s).mapError Numeral.Refusal.message

/-- Octets in a string of base64. -/
def dataDecoder : Decoder Bytes :=
  Decoder.string.refine fun s => (Base64.decode (Bytes.ofText s)).mapError Base64.Refusal.message

/-- The members that the wire form may have, in order. -/
def slots : List (Decoder.Slot Draft) :=
  [.of "nonce" true Draft.nonce (fun x d => { d with nonce := some x }) wordDecoder,
    .of "value" true Draft.value (fun x d => { d with value := some x }) amountDecoder,
    .of "receiver" true Draft.receiver (fun x d => { d with receiver := some x }) .string,
    .of "sender" true Draft.sender (fun x d => { d with sender := some x }) .string,
    .of "gasPrice" true Draft.gasPrice (fun x d => { d with gasPrice := some x }) wordDecoder,
    .of "gasLimit" true Draft.gasLimit (fun x d => { d with gasLimit := some x }) wordDecoder,
    .of "data" false Draft.data (fun x d => { d with data := some x }) dataDecoder,
    .of "chainID" true Draft.chainId (fun x d => { d with chainId := some x }) .string,
    .of "version" true Draft.version (fun x d => { d with version := some x })
      (Decoder.natural32.map Nat.toUInt32),
    .of "signature" false Draft.signature (fun x d => { d with signature := some x })
      (.optional .string),
    .of "relayer" false Draft.relayer (fun x d => { d with relayer := some x })
      (.optional .string),
    .of "relayerSignature" false Draft.relayerSignature
      (fun x d => { d with relayerSignature := some x }) (.optional .string)]

/-- The decoder of the wire form. -/
def decoder : Decoder Transaction :=
  .record ⟨"struct Transaction", slots, .empty, Draft.finish⟩

/-- The transaction that a text is. -/
def parse (s : Bytes) : Except Fault Transaction := decoder.parse s

/-- The transaction that a value is. -/
def ofValue (v : Value) : Except Cause Transaction := decoder.fromValue v

end Transaction

end ObserverRelay.Chain
