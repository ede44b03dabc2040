import ObserverRelay.Json.Decoder
import ObserverRelay.Json.Printer
import ObserverRelay.Records.Basic
/-!
# Records as text

Records are kept as one JSON object in the indented layout, with a line break at its end. All
five lists are written; of those that are missing when a text is read, each counts as empty.
-/
namespace ObserverRelay

open Json

/-- A contract as a value. -/
def ContractRecord.toValue (c : ContractRecord) : Value :=
  .object [("tag", .string c.tag), ("address", .string c.address)]

/-- The decoder of a contract. -/
def ContractRecord.decoder : Decoder ContractRecord :=
  .record {
    title := "struct ContractRecord"
    slots := [
      .of "tag" true Prod.fst (fun s d => (some s, d.2)) .string,
      .of "address" true Prod.snd (fun s d => (d.1, some s)) .string]
    empty := (none, none)
    finish := fun d => do
      let tag ← Decoder.need "tag" d.1
      let address ← Decoder.need "address" d.2
      return ⟨tag, address⟩ }

namespace Records

/-- The records as a value. -/
def toValue (r : Records) : Value :=
  .object [
    ("contracts", .array (r.contracts.map ContractRecord.toValue)),
    ("customCurrencies", .ofTexts r.customCurrencies),
    ("nonFungibleTokens", .ofTexts r.nonFungibleTokens),
    ("semiFungibleTokens", .ofTexts r.semiFungibleTokens),
    ("runTransactions", .ofTexts r.runTransactions)]

/-- The records as text. -/
def text (r : Records) : String := r.toValue.renderIndented ++ "\n"

/-- What has been read of the records. -/
structure Draft where
  contracts : Option (List ContractRecord)
  customCurrencies : Option (List String)
  nonFungibleTokens : Option (List String)
  semiFungibleTokens : Option (List String)
  runTransactions : Option (List String)

/-- The records of a draft. -/
def Draft.finish (d : Draft) : Records where
  contracts := d.contracts.getD []
  customCurrencies := d.customCurrencies.getD []
  nonFungibleTokens := d.nonFungibleTokens.getD []
  semiFungibleTokens := d.semiFungibleTokens.getD []
  runTransactions := d.runTransactions.getD []

/-- The decoder of a list of texts. -/
def textsDecoder : Decoder (List String) := .list .string

/-- The decoder of records. -/
def decoder : Decoder Records :=
  .record {
    title := "struct MementoState"
    slots := [
      .of "contracts" false Draft.contracts (fun x d => { d with contracts := some x })
        (.list ContractRecord.decoder),
      .of "customCurrencies" false Draft.customCurrencies
        (fun x d => { d with customCurrencies := some x }) textsDecoder,
      .of "nonFungibleTokens" false Draft.nonFungibleTokens
        (fun x d => { d with nonFungibleTokens := some x }) textsDecoder,
      .of "semiFungibleTokens" false Draft.semiFungibleTokens
        (fun x d => { d with semiFungibleTokens := some x }) textsDecoder,
      .of "runTransactions" false Draft.runTransactions
        (fun x d => { d with runTransactions := some x }) textsDecoder]
    empty := ⟨none, none, none, none, none⟩
    finish := fun d => .ok d.finish }

/-- The records that a text holds. -/
def parse (s : Bytes) : Except Fault Records := decoder.parse s

end Records

end ObserverRelay
