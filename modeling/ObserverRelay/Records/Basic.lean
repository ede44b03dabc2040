/-!
# Records of a test network

What a generator of test data remembers between its runs: the contracts it deployed, the
tokens it issued and the transactions of its last run. Five lists, each in the order in which
things were added, with repetitions.
-/
namespace ObserverRelay

/-- A deployed contract under the tag of what deployed it. -/
structure ContractRecord where
  tag : String
  address : String
  deriving DecidableEq, Repr

/-- The five lists. -/
structure Records where
  contracts : List ContractRecord
  customCurrencies : List String
  nonFungibleTokens : List String
  semiFungibleTokens : List String
  runTransactions : List String
  deriving DecidableEq, Repr

namespace Records

/-- Nothing remembered. -/
def empty : Records := ⟨[], [], [], [], []⟩

/-- A change to the records. -/
inductive Change
  | clear
  | addCustomCurrency (identifier : String)
  | addNonFungibleToken (identifier : String)
  | addSemiFungibleToken (identifier : String)
  | addContract (tag address : String)
  | replaceRunTransactions (hashes : List String)
  deriving DecidableEq, Repr

/-- The records after a change. -/
def apply (r : Records) : Change → Records
  | .clear => empty
  | .addCustomCurrency s => { r with customCurrencies := r.customCurrencies ++ [s] }
  | .addNonFungibleToken s => { r with nonFungibleTokens := r.nonFungibleTokens ++ [s] }
  | .addSemiFungibleToken s => { r with semiFungibleTokens := r.semiFungibleTokens ++ [s] }
  | .addContract tag address => { r with contracts := r.contracts ++ [⟨tag, address⟩] }
  | .replaceRunTransactions hashes => { r with runTransactions := hashes }

/-- The contracts under a tag, or all of them. -/
def contractsOf (r : Records) : Option String → List ContractRecord
  | none => r.contracts
  | some tag => r.contracts.filter fun c => c.tag = tag

/-- A question about the records. -/
inductive Query
  | contracts (tag : Option String)
  | customCurrencies
  | nonFungibleTokens
  | semiFungibleTokens
  | runTransactions
  deriving DecidableEq, Repr

/-- What a query is answered with. -/
inductive Answer
  | contracts (found : List ContractRecord)
  | texts (found : List String)
  deriving DecidableEq, Repr

/-- The answer that the records give. -/
def answer (r : Records) : Query → Answer
  | .contracts tag => .contracts (r.contractsOf tag)
  | .customCurrencies => .texts r.customCurrencies
  | .nonFungibleTokens => .texts r.nonFungibleTokens
  | .semiFungibleTokens => .texts r.semiFungibleTokens
  | .runTransactions => .texts r.runTransactions

end Records

end ObserverRelay
