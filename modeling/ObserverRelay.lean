import ObserverRelay.Chain.AccountSource
import ObserverRelay.Chain.Builder
import ObserverRelay.Chain.NonceBook
import ObserverRelay.Main
import ObserverRelay.Records.Keeper
import ObserverRelay.Proofs.Nonce.Reservation
import ObserverRelay.Proofs.Nonce.Together
import ObserverRelay.Proofs.Records.Refinement
import ObserverRelay.Proofs.Json.Distinct
import ObserverRelay.Proofs.Json.Members
import ObserverRelay.Proofs.Relay.NodeStatus
import ObserverRelay.Proofs.Chain.Cargo
import ObserverRelay.Proofs.Chain.Charge
import ObserverRelay.Proofs.Chain.TokenTransfer
import ObserverRelay.Proofs.Chain.Gas
import ObserverRelay.Proofs.Chain.Calls
import ObserverRelay.Proofs.Json.Document
import ObserverRelay.Proofs.Json.Unambiguous
import ObserverRelay.Proofs.Json.Recognition
import ObserverRelay.Proofs.Json.Characters
import ObserverRelay.Proofs.Json.Compact
import ObserverRelay.Proofs.Relay.Passing
import ObserverRelay.Proofs.Json.Numbers
import ObserverRelay.Proofs.Json.Reading
import ObserverRelay.Proofs.Relay.Forwarding
import ObserverRelay.Proofs.Number.Rounding
import ObserverRelay.Proofs.Number.Shortest
import ObserverRelay.Proofs.Json.Figures
import ObserverRelay.Proofs.Json.Kept
import ObserverRelay.Proofs.Relay.Runs
import ObserverRelay.Proofs.Json.Completeness
import ObserverRelay.Proofs.Json.ReadBack
import ObserverRelay.Proofs.Relay.Wire
import ObserverRelay.Proofs.Text.Pieces
import ObserverRelay.Proofs.Url.Escapes
import ObserverRelay.Proofs.Url.Appending
import ObserverRelay.Proofs.Url.Parsed
import ObserverRelay.Proofs.Relay.Locations
import ObserverRelay.Proofs.Url.Pairs
import ObserverRelay.Proofs.Relay.Queries
import ObserverRelay.Proofs.Url.Descent
import ObserverRelay.Proofs.Relay.Confinement
import ObserverRelay.Proofs.Records.Atomicity
import ObserverRelay.Proofs.Nonce.Entries
import ObserverRelay.Proofs.Nonce.Refetching
import ObserverRelay.Proofs.Nonce.Independence
import ObserverRelay.Proofs.Json.BothWays
import ObserverRelay.Proofs.Relay.Startup
import ObserverRelay.Proofs.Chain.CallerGas
import ObserverRelay.Proofs.Nonce.Batch
import ObserverRelay.Proofs.Nonce.Failures
import ObserverRelay.Proofs.Text.Trimming
import ObserverRelay.Proofs.Url.Shortening
import ObserverRelay.Proofs.Relay.Normalization
import ObserverRelay.Proofs.Json.Agreement
import ObserverRelay.Proofs.Json.Flattened
import ObserverRelay.Proofs.Chain.Readings
import ObserverRelay.Proofs.Text.Numerals
import ObserverRelay.Proofs.Text.Symbols
import ObserverRelay.Proofs.Chain.Codecs
import ObserverRelay.Proofs.Relay.StatusTexts
import ObserverRelay.Proofs.Relay.Dispatch
import ObserverRelay.Proofs.Net.Limits
import ObserverRelay.Proofs.Net.MediaTypes
import ObserverRelay.Proofs.Relay.Numbered
import ObserverRelay.Proofs.Relay.Admission
import ObserverRelay.Proofs.Json.Repeats
import ObserverRelay.Proofs.Json.Blanks
import ObserverRelay.Proofs.Json.Brevity
import ObserverRelay.Proofs.Relay.NormalForm
import ObserverRelay.Proofs.Relay.Durations
import ObserverRelay.Proofs.Json.Productions
import ObserverRelay.Proofs.Relay.Gate
import ObserverRelay.Proofs.Json.Loose
import ObserverRelay.Proofs.Json.Acceptance
import ObserverRelay.Proofs.Records.Canonical
import ObserverRelay.Proofs.Records.ByMeaning
import ObserverRelay.Proofs.Chain.AccountNonce
import ObserverRelay.Proofs.Text.Hexadecimal
import ObserverRelay.Proofs.Chain.Addresses
import ObserverRelay.Proofs.Chain.Numbers
import ObserverRelay.Proofs.Relay.AccountUrls
