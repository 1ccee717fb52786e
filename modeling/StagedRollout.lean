import StagedRollout.Number.Notation
import StagedRollout.Number.FreeText
import StagedRollout.Text.Quoted
import StagedRollout.Text.Blank
import StagedRollout.Json.Value
import StagedRollout.Json.Quote
import StagedRollout.Json.Scan
import StagedRollout.Json.Writer
import StagedRollout.Wire.Reader
import StagedRollout.Mapping.Node
import StagedRollout.Mapping.Error
import StagedRollout.Rollout.Edit
import StagedRollout.Channel.Rollout
import StagedRollout.Store.Access
import StagedRollout.Main
import StagedRollout.Proofs.Number.Rounding
import StagedRollout.Proofs.Number.Nearest
import StagedRollout.Proofs.Number.DecimalValue
import StagedRollout.Proofs.Rollout.Fraction
import StagedRollout.Proofs.Rollout.OperandRange
import StagedRollout.Proofs.Rollout.PercentOrder
import StagedRollout.Proofs.Rollout.Ledger
import StagedRollout.Proofs.Rollout.Raised
import StagedRollout.Proofs.Rollout.Report
import StagedRollout.Proofs.Rollout.Edited
import StagedRollout.Proofs.Rollout.Targets
import StagedRollout.Proofs.Rollout.Independence
import StagedRollout.Proofs.Rollout.Admission
import StagedRollout.Proofs.Rollout.Version
import StagedRollout.Proofs.Rollout.ReadAfterWrite
import StagedRollout.Proofs.Rollout.Absorption
import StagedRollout.Proofs.Rollout.Exchange
import StagedRollout.Proofs.Json.Grammar
import StagedRollout.Proofs.Json.Nesting
import StagedRollout.Proofs.Json.ScanSpelled
import StagedRollout.Proofs.Number.TypedNumeral
import StagedRollout.Proofs.Rollout.TypedPercent
import StagedRollout.Proofs.Wire.Fields
import StagedRollout.Proofs.Mapping.Schema
import StagedRollout.Proofs.Mapping.Records
import StagedRollout.Proofs.Mapping.Acceptance
import StagedRollout.Proofs.Json.WrittenNumber
import StagedRollout.Proofs.Json.Written
import StagedRollout.Proofs.Mapping.RoundTrip
import StagedRollout.Proofs.Rollout.Storable
import StagedRollout.Proofs.Mapping.Equality
import StagedRollout.Proofs.Rollout.Alike
import StagedRollout.Proofs.Rollout.OperandText
import StagedRollout.Proofs.Json.Kept
import StagedRollout.Proofs.Json.Place
import StagedRollout.Proofs.Json.Retained
import StagedRollout.Proofs.Channel.Records
import StagedRollout.Proofs.Channel.Composition
import StagedRollout.Proofs.Rollout.Lifecycle
import StagedRollout.Proofs.Store.Execution
import StagedRollout.Proofs.Channel.Reread
import StagedRollout.Proofs.Store.Survival
import StagedRollout.Proofs.Store.DryRun
import StagedRollout.Proofs.Store.Addressing
import StagedRollout.Proofs.Store.References
import StagedRollout.Proofs.Store.Retention
import StagedRollout.Proofs.Store.Interleaving
