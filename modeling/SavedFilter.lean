import SavedFilter.Main
import SavedFilter.Query.Workbench
import SavedFilter.Rule.Edit
import SavedFilter.Proofs.Scalar.RoundTrip
import SavedFilter.Proofs.Calendar.Reading
import SavedFilter.Proofs.Query.Codes
import SavedFilter.Proofs.Query.Pruning
import SavedFilter.Proofs.Query.Separation
import SavedFilter.Proofs.Query.Sharing
import SavedFilter.Proofs.Query.Unambiguous
import SavedFilter.Proofs.Document.Depth
import SavedFilter.Proofs.Document.Reload
import SavedFilter.Proofs.Document.StrayKeys
import SavedFilter.Proofs.Document.ValueFaults
import SavedFilter.Proofs.Program.Outcome
import SavedFilter.Proofs.Program.Verdict
import SavedFilter.Proofs.Calendar.Offsets
import SavedFilter.Proofs.Decimal.Spelling
import SavedFilter.Proofs.Decimal.Exactness
import SavedFilter.Proofs.Calendar.Fractions
import SavedFilter.Proofs.Decimal.Powers
import SavedFilter.Proofs.Scalar.Literals
import SavedFilter.Proofs.Json.Edits
import SavedFilter.Proofs.Rule.Members
import SavedFilter.Proofs.Document.KeyOrder
import SavedFilter.Proofs.Json.Records
import SavedFilter.Proofs.Rule.Spellings
import SavedFilter.Proofs.Document.Spellings
import SavedFilter.Proofs.Rule.Removal
import SavedFilter.Proofs.Binary64.Overflow
import SavedFilter.Proofs.Json.Rationals
import SavedFilter.Proofs.Scalar.Integers
import SavedFilter.Proofs.Query.Registration
import SavedFilter.Proofs.Document.Shrinking
import SavedFilter.Proofs.Rule.Equality
import SavedFilter.Proofs.Settings.UnknownKeys
import SavedFilter.Proofs.CommandLine.Spellings
import SavedFilter.Proofs.Query.Rollback
