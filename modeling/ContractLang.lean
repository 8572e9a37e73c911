import ContractLang.Event
import ContractLang.Report.Snippet
import ContractLang.Syntax.Build
import ContractLang.Proofs.Steps
import ContractLang.Proofs.Valid
import ContractLang.Proofs.Lookup
import ContractLang.Proofs.Walks
import ContractLang.Proofs.Safety
import ContractLang.Proofs.Annotated
import ContractLang.Proofs.Checking
import ContractLang.Proofs.Designating
import ContractLang.Proofs.Declaring
import ContractLang.Proofs.Legality
import ContractLang.Proofs.Settling
import ContractLang.Proofs.Prepared
import ContractLang.Proofs.Scopes
import ContractLang.Proofs.Lexical
import ContractLang.Proofs.Noting
import ContractLang.Proofs.Closed
import ContractLang.Proofs.Identity
import ContractLang.Proofs.Bound
import ContractLang.Proofs.Judgement
import ContractLang.Proofs.WellTyped
import ContractLang.Proofs.Totality
import ContractLang.Proofs.VoidValues
import ContractLang.Proofs.Renaming
import ContractLang.Proofs.Mirroring
import ContractLang.Proofs.Stages
import ContractLang.Proofs.Parametric
import ContractLang.Proofs.Frames
import ContractLang.Proofs.Persistence
import ContractLang.Proofs.Gating
import ContractLang.Proofs.Records
import ContractLang.Proofs.Meaning
import ContractLang.Proofs.Realizing
import ContractLang.Proofs.Resolving
import ContractLang.Proofs.Spelling
import ContractLang.Proofs.Elaborated
import ContractLang.Proofs.Accepting
import ContractLang.Proofs.Naming
import ContractLang.Proofs.Modular
import ContractLang.Proofs.Outcome
import ContractLang.Proofs.Reordering
import ContractLang.Proofs.Conversion
import ContractLang.Proofs.Nameless
import ContractLang.Proofs.Reading
import ContractLang.Proofs.Alpha
import ContractLang.Proofs.Visibility
import ContractLang.Proofs.Known
import ContractLang.Proofs.Replaying
import ContractLang.Proofs.Resolvable
import ContractLang.Proofs.RootCauses
import ContractLang.Proofs.Layout
import ContractLang.Proofs.InternalTypes
import ContractLang.Proofs.Printing
import ContractLang.Proofs.History
import ContractLang.Proofs.Assembly
