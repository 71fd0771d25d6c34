import Arrowlet.Command
import Arrowlet.Dump
import Arrowlet.Main
import Arrowlet.Proofs.Batch.Conflict
import Arrowlet.Proofs.Batch.Extent
import Arrowlet.Proofs.Batch.Pool
import Arrowlet.Proofs.CText.Faults
import Arrowlet.Proofs.CText.Literal
import Arrowlet.Proofs.CText.Tokens
import Arrowlet.Proofs.Command.Failures
import Arrowlet.Proofs.Command.Files
import Arrowlet.Proofs.Command.Printing
import Arrowlet.Proofs.Command.Schedule
import Arrowlet.Proofs.Compile.Concatenation
import Arrowlet.Proofs.Compile.Progress
import Arrowlet.Proofs.Diagnostic.Caret
import Arrowlet.Proofs.Program.FirstMisfit
import Arrowlet.Proofs.Program.Unparsing
import Arrowlet.Proofs.Session.Store
import Arrowlet.Proofs.Token.Offsets
import Arrowlet.Proofs.Token.StrayByte
import Arrowlet.Proofs.Token.FirstFault
import Arrowlet.Proofs.Path.Extension
import Arrowlet.Proofs.Program.Unambiguous
import Arrowlet.Proofs.Dump.Stages
