import Shading.FileTree
import Shading.Handle
import Shading.Main
import Shading.Proofs.Condition.Evaluation
import Shading.Proofs.Condition.Expansion
import Shading.Proofs.Preprocessor.Selection
import Shading.Proofs.Program.Parsing
import Shading.Proofs.Compiler.History
import Shading.Proofs.Preprocessor.Defining
import Shading.Proofs.Preprocessor.Ending
import Shading.Proofs.Preprocessor.Inclusion
import Shading.Proofs.CommandLine.Macros
import Shading.Proofs.Preprocessor.Calls
import Shading.Proofs.Program.Provenance
import Shading.Proofs.Lexeme.Exact
import Shading.Proofs.Program.Endings
import Shading.Proofs.Handle.Messages
import Shading.Proofs.Preprocessor.Chains
import Shading.Proofs.Preprocessor.Includers
import Shading.Proofs.Preprocessor.GroupReports
import Shading.Proofs.Lexeme.Recovery
import Shading.Proofs.Numeral.Longest
import Shading.Proofs.Preprocessor.Dismissal
import Shading.Proofs.Numeral.Word
import Shading.Proofs.Numeral.Decimal
import Shading.Proofs.Condition.Questions
import Shading.Proofs.Lexeme.Printing
import Shading.Proofs.Declaration.Recovery
import Shading.Proofs.Program.Faults
import Shading.Proofs.Numeral.Overflow
import Shading.Proofs.Source.Resolution
import Shading.Proofs.CommandLine.Outcomes
import Shading.Proofs.Preprocessor.Naming
import Shading.Proofs.Preprocessor.Edits
