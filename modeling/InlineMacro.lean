import InlineMacro.Json.Parser
import InlineMacro.Main
import InlineMacro.Proofs.Labels
import InlineMacro.Proofs.Parser.GrammarTermination
import InlineMacro.Proofs.Parser.VisibleNames
import InlineMacro.Proofs.Pass.DeclarationOrder
import InlineMacro.Proofs.Pass.FlatteningOrder
import InlineMacro.Proofs.Pass.MacroText
import InlineMacro.Proofs.Pass.NormalizeNames
import InlineMacro.Proofs.Pass.NormalizeTwice
import InlineMacro.Proofs.Pass.RenameHeads
import InlineMacro.Proofs.Preprocessor.IncludeStack
import InlineMacro.Proofs.Preprocessor.WrittenMarkers
import InlineMacro.Proofs.Recorder
import InlineMacro.Proofs.Run.Arguments
import InlineMacro.Proofs.Run.BlockForm
import InlineMacro.Proofs.Run.ExpansionOrder
import InlineMacro.Proofs.Run.InvocationReading
import InlineMacro.Proofs.Run.PrintedNames
import InlineMacro.Proofs.Run.TypeBodies
import InlineMacro.Proofs.Run.TypeTests
import InlineMacro.Proofs.Scope.AliasStack
import InlineMacro.Proofs.Semantics.ReturnElimination
import InlineMacro.Proofs.Syntax.Visits
import InlineMacro.Syntax.Decoding
