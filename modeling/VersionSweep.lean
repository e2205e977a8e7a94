import VersionSweep.Main
import VersionSweep.Proofs.Report.HiddenDrift
import VersionSweep.Proofs.Session.Locations
import VersionSweep.Proofs.Session.TypedSettings
import VersionSweep.Proofs.Project.Coherence
import VersionSweep.Proofs.Project.JoinedPath
import VersionSweep.Proofs.Project.SpelledPath
import VersionSweep.Proofs.Output.SharedPaths
import VersionSweep.Proofs.Output.IsolatedDeclarations
import VersionSweep.Proofs.Output.ScriptRoundTrip
import VersionSweep.Proofs.Project.ImportClosure
import VersionSweep.Proofs.Typing.ImportedTypes
import VersionSweep.Proofs.Snippet.DirectiveGrammar
import VersionSweep.Proofs.Snippet.Junction
import VersionSweep.Proofs.Snippet.Conservation
import VersionSweep.Proofs.Session.UnreachedFile
import VersionSweep.Proofs.Typing.ModuleIsolation
import VersionSweep.Proofs.Session.SingleCompilation
import VersionSweep.Proofs.Session.AtomicLoading
import VersionSweep.Proofs.Language.TreeHeight
import VersionSweep.Proofs.Diagnostic.Underlines
import VersionSweep.Proofs.Diagnostic.ShownLines
import VersionSweep.Proofs.Language.SpanNesting
import VersionSweep.Proofs.Language.Concatenation
import VersionSweep.Proofs.Language.FileBreaks
import VersionSweep.Proofs.Typing.VisitingOrder
import VersionSweep.Proofs.Typing.RedeclaredNames
import VersionSweep.Proofs.Typing.NameResolution
import VersionSweep.Proofs.Output.DeclarationRoundTrip
import VersionSweep.Proofs.Output.ImportSpecifiers
import VersionSweep.Proofs.Output.WrittenPaths
import VersionSweep.Proofs.Report.LineBreakDrift
import VersionSweep.Proofs.Report.ChangeSides
import VersionSweep.Proofs.Registry.Registrations
import VersionSweep.Proofs.Diagnostic.MessageOutline
import VersionSweep.Proofs.Config.Precedence
import VersionSweep.Proofs.Language.StringTokens
import VersionSweep.Proofs.Language.Progress
