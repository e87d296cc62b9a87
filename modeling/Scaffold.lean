import Scaffold.Main
import Scaffold.Proofs.Agreement
import Scaffold.Proofs.DryRuns
import Scaffold.Proofs.Neighbours
import Scaffold.Proofs.Restorations
import Scaffold.Proofs.StalePlans
import Scaffold.Tree.Faulty
import Scaffold.Tree.Memory
import Scaffold.Proofs.Grammar
import Scaffold.Proofs.Java.Grammar
import Scaffold.Proofs.Angles
import Scaffold.Proofs.Java.Syntax
import Scaffold.Proofs.Nestings
import Scaffold.Proofs.Searches
import Scaffold.Proofs.Java.Types
import Scaffold.Proofs.Java.Shapes
import Scaffold.Proofs.Java.Members
import Scaffold.Proofs.Java.Declarations
import Scaffold.Proofs.Java.Components
import Scaffold.Proofs.Java.Scans
import Scaffold.Proofs.Java.Resolved
import Scaffold.Proofs.Java.Fields
import Scaffold.Proofs.Recognition
import Scaffold.Proofs.Java.Lexing
import Scaffold.Proofs.Packages
import Scaffold.Proofs.Languages
import Scaffold.Proofs.Java.Artifacts
import Scaffold.Proofs.Interchanges
import Scaffold.Proofs.Reruns
import Scaffold.Proofs.Retries
import Scaffold.Proofs.Placements
import Scaffold.Proofs.MemorySpellings
import Scaffold.Proofs.Sessions
import Scaffold.Proofs.AbsolutePaths
import Scaffold.Proofs.Arguments
import Scaffold.Proofs.ConfigFiles
import Scaffold.Proofs.Flags
import Scaffold.Proofs.DeepestRoots
import Scaffold.Proofs.Layouts
import Scaffold.Proofs.Subdirectories
import Scaffold.Proofs.WrittenForms
import Scaffold.Proofs.TemporaryPlaces
import Scaffold.Proofs.PossibleTrees
import Scaffold.Proofs.References
import Scaffold.Proofs.ImportedNames
import Scaffold.Proofs.Preorders
import Scaffold.Proofs.DataClasses
import Scaffold.Proofs.Gaps
import Scaffold.Proofs.Java.Spacings
import Scaffold.Proofs.Java.Verbatim
import Scaffold.Proofs.Java.Comments
import Scaffold.Proofs.Kotlin.Fields
