import Scriptlet.Text.Printable
import Scriptlet.Text.Quoted
import Scriptlet.Syntax.Token
import Scriptlet.Syntax.Scanner
import Scriptlet.Syntax.Tree
import Scriptlet.Syntax.Parser
import Scriptlet.Syntax.Printer
import Scriptlet.Number.Shortest
import Scriptlet.Number.Notation
import Scriptlet.Number.Reading
import Scriptlet.Value
import Scriptlet.Fault
import Scriptlet.Store
import Scriptlet.Eval
import Scriptlet.Session
import Scriptlet.Main
import Scriptlet.Proofs.Lockstep
import Scriptlet.Proofs.Frames
import Scriptlet.Proofs.Locality
import Scriptlet.Proofs.Reading
import Scriptlet.Proofs.Lexemes
import Scriptlet.Proofs.Printed
import Scriptlet.Proofs.ReadBack
import Scriptlet.Proofs.Scanning
import Scriptlet.Proofs.Rendering
import Scriptlet.Proofs.Segmenting
import Scriptlet.Proofs.Triples
import Scriptlet.Proofs.Declarations
import Scriptlet.Proofs.Constants
import Scriptlet.Proofs.Simulation
import Scriptlet.Proofs.EmptyFrames
import Scriptlet.Proofs.Braces
import Scriptlet.Proofs.ParseEnds
import Scriptlet.Proofs.Failures
import Scriptlet.Proofs.Cursors
import Scriptlet.Proofs.Offsets
import Scriptlet.Proofs.Seams
import Scriptlet.Proofs.Joining
import Scriptlet.Proofs.JoinedPrograms
import Scriptlet.Proofs.JoinedRuns
import Scriptlet.Proofs.Operations
import Scriptlet.Proofs.NumeralValues
import Scriptlet.Proofs.Layout
import Scriptlet.Proofs.LayoutInvariance
import Scriptlet.Proofs.Conversion
import Scriptlet.Proofs.DisplayReading
import Scriptlet.Proofs.ParentChains
import Scriptlet.Proofs.ParsedTrees
import Scriptlet.Proofs.DisplayRoundTrip
import Scriptlet.Proofs.NestingDepth
import Scriptlet.Proofs.SignChains
