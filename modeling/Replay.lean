import Replay.Main
import Replay.Proofs.Trace.Rewriting
import Replay.Proofs.Trace.Patterns
import Replay.Proofs.Trace.Addresses
import Replay.Proofs.Trace.Shapes
import Replay.Proofs.Trace.Lines
import Replay.Proofs.Trace.Settled
import Replay.Proofs.Trace.WellFormed
import Replay.Proofs.TestFile.Declarations
import Replay.Proofs.TestFile.NextName
import Replay.Proofs.TestFile.Seams
import Replay.Proofs.TestFile.Runs
import Replay.Proofs.TestFile.RunNames
import Replay.Proofs.TestFile.Reading
import Replay.Proofs.TestFile.StructuralRuns
import Replay.Proofs.Deploy.Contents
import Replay.Proofs.Files.Frames
import Replay.Proofs.Files.Scripts
import Replay.Proofs.Files.Conversion
import Replay.Proofs.TestFile.Zones
import Replay.Proofs.TestFile.Balance
import Replay.Proofs.Deploy.Rebuild
import Replay.Proofs.Text.Expression
import Replay.Proofs.Trace.Expressions
import Replay.Proofs.Trace.LineByLine
import Replay.Proofs.Trace.Convergence
import Replay.Proofs.Trace.LineEndings
import Replay.Proofs.Trace.MatchedLines
import Replay.Proofs.TestFile.Places
import Replay.Proofs.TestFile.Filling
import Replay.Proofs.TestFile.Strategies
import Replay.Proofs.Deploy.Faults
import Replay.Proofs.Deploy.Loading
import Replay.Proofs.Json.Tokens
import Replay.Proofs.Deploy.BookText
import Replay.Proofs.Checksum
import Replay.Proofs.Deploy.Respelling
import Replay.Proofs.Deploy.TokenNames
import Replay.Proofs.Deploy.RecordPaths
import Replay.Proofs.Toml.Keys
import Replay.Proofs.Config.Fields
import Replay.Proofs.Config.Overlay
