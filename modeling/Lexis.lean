import Lexis.Cursor.Session
import Lexis.Files.Tree
import Lexis.Main
import Lexis.Proofs.Dump.Json
import Lexis.Proofs.Dump.Text
import Lexis.Proofs.Run.AllOrNothing
import Lexis.Proofs.Scan.Blanking
import Lexis.Proofs.Scan.LineEnds
import Lexis.Proofs.Scan.Reprint
import Lexis.Proofs.Scan.Safety
import Lexis.Proofs.Cursor.Split
import Lexis.Proofs.Cursor.Traced
import Lexis.Proofs.Scan.Traced
import Lexis.Proofs.Scan.Progress
import Lexis.Proofs.Run.Limits
import Lexis.Proofs.Run.Diagnostics
import Lexis.Proofs.CommandLine.Variables
import Lexis.Proofs.CommandLine.Wordings
import Lexis.Proofs.Settings.Layout
import Lexis.Proofs.Toml.Range
import Lexis.Proofs.Run.Flags
import Lexis.Proofs.Cursor.Peek
import Lexis.Proofs.Files.Source
import Lexis.Proofs.Number.Nearest
import Lexis.Proofs.Number.Value
import Lexis.Proofs.Run.Trace
import Lexis.Run.Environment
import Lexis.Proofs.Run.Configuration
import Lexis.Proofs.Run.Errors
import Lexis.Proofs.Dump.Form
