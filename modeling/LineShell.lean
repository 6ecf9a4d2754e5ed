import LineShell.CommandLine
import LineShell.Host.Basic
import LineShell.Main
import LineShell.Proofs.Alias.Chain
import LineShell.Proofs.Alias.OrderedMap
import LineShell.Proofs.Command.Explicit
import LineShell.Proofs.Command.Places
import LineShell.Proofs.Command.Precedence
import LineShell.Proofs.Directory
import LineShell.Proofs.Environment
import LineShell.Proofs.Environment.Delivery
import LineShell.Proofs.ExitNumber
import LineShell.Proofs.Failure
import LineShell.Proofs.History
import LineShell.Proofs.History.File
import LineShell.Proofs.Inheritance
import LineShell.Proofs.Line.Comment
import LineShell.Proofs.Line.Operators
import LineShell.Proofs.Line.Place
import LineShell.Proofs.Line.Segments
import LineShell.Proofs.Line.Words
import LineShell.Proofs.Names
import LineShell.Proofs.Output
import LineShell.Proofs.Readers
import LineShell.Proofs.Shell.Blanks
import LineShell.Proofs.Shell.Children
import LineShell.Proofs.Shell.Continuity
import LineShell.Proofs.Shell.Course
import LineShell.Proofs.Shell.Ending
import LineShell.Proofs.Shell.Idle
import LineShell.Proofs.Shell.Invariant
import LineShell.Proofs.Shell.Loop
import LineShell.Proofs.Shell.Order
import LineShell.Proofs.Shell.Persistence
import LineShell.Proofs.Shell.Prompts
import LineShell.Proofs.Shell.Recall
import LineShell.Proofs.Shell.Reports
import LineShell.Proofs.Shell.Tally
import LineShell.Proofs.Shell.Unread
import LineShell.Proofs.Text.Lines
import LineShell.Proofs.Text.Pieces
import LineShell.Proofs.Words
