import StrataShell.Disk.Snapshot
import StrataShell.Json.Tree
import StrataShell.Main
import StrataShell.Proofs.Path
import StrataShell.Proofs.Dir
import StrataShell.Proofs.Growth
import StrataShell.Proofs.FileSystem
import StrataShell.Proofs.Dispatch
import StrataShell.Proofs.Run
import StrataShell.Proofs.Journal
import StrataShell.Proofs.CurrentPath
import StrataShell.Proofs.Separation
import StrataShell.Proofs.Agreement
import StrataShell.Proofs.Overlay
import StrataShell.Proofs.Text.Blank
import StrataShell.Proofs.Transcript
import StrataShell.Proofs.Entering
import StrataShell.Proofs.Json.Presentation
import StrataShell.Proofs.Requests
import StrataShell.Proofs.Content.Address
import StrataShell.Proofs.Confinement
import StrataShell.Proofs.Returning
import StrataShell.Proofs.Independence
import StrataShell.Proofs.Shape
import StrataShell.Proofs.Assignments
import StrataShell.Proofs.Text.Lines
import StrataShell.Proofs.Words
import StrataShell.Proofs.Piped
import StrataShell.Proofs.OneLine
import StrataShell.Proofs.Content.Below
import StrataShell.Proofs.Content.Rooted
import StrataShell.Proofs.Listing
import StrataShell.Proofs.Commuting
import StrataShell.Proofs.Creation
import StrataShell.Proofs.Path.Canonical
import StrataShell.Proofs.Dir.Insertion
