import Quartet.Assembly.Assembler
import Quartet.Assembly.Diagnostic
import Quartet.Assembly.Encoding
import Quartet.Assembly.Layout
import Quartet.Assembly.SymbolTable
import Quartet.Bytes
import Quartet.CommandLine.Flags
import Quartet.CommandLine.Invocation
import Quartet.CommandLine.Run
import Quartet.Files.Error
import Quartet.Files.Tree
import Quartet.Image
import Quartet.Journal
import Quartet.Listing
import Quartet.Machine.Basic
import Quartet.Machine.Run
import Quartet.Machine.Step
import Quartet.Main
import Quartet.Opcode
import Quartet.Output.Writer
import Quartet.Proofs.Access.Assembly
import Quartet.Proofs.Access.Listing
import Quartet.Proofs.Access.Machine
import Quartet.Proofs.Access.Parser
import Quartet.Proofs.Access.Session
import Quartet.Proofs.Assembly.Acceptance
import Quartet.Proofs.Assembly.Addresses
import Quartet.Proofs.Assembly.Appending
import Quartet.Proofs.Assembly.Declarations
import Quartet.Proofs.Assembly.Diagnostics
import Quartet.Proofs.Assembly.LoadedLabels
import Quartet.Proofs.Assembly.Reassembly
import Quartet.Proofs.Assembly.Reuse
import Quartet.Proofs.Assembly.Simulation
import Quartet.Proofs.Assembly.Strings
import Quartet.Proofs.Assembly.Unlabelled
import Quartet.Proofs.CommandLine.SavedImages
import Quartet.Proofs.Files.Writing
import Quartet.Proofs.Machine.Bounds
import Quartet.Proofs.Machine.Division
import Quartet.Proofs.Machine.Faults
import Quartet.Proofs.Machine.Loading
import Quartet.Proofs.Machine.Ownership
import Quartet.Proofs.Machine.Reachable
import Quartet.Proofs.Machine.Restart
import Quartet.Proofs.Output.Listing
import Quartet.Proofs.Output.Truncation
import Quartet.Proofs.Session.Accepted
import Quartet.Proofs.Session.Batch
import Quartet.Proofs.Session.Forgetting
import Quartet.Proofs.Session.HexInput
import Quartet.Proofs.Session.Truncation
import Quartet.Proofs.Source.Beginnings
import Quartet.Proofs.Source.Completeness
import Quartet.Proofs.Source.Frames
import Quartet.Proofs.Source.Grammar
import Quartet.Proofs.Source.Joining
import Quartet.Proofs.Source.Lines
import Quartet.Proofs.Source.Mnemonics
import Quartet.Proofs.Source.Outcomes
import Quartet.Proofs.Source.Places
import Quartet.Proofs.Source.Printing
import Quartet.Proofs.Source.Soundness
import Quartet.Proofs.Text.Utf8
import Quartet.Session.Basic
import Quartet.Session.Request
import Quartet.Session.Run
import Quartet.Source.Cursor
import Quartet.Source.Parser
import Quartet.Source.Record
import Quartet.Text.Characters
import Quartet.Text.Glyph
