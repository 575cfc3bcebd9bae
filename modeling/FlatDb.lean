import FlatDb.Command.Print
import FlatDb.Main
import FlatDb.Memory
import FlatDb.Run
import FlatDb.Proofs.Names
import FlatDb.Proofs.Paths
import FlatDb.Proofs.Pieces
import FlatDb.Proofs.Operations
import FlatDb.Proofs.Plans
import FlatDb.Proofs.Failure
import FlatDb.Proofs.Readable
import FlatDb.Proofs.Codec
import FlatDb.Proofs.Tables
import FlatDb.Proofs.Counters
import FlatDb.Proofs.Contents
import FlatDb.Proofs.Mirror
import FlatDb.Proofs.Steps
import FlatDb.Proofs.Reachable
import FlatDb.Proofs.Listings
import FlatDb.Proofs.Ids
import FlatDb.Proofs.Transparency
import FlatDb.Command.Grammar
import FlatDb.Proofs.Grammar
import FlatDb.Token.Spelling
import FlatDb.Command.WellFormed
import FlatDb.Proofs.Scanning
import FlatDb.Proofs.Printing
import FlatDb.Proofs.Insertion
import FlatDb.Proofs.Lawful
import FlatDb.Proofs.Effects
import FlatDb.Proofs.Bytes
import FlatDb.Proofs.OneLine
import FlatDb.Proofs.Responses
import FlatDb.Proofs.Framing
import FlatDb.Proofs.Checked.Basic
import FlatDb.Proofs.Checked.Lexer
import FlatDb.Proofs.Checked.Parser
import FlatDb.Proofs.Checked.Tables
import FlatDb.Proofs.Checked.Engine
import FlatDb.Proofs.Limits
import FlatDb.Proofs.Sessions
import FlatDb.Proofs.Blanks
import FlatDb.Proofs.Clients
import FlatDb.Proofs.Capitals
import FlatDb.Proofs.Views
import FlatDb.Proofs.Independence
import FlatDb.Proofs.Judging
import FlatDb.Proofs.Revising
import FlatDb.Proofs.Deletion
import FlatDb.Proofs.Updating
import FlatDb.Proofs.Selecting
import FlatDb.Proofs.Joining
import FlatDb.Proofs.Altering
import FlatDb.Proofs.Appending
import FlatDb.Proofs.RowIds
import FlatDb.Proofs.Rearranging
import FlatDb.Proofs.Containing
import FlatDb.Proofs.Rounding
import FlatDb.Proofs.Comparing
import FlatDb.Proofs.Coherence
import FlatDb.Proofs.Sequences
import FlatDb.Proofs.Allocation
import FlatDb.Proofs.Records
import FlatDb.Proofs.Longest
import FlatDb.Proofs.Tiling
import FlatDb.Proofs.Spacing
import FlatDb.Proofs.Viable
import FlatDb.Proofs.Completing
import FlatDb.Proofs.Refusals
import FlatDb.Proofs.Reading
import FlatDb.Proofs.Atomicity
