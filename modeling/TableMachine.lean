import TableMachine.Code.Builder
import TableMachine.Code.Chunk
import TableMachine.Code.Constant
import TableMachine.Code.Listing
import TableMachine.Code.Opcode
import TableMachine.Code.Program
import TableMachine.Command.Demand
import TableMachine.Command.Options
import TableMachine.Command.Run
import TableMachine.Database.Basic
import TableMachine.Database.Script
import TableMachine.Database.Statement
import TableMachine.Database.Token
import TableMachine.Dictionary
import TableMachine.Export
import TableMachine.Fault
import TableMachine.Fault.Cause
import TableMachine.Fault.ErrorType
import TableMachine.Files
import TableMachine.Machine.Call
import TableMachine.Machine.Dispatch
import TableMachine.Machine.Host
import TableMachine.Machine.Run
import TableMachine.Machine.Snapshot
import TableMachine.Machine.Stack
import TableMachine.Machine.State
import TableMachine.Machine.Step
import TableMachine.Main
import TableMachine.Manifest
import TableMachine.Memo
import TableMachine.Native.Builtin
import TableMachine.Native.Probe
import TableMachine.Number.Basic
import TableMachine.Number.Decimal
import TableMachine.Number.Display
import TableMachine.Number.Narrow
import TableMachine.Number.Power
import TableMachine.Number.Scientific
import TableMachine.Operation.Arithmetic
import TableMachine.Operation.Element
import TableMachine.Path
import TableMachine.Path.Ascent
import TableMachine.Proofs.Brackets
import TableMachine.Proofs.Catching
import TableMachine.Proofs.Dispatch
import TableMachine.Proofs.GoodValues
import TableMachine.Proofs.Instruction
import TableMachine.Proofs.Loading
import TableMachine.Proofs.Natives
import TableMachine.Proofs.References
import TableMachine.Proofs.Restoring
import TableMachine.Proofs.Slots
import TableMachine.Proofs.Stack
import TableMachine.Proofs.Transition
import TableMachine.Proofs.Unbroken
import TableMachine.Text.Basic
import TableMachine.Text.Printable
import TableMachine.Text.Quoted
import TableMachine.Text.Utf8
import TableMachine.Toml.Draft
import TableMachine.Toml.Literal
import TableMachine.Toml.Moment
import TableMachine.Toml.Quoted
import TableMachine.Toml.Reader
import TableMachine.Toml.Statement
import TableMachine.Toml.Value
import TableMachine.Value.Basic
import TableMachine.Value.Clone
import TableMachine.Value.Equality
import TableMachine.Value.Heap
import TableMachine.Value.Render
import TableMachine.Value.Table
import TableMachine.Wire.Artifact
import TableMachine.Wire.Decode
import TableMachine.Wire.Encode
import TableMachine.Wire.Item
import TableMachine.Wire.Reader
import TableMachine.Proofs.Returning
import TableMachine.Proofs.MemoKeys
import TableMachine.Proofs.Memos
import TableMachine.Proofs.Remembering
import TableMachine.Proofs.Items
import TableMachine.Proofs.Decoding
import TableMachine.Proofs.Storing
import TableMachine.Proofs.Clearing
import TableMachine.Proofs.Replaying
import TableMachine.Proofs.Caching
import TableMachine.Proofs.Framing
import TableMachine.Proofs.Delimiting
import TableMachine.Proofs.Recoding
import TableMachine.Proofs.Visiting
import TableMachine.Proofs.Copying
import TableMachine.Proofs.Isolation
import TableMachine.Proofs.Exclusion
import TableMachine.Proofs.Reentry
import TableMachine.Proofs.Building
import TableMachine.Proofs.Emitting
import TableMachine.Proofs.Jumps
import TableMachine.Proofs.Lines
import TableMachine.Proofs.Tables
import TableMachine.Proofs.Columns
import TableMachine.Proofs.Leftovers
import TableMachine.Proofs.Tracing
import TableMachine.Proofs.Legibility
import TableMachine.Proofs.Listing
import TableMachine.Proofs.Equality
import TableMachine.Proofs.Captures
import TableMachine.Proofs.Database
import TableMachine.Proofs.Files
import TableMachine.Proofs.Exporting
import TableMachine.Proofs.Globals
import TableMachine.Proofs.Cells
import TableMachine.Proofs.Headers
import TableMachine.Proofs.Inert
import TableMachine.Proofs.Declaring
import TableMachine.Proofs.Listable
import TableMachine.Proofs.Indexing
import TableMachine.Proofs.Replacing
import TableMachine.Proofs.Paths
import TableMachine.Proofs.Searching
import TableMachine.Proofs.Quoting
import TableMachine.Proofs.Effects
import TableMachine.Proofs.Affinities
import TableMachine.Proofs.Dictionaries
