import ClassGraft.Main
import ClassGraft.Proofs.Alignment.Bounds
import ClassGraft.Proofs.Alignment.Confined
import ClassGraft.Proofs.Alignment.Cursors
import ClassGraft.Proofs.Alignment.Delimited
import ClassGraft.Proofs.Alignment.Drift
import ClassGraft.Proofs.Alignment.Itself
import ClassGraft.Proofs.Alignment.Matched
import ClassGraft.Proofs.Alignment.Pairs
import ClassGraft.Proofs.Alignment.Steady
import ClassGraft.Proofs.Codec.ClassFile
import ClassGraft.Proofs.Codec.Constant
import ClassGraft.Proofs.Codec.Ending
import ClassGraft.Proofs.Codec.Limits
import ClassGraft.Proofs.Codec.Member
import ClassGraft.Proofs.Codec.Pool
import ClassGraft.Proofs.Extraction
import ClassGraft.Proofs.Frames
import ClassGraft.Proofs.Hex
import ClassGraft.Proofs.Instruction
import ClassGraft.Proofs.Instruction.Operands
import ClassGraft.Proofs.Instruction.Walk
import ClassGraft.Proofs.Layout
import ClassGraft.Proofs.Layout.Grammar
import ClassGraft.Proofs.Layout.Reading
import ClassGraft.Proofs.Method.CodeContents
import ClassGraft.Proofs.Method.Course
import ClassGraft.Proofs.Method.Decoding
import ClassGraft.Proofs.Method.Normal
import ClassGraft.Proofs.Method.Parsing
import ClassGraft.Proofs.Method.Records
import ClassGraft.Proofs.Method.Stored
import ClassGraft.Proofs.MethodMap
import ClassGraft.Proofs.MethodTable
import ClassGraft.Proofs.OffsetTable
import ClassGraft.Proofs.OffsetTable.Calls
import ClassGraft.Proofs.Patch.Again
import ClassGraft.Proofs.Patch.Checked
import ClassGraft.Proofs.Patch.Compared
import ClassGraft.Proofs.Patch.Drift
import ClassGraft.Proofs.Patch.Edits
import ClassGraft.Proofs.Patch.Frame
import ClassGraft.Proofs.Patch.FullTables
import ClassGraft.Proofs.Patch.Identity
import ClassGraft.Proofs.Patch.Independent
import ClassGraft.Proofs.Patch.Neutral
import ClassGraft.Proofs.Patch.OwnReference
import ClassGraft.Proofs.Patch.Reported
import ClassGraft.Proofs.Patch.Stages
import ClassGraft.Proofs.Patch.Succeeding
import ClassGraft.Proofs.Patch.Written
import ClassGraft.Proofs.Pool.Answers
import ClassGraft.Proofs.Pool.Entries
import ClassGraft.Proofs.Pool.Growing
import ClassGraft.Proofs.Pool.Indices
import ClassGraft.Proofs.Pool.Interning
import ClassGraft.Proofs.Pool.Missing
import ClassGraft.Proofs.Pool.References
import ClassGraft.Proofs.Signature
import ClassGraft.Proofs.Text.Lossless
import ClassGraft.Proofs.Transfer.Alike
import ClassGraft.Proofs.Transfer.Calls
import ClassGraft.Proofs.Transfer.Canonical
import ClassGraft.Proofs.Transfer.Closed
import ClassGraft.Proofs.Transfer.Constant
import ClassGraft.Proofs.Transfer.Contents
import ClassGraft.Proofs.Transfer.CopiedMethod
import ClassGraft.Proofs.Transfer.Ensures
import ClassGraft.Proofs.Transfer.Instructions
import ClassGraft.Proofs.Transfer.Itself
import ClassGraft.Proofs.Transfer.Method
import ClassGraft.Proofs.Transfer.Missing
import ClassGraft.Proofs.Transfer.Nesting
import ClassGraft.Proofs.Transfer.Reached
import ClassGraft.Proofs.Transfer.Resolving
import ClassGraft.Proofs.Transfer.Sizes
import ClassGraft.Proofs.Transfer.Slots
import ClassGraft.Proofs.Transfer.Steps
import ClassGraft.Proofs.TwoRuns
