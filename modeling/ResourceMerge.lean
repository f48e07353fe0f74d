import ResourceMerge.Binary.BigEndian
import ResourceMerge.Binary.Checksum
import ResourceMerge.Binary.Cursor
import ResourceMerge.ClassFile.Access
import ResourceMerge.ClassFile.Basic
import ResourceMerge.ClassFile.ClassDraft
import ResourceMerge.ClassFile.Constant
import ResourceMerge.ClassFile.ConstantPool
import ResourceMerge.ClassFile.MethodBody
import ResourceMerge.ClassFile.PoolDraft
import ResourceMerge.CommandLine.Arguments
import ResourceMerge.CommandLine.Program
import ResourceMerge.Error
import ResourceMerge.Failure
import ResourceMerge.Files.Branch
import ResourceMerge.Files.Host
import ResourceMerge.Files.OsError
import ResourceMerge.Files.Path
import ResourceMerge.Files.Tree
import ResourceMerge.Glob.Automaton
import ResourceMerge.Glob.Expression
import ResourceMerge.Glob.Fault
import ResourceMerge.Glob.Form
import ResourceMerge.Glob.Limits
import ResourceMerge.Glob.Parse
import ResourceMerge.Glob.Pattern
import ResourceMerge.Glob.Positions
import ResourceMerge.Glob.Shape
import ResourceMerge.Glob.Subject
import ResourceMerge.Harvest
import ResourceMerge.Initializer
import ResourceMerge.Inspect
import ResourceMerge.Instruction.Basic
import ResourceMerge.Instruction.Listing
import ResourceMerge.Instruction.Opcode
import ResourceMerge.Instruction.StackDepth
import ResourceMerge.Main
import ResourceMerge.Merge
import ResourceMerge.MergedClass
import ResourceMerge.NameFilter
import ResourceMerge.Proofs.Acceptance
import ResourceMerge.Proofs.ArrayCode
import ResourceMerge.Proofs.ArrayReplay
import ResourceMerge.Proofs.BodyDecoding
import ResourceMerge.Proofs.BodyRoundTrip
import ResourceMerge.Proofs.BuildFailures
import ResourceMerge.Proofs.CallHistory
import ResourceMerge.Proofs.ClassDecoding
import ResourceMerge.Proofs.ClassDelimiting
import ResourceMerge.Proofs.ClassLayout
import ResourceMerge.Proofs.ClassOpening
import ResourceMerge.Proofs.ClassOutline
import ResourceMerge.Proofs.ClassReading
import ResourceMerge.Proofs.ClassRequests
import ResourceMerge.Proofs.ClassSteps
import ResourceMerge.Proofs.CodeLayout
import ResourceMerge.Proofs.CompiledArrays
import ResourceMerge.Proofs.CursorHistory
import ResourceMerge.Proofs.Delimiting
import ResourceMerge.Proofs.Durations
import ResourceMerge.Proofs.FieldNames
import ResourceMerge.Proofs.FirstAppearance
import ResourceMerge.Proofs.FirstFailure
import ResourceMerge.Proofs.GlobMatching
import ResourceMerge.Proofs.InitializerCode
import ResourceMerge.Proofs.Insertion
import ResourceMerge.Proofs.InterspersedCode
import ResourceMerge.Proofs.Joining
import ResourceMerge.Proofs.MemberCounts
import ResourceMerge.Proofs.MergeLaws
import ResourceMerge.Proofs.MergeRuns
import ResourceMerge.Proofs.MergedExecution
import ResourceMerge.Proofs.MergedHarvest
import ResourceMerge.Proofs.MergedMembers
import ResourceMerge.Proofs.MergedUnion
import ResourceMerge.Proofs.MixedData
import ResourceMerge.Proofs.OperandKinds
import ResourceMerge.Proofs.Outcome
import ResourceMerge.Proofs.PlainGlobs
import ResourceMerge.Proofs.PoolBodies
import ResourceMerge.Proofs.PoolContents
import ResourceMerge.Proofs.PoolHistory
import ResourceMerge.Proofs.PoolItems
import ResourceMerge.Proofs.PoolLayout
import ResourceMerge.Proofs.PoolListing
import ResourceMerge.Proofs.PoolLookup
import ResourceMerge.Proofs.PoolRequests
import ResourceMerge.Proofs.PoolRoundTrip
import ResourceMerge.Proofs.PoolSlots
import ResourceMerge.Proofs.Publication
import ResourceMerge.Proofs.Reading
import ResourceMerge.Proofs.Remerge
import ResourceMerge.Proofs.Replay
import ResourceMerge.Proofs.ReplaySteps
import ResourceMerge.Proofs.Rounding
import ResourceMerge.Proofs.Script
import ResourceMerge.Proofs.SharedTable
import ResourceMerge.Proofs.Simulation
import ResourceMerge.Proofs.SingleSteps
import ResourceMerge.Proofs.StackBalance
import ResourceMerge.Proofs.StagedMerge
import ResourceMerge.Proofs.StepHistory
import ResourceMerge.Proofs.SwitchBounds
import ResourceMerge.Proofs.TableHistory
import ResourceMerge.Proofs.TreeChanges
import ResourceMerge.Proofs.Utf8
import ResourceMerge.Proofs.VirtualMachine
import ResourceMerge.Proofs.Ways
import ResourceMerge.Settings.Basic
import ResourceMerge.Settings.File
import ResourceMerge.Settings.Toml
import ResourceMerge.Symbols.Document
import ResourceMerge.Symbols.Registry
import ResourceMerge.Symbols.SymbolTable
import ResourceMerge.Text.Blank
import ResourceMerge.Text.Duration
import ResourceMerge.Text.Invisible
import ResourceMerge.Text.Json
import ResourceMerge.Text.Numeral
import ResourceMerge.Text.Quoted
import ResourceMerge.Text.Rounding
import ResourceMerge.Text.Utf8
