import MiniScheme.Arity
import MiniScheme.CallStack
import MiniScheme.Counters
import MiniScheme.Datum
import MiniScheme.Decimal.Shortest
import MiniScheme.Double
import MiniScheme.Equality
import MiniScheme.Error
import MiniScheme.Forms.Binding
import MiniScheme.Forms.Control
import MiniScheme.Forms.Operands
import MiniScheme.Interpreter
import MiniScheme.Machine
import MiniScheme.Main
import MiniScheme.Native.Basic
import MiniScheme.Printer
import MiniScheme.Procedures.Application
import MiniScheme.Procedures.Arguments
import MiniScheme.Procedures.Arithmetic
import MiniScheme.Procedures.Lists
import MiniScheme.Procedures.Predicates
import MiniScheme.Procedures.Strings
import MiniScheme.Proofs.Machine.Run
import MiniScheme.Reader.Atom
import MiniScheme.Reader.Basic
import MiniScheme.Reader.Error
import MiniScheme.Session
import MiniScheme.Shell.Command
import MiniScheme.Shell.Files
import MiniScheme.Shell.Options
import MiniScheme.Standard
import MiniScheme.Store.Basic
import MiniScheme.Store.Describe
import MiniScheme.Store.Environment
import MiniScheme.Store.Errors
import MiniScheme.Store.Lists
import MiniScheme.Store.Sharing
import MiniScheme.Symbol
import MiniScheme.SymbolTable
import MiniScheme.Text.Blank
import MiniScheme.Text.CodePoint
import MiniScheme.Text.Cursor
import MiniScheme.Text.Extending
import MiniScheme.Text.Quoted
import MiniScheme.Text.Revealed
import MiniScheme.Text.Unprintable
import MiniScheme.Value
import MiniScheme.Word
import MiniScheme.Proofs.Machine.CallStack
import MiniScheme.Proofs.SymbolTable.Probing
import MiniScheme.Proofs.SymbolTable.Interning
import MiniScheme.Proofs.Printer.Walk
import MiniScheme.Proofs.Printer.Sharing
import MiniScheme.Proofs.Reader.Atom
import MiniScheme.Proofs.Reader.Steps
import MiniScheme.Proofs.Reader.Lists
import MiniScheme.Proofs.Reader.RoundTrip
import MiniScheme.Proofs.Reader.Grammar
import MiniScheme.Proofs.SymbolTable.Growth
import MiniScheme.Proofs.Reader.Descent
import MiniScheme.Proofs.Reader.Faults
import MiniScheme.Proofs.Reader.Ahead
import MiniScheme.Proofs.Reader.Again
import MiniScheme.Proofs.Machine.Symbols
import MiniScheme.Proofs.Session.Runs
import MiniScheme.Proofs.Session.Lines
import MiniScheme.Proofs.Native.Rules
import MiniScheme.Proofs.Native.Standard
import MiniScheme.Proofs.Interpreter.Definitions
import MiniScheme.Proofs.Machine.Rules
import MiniScheme.Proofs.Machine.DepthLimit
import MiniScheme.Proofs.Machine.Locality
import MiniScheme.Proofs.Alike.Stores
import MiniScheme.Proofs.SymbolTable.Vacancy
import MiniScheme.Proofs.Alike.Views
import MiniScheme.Proofs.Alike.Native
import MiniScheme.Proofs.Alike.Forms
import MiniScheme.Proofs.Alike.Standard
import MiniScheme.Proofs.Alike.Tables
import MiniScheme.Proofs.Alike.Machine
import MiniScheme.Proofs.Alike.Reader
import MiniScheme.Proofs.Alike.Interpreter
import MiniScheme.Proofs.Alike.Building
import MiniScheme.Proofs.Integrity
import MiniScheme.Proofs.SharedSymbols
import MiniScheme.Proofs.OneSymbol
import MiniScheme.Proofs.Store.ListLength
import MiniScheme.Proofs.Store.Equality
import MiniScheme.Proofs.Printer.Ending
import MiniScheme.Proofs.Machine.Watched
import MiniScheme.Proofs.Profiling
import MiniScheme.Proofs.SymbolTable.Ledger
import MiniScheme.Proofs.Store.Environments
import MiniScheme.Proofs.SymbolTable.Refusal
import MiniScheme.Proofs.Store.Digest
import MiniScheme.Proofs.Machine.Sequencing
import MiniScheme.Proofs.Machine.Alongside
import MiniScheme.Proofs.Machine.Application
import MiniScheme.Proofs.Machine.Operands
import MiniScheme.Proofs.Native.Syntax
import MiniScheme.Proofs.Native.Malformed
import MiniScheme.Proofs.Native.TailPosition
import MiniScheme.Proofs.Machine.TailTransfers
import MiniScheme.Proofs.Interpreter.StandardNames
import MiniScheme.Proofs.Store.Spelling
import MiniScheme.Proofs.Interpreter.CountUp
import MiniScheme.Proofs.TailCalls
import MiniScheme.Proofs.Store.Holders
import MiniScheme.Proofs.Machine.FormEvaluation
import MiniScheme.Proofs.Machine.Definition
import MiniScheme.Proofs.Machine.NestedLet
import MiniScheme.Proofs.Machine.Conditionals
import MiniScheme.Proofs.Alike.References
import MiniScheme.Proofs.Machine.Underneath
import MiniScheme.Proofs.Alike.Texts
import MiniScheme.Proofs.Alike.Spare
import MiniScheme.Proofs.Alike.Lockstep
import MiniScheme.Proofs.Machine.LetAsLambda
import MiniScheme.Proofs.Reader.Displacement
import MiniScheme.Proofs.Reader.Progress
import MiniScheme.Proofs.Store.NewFrame
import MiniScheme.Proofs.Native.Parameters
import MiniScheme.Proofs.Reader.Completing
import MiniScheme.Proofs.Session.Pending
import MiniScheme.Proofs.Reader.Classification
import MiniScheme.Proofs.Text.PutBack
import MiniScheme.Proofs.Native.Concatenation
import MiniScheme.Proofs.Native.Arithmetic
import MiniScheme.Proofs.Machine.Metering
import MiniScheme.Proofs.Interpreter.Profile
