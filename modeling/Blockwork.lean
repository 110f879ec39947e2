import Blockwork.Main
import Blockwork.Proofs.Compiler.SteadyRuns
import Blockwork.Proofs.Compiler.Agreement
import Blockwork.Proofs.Compiler.Assignments
import Blockwork.Proofs.Compiler.Branches
import Blockwork.Proofs.Compiler.CountingLoops
import Blockwork.Proofs.Compiler.Depth
import Blockwork.Proofs.Compiler.Loops
import Blockwork.Proofs.Compiler.Parity
import Blockwork.Proofs.Compiler.RangeLoops
import Blockwork.Proofs.Compiler.Simulation
import Blockwork.Proofs.Compiler.Slots
import Blockwork.Proofs.Compiler.StrayEscapes
import Blockwork.Proofs.Compiler.TextKinds
import Blockwork.Proofs.Compiler.ValueChains
import Blockwork.Proofs.Compiler.ValueKinds
import Blockwork.Proofs.Compiler.Values
import Blockwork.Proofs.Interpreter.OneStore
import Blockwork.Proofs.Interpreter.Steps
import Blockwork.Proofs.Number.Count
import Blockwork.Proofs.Number.Sign
import Blockwork.Proofs.Number.Text
import Blockwork.Proofs.Target.Blocks
import Blockwork.Proofs.Target.Grammar
import Blockwork.Proofs.Target.Listing
import Blockwork.Proofs.Target.ReadBack
import Blockwork.Proofs.Target.RoundTrip
import Blockwork.Proofs.Target.Rules
import Blockwork.Proofs.Target.Written
import Blockwork.Proofs.Graph.Reachable
import Blockwork.Proofs.Workspace.Building
import Blockwork.Proofs.Workspace.Acceptance
import Blockwork.Proofs.Workspace.Correspondence
import Blockwork.Proofs.Compiler.Safety
import Blockwork.Proofs.Json.Lexemes
import Blockwork.Proofs.Json.Tree
import Blockwork.Proofs.Graph.RoundTrip
import Blockwork.Proofs.Entries
import Blockwork.Proofs.Interpreter.Unmentioned
import Blockwork.Proofs.Compiler.Declarations
import Blockwork.Proofs.Json.Grammar
import Blockwork.Proofs.Json.Layout
import Blockwork.Proofs.Graph.Records
import Blockwork.Proofs.Graph.Rearrangement
import Blockwork.Proofs.Number.Doubles
import Blockwork.Proofs.Number.Rounding
import Blockwork.Proofs.Number.Scientific
import Blockwork.Proofs.Number.Shortest
import Blockwork.Proofs.Number.Numerals
import Blockwork.Proofs.Toml.Words
import Blockwork.Proofs.Toml.Strings
import Blockwork.Proofs.Toml.Values
import Blockwork.Proofs.Number.Integers
import Blockwork.Proofs.Toml.Lines
import Blockwork.Proofs.Toml.Comments
import Blockwork.Proofs.Toml.Bindings
import Blockwork.Proofs.Interpreter.UntilLoops
import Blockwork.Proofs.Compiler.Steps
import Blockwork.Proofs.Compiler.Names
import Blockwork.Proofs.Compiler.Unassigned
import Blockwork.Proofs.Compiler.ForLoops
import Blockwork.Proofs.Compiler.OwnNames
import Blockwork.Proofs.Compiler.LogicValues
import Blockwork.Proofs.Compiler.Writes
import Blockwork.Proofs.Workspace.Globals
import Blockwork.Proofs.Target.Identifiers
import Blockwork.Proofs.Compiler.Helpers
import Blockwork.Proofs.Json.Offsets
import Blockwork.Proofs.Json.TreeOffsets
import Blockwork.Proofs.Graph.Offsets
import Blockwork.Proofs.Graph.Positions
import Blockwork.Proofs.Testing.Expectations
import Blockwork.Proofs.Context.Distinct
import Blockwork.Proofs.Testing.OwnBindings
import Blockwork.Proofs.Target.ShortCircuit
import Blockwork.Proofs.Json.Scans
import Blockwork.Proofs.Json.Damage
import Blockwork.Proofs.Graph.Damage
import Blockwork.Proofs.Json.Openings
import Blockwork.Proofs.Json.Completions
import Blockwork.Proofs.Json.Verdicts
import Blockwork.Proofs.Graph.Verdicts
import Blockwork.Proofs.Number.Values
import Blockwork.Proofs.Number.Neighbours
import Blockwork.Proofs.Number.Remainders
import Blockwork.Proofs.Number.Roots
import Blockwork.Proofs.Number.Primality
import Blockwork.Proofs.Number.Digits
import Blockwork.Proofs.Target.NumberTexts
import Blockwork.Proofs.Interpreter.Untouched
import Blockwork.Proofs.Interpreter.CountedRounds
import Blockwork.Proofs.Testing.Discovery
import Blockwork.Proofs.Testing.Categories
import Blockwork.Proofs.Testing.Selection
import Blockwork.Proofs.Text.CodeUnits
import Blockwork.Proofs.Compiler.TextOrder
import Blockwork.Proofs.Target.NumberLiterals
import Blockwork.Proofs.Number.HalfUp
import Blockwork.Proofs.Interpreter.HalfUp
import Blockwork.Proofs.Interpreter.SideBySide
import Blockwork.Proofs.Interpreter.KeptEscapes
import Blockwork.Proofs.Interpreter.LeftoverEscapes
import Blockwork.Proofs.Context.Scripts
