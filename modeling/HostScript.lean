import HostScript.Code.Basic
import HostScript.Code.Emit
import HostScript.Code.Generator
import HostScript.Code.Sources
import HostScript.CommandLine
import HostScript.Dump
import HostScript.Environment.Basic
import HostScript.Environment.Description
import HostScript.Error
import HostScript.Function
import HostScript.Instruction
import HostScript.Json.Basic
import HostScript.Json.Reader
import HostScript.Location
import HostScript.Log
import HostScript.Main
import HostScript.NameMap
import HostScript.Node.Basic
import HostScript.Node.Dump
import HostScript.Node.Parse.Basic
import HostScript.Node.Parse.Expression
import HostScript.Node.Parse.Statement
import HostScript.Node.Precedence
import HostScript.Number.Basic
import HostScript.Number.Format
import HostScript.Number.Shortest
import HostScript.Operator
import HostScript.Program.Basic
import HostScript.Program.Codec
import HostScript.Program.Link
import HostScript.Proofs.Acceptance
import HostScript.Proofs.Codec
import HostScript.Proofs.Compilable
import HostScript.Proofs.Confinement
import HostScript.Proofs.Definitions
import HostScript.Proofs.Demands
import HostScript.Proofs.Depth
import HostScript.Proofs.Emission
import HostScript.Proofs.Evaluation
import HostScript.Proofs.Execution
import HostScript.Proofs.Fragment
import HostScript.Proofs.Functions
import HostScript.Proofs.Grammar
import HostScript.Proofs.Isolation
import HostScript.Proofs.Layout
import HostScript.Proofs.Linking
import HostScript.Proofs.Machine
import HostScript.Proofs.NameMap
import HostScript.Proofs.Occurrences
import HostScript.Proofs.Precedence
import HostScript.Proofs.Reading
import HostScript.Proofs.Rereading.Expressions
import HostScript.Proofs.Rereading.Statements
import HostScript.Proofs.Resolution
import HostScript.Proofs.Safety
import HostScript.Proofs.Scripts
import HostScript.Proofs.Steps
import HostScript.Proofs.Tree
import HostScript.Proofs.Unparse
import HostScript.Session
import HostScript.Substitution
import HostScript.Text.Blank
import HostScript.Text.Column
import HostScript.Text.Quoted
import HostScript.Text.Unprintable
import HostScript.Token.Basic
import HostScript.Token.Lexeme
import HostScript.Token.Lexer
import HostScript.Proofs.RoundTrip
import HostScript.Proofs.Calls
import HostScript.Proofs.Accesses
import HostScript.Proofs.Scoping
import HostScript.Proofs.Parallel.Basic
import HostScript.Proofs.Parallel.Reading
import HostScript.Proofs.Parallel.Emission
import HostScript.Proofs.Parallel.Scripts
import HostScript.Proofs.Spacing
import HostScript.Proofs.Locality
import HostScript.Proofs.Climbing
import HostScript.Proofs.Exits
import HostScript.Proofs.Origins
import HostScript.Proofs.Ending
import HostScript.Proofs.Lexemes
import HostScript.Proofs.Tokenization
import HostScript.Proofs.FallThrough
import HostScript.Proofs.Statements
import HostScript.Proofs.Labels
import HostScript.Proofs.Lines
import HostScript.Proofs.Literals
import HostScript.Proofs.Termination
import HostScript.Proofs.Brackets
import HostScript.Proofs.Restoration
import HostScript.Proofs.Chunks
import HostScript.Proofs.Relocation
import HostScript.Proofs.Overloads
import HostScript.Proofs.Patches
