import ParserGenerator.CommandLine.Arguments
import ParserGenerator.CommandLine.Run
import ParserGenerator.Compile
import ParserGenerator.Event
import ParserGenerator.Family
import ParserGenerator.Files.Build
import ParserGenerator.Files.Compile
import ParserGenerator.Files.Path
import ParserGenerator.Files.System
import ParserGenerator.Files.Tree
import ParserGenerator.Grammar.Alternative
import ParserGenerator.Grammar.Basic
import ParserGenerator.Grammar.NameSet
import ParserGenerator.Grammar.Parser
import ParserGenerator.Lexer.ActionBlock
import ParserGenerator.Lexer.Segment
import ParserGenerator.Lexer.Stream
import ParserGenerator.Main
import ParserGenerator.Module.Check
import ParserGenerator.Module.Outdent
import ParserGenerator.Module.Render
import ParserGenerator.Parsing.Error
import ParserGenerator.Parsing.Scope
import ParserGenerator.Parsing.Script
import ParserGenerator.Parsing.Word
import ParserGenerator.Proofs.CommandLine.Agreement
import ParserGenerator.Proofs.Derivation.Basic
import ParserGenerator.Proofs.Derivation.Completeness
import ParserGenerator.Proofs.Derivation.Completion
import ParserGenerator.Proofs.Derivation.Epilogue
import ParserGenerator.Proofs.Derivation.FirstError
import ParserGenerator.Proofs.Derivation.Language
import ParserGenerator.Proofs.Derivation.Meaning
import ParserGenerator.Proofs.Derivation.Productions
import ParserGenerator.Proofs.Derivation.Reading
import ParserGenerator.Proofs.Derivation.Scanning
import ParserGenerator.Proofs.Derivation.Schedule
import ParserGenerator.Proofs.Derivation.Soundness
import ParserGenerator.Proofs.Derivation.Warnings
import ParserGenerator.Proofs.Files.Disk
import ParserGenerator.Proofs.Files.Publication
import ParserGenerator.Proofs.Lexer.Code
import ParserGenerator.Proofs.Lexer.Lookahead
import ParserGenerator.Proofs.Lexer.Nesting
import ParserGenerator.Proofs.Lexer.Printing
import ParserGenerator.Proofs.Lexer.Tiling
import ParserGenerator.Proofs.Module.Actions
import ParserGenerator.Proofs.Module.Outdent
import ParserGenerator.Proofs.Module.Shorthand
import ParserGenerator.Proofs.Module.Standard
import ParserGenerator.Proofs.Module.Tables
import ParserGenerator.Proofs.Offsets.ActionBlock
import ParserGenerator.Proofs.Offsets.Compilation
import ParserGenerator.Proofs.Offsets.Coordinates
import ParserGenerator.Proofs.Offsets.Matches
import ParserGenerator.Proofs.Offsets.Rules
import ParserGenerator.Proofs.Offsets.Scanner
import ParserGenerator.Proofs.Offsets.Slices
import ParserGenerator.Proofs.Offsets.Templates
import ParserGenerator.Proofs.Parsing.Evaluation
import ParserGenerator.Proofs.Parsing.Values
import ParserGenerator.Proofs.Parsing.Words
import ParserGenerator.Proofs.Registry.Agreement
import ParserGenerator.Proofs.Registry.Closure
import ParserGenerator.Proofs.Registry.Construction
import ParserGenerator.Proofs.Registry.Families
import ParserGenerator.Proofs.Registry.Handlers
import ParserGenerator.Proofs.Registry.History
import ParserGenerator.Proofs.Registry.Line
import ParserGenerator.Proofs.Registry.Loading
import ParserGenerator.Proofs.Registry.Order
import ParserGenerator.Proofs.Registry.Refusal
import ParserGenerator.Proofs.Sample.Arithmetic
import ParserGenerator.Proofs.Sample.Basic
import ParserGenerator.Proofs.Sample.Decoding
import ParserGenerator.Proofs.Text.Cuts
import ParserGenerator.Proofs.Text.Encoding
import ParserGenerator.Proofs.Text.Literals
import ParserGenerator.Proofs.Text.Numerals
import ParserGenerator.Proofs.Text.Splits
import ParserGenerator.Proofs.Text.Trimming
import ParserGenerator.Registry.Basic
import ParserGenerator.Registry.Production
import ParserGenerator.Registry.Reduction
import ParserGenerator.Sample.Annotations
import ParserGenerator.Sample.Basic
import ParserGenerator.Sample.Blocks
import ParserGenerator.Sample.Calculator
import ParserGenerator.Sample.Groups
import ParserGenerator.Symbols
import ParserGenerator.Template.Basic
import ParserGenerator.Template.Standard
import ParserGenerator.Text.Blank
import ParserGenerator.Text.Lines
import ParserGenerator.Text.Numeral
import ParserGenerator.Text.Position
import ParserGenerator.Text.Printable
import ParserGenerator.Text.Quoted
import ParserGenerator.Token
import ParserGenerator.Proofs.Template.Writing
import ParserGenerator.Proofs.Parsing.Scopes
import ParserGenerator.Proofs.Registry.SourceOrder
import ParserGenerator.Proofs.Template.ErrorLines
import ParserGenerator.Proofs.Template.Rendering
import ParserGenerator.Proofs.Parsing.Braces
import ParserGenerator.Proofs.Registry.Display
