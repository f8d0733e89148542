import JavaObjC.CommandLine.Commands
import JavaObjC.CommandLine.Flags
import JavaObjC.Document.Basic
import JavaObjC.Document.Json
import JavaObjC.Document.Outline
import JavaObjC.Document.Yaml
import JavaObjC.Document.YamlScalar
import JavaObjC.Editor.Diagnostic
import JavaObjC.Editor.Session
import JavaObjC.Editor.Uri
import JavaObjC.Editor.Workspace
import JavaObjC.Failure
import JavaObjC.Files.Directory
import JavaObjC.Files.Path
import JavaObjC.Generator.Batch
import JavaObjC.Generator.SourceTree
import JavaObjC.Generator.Unit
import JavaObjC.Keyed
import JavaObjC.Lowering.Access
import JavaObjC.Lowering.Attributed
import JavaObjC.Lowering.Calls
import JavaObjC.Lowering.LibraryCalls
import JavaObjC.Lowering.Lower
import JavaObjC.Lowering.Members
import JavaObjC.Lowering.Operators
import JavaObjC.Lowering.Registry
import JavaObjC.Lowering.Statements
import JavaObjC.Lowering.Surroundings
import JavaObjC.Lowering.TypeMapper
import JavaObjC.Lowering.UnitDraft
import JavaObjC.Lowering.Value
import JavaObjC.Main
import JavaObjC.Proofs.Generation
import JavaObjC.Proofs.Lexemes
import JavaObjC.Proofs.Lowering.Agreement
import JavaObjC.Proofs.Lowering.Attribution
import JavaObjC.Proofs.Lowering.Drafts
import JavaObjC.Proofs.Lowering.Expressions
import JavaObjC.Proofs.Lowering.Statements
import JavaObjC.Proofs.Lowering.Units
import JavaObjC.Proofs.Reading.Combinators
import JavaObjC.Proofs.Reading.Cursors
import JavaObjC.Proofs.Reading.Statements
import JavaObjC.Proofs.Reading.Expressions
import JavaObjC.Proofs.Reading.Likeness
import JavaObjC.Proofs.Reading.Parallel
import JavaObjC.Proofs.Reading.Phrases
import JavaObjC.Proofs.Reading.Scanning
import JavaObjC.Proofs.Reading.Units
import JavaObjC.Settings.Basic
import JavaObjC.Settings.Mapping
import JavaObjC.Settings.Toml
import JavaObjC.Signature.ClassSignature
import JavaObjC.Signature.JavaType
import JavaObjC.Signature.Modifiers
import JavaObjC.Source.Cursor
import JavaObjC.Source.Grammar.Declarations
import JavaObjC.Source.Grammar.Expressions
import JavaObjC.Source.Grammar.Lookahead
import JavaObjC.Source.Grammar.Members
import JavaObjC.Source.Grammar.Statements
import JavaObjC.Source.Grammar.Types
import JavaObjC.Source.Lexeme
import JavaObjC.Source.Parse
import JavaObjC.Source.Token
import JavaObjC.Source.Tree
import JavaObjC.Target.ClassModel
import JavaObjC.Target.Header
import JavaObjC.Target.Implementation
import JavaObjC.Target.ImportSet
import JavaObjC.Target.Member
import JavaObjC.Target.SourceWriter
import JavaObjC.Target.Statement
import JavaObjC.Target.TypeRef
import JavaObjC.Target.Workshop
import JavaObjC.Text.Basic
import JavaObjC.Text.Blank
import JavaObjC.Text.LetterCase
import JavaObjC.Text.Number
import JavaObjC.Text.Printable
import JavaObjC.Text.Quoted
import JavaObjC.Text.Utf8
import JavaObjC.Proofs.Lowering.Lookups
import JavaObjC.Proofs.Lowering.Steadiness
import JavaObjC.Proofs.Batch.Declarations
import JavaObjC.Proofs.Batch.Emission
import JavaObjC.Proofs.Trees.Forms
import JavaObjC.Proofs.Trees.Yields
import JavaObjC.Proofs.Trees.Phrases
import JavaObjC.Proofs.Trees.Expressions
import JavaObjC.Proofs.Trees.Statements
import JavaObjC.Proofs.Trees.Units
import JavaObjC.Proofs.Coverage.Statements
import JavaObjC.Proofs.Coverage.Units
import JavaObjC.Proofs.Batch.Determinism
import JavaObjC.Proofs.Links.Answers
import JavaObjC.Proofs.Links.Consistency
import JavaObjC.Proofs.Layout
import JavaObjC.Proofs.Progress.Reports
import JavaObjC.Proofs.Printing.Inversion
import JavaObjC.Proofs.Printing.Methods
import JavaObjC.Proofs.Batch.Pairs
import JavaObjC.Proofs.Workshop.Refinement
import JavaObjC.Proofs.Headers.Completeness
import JavaObjC.Proofs.Methods.Implementations
import JavaObjC.Proofs.Writing
import JavaObjC.Proofs.OpenDocuments
import JavaObjC.Proofs.Wording
import JavaObjC.Proofs.Arithmetic
import JavaObjC.Proofs.Effects.Chains
import JavaObjC.Proofs.Grouping.Reading
import JavaObjC.Proofs.Grouping.Composition
import JavaObjC.Proofs.Grouping.Order
import JavaObjC.Proofs.Grouping.Texts
import JavaObjC.Proofs.Formats.Kinds
import JavaObjC.Proofs.Formats.Arguments
import JavaObjC.Proofs.Formats.Concatenation
import JavaObjC.Proofs.Formats.Patterns
import JavaObjC.Proofs.Grouping.Updates
import JavaObjC.Proofs.Shifts.Numbers
import JavaObjC.Proofs.Shifts.Terms
import JavaObjC.Proofs.Shifts.Values
import JavaObjC.Proofs.Switches
import JavaObjC.Proofs.Initialization
import JavaObjC.Proofs.Dimensions.Brackets
import JavaObjC.Proofs.Dimensions.Declarations
import JavaObjC.Proofs.Numerals.Digits
import JavaObjC.Proofs.Numerals.Lexing
import JavaObjC.Proofs.Numerals.Constants
import JavaObjC.Proofs.Numerals.Rendering
import JavaObjC.Proofs.Calls.Arguments
import JavaObjC.Proofs.Calls.SelfCalls
import JavaObjC.Proofs.Links.Hierarchies
import JavaObjC.Proofs.Methods.Constructors
import JavaObjC.Proofs.Methods.Delegation
import JavaObjC.Proofs.Methods.Construction
import JavaObjC.Proofs.TypePhrases.Derivations
import JavaObjC.Proofs.TypePhrases.Acceptance
import JavaObjC.Proofs.TypePhrases.Recognition
import JavaObjC.Proofs.TypePhrases.Spelling
import JavaObjC.Proofs.TypePhrases.RoundTrip
import JavaObjC.Proofs.Statics.Texts
import JavaObjC.Proofs.Statics.Storage
import JavaObjC.Proofs.Conversions
import JavaObjC.Proofs.Spacing
import JavaObjC.Proofs.Scopes.Locals
import JavaObjC.Proofs.Typing.Trees
import JavaObjC.Proofs.Strokes
import JavaObjC.Proofs.Headers.Pending
import JavaObjC.Proofs.MadeUpNames
