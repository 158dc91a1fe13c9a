import LosslessTree.Access.Field
import LosslessTree.Access.Leaf
import LosslessTree.Access.Projection
import LosslessTree.Command
import LosslessTree.Descent.Assembly
import LosslessTree.Descent.Run
import LosslessTree.Descent.Slots
import LosslessTree.Descent.Speculation
import LosslessTree.Descent.State
import LosslessTree.Descent.Tape
import LosslessTree.Error
import LosslessTree.Grammar.Analysis
import LosslessTree.Grammar.Basic
import LosslessTree.Grammar.Lookahead
import LosslessTree.Grammar.Rule
import LosslessTree.Grammar.Standard
import LosslessTree.Json.Printer
import LosslessTree.Json.Reader
import LosslessTree.Json.Value
import LosslessTree.Layout.Blocks
import LosslessTree.Layout.Column
import LosslessTree.Layout.Context
import LosslessTree.Main
import LosslessTree.Node.Basic
import LosslessTree.Node.Builder
import LosslessTree.Node.Cursor
import LosslessTree.Node.Display
import LosslessTree.Node.Kind
import LosslessTree.Node.Visitor
import LosslessTree.Parse.Basic
import LosslessTree.Parse.Problem
import LosslessTree.Settings
import LosslessTree.Text.Alphanumeric
import LosslessTree.Text.Blank
import LosslessTree.Text.CodeRun
import LosslessTree.Text.Combining
import LosslessTree.Text.Escape
import LosslessTree.Text.Lowercase
import LosslessTree.Text.Quoted
import LosslessTree.Text.Span
import LosslessTree.Text.Unprintable
import LosslessTree.Text.Uppercase
import LosslessTree.Token.Basic
import LosslessTree.Token.Kind
import LosslessTree.Token.KindSet
import LosslessTree.Token.Lexeme.Basic
import LosslessTree.Token.Lexeme.Comment
import LosslessTree.Token.Lexeme.First
import LosslessTree.Token.Lexeme.Name
import LosslessTree.Token.Lexeme.Number
import LosslessTree.Token.Lexeme.Quotation
import LosslessTree.Token.Reading
import LosslessTree.Token.Reserved
import LosslessTree.Token.Source
import LosslessTree.Proofs.Words.Assembly
import LosslessTree.Proofs.Words.Basic
import LosslessTree.Proofs.Words.Descent
import LosslessTree.Proofs.Words.Shape
import LosslessTree.Proofs.Words.Slots
import LosslessTree.Proofs.Words.Speculation
import LosslessTree.Proofs.Words.State
import LosslessTree.Proofs.Words.Stream
import LosslessTree.Proofs.Parse.Steps
import LosslessTree.Proofs.Parse.Lockstep
import LosslessTree.Proofs.Parse.Window
import LosslessTree.Proofs.Parse.Reuse
import LosslessTree.Proofs.Parse.Coverage
import LosslessTree.Proofs.Node.Builder
import LosslessTree.Proofs.Parse.Nodes
import LosslessTree.Proofs.Descent.Index
import LosslessTree.Proofs.Descent.Steps
import LosslessTree.Proofs.Descent.Trials
import LosslessTree.Proofs.Descent.Slots
import LosslessTree.Proofs.Descent.Rounds
import LosslessTree.Proofs.Descent.Assembly
import LosslessTree.Proofs.Descent.Refinement
import LosslessTree.Proofs.Descent.States
import LosslessTree.Proofs.Parse.Closed
import LosslessTree.Proofs.Node.Descendants
import LosslessTree.Proofs.Parse.Contents
import LosslessTree.Proofs.Parse.Outcome
import LosslessTree.Proofs.Grammar.Analysis
import LosslessTree.Proofs.Grammar.Conformance
import LosslessTree.Proofs.Parse.Filling
import LosslessTree.Proofs.Parse.Acceptance
import LosslessTree.Proofs.Parse.Rounds
import LosslessTree.Proofs.Grammar.Vocabulary
import LosslessTree.Proofs.Node.Outline
import LosslessTree.Proofs.Parse.Outlines
import LosslessTree.Proofs.Parse.Alike
import LosslessTree.Proofs.Parse.Significance
import LosslessTree.Proofs.Access.Projection
import LosslessTree.Proofs.Parse.Recovery
import LosslessTree.Proofs.Parse.Access
import LosslessTree.Proofs.Grammar.Closure
import LosslessTree.Proofs.Grammar.Derivation
import LosslessTree.Proofs.Grammar.Prediction
import LosslessTree.Proofs.Grammar.Settled
import LosslessTree.Proofs.Parse.Completeness
import LosslessTree.Proofs.Text.Piece
import LosslessTree.Proofs.Token.Tiling
import LosslessTree.Proofs.Parse.Spelling
import LosslessTree.Proofs.Token.Same
import LosslessTree.Proofs.Token.Exchange
import LosslessTree.Proofs.Token.Insertion
import LosslessTree.Proofs.Layout.Items
import LosslessTree.Proofs.Layout.Depth
import LosslessTree.Proofs.Layout.Detour
import LosslessTree.Proofs.Grammar.Brackets
import LosslessTree.Proofs.Parse.Depth
import LosslessTree.Proofs.Parse.Abreast
import LosslessTree.Proofs.Parse.Foresight
import LosslessTree.Proofs.Descent.Choice
import LosslessTree.Proofs.Parse.Choice
import LosslessTree.Proofs.Parse.Boundary
import LosslessTree.Proofs.Parse.Insertion
import LosslessTree.Proofs.Parse.StrayLine
import LosslessTree.Proofs.Layout.Nesting
import LosslessTree.Proofs.Layout.Lets
import LosslessTree.Proofs.Layout.Marks
import LosslessTree.Proofs.Token.Ending
import LosslessTree.Proofs.Layout.Lines
import LosslessTree.Proofs.Layout.Indentation
import LosslessTree.Proofs.Parse.Levels
import LosslessTree.Proofs.Text.Letters
import LosslessTree.Proofs.Token.Cut
import LosslessTree.Proofs.Token.Slice
import LosslessTree.Proofs.Token.Extent
import LosslessTree.Proofs.Text.Escape
import LosslessTree.Proofs.Token.Literal
import LosslessTree.Proofs.Grammar.Registration
import LosslessTree.Proofs.Node.Standing
import LosslessTree.Proofs.Node.Surroundings
import LosslessTree.Proofs.Parse.Regions
import LosslessTree.Proofs.Parse.Blanks
import LosslessTree.Proofs.Parse.Motion
import LosslessTree.Proofs.Parse.Spacing
import LosslessTree.Proofs.Parse.Separation
import LosslessTree.Proofs.Text.Offsets
import LosslessTree.Proofs.Parse.Emptiness
import LosslessTree.Proofs.Token.Character
import LosslessTree.Proofs.Token.Qualification
import LosslessTree.Proofs.Token.Number
import LosslessTree.Proofs.Layout.Tracking
import LosslessTree.Proofs.Settings.Changes
