import LodashStyle.Command.Arguments
import LodashStyle.Command.Flag
import LodashStyle.Command.Report
import LodashStyle.Command.Run
import LodashStyle.Config.Given
import LodashStyle.Config.Layers
import LodashStyle.Config.Options
import LodashStyle.Config.Schema
import LodashStyle.Decimal.Binary64
import LodashStyle.Decimal.Layout
import LodashStyle.Diagnostic.Basic
import LodashStyle.Diagnostic.Check
import LodashStyle.Diagnostic.Splice
import LodashStyle.Files.Collect
import LodashStyle.Files.Document
import LodashStyle.Files.Path
import LodashStyle.Files.Store
import LodashStyle.JavaScript.Access
import LodashStyle.JavaScript.Grammar.Basic
import LodashStyle.JavaScript.Grammar.Expression
import LodashStyle.JavaScript.Grammar.Jsx
import LodashStyle.JavaScript.Grammar.Module
import LodashStyle.JavaScript.Grammar.Pattern
import LodashStyle.JavaScript.Grammar.Program
import LodashStyle.JavaScript.Grammar.Statement
import LodashStyle.JavaScript.Node
import LodashStyle.JavaScript.NumericLiteral
import LodashStyle.JavaScript.Site
import LodashStyle.JavaScript.StringLiteral
import LodashStyle.JavaScript.Token
import LodashStyle.Json.Basic
import LodashStyle.Json.Display
import LodashStyle.Json.Reader
import LodashStyle.Json.Writer
import LodashStyle.Lint.Basic
import LodashStyle.Lint.Fixing
import LodashStyle.Log
import LodashStyle.Main
import LodashStyle.Methods.Basic
import LodashStyle.Methods.Builtin
import LodashStyle.Npm.Manifest
import LodashStyle.Npm.Range
import LodashStyle.Npm.Release
import LodashStyle.PropertyPath.Render
import LodashStyle.PropertyPath.Split
import LodashStyle.Rule.Chaining
import LodashStyle.Rule.PathStyle
import LodashStyle.Rule.Verdict
import LodashStyle.Text.Basic
import LodashStyle.Text.Class
import LodashStyle.Text.Class.Unprintable
import LodashStyle.Text.Class.Word
import LodashStyle.Text.Quoted
import LodashStyle.Text.Utf8
import LodashStyle.Usage.Basic
import LodashStyle.Usage.Bindings
import LodashStyle.Proofs.PathReading
import LodashStyle.Proofs.StringFix
import LodashStyle.Proofs.Splicing
import LodashStyle.Proofs.SpanOrder
import LodashStyle.Proofs.FixPasses
import LodashStyle.Proofs.FileRewriting
import LodashStyle.Proofs.Placement.Calculus
import LodashStyle.Proofs.Placement.Expressions
import LodashStyle.Proofs.Placement.Programs
import LodashStyle.Proofs.Findings
import LodashStyle.Proofs.Settling
import LodashStyle.Proofs.Escapes
import LodashStyle.Proofs.PlainPaths
import LodashStyle.Proofs.ReadStrings
import LodashStyle.Proofs.Faults
import LodashStyle.Proofs.GreedyFixes
import LodashStyle.Proofs.Traversal
import LodashStyle.Proofs.Reports
import LodashStyle.Proofs.ChainReports
import LodashStyle.Proofs.NestedFixes
import LodashStyle.Proofs.Merging
import LodashStyle.Proofs.GivenOptions
import LodashStyle.Proofs.Precedence
import LodashStyle.Proofs.SeparateFiles
import LodashStyle.Proofs.ConfigFailures
import LodashStyle.Proofs.MirroredTrees
import LodashStyle.Proofs.PathReplacement
import LodashStyle.Proofs.FixProgress
import LodashStyle.Proofs.RewritingPasses
import LodashStyle.Proofs.PlainKeys
import LodashStyle.Proofs.ArrayFix
import LodashStyle.Proofs.TemplateText
import LodashStyle.Proofs.TemplateFix
import LodashStyle.Proofs.PathForms
import LodashStyle.Proofs.PartSites
import LodashStyle.Proofs.Nesting
import LodashStyle.Proofs.Wrappers
import LodashStyle.Proofs.ChainWalks
import LodashStyle.Proofs.StringValues
import LodashStyle.Proofs.PathPieces
import LodashStyle.Proofs.PathSpellings
import LodashStyle.Proofs.CommentFree
import LodashStyle.Proofs.CommentSites
import LodashStyle.Proofs.IntegerKeys
import LodashStyle.Proofs.ComparatorTexts
import LodashStyle.Proofs.VersionBounds
import LodashStyle.Proofs.RangeMajors
import LodashStyle.Proofs.SpacedComparators
import LodashStyle.Proofs.NumberLayout
import LodashStyle.Proofs.FileCollection
import LodashStyle.Proofs.ModuleBindings
import LodashStyle.Proofs.TemplateParts
import LodashStyle.Proofs.VisitOrder
import LodashStyle.Proofs.NestedMerging
import LodashStyle.Proofs.Fixpoints
