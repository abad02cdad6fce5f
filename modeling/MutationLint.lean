import MutationLint.Callee
import MutationLint.Command.Arguments
import MutationLint.Command.Basic
import MutationLint.Command.Check
import MutationLint.Command.Overrides
import MutationLint.Config.EnvFile
import MutationLint.Config.Environment
import MutationLint.Config.Load
import MutationLint.Config.Project
import MutationLint.Config.Session
import MutationLint.Decimal.Integer
import MutationLint.Decimal.Shortest
import MutationLint.Exemption.Basic
import MutationLint.Exemption.Pattern
import MutationLint.Exemption.Reducer
import MutationLint.Files.Basic
import MutationLint.Files.Discover
import MutationLint.Files.Path
import MutationLint.Json.Reader
import MutationLint.Json.Writer
import MutationLint.Language
import MutationLint.Linter.Basic
import MutationLint.Linter.File
import MutationLint.Main
import MutationLint.Node.Basic
import MutationLint.Node.Build
import MutationLint.Node.Chain
import MutationLint.Node.Classes
import MutationLint.Node.Layout
import MutationLint.Node.Names
import MutationLint.Node.Site
import MutationLint.Node.Unfold
import MutationLint.Node.Walk
import MutationLint.Options
import MutationLint.Rule.Basic
import MutationLint.Rule.Check
import MutationLint.Rule.Profile
import MutationLint.Scope.Declaration
import MutationLint.Scope.Freshness
import MutationLint.Scope.Lookup
import MutationLint.Source
import MutationLint.SyntaxTree.Basic
import MutationLint.SyntaxTree.Dump
import MutationLint.SyntaxTree.Form
import MutationLint.Terminal.Console
import MutationLint.Terminal.Encoding
import MutationLint.Terminal.Markup
import MutationLint.Terminal.Trace
import MutationLint.Text.Basic
import MutationLint.Text.Blank
import MutationLint.Text.Case
import MutationLint.Text.Columns
import MutationLint.Text.Printable
import MutationLint.Text.Quoted
import MutationLint.Text.Utf8
import MutationLint.Toml.Moment
import MutationLint.Toml.Reader
import MutationLint.Value.Basic
import MutationLint.Value.Reading
import MutationLint.Value.Written
import MutationLint.Proofs.Scope.Derivation
import MutationLint.Proofs.Scope.CycleGuard
import MutationLint.Proofs.Rule.Violation
import MutationLint.Proofs.Linter.SharedWalk
import MutationLint.Proofs.Linter.Findings
import MutationLint.Proofs.Node.Bare
import MutationLint.Proofs.Scope.Transport
import MutationLint.Proofs.Scope.Isolation
import MutationLint.Proofs.Rule.Isolation
import MutationLint.Proofs.SyntaxTree.Mutations
import MutationLint.Proofs.SyntaxTree.Reading
import MutationLint.Proofs.Node.Assembly
import MutationLint.Proofs.Node.MutationSites
import MutationLint.Proofs.Linter.Relaxation
import MutationLint.Proofs.Linter.Totality
import MutationLint.Proofs.Scope.Shadowing
import MutationLint.Proofs.SyntaxTree.Respelling
import MutationLint.Proofs.Node.Respelling
import MutationLint.Proofs.Linter.Independence
import MutationLint.Proofs.Config.Options
import MutationLint.Proofs.Config.Layers
import MutationLint.Proofs.Config.Priority
import MutationLint.Proofs.Command.Overrides
import MutationLint.Proofs.Scope.Rebinding
import MutationLint.Proofs.Config.Faults
import MutationLint.Proofs.Config.EnvFile
import MutationLint.Proofs.Command.Configuration
import MutationLint.Proofs.Config.FirstSet
import MutationLint.Proofs.Command.Account
import MutationLint.Proofs.Node.Roles
import MutationLint.Proofs.Exemption.Callbacks
import MutationLint.Proofs.Linter.Advice
import MutationLint.Proofs.Node.ObjectChain
import MutationLint.Proofs.Node.View
import MutationLint.Proofs.Scope.Likeness
import MutationLint.Proofs.Scope.Replacement
import MutationLint.Proofs.Scope.Regrouping
import MutationLint.Proofs.Node.Casts
import MutationLint.Proofs.Rule.Casts
import MutationLint.Proofs.Exemption.Chains
import MutationLint.Proofs.Rule.Callees
import MutationLint.Proofs.Config.WellTyped
import MutationLint.Proofs.Node.Keys
import MutationLint.Proofs.Exemption.Keys
import MutationLint.Proofs.Node.Subtrees
import MutationLint.Proofs.Node.Making
import MutationLint.Proofs.Node.Nesting
import MutationLint.Node.Link
import MutationLint.Proofs.Node.FieldOrder
import MutationLint.Proofs.Node.Traversal
import MutationLint.Proofs.Scope.Termination
import MutationLint.Proofs.Files.Discovery
import MutationLint.Proofs.Terminal.Sanitizing
