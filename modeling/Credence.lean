import Credence.Annotation.Basic
import Credence.Annotation.Gazetteer
import Credence.Annotation.Ingestion
import Credence.Calendar.Date
import Credence.Calendar.DateText
import Credence.Collection.Bisection
import Credence.Collection.Reachable
import Credence.Collection.Table
import Credence.Condition.Arithmetic
import Credence.Condition.Brackets
import Credence.Condition.Evaluation
import Credence.Condition.Expr
import Credence.Condition.Malformed
import Credence.Condition.Parser
import Credence.Condition.Scenario
import Credence.Condition.Slot
import Credence.Confidence.Basic
import Credence.Confidence.Weighing
import Credence.Decimal.Binary64
import Credence.Decimal.Layout
import Credence.Decimal.Power
import Credence.Decimal.Reading
import Credence.Decimal.Rounding
import Credence.Decimal.Shortest
import Credence.Deduction.Inference
import Credence.Deduction.Memo
import Credence.Error
import Credence.Formula.Basic
import Credence.Formula.Parser
import Credence.Instance.Address
import Credence.Instance.Basic
import Credence.Instance.DateValue
import Credence.Instance.Factory
import Credence.Json.Basic
import Credence.Json.Decoding
import Credence.Json.Draft
import Credence.Json.Numeral
import Credence.Json.Reader
import Credence.Json.Tagged
import Credence.KnowledgeBase.Basic
import Credence.Ontology.Basic
import Credence.Ontology.Bundle
import Credence.Ontology.Change
import Credence.Ontology.Concept
import Credence.Ontology.Inheritance
import Credence.Ontology.Membership
import Credence.Ontology.Relation
import Credence.Ontology.Rule
import Credence.Ontology.RuleId
import Credence.Ontology.Subject
import Credence.Parsing.Parser
import Credence.Proofs.Annotation.Mentions
import Credence.Proofs.Annotation.Spellings
import Credence.Proofs.Calendar.DateText
import Credence.Proofs.Calendar.Layouts
import Credence.Proofs.Collection.Ranking
import Credence.Proofs.Collection.Reachable
import Credence.Proofs.Collection.Table
import Credence.Proofs.Condition.Acceptance
import Credence.Proofs.Condition.Agreement
import Credence.Proofs.Condition.Atoms
import Credence.Proofs.Condition.Brackets
import Credence.Proofs.Condition.Calls
import Credence.Proofs.Condition.Display
import Credence.Proofs.Condition.Fidelity
import Credence.Proofs.Condition.Forms
import Credence.Proofs.Condition.Layout
import Credence.Proofs.Condition.Levels
import Credence.Proofs.Condition.Local
import Credence.Proofs.Condition.Occurrences
import Credence.Proofs.Condition.Operators
import Credence.Proofs.Condition.Parse
import Credence.Proofs.Condition.Pieces
import Credence.Proofs.Condition.Printing
import Credence.Proofs.Condition.Product
import Credence.Proofs.Condition.Shapes
import Credence.Proofs.Condition.Slots
import Credence.Proofs.Condition.Soundness
import Credence.Proofs.Condition.Spelling
import Credence.Proofs.Condition.Tokens
import Credence.Proofs.Confidence.Evidence
import Credence.Proofs.Confidence.Weighing
import Credence.Proofs.Decimal.Bits
import Credence.Proofs.Decimal.Digits
import Credence.Proofs.Decimal.Finite
import Credence.Proofs.Decimal.Nearest
import Credence.Proofs.Decimal.Order
import Credence.Proofs.Decimal.Plain
import Credence.Proofs.Decimal.Shortest
import Credence.Proofs.Deduction.Balance
import Credence.Proofs.Deduction.Nesting
import Credence.Proofs.Deduction.Questions
import Credence.Proofs.Deduction.Scope
import Credence.Proofs.Deduction.Simulation
import Credence.Proofs.Deduction.Testimony
import Credence.Proofs.Deduction.Trace
import Credence.Proofs.Deduction.Transparency
import Credence.Proofs.Formula.Printing
import Credence.Proofs.Formula.Reading
import Credence.Proofs.Formula.Soundness
import Credence.Proofs.Formula.Spelling
import Credence.Proofs.Formula.Variables
import Credence.Proofs.Instance.Address
import Credence.Proofs.Json.Decoding
import Credence.Proofs.Json.Numeral
import Credence.Proofs.Json.Page
import Credence.Proofs.Json.Text
import Credence.Proofs.KnowledgeBase.Accounting
import Credence.Proofs.KnowledgeBase.Counting
import Credence.Proofs.KnowledgeBase.Discipline
import Credence.Proofs.KnowledgeBase.Facts
import Credence.Proofs.KnowledgeBase.Forgetting
import Credence.Proofs.KnowledgeBase.Ingestion
import Credence.Proofs.KnowledgeBase.Ledger
import Credence.Proofs.KnowledgeBase.Operations
import Credence.Proofs.KnowledgeBase.Reachable
import Credence.Proofs.KnowledgeBase.References
import Credence.Proofs.KnowledgeBase.Refusal
import Credence.Proofs.KnowledgeBase.Strength
import Credence.Proofs.KnowledgeBase.Teaching
import Credence.Proofs.KnowledgeBase.Traces
import Credence.Proofs.Ontology.Aliases
import Credence.Proofs.Ontology.Applicability
import Credence.Proofs.Ontology.Arrival
import Credence.Proofs.Ontology.Book
import Credence.Proofs.Ontology.Cascade
import Credence.Proofs.Ontology.Declared
import Credence.Proofs.Ontology.Edges
import Credence.Proofs.Ontology.Graph
import Credence.Proofs.Ontology.Hierarchy
import Credence.Proofs.Ontology.Holdings
import Credence.Proofs.Ontology.Kept
import Credence.Proofs.Ontology.Ledger
import Credence.Proofs.Ontology.Memberships
import Credence.Proofs.Ontology.NewRule
import Credence.Proofs.Ontology.Reachable
import Credence.Proofs.Ontology.Refusal
import Credence.Proofs.Ontology.Roster
import Credence.Proofs.Ontology.RuleId
import Credence.Proofs.Ontology.Undo
import Credence.Proofs.Ontology.Upkeep.Concepts
import Credence.Proofs.Ontology.Upkeep.Relations
import Credence.Proofs.Parsing.Local
import Credence.Proofs.Parsing.Outcome
import Credence.Proofs.Parsing.Steady
import Credence.Proofs.Running
import Credence.Proofs.Service.Requests
import Credence.Proofs.Snapshot.Numbers
import Credence.Proofs.Snapshot.Ontology
import Credence.Proofs.Snapshot.Value
import Credence.Proofs.Snapshot.World
import Credence.Proofs.Text.Blank
import Credence.Proofs.Text.Gap
import Credence.Proofs.Text.Joined
import Credence.Proofs.Text.Pattern
import Credence.Proofs.Value.Comparison
import Credence.Proofs.Value.Equality
import Credence.Proofs.Value.Representatives
import Credence.Proofs.World.Candidates
import Credence.Proofs.World.Flat
import Credence.Proofs.World.Order
import Credence.Proofs.World.Reading
import Credence.Proofs.World.Registry
import Credence.Proofs.World.Statics
import Credence.Service.Basic
import Credence.Service.Dashboard
import Credence.Service.Forms
import Credence.Service.Markup
import Credence.Service.Percent
import Credence.Service.Route
import Credence.Settings
import Credence.Snapshot.Ontology
import Credence.Snapshot.Value
import Credence.Snapshot.World
import Credence.Text.Blank
import Credence.Text.Casing
import Credence.Text.Composition
import Credence.Text.Letter
import Credence.Text.Pattern
import Credence.Text.Property.Alphabetic
import Credence.Text.Property.Casing
import Credence.Text.Property.CombiningClass
import Credence.Text.Property.Decomposition
import Credence.Text.Property.Extender
import Credence.Text.Property.Folding
import Credence.Text.Property.Lowercase
import Credence.Text.Property.Numeric
import Credence.Text.Property.Unprintable
import Credence.Text.Property.Word
import Credence.Text.Quoted
import Credence.Text.RangeTable
import Credence.Value.Basic
import Credence.Value.Comparison
import Credence.Value.InstanceKey
import Credence.World.Basic
import Credence.World.Registry
import Credence.World.Statics
