import OntoGraph.Catalog.Csv
import OntoGraph.Catalog.Options
import OntoGraph.CommandLine.Arguments
import OntoGraph.CommandLine.Check
import OntoGraph.CommandLine.Folder
import OntoGraph.CommandLine.Profiles
import OntoGraph.CommandLine.Run
import OntoGraph.Document.Export
import OntoGraph.Document.Import
import OntoGraph.Document.Labels
import OntoGraph.Document.TermContext
import OntoGraph.Graph.Basic
import OntoGraph.Graph.Edit
import OntoGraph.Graph.Reach
import OntoGraph.Graph.Retype
import OntoGraph.Graph.Urn
import OntoGraph.Graph.Validation
import OntoGraph.Graph.Validity
import OntoGraph.Iri.Grammar
import OntoGraph.Iri.Parts
import OntoGraph.Json.Basic
import OntoGraph.Json.Normal
import OntoGraph.Json.Printer
import OntoGraph.Json.Reader
import OntoGraph.LinkedData.ActiveContext
import OntoGraph.LinkedData.Canonical
import OntoGraph.LinkedData.Expansion
import OntoGraph.LinkedData.Item
import OntoGraph.LinkedData.Keyword
import OntoGraph.LinkedData.LocalContext
import OntoGraph.LinkedData.Reader
import OntoGraph.LinkedData.Statement
import OntoGraph.Main
import OntoGraph.Number.Power
import OntoGraph.Number.Reading
import OntoGraph.Number.Shortest
import OntoGraph.Number.Written
import OntoGraph.Ontology.Compile
import OntoGraph.Ontology.Datatype
import OntoGraph.Ontology.Metadata
import OntoGraph.Ontology.Model
import OntoGraph.Ontology.Naming
import OntoGraph.Ontology.Resolver
import OntoGraph.Ontology.Shape
import OntoGraph.Ontology.Snapshot
import OntoGraph.Ontology.SnapshotReader
import OntoGraph.Ontology.Source
import OntoGraph.Proofs.Document.AddedContent
import OntoGraph.Proofs.Document.CompactedSubject
import OntoGraph.Proofs.Document.ContextDocument
import OntoGraph.Proofs.Document.ContextMembers
import OntoGraph.Proofs.Document.ContextReading
import OntoGraph.Proofs.Document.DerivedContext
import OntoGraph.Proofs.Document.EntityNames
import OntoGraph.Proofs.Document.ExportedCounts
import OntoGraph.Proofs.Document.ExportedMembers
import OntoGraph.Proofs.Document.ExportedStatements
import OntoGraph.Proofs.Document.ExportedSubtree
import OntoGraph.Proofs.Document.ExportedText
import OntoGraph.Proofs.Document.ExportedTriples
import OntoGraph.Proofs.Document.Filling
import OntoGraph.Proofs.Document.KeyOrder
import OntoGraph.Proofs.Document.Ledger
import OntoGraph.Proofs.Document.LiteralValues
import OntoGraph.Proofs.Document.Mirror
import OntoGraph.Proofs.Document.NamesReadBack
import OntoGraph.Proofs.Document.Outcomes
import OntoGraph.Proofs.Document.ProtectedLabels
import OntoGraph.Proofs.Document.Rebuild
import OntoGraph.Proofs.Document.Rebuilt
import OntoGraph.Proofs.Document.Reexport
import OntoGraph.Proofs.Document.RoundTrip
import OntoGraph.Proofs.Document.ShortNames
import OntoGraph.Proofs.Document.StatementOrder
import OntoGraph.Proofs.Document.TakenStatements
import OntoGraph.Proofs.Document.VocabularyValues
import OntoGraph.Proofs.Fallible
import OntoGraph.Proofs.Graph.Beside
import OntoGraph.Proofs.Graph.Bounds
import OntoGraph.Proofs.Graph.Change
import OntoGraph.Proofs.Graph.Concrete
import OntoGraph.Proofs.Graph.Consistency
import OntoGraph.Proofs.Graph.Content
import OntoGraph.Proofs.Graph.EdgeIds
import OntoGraph.Proofs.Graph.Edit
import OntoGraph.Proofs.Graph.EntryIds
import OntoGraph.Proofs.Graph.Isomorphism
import OntoGraph.Proofs.Graph.Marks
import OntoGraph.Proofs.Graph.Portable
import OntoGraph.Proofs.Graph.Reload
import OntoGraph.Proofs.Graph.Replacement
import OntoGraph.Proofs.Graph.Reports
import OntoGraph.Proofs.Graph.Residue
import OntoGraph.Proofs.Graph.Run
import OntoGraph.Proofs.Graph.Subtree
import OntoGraph.Proofs.Graph.Unmet
import OntoGraph.Proofs.Iri.Characters
import OntoGraph.Proofs.Json.Approximation
import OntoGraph.Proofs.Json.Doubles
import OntoGraph.Proofs.Json.Normal
import OntoGraph.Proofs.Json.Numerals
import OntoGraph.Proofs.Json.RoundTrip
import OntoGraph.Proofs.LinkedData.LabelPlaces
import OntoGraph.Proofs.LinkedData.ProtectedExpansion
import OntoGraph.Proofs.LinkedData.ProtectedItems
import OntoGraph.Proofs.LinkedData.ProtectedMembers
import OntoGraph.Proofs.LinkedData.ProtectedStatements
import OntoGraph.Proofs.LinkedData.ProtectedTriples
import OntoGraph.Proofs.Lockstep
import OntoGraph.Proofs.Number.Bits
import OntoGraph.Proofs.Number.Digits
import OntoGraph.Proofs.Number.Grids
import OntoGraph.Proofs.Number.Nearest
import OntoGraph.Proofs.Number.Powers
import OntoGraph.Proofs.Number.Rounding
import OntoGraph.Proofs.Number.Scaling
import OntoGraph.Proofs.Number.Shortest
import OntoGraph.Proofs.Number.ShortestNumeral
import OntoGraph.Proofs.Number.WholeNumerals
import OntoGraph.Proofs.Number.Written
import OntoGraph.Proofs.Ontology.Chain
import OntoGraph.Proofs.Ontology.ChainOutcome
import OntoGraph.Proofs.Ontology.Compiled
import OntoGraph.Proofs.Ontology.Enrichment
import OntoGraph.Proofs.Ontology.Hierarchy
import OntoGraph.Proofs.Ontology.Integers
import OntoGraph.Proofs.Ontology.LexicalForms
import OntoGraph.Proofs.Ontology.References
import OntoGraph.Proofs.Ontology.Renaming
import OntoGraph.Proofs.Ontology.Resolution
import OntoGraph.Proofs.Ontology.ResolverRun
import OntoGraph.Proofs.Ontology.Shapes
import OntoGraph.Proofs.Rdf.FreshBlanks
import OntoGraph.Proofs.Rdf.Lists
import OntoGraph.Proofs.Rdf.NTriples
import OntoGraph.Proofs.Rdf.NTriplesGrammar
import OntoGraph.Proofs.Rdf.NTriplesProductions
import OntoGraph.Proofs.Rdf.NTriplesReading
import OntoGraph.Proofs.Rdf.Relabel
import OntoGraph.Proofs.Rdf.Store
import OntoGraph.Proofs.Rdf.StoreRun
import OntoGraph.Proofs.Rdf.StoreText
import OntoGraph.Proofs.Session.MediaTypes
import OntoGraph.Proofs.Session.Run
import OntoGraph.Proofs.SortedMap
import OntoGraph.Proofs.Text.Blank
import OntoGraph.Proofs.Text.Scan
import OntoGraph.Proofs.Text.VersionGrammar
import OntoGraph.Proofs.Text.VersionPattern
import OntoGraph.Rdf.NTriples
import OntoGraph.Rdf.Names
import OntoGraph.Rdf.Store
import OntoGraph.Rdf.Term
import OntoGraph.Session
import OntoGraph.Settings.Configuration
import OntoGraph.Settings.Toml
import OntoGraph.SortedMap
import OntoGraph.Surroundings
import OntoGraph.Text.Blank
import OntoGraph.Text.CodePoints
import OntoGraph.Text.Digit
import OntoGraph.Text.LanguageTag
import OntoGraph.Text.Lowercase
import OntoGraph.Text.NameCharacter
import OntoGraph.Text.Quoted
import OntoGraph.Text.Scan
import OntoGraph.Text.Timestamp
import OntoGraph.Text.Version
import OntoGraph.Turtle.Reader
import OntoGraph.Turtle.Token
