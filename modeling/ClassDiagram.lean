import ClassDiagram.Main
import ClassDiagram.Proofs.Relation.Rules
import ClassDiagram.Proofs.OrderedMap
import ClassDiagram.Proofs.Relation.Runs
import ClassDiagram.Proofs.Inference.Pairs
import ClassDiagram.Proofs.Inference.ClosedForm
import ClassDiagram.Proofs.Text.Names
import ClassDiagram.Proofs.Source.Member
import ClassDiagram.Proofs.Source.Readings
import ClassDiagram.Proofs.Source.Parameters
import ClassDiagram.Proofs.Source.Comments
import ClassDiagram.Proofs.Source.Constants
import ClassDiagram.Proofs.Source.Supertypes
import ClassDiagram.Proofs.Extraction.Printing
import ClassDiagram.Proofs.Extraction.Items
import ClassDiagram.Proofs.Extraction.Opening
import ClassDiagram.Proofs.Extraction.RoundTrip
import ClassDiagram.Proofs.Inference.Fixpoint
import ClassDiagram.Proofs.Inference.DeclaredOnly
import ClassDiagram.Proofs.Extraction.Units
import ClassDiagram.Proofs.Registry.Log
import ClassDiagram.Proofs.Extraction.FirstSeen
import ClassDiagram.Proofs.Extraction.WellFormed
import ClassDiagram.Proofs.Inference.Edges
import ClassDiagram.Proofs.Inference.Dependencies
import ClassDiagram.Proofs.Diagram.Sources
import ClassDiagram.Proofs.TypeExpr.Grammar
import ClassDiagram.Proofs.TypeExpr.Written
import ClassDiagram.Proofs.TypeExpr.Normalized
import ClassDiagram.Proofs.Document.Lines
import ClassDiagram.Proofs.Document.Injective
import ClassDiagram.Proofs.Extraction.OneLine
import ClassDiagram.Proofs.Document.Sources
import ClassDiagram.Proofs.Inference.Mentions
import ClassDiagram.Proofs.Inference.TypeParameters
import ClassDiagram.Proofs.Source.ParameterLists
import ClassDiagram.Proofs.Source.Block
import ClassDiagram.Proofs.Source.TypeParameterLists
import ClassDiagram.Proofs.Source.MemberOrder
import ClassDiagram.Proofs.Extraction.Offsets
import ClassDiagram.Proofs.Files.Sources
