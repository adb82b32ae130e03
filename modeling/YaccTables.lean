import YaccTables.Command
import YaccTables.Main
import YaccTables.Outline.Forest
import YaccTables.Proofs.Numbering
import YaccTables.Proofs.Traversal
import YaccTables.Proofs.Validation
import YaccTables.Proofs.Lowering
import YaccTables.Proofs.Assembly
import YaccTables.Proofs.Translation
import YaccTables.Proofs.Derivation
import YaccTables.Proofs.Weaving
import YaccTables.Proofs.DocumentForm
import YaccTables.Proofs.Reading
import YaccTables.Proofs.Meaning
import YaccTables.Proofs.Parsing
import YaccTables.Proofs.Building
import YaccTables.Proofs.FreshNames
import YaccTables.Proofs.TableOrder
import YaccTables.Proofs.Resolution
import YaccTables.Proofs.RuleOrder
import YaccTables.Proofs.ParseTrees
import YaccTables.Proofs.Unweaving
import YaccTables.Proofs.Consistency
import YaccTables.Proofs.Augmentation
import YaccTables.Proofs.Decimal
import YaccTables.Proofs.CanonicalForm
import YaccTables.Proofs.Identifiers
import YaccTables.Proofs.Fingerprint
import YaccTables.Proofs.Problems
import YaccTables.Proofs.TokenNames
import YaccTables.Proofs.Effects
import YaccTables.Proofs.ListingTables
import YaccTables.Proofs.LongestMatch
import YaccTables.Proofs.PrecedenceGroups
import YaccTables.Proofs.Precedences
import YaccTables.Proofs.Tokenizing
import YaccTables.Proofs.ErrorSpans
import YaccTables.Proofs.TrailingText
import YaccTables.Proofs.CodePoints
import YaccTables.Proofs.JsonReading
import YaccTables.Proofs.Snapshots
import YaccTables.Proofs.JsonDump
import YaccTables.Proofs.PrintedText
import YaccTables.Proofs.Reprinting
import YaccTables.Proofs.TextLines
import YaccTables.Proofs.Spans
import YaccTables.Proofs.Outlines
import YaccTables.Proofs.Literals
import YaccTables.Proofs.GraphicText
import YaccTables.Proofs.GeneratedLines
import YaccTables.Proofs.Columns
