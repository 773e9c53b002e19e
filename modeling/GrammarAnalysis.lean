import GrammarAnalysis.Main
import GrammarAnalysis.Query
import GrammarAnalysis.Proofs.WellFormed
import GrammarAnalysis.Proofs.ProductionText
import GrammarAnalysis.Proofs.LocatedText
import GrammarAnalysis.Proofs.LongestMatch
import GrammarAnalysis.Proofs.FileStatements
import GrammarAnalysis.Proofs.Acceptance
import GrammarAnalysis.Proofs.ErrorSpans
import GrammarAnalysis.Proofs.FirstDefect
import GrammarAnalysis.Proofs.FileReading
import GrammarAnalysis.Proofs.FileDeclarations
import GrammarAnalysis.Proofs.Productions
import GrammarAnalysis.Proofs.Numbering
import GrammarAnalysis.Proofs.Derivation
import GrammarAnalysis.Proofs.LeftmostDerivation
import GrammarAnalysis.Proofs.Mirror
import GrammarAnalysis.Proofs.LeastSolution
import GrammarAnalysis.Proofs.Visits
import GrammarAnalysis.Proofs.FirstSets
import GrammarAnalysis.Proofs.FollowSets
import GrammarAnalysis.Proofs.SelectSets
import GrammarAnalysis.Proofs.Viability
import GrammarAnalysis.Proofs.LeftRecursion
import GrammarAnalysis.Proofs.ConflictOrder
import GrammarAnalysis.Proofs.TableEntries
import GrammarAnalysis.Proofs.OperatorShape
import GrammarAnalysis.Proofs.EdgeSets
import GrammarAnalysis.Proofs.PrecedenceMatrix
import GrammarAnalysis.Proofs.Neighbours
import GrammarAnalysis.Proofs.UnitChains
import GrammarAnalysis.Proofs.PassCount
import GrammarAnalysis.Proofs.Automaton
import GrammarAnalysis.Proofs.Descents
import GrammarAnalysis.Proofs.ParsedLanguage
import GrammarAnalysis.Proofs.MatrixCells
import GrammarAnalysis.Proofs.AssertionOrder
import GrammarAnalysis.Proofs.PrecedenceVerdict
import GrammarAnalysis.Proofs.MirroredPrecedence
import GrammarAnalysis.Proofs.ErrorPositions
import GrammarAnalysis.Proofs.WalkedFiles
import GrammarAnalysis.Proofs.WrittenArguments
import GrammarAnalysis.Proofs.RequestedTasks
import GrammarAnalysis.Proofs.ExitStatus
import GrammarAnalysis.Proofs.Renumbering
import GrammarAnalysis.Proofs.RenumberedParser
import GrammarAnalysis.Proofs.RenumberedPrecedence
import GrammarAnalysis.Proofs.WritingOrder
import GrammarAnalysis.Proofs.PrintedProductions
import GrammarAnalysis.Proofs.AddedAlternatives
import GrammarAnalysis.Proofs.ByteOrder
import GrammarAnalysis.Proofs.FileSearch
import GrammarAnalysis.Proofs.PrintedLines
import GrammarAnalysis.Proofs.PrintedMatrix
import GrammarAnalysis.Proofs.PrintedSections
import GrammarAnalysis.Proofs.ReportSections
