import PatternAutomata.Alphabet
import PatternAutomata.Automaton.Basic
import PatternAutomata.Automaton.CompleteTable
import PatternAutomata.Automaton.Display
import PatternAutomata.Automaton.Matching
import PatternAutomata.Automaton.Minimize
import PatternAutomata.Automaton.Reachable
import PatternAutomata.Automaton.Subset
import PatternAutomata.Compile
import PatternAutomata.Error
import PatternAutomata.IdSet
import PatternAutomata.Indexing
import PatternAutomata.Interner
import PatternAutomata.Pattern.Dialect
import PatternAutomata.Pattern.Postfix
import PatternAutomata.Pattern.Rendering
import PatternAutomata.Pattern.Token
import PatternAutomata.PositionTree
import PatternAutomata.Proofs.Alphabet.Interning
import PatternAutomata.Proofs.Alphabet.OrderedSet
import PatternAutomata.Proofs.Arrays
import PatternAutomata.Proofs.Automaton.AccessibleSubsets
import PatternAutomata.Proofs.Automaton.AlphabetChoice
import PatternAutomata.Proofs.Automaton.BreadthFirst
import PatternAutomata.Proofs.Automaton.Built
import PatternAutomata.Proofs.Automaton.Canonical
import PatternAutomata.Proofs.Automaton.Completion
import PatternAutomata.Proofs.Automaton.DeclaredSink
import PatternAutomata.Proofs.Automaton.Distinction
import PatternAutomata.Proofs.Automaton.EndMarker
import PatternAutomata.Proofs.Automaton.ForeignCharacters
import PatternAutomata.Proofs.Automaton.Language
import PatternAutomata.Proofs.Automaton.LivePart
import PatternAutomata.Proofs.Automaton.Marking
import PatternAutomata.Proofs.Automaton.Minimization
import PatternAutomata.Proofs.Automaton.NumberedClasses
import PatternAutomata.Proofs.Automaton.NumberedQuotient
import PatternAutomata.Proofs.Automaton.Numbering
import PatternAutomata.Proofs.Automaton.OnlySinkDead
import PatternAutomata.Proofs.Automaton.PositionLiveness
import PatternAutomata.Proofs.Automaton.PositionSets
import PatternAutomata.Proofs.Automaton.PrefixMatching
import PatternAutomata.Proofs.Automaton.Produced
import PatternAutomata.Proofs.Automaton.Quotient
import PatternAutomata.Proofs.Automaton.Reachability
import PatternAutomata.Proofs.Automaton.StateDiscovery
import PatternAutomata.Proofs.Automaton.SubsetConstruction
import PatternAutomata.Proofs.Automaton.Trim
import PatternAutomata.Proofs.IdSet.BitArray
import PatternAutomata.Proofs.IdSet.Programs
import PatternAutomata.Proofs.Pattern.Acceptance
import PatternAutomata.Proofs.Pattern.Alphabets
import PatternAutomata.Proofs.Pattern.Diagnosis
import PatternAutomata.Proofs.Pattern.Expression
import PatternAutomata.Proofs.Pattern.Grammar
import PatternAutomata.Proofs.Pattern.Groups
import PatternAutomata.Proofs.Pattern.Infix
import PatternAutomata.Proofs.Pattern.Joining
import PatternAutomata.Proofs.Pattern.Lexing
import PatternAutomata.Proofs.Pattern.Liveness
import PatternAutomata.Proofs.Pattern.Meaning
import PatternAutomata.Proofs.Pattern.Parentheses
import PatternAutomata.Proofs.Pattern.Precedence
import PatternAutomata.Proofs.Pattern.Readback
import PatternAutomata.Proofs.Pattern.Reduction
import PatternAutomata.Proofs.Pattern.Rendering
import PatternAutomata.Proofs.Pattern.Spans
import PatternAutomata.Proofs.Pattern.Stages
import PatternAutomata.Proofs.Pattern.StarOperand
import PatternAutomata.Proofs.Regex.Arena
import PatternAutomata.Proofs.Regex.Followers
import PatternAutomata.Proofs.Regex.Language
import PatternAutomata.Proofs.Regex.Leaves
import PatternAutomata.Proofs.Regex.NodeOrder
import PatternAutomata.Proofs.Regex.Nodes
import PatternAutomata.Proofs.Regex.Positions
import PatternAutomata.Proofs.Regex.Postorder
import PatternAutomata.Proofs.Regex.Shifts
import PatternAutomata.Proofs.Regex.Words
import PatternAutomata.Proofs.Search
import PatternAutomata.Proofs.TableFilling.Classes
import PatternAutomata.Proofs.TableFilling.LiveClass
import PatternAutomata.Proofs.TableFilling.Marks
import PatternAutomata.Proofs.TableFilling.Queue
import PatternAutomata.Proofs.TableFilling.Rebuild
import PatternAutomata.Proofs.TableFilling.Tables
import PatternAutomata.Regex
import PatternAutomata.Regex.Attributed
import PatternAutomata.Search
import PatternAutomata.Text.Extending
import PatternAutomata.Text.Printable
import PatternAutomata.Text.Quoted
