import Lookahead.Analysis
import Lookahead.Grammar.Constraints
import Lookahead.Grammar.Derivation
import Lookahead.Json.Codec
import Lookahead.NamedEstimate
import Lookahead.Proofs.RuleEffect
import Lookahead.Registers
import Lookahead.RuleLayout
import Lookahead.Session
import Lookahead.Proofs.Closure
import Lookahead.Proofs.Numbering
import Lookahead.Proofs.Run
import Lookahead.Proofs.TableEntries
import Lookahead.Proofs.Derivations
import Lookahead.Proofs.LeastSolution
import Lookahead.Proofs.DerivedSets
import Lookahead.Proofs.First
import Lookahead.Proofs.Follow
import Lookahead.Proofs.Neighbours
import Lookahead.Proofs.FollowExact
import Lookahead.Proofs.Columns
import Lookahead.Proofs.Convergence
import Lookahead.Proofs.Comparison
import Lookahead.Proofs.NamedRun
import Lookahead.Proofs.Lines
import Lookahead.Proofs.Acceptance
import Lookahead.Proofs.Layout
import Lookahead.Proofs.LifeCycle
import Lookahead.Proofs.Contents
import Lookahead.Proofs.Interning
import Lookahead.Proofs.Bounds
import Lookahead.Proofs.Renaming
import Lookahead.Proofs.Growth
import Lookahead.Proofs.Joining
import Lookahead.Proofs.Printing
import Lookahead.Proofs.Classification
import Lookahead.Grammar.Gathering
import Lookahead.Proofs.Construction
import Lookahead.Proofs.LastPositions
import Lookahead.Proofs.Locality
import Lookahead.BitSet.ByWord
import Lookahead.SetMachine
import Lookahead.NumberSet
import Lookahead.Proofs.WordOperations
import Lookahead.Proofs.NumberSets
import Lookahead.BitSet.Cursor
import Lookahead.Proofs.Iteration
import Lookahead.RawRules
import Lookahead.Proofs.EpsilonMarks
import Lookahead.Proofs.Spelling
import Lookahead.Narration
import Lookahead.Proofs.Reporting
import Lookahead.Json.Reader
import Lookahead.Proofs.JsonTexts
import Lookahead.Proofs.Places
import Lookahead.Proofs.RuleOutcome
import Lookahead.Proofs.Serialization
