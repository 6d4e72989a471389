import ShiftReduce.Lexer.SpecJson
import ShiftReduce.Parser
import ShiftReduce.Table.Json
import ShiftReduce.Proofs.Fallible
import ShiftReduce.Proofs.Text.Decimal
import ShiftReduce.Proofs.Text.Slices
import ShiftReduce.Proofs.Lexer.LongestMatch
import ShiftReduce.Proofs.Text.Tilings
import ShiftReduce.Proofs.Lexer.Sessions
import ShiftReduce.Proofs.Lexer.Forcing
import ShiftReduce.Proofs.Automaton.ItemSets
import ShiftReduce.Proofs.Automaton.Numbering
import ShiftReduce.Proofs.Automaton.FirstSets
import ShiftReduce.Proofs.Automaton.Exactness
import ShiftReduce.Proofs.Automaton.Closure
import ShiftReduce.Proofs.Automaton.Canonical
import ShiftReduce.Proofs.Automaton.Construction
import ShiftReduce.Proofs.Automaton.Worklists
import ShiftReduce.Proofs.Automaton.Lalr
import ShiftReduce.Proofs.Automaton.Renumbering
import ShiftReduce.Proofs.Table.NameMaps
import ShiftReduce.Proofs.Table.Rows
import ShiftReduce.Proofs.Table.Compaction
import ShiftReduce.Proofs.Table.Unambiguity
import ShiftReduce.Proofs.Table.Renumbering
import ShiftReduce.Proofs.Grammar.Admissible
import ShiftReduce.Proofs.Grammar.Refusals
import ShiftReduce.Proofs.Grammar.Origins
import ShiftReduce.Proofs.Grammar.DerivationTrees
import ShiftReduce.Proofs.Grammar.Forests
import ShiftReduce.Proofs.Grammar.Normal
import ShiftReduce.Proofs.Grammar.PlainLanguage
import ShiftReduce.Proofs.Automaton.Terminals
import ShiftReduce.Proofs.Grammar.Beginnings
import ShiftReduce.Proofs.Grammar.Renaming
import ShiftReduce.Proofs.Grammar.Relocation
import ShiftReduce.Proofs.Grammar.Rearranging
import ShiftReduce.Proofs.Parse.Gathering
import ShiftReduce.Proofs.Parse.Failures
import ShiftReduce.Proofs.Parse.Steps
import ShiftReduce.Proofs.Parse.Stack
import ShiftReduce.Proofs.Parse.Standing
import ShiftReduce.Proofs.Parse.Safety
import ShiftReduce.Proofs.Parse.Shifting
import ShiftReduce.Proofs.Grammar.Language
import ShiftReduce.Proofs.Parse.Soundness
import ShiftReduce.Proofs.Parse.Progress
import ShiftReduce.Proofs.Parse.Boundaries
import ShiftReduce.Proofs.Parse.Completeness
import ShiftReduce.Proofs.Parse.Reports
import ShiftReduce.Proofs.Grammar.Denotation
import ShiftReduce.Proofs.Parse.Planting
import ShiftReduce.Proofs.Parse.Termination
import ShiftReduce.Proofs.Parse.Trees
import ShiftReduce.Proofs.Parse.Budget
import ShiftReduce.Proofs.Parse.Rejection
import ShiftReduce.Proofs.Grammar.Postorder
import ShiftReduce.Proofs.Parse.Lockstep
import ShiftReduce.Proofs.Parse.TreeReports
import ShiftReduce.Proofs.Parse.Outline
import ShiftReduce.Proofs.Parse.Pruning
import ShiftReduce.Proofs.Parse.Leaves
import ShiftReduce.Proofs.Parse.Relabeling
import ShiftReduce.Proofs.Parse.Correspondence
import ShiftReduce.Proofs.Parse.Rearranged
import ShiftReduce.Proofs.Table.Intact
import ShiftReduce.Proofs.Table.Storing
import ShiftReduce.Proofs.Json.Scalars
import ShiftReduce.Proofs.Json.RoundTrip
import ShiftReduce.Proofs.Table.Written
import ShiftReduce.Proofs.Parse.Restoring
import ShiftReduce.Proofs.Parse.Confinement
import ShiftReduce.Proofs.Parse.Limits
import ShiftReduce.Proofs.Parse.Places
import ShiftReduce.Proofs.Ebnf.Lexing
import ShiftReduce.Proofs.Ebnf.Splitting
import ShiftReduce.Proofs.Ebnf.Reading
import ShiftReduce.Proofs.Ebnf.Parsing
import ShiftReduce.Proofs.Ebnf.Spelling
import ShiftReduce.Proofs.Ebnf.RoundTrip
import ShiftReduce.Proofs.Grammar.Freshness
import ShiftReduce.Proofs.Grammar.Queue
import ShiftReduce.Proofs.Ebnf.Phrases
import ShiftReduce.Proofs.Ebnf.Judging
import ShiftReduce.Proofs.Ebnf.Acceptance
import ShiftReduce.Proofs.Ebnf.Places
import ShiftReduce.Proofs.Parse.Groups
import ShiftReduce.Proofs.Lexer.GroupNames
