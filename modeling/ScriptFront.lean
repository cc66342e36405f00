import ScriptFront.Main
import ScriptFront.Grammar.Session
import ScriptFront.Token.Playback
import ScriptFront.Proofs.Alike
import ScriptFront.Proofs.Parting
import ScriptFront.Proofs.Rules
import ScriptFront.Proofs.Levels
import ScriptFront.Proofs.Syntax
import ScriptFront.Proofs.Reading
import ScriptFront.Proofs.Accord
import ScriptFront.Proofs.Conformity.Expression
import ScriptFront.Proofs.Conformity.List
import ScriptFront.Proofs.Conformity.Statement
import ScriptFront.Proofs.Acceptance
import ScriptFront.Proofs.FirstFault
import ScriptFront.Proofs.Scanning
import ScriptFront.Proofs.Lossless
import ScriptFront.Proofs.Recording
import ScriptFront.Proofs.Spelling
import ScriptFront.Proofs.Retained
import ScriptFront.Proofs.Invariant
import ScriptFront.Proofs.TopLevel
import ScriptFront.Proofs.Lexemes
import ScriptFront.Proofs.Numbering
import ScriptFront.Proofs.Cutting
import ScriptFront.Proofs.Renaming
import ScriptFront.Proofs.Sources
import ScriptFront.Proofs.Concatenation
import ScriptFront.Proofs.Printed
import ScriptFront.Proofs.Nesting
import ScriptFront.Proofs.RoundTrip
import ScriptFront.Proofs.Lines
import ScriptFront.Proofs.Pointing
import ScriptFront.Proofs.Listed
import ScriptFront.Proofs.Layouts
import ScriptFront.Proofs.Noting
import ScriptFront.Proofs.Correspondence
import ScriptFront.Proofs.NameTable
import ScriptFront.Proofs.Failing
import ScriptFront.Proofs.Limit
import ScriptFront.Proofs.Describing
import ScriptFront.Proofs.Returning
import ScriptFront.Proofs.Parenthesised
import ScriptFront.Proofs.Decoding
import ScriptFront.Proofs.WellFormed
import ScriptFront.Proofs.Payloads
import ScriptFront.Proofs.Outcomes
import ScriptFront.Proofs.LongestMatch
import ScriptFront.Proofs.Reached
import ScriptFront.Proofs.LineCount
import ScriptFront.Proofs.Resuming
import ScriptFront.Proofs.Literals
import ScriptFront.Proofs.LineLookup
import ScriptFront.Proofs.CaretColumn
import ScriptFront.Proofs.SelfDelimiting
import ScriptFront.Proofs.Renderings
import ScriptFront.Proofs.Confined
import ScriptFront.Proofs.Restoring
import ScriptFront.Proofs.Ending
