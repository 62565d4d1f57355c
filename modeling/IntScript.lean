import IntScript.Attempt
import IntScript.CommandLine.Repl
import IntScript.CommandLine.Script
import IntScript.CommandLine.Transcript
import IntScript.Error
import IntScript.Evaluation
import IntScript.Event
import IntScript.Interpreter
import IntScript.Json
import IntScript.Json.Pretty
import IntScript.Limits
import IntScript.Main
import IntScript.Operator
import IntScript.Operator.Apply
import IntScript.Program
import IntScript.Program.Json
import IntScript.Program.Parse
import IntScript.Program.ParseFuel
import IntScript.Program.Source
import IntScript.Scope
import IntScript.Table
import IntScript.Text.Blank
import IntScript.Text.Decimal
import IntScript.Text.Order
import IntScript.Text.Quoted
import IntScript.Text.Unprintable
import IntScript.Token
import IntScript.Token.Json
import IntScript.Token.Scanner
import IntScript.Token.Segment
import IntScript.Tool
import IntScript.Value
import IntScript.World
import IntScript.Proofs.Reached
import IntScript.Proofs.Failure
import IntScript.Proofs.StaticScoping
import IntScript.Proofs.Simulation
import IntScript.Proofs.Confinement
import IntScript.Proofs.Grammar
import IntScript.Proofs.ParseLaws
import IntScript.Proofs.GrammarSound
import IntScript.Proofs.Continuation
import IntScript.Proofs.GrammarComplete
import IntScript.Proofs.Rendering
import IntScript.Proofs.SpellingScanned
import IntScript.Proofs.RoundTrip
import IntScript.Proofs.FrontEndImage
import IntScript.Proofs.LimitLaws
import IntScript.Proofs.Termination
import IntScript.Proofs.CutShort
import IntScript.Proofs.Kinship
import IntScript.Proofs.LimitsRaised
import IntScript.Proofs.ScopesAkin
import IntScript.Proofs.Rephrasing
import IntScript.Proofs.RephrasedPrograms
import IntScript.Proofs.LookAhead
import IntScript.Proofs.Stalling
import IntScript.Proofs.SyntaxErrors
import IntScript.Proofs.FrameChains
import IntScript.Proofs.Motion
import IntScript.Proofs.Displaced
import IntScript.Proofs.LongestMatch
import IntScript.Proofs.Reset
import IntScript.Proofs.Placeless
import IntScript.Proofs.JoinedSources
import IntScript.Proofs.Sessions
import IntScript.Proofs.Trails
import IntScript.Proofs.CellNames
import IntScript.Proofs.NotedEvents
import IntScript.Proofs.CallDepth
import IntScript.Proofs.Resolution
import IntScript.Proofs.OutwardCalls
import IntScript.Proofs.Renaming
import IntScript.Proofs.RenamedPrograms
import IntScript.Proofs.Unrolling
import IntScript.Proofs.JsonForm
import IntScript.Proofs.Recovery
import IntScript.Proofs.LinkedWorlds
import IntScript.Proofs.PaddedScopes
import IntScript.Proofs.PaddedRuns
import IntScript.Proofs.UnusedDeclarations
import IntScript.Proofs.CompletedDeclarations
import IntScript.Proofs.ExactArithmetic
import IntScript.Proofs.FewestParentheses
import IntScript.Proofs.PrintedLines
import IntScript.Proofs.IndexSafety
