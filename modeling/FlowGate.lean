import FlowGate.Flow.Session
import FlowGate.Main
import FlowGate.Proofs.RegistryEntries
import FlowGate.Proofs.Validity
import FlowGate.Proofs.AttributeContext
import FlowGate.Proofs.LinkReading
import FlowGate.Proofs.Grammar
import FlowGate.Proofs.ParserSoundness
import FlowGate.Proofs.ParserCompleteness
import FlowGate.Proofs.Lexing
import FlowGate.Proofs.CompileGrammar
import FlowGate.Proofs.ReferenceLookups
import FlowGate.Proofs.SurfaceText
import FlowGate.Proofs.WrittenForm
import FlowGate.Proofs.Reachability
import FlowGate.Proofs.LeastParentheses
import FlowGate.Proofs.ReferenceRuns
import FlowGate.Proofs.Substitution
import FlowGate.Proofs.Dereferencing
import FlowGate.Proofs.NestingLimits
import FlowGate.Proofs.Numerals
import FlowGate.Proofs.ObjectCoercion
import FlowGate.Proofs.ScopeDependence
import FlowGate.Proofs.PrintedJson
import FlowGate.Proofs.CommandAgreement
import FlowGate.Proofs.BracketedNames
import FlowGate.Proofs.ScopeHistories
import FlowGate.Proofs.WalkOrder
import FlowGate.Proofs.RegistryReports
import FlowGate.Proofs.DecisionReports
import FlowGate.Proofs.IntegerArithmetic
import FlowGate.Proofs.ValueEquality
import FlowGate.Proofs.Reloading
import FlowGate.Proofs.LexingLocality
import FlowGate.Proofs.OffendingTokens
import FlowGate.Proofs.ReferenceOrder
import FlowGate.Proofs.ValueOrder
import FlowGate.Proofs.LexicalFaults
import FlowGate.Proofs.ReferenceNames
import FlowGate.Proofs.TranslationLocality
import FlowGate.Proofs.CoercionOutcomes
import FlowGate.Proofs.FirstDefects
import FlowGate.Proofs.Thresholds
import FlowGate.Proofs.NestedIntegers
import FlowGate.Proofs.WrittenIntegers
