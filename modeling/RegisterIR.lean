import RegisterIR.Check.Run
import RegisterIR.Main
import RegisterIR.Proofs.DeadCodeRuns
import RegisterIR.Proofs.EncodingDisjointness
import RegisterIR.Proofs.DispatchedTexts
import RegisterIR.Proofs.MarkAndSweep
import RegisterIR.Proofs.RoundTrip
import RegisterIR.Proofs.SafeRuns
import RegisterIR.Proofs.UnusedFunctions
import RegisterIR.Proofs.SettledFunctions
import RegisterIR.Proofs.AcceptedPrograms
import RegisterIR.Proofs.Idempotence
import RegisterIR.Proofs.DeclarationOrder
import RegisterIR.Proofs.CacheTransparency
import RegisterIR.Proofs.ValueSetOrder
import RegisterIR.Proofs.SafePayloads
import RegisterIR.Proofs.RegisterFaults
import RegisterIR.Proofs.LayerCounts
import RegisterIR.Proofs.ScriptGrammar
import RegisterIR.Proofs.MembershipTests
import RegisterIR.Proofs.CanonicalForm
import RegisterIR.Proofs.CheckedOutputs
import RegisterIR.Proofs.Mentions
import RegisterIR.Proofs.ReadingLoops
import RegisterIR.Proofs.RecordedReferences
import RegisterIR.Proofs.TotalReading
import RegisterIR.Proofs.GreedyMatching
import RegisterIR.Proofs.QuotedTexts
import RegisterIR.Proofs.Spacing
import RegisterIR.Proofs.SpacedPrograms
import RegisterIR.Proofs.DirectiveLines
import RegisterIR.Proofs.VariableNames
import RegisterIR.Proofs.FunctionLabels
