import SsaFlow.Build.Session
import SsaFlow.Command.Report
import SsaFlow.Flow.Query
import SsaFlow.Ir.Edit
import SsaFlow.Main
import SsaFlow.Proofs.BlockLayout
import SsaFlow.Proofs.ExprOwners
import SsaFlow.Proofs.FunctionTable
import SsaFlow.Proofs.GuardControl
import SsaFlow.Proofs.GuardQueries
import SsaFlow.Proofs.KeptCode
import SsaFlow.Proofs.LocalFlow
import SsaFlow.Proofs.SaveLoad
import SsaFlow.Proofs.SelfContained
import SsaFlow.Proofs.ValueMeaning
import SsaFlow.Proofs.SessionHistory
import SsaFlow.Proofs.StaleIndexes
import SsaFlow.Proofs.Congruence
import SsaFlow.Proofs.Memoization
import SsaFlow.Proofs.DominatorTree
import SsaFlow.Proofs.DeadCode
import SsaFlow.Proofs.StepCounts
import SsaFlow.Proofs.ConfigOrder
import SsaFlow.Proofs.AddedFunctions
import SsaFlow.Proofs.ClassPartition
import SsaFlow.Proofs.ConversionChains
import SsaFlow.Proofs.NodeListing
import SsaFlow.Proofs.FinishedPrograms
import SsaFlow.Proofs.NodeViews
import SsaFlow.Proofs.FailedSteps
import SsaFlow.Proofs.EdgeLists
import SsaFlow.Proofs.NodeReferences
