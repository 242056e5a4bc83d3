import PowerTrace.Main
import PowerTrace.Proofs.Accounting
import PowerTrace.Proofs.Alignment
import PowerTrace.Proofs.Attribution
import PowerTrace.Proofs.DepthHistory
import PowerTrace.Proofs.Dropping
import PowerTrace.Proofs.FrequencyBook
import PowerTrace.Proofs.FullRefresh
import PowerTrace.Proofs.HeaderMachine
import PowerTrace.Proofs.IdleTime
import PowerTrace.Proofs.KnownFrequency
import PowerTrace.Proofs.Labels
import PowerTrace.Proofs.Locality
import PowerTrace.Proofs.LoneMember
import PowerTrace.Proofs.OptionEffects
import PowerTrace.Proofs.OutputFile
import PowerTrace.Proofs.OverlapMeasure
import PowerTrace.Proofs.PositiveDurations
import PowerTrace.Proofs.RankWalk
import PowerTrace.Proofs.Repetition
import PowerTrace.Proofs.RetainedTotals
import PowerTrace.Proofs.SelfComparison
import PowerTrace.Proofs.SeparatedFields
import PowerTrace.Proofs.BoxedLines
import PowerTrace.Proofs.StoreRuns
import PowerTrace.Proofs.Tally
import PowerTrace.Proofs.TimeShift
import PowerTrace.Proofs.TraceRoundTrip
import PowerTrace.Proofs.EventWords
import PowerTrace.Proofs.PowerLines
import PowerTrace.Proofs.InterruptLines
import PowerTrace.Proofs.ReportRows
import PowerTrace.Proofs.OverlapQueries
import PowerTrace.Proofs.Ending
import PowerTrace.Proofs.Construction
import PowerTrace.Proofs.FirstWakeups
import PowerTrace.Proofs.Gathering
import PowerTrace.Proofs.PlacementMaps
import PowerTrace.Proofs.KernelTraces
import PowerTrace.Proofs.Summaries
