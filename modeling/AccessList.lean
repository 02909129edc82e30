import AccessList.Main
import AccessList.Proofs.AddressOctets
import AccessList.Proofs.ScenarioRuns
import AccessList.Proofs.Histories
import AccessList.Proofs.LiveObjects
import AccessList.Proofs.FreshHandles
import AccessList.Proofs.PreparedRules
import AccessList.Proofs.DryRuns
import AccessList.Proofs.LaterPlacements
import AccessList.Proofs.FittingKinds
import AccessList.Proofs.FailedRequests
import AccessList.Proofs.HistoryViews
import AccessList.Proofs.Interleavings
import AccessList.Proofs.ConcurrentPlacements
import AccessList.Proofs.FailedCalls
import AccessList.Proofs.ArmedFailures
import AccessList.Proofs.ExtraFlags
import AccessList.Proofs.KeylessRules
import AccessList.Proofs.ExitCodes
import AccessList.Proofs.AddressSpellings
import AccessList.Proofs.LeadingBits
import AccessList.Proofs.NetworkMatches
import AccessList.Proofs.FittingOrder
import AccessList.Proofs.KeyReadings
import AccessList.Proofs.ErrorPrecedence
import AccessList.Proofs.LiteralKinds
import AccessList.Proofs.LooserSettings
import AccessList.Proofs.TableNames
import AccessList.Proofs.DistinctFields
import AccessList.Proofs.ScalarMatches
import AccessList.Proofs.MacTexts
import AccessList.Proofs.NameSpellings
import AccessList.Proofs.PrintedDocuments
import AccessList.Proofs.ReportDocuments
