import FuzzCampaign.Main
import FuzzCampaign.Proofs.Arrangement
import FuzzCampaign.Proofs.Winners
import FuzzCampaign.Proofs.Supersession
import FuzzCampaign.Proofs.WinningSeries
import FuzzCampaign.Proofs.FileAccounting
import FuzzCampaign.Proofs.Totals
import FuzzCampaign.Proofs.Rearrangement
import FuzzCampaign.Proofs.Outcomes
import FuzzCampaign.Proofs.NewEntry
import FuzzCampaign.Proofs.Increments
import FuzzCampaign.Proofs.Growth
import FuzzCampaign.Proofs.Compaction
import FuzzCampaign.Proofs.ReadingOrder
import FuzzCampaign.Proofs.Replacement
import FuzzCampaign.Proofs.CrossCheck
import FuzzCampaign.Proofs.UnreadFields
import FuzzCampaign.Proofs.MetadataText
import FuzzCampaign.Proofs.Json.Grammar
import FuzzCampaign.Proofs.Json.Tokens
import FuzzCampaign.Proofs.Json.Numbers
import FuzzCampaign.Proofs.Json.Strings
import FuzzCampaign.Proofs.Json.Skipping
import FuzzCampaign.Proofs.Json.Scalars
import FuzzCampaign.Proofs.Json.Objects
import FuzzCampaign.Proofs.GlobalStateText
import FuzzCampaign.Proofs.Json.Reading
import FuzzCampaign.Proofs.Json.Writing
import FuzzCampaign.Proofs.NumberText
import FuzzCampaign.Proofs.ReportText
import FuzzCampaign.Proofs.Paths
import FuzzCampaign.Proofs.Saving
import FuzzCampaign.Proofs.RunEffects
import FuzzCampaign.Proofs.ReportMetadata
import FuzzCampaign.Proofs.SavingAgain
import FuzzCampaign.Proofs.OwnReport
import FuzzCampaign.Proofs.JoinedSeries
import FuzzCampaign.Proofs.WarningOrder
import FuzzCampaign.Proofs.Relocation
import FuzzCampaign.Proofs.Repetition
import FuzzCampaign.Proofs.SeriesChecks
import FuzzCampaign.Proofs.Enumeration
import FuzzCampaign.Proofs.Json.Spacing
import FuzzCampaign.Proofs.ReportLayout
import FuzzCampaign.Proofs.FileContents
import FuzzCampaign.Proofs.ConfigurationChoice
import FuzzCampaign.Proofs.QuotedText
import FuzzCampaign.Proofs.FailureText
import FuzzCampaign.Proofs.StateCounts
import FuzzCampaign.Proofs.ShownWarnings
import FuzzCampaign.Proofs.NearestValue
import FuzzCampaign.Proofs.ExactPercentages
import FuzzCampaign.Proofs.Toml.KeyOrder
import FuzzCampaign.Proofs.Toml.DistinctKeys
import FuzzCampaign.Proofs.ConfigurationTree
