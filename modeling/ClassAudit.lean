import ClassAudit.Main
import ClassAudit.Proofs.AssemblyProperties
import ClassAudit.Runner.Schedule
import ClassAudit.Proofs.DescriptorProperties
import ClassAudit.Proofs.CanonicalProperties
import ClassAudit.Proofs.DescriptorFindingProperties
import ClassAudit.Proofs.CacheProperties
import ClassAudit.Proofs.DecodeHistoryProperties
import ClassAudit.Proofs.RunReportProperties
import ClassAudit.Proofs.ScheduleProperties
import ClassAudit.Proofs.ClassTextProperties
import ClassAudit.Proofs.PoolAddressProperties
import ClassAudit.Proofs.LintProperties
import ClassAudit.Proofs.DecodeFailureProperties
import ClassAudit.Proofs.BinaryNameProperties
import ClassAudit.Proofs.RuleVerdictProperties
import ClassAudit.Proofs.ArgumentLimitProperties
import ClassAudit.Proofs.SelectionProperties
import ClassAudit.Proofs.LayoutIndependenceProperties
import ClassAudit.Reference.Gathering
import ClassAudit.Proofs.GatheringProperties
import ClassAudit.Proofs.SortingProperties
import ClassAudit.Proofs.ClassDrawingProperties
import ClassAudit.Proofs.DrawingLimitProperties
import ClassAudit.Proofs.InputStyleProperties
import ClassAudit.Proofs.NodeIdentifierProperties
import ClassAudit.Proofs.ReferenceGraphProperties
import ClassAudit.Proofs.ReferenceListingProperties
import ClassAudit.Proofs.ExpansionProperties
import ClassAudit.Proofs.CanonicalMeaningProperties
import ClassAudit.Proofs.LinkedInputProperties
import ClassAudit.Proofs.MarkupProperties
import ClassAudit.Proofs.OneLineProperties
import ClassAudit.Proofs.OpenCountProperties
import ClassAudit.Proofs.ReportLineProperties
import ClassAudit.Proofs.SharedOpeningProperties
import ClassAudit.Proofs.StreamProperties
