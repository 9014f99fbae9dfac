import Fat16.BootSector
import Fat16.Bytes
import Fat16.Chain
import Fat16.Chain.Cursor
import Fat16.Chain.Resolve
import Fat16.ClusterSet
import Fat16.CommandLine
import Fat16.Directory.Listing
import Fat16.Directory.Record
import Fat16.Fault
import Fat16.Finding
import Fat16.FixedText
import Fat16.Inspection
import Fat16.Main
import Fat16.Numeral
import Fat16.Proofs.BootSector
import Fat16.Proofs.BoundedSet
import Fat16.Proofs.ByteSize
import Fat16.Proofs.Bytes
import Fat16.Proofs.ChainText
import Fat16.Proofs.Claim
import Fat16.Proofs.ClusterSet
import Fat16.Proofs.Coverage
import Fat16.Proofs.Cursor
import Fat16.Proofs.CutTable
import Fat16.Proofs.Damage
import Fat16.Proofs.Directory.Listing
import Fat16.Proofs.Directory.Record
import Fat16.Proofs.Escaping
import Fat16.Proofs.Extent
import Fat16.Proofs.Footprint
import Fat16.Proofs.Geometry
import Fat16.Proofs.Grouping
import Fat16.Proofs.Layout
import Fat16.Proofs.Partition
import Fat16.Proofs.Recovery
import Fat16.Proofs.Report.Lines
import Fat16.Proofs.Report.Reading
import Fat16.Proofs.Resolution
import Fat16.Proofs.Rounding
import Fat16.Proofs.Soundness
import Fat16.Proofs.StoredTable
import Fat16.Proofs.Text
import Fat16.Proofs.Trail
import Fat16.Proofs.Verbosity
import Fat16.Proofs.Walk.Arena
import Fat16.Proofs.Walk.Content
import Fat16.Proofs.Walk.DepthLimit
import Fat16.Proofs.Walk.Findings
import Fat16.Proofs.Walk.Lockstep
import Fat16.Proofs.Walk.Log
import Fat16.Proofs.Walk.Order
import Fat16.Proofs.Walk.Outcomes
import Fat16.Proofs.Walk.Ownership
import Fat16.Proofs.Walk.WellFormed
import Fat16.Proofs.Walk.Work
import Fat16.Proofs.WordArithmetic
import Fat16.Quantity
import Fat16.Region
import Fat16.Report
import Fat16.Summary
import Fat16.Table
import Fat16.Tree
import Fat16.Tree.Walk
import Fat16.Volume
