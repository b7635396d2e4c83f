import CallClusters.Main
import CallClusters.Proofs.DisjointSets.Calls
import CallClusters.Proofs.Cluster.Components
import CallClusters.Proofs.Record.Clustering
import CallClusters.Proofs.Report.Consistency
import CallClusters.Proofs.DisjointSets.Uncompressed
import CallClusters.Proofs.Cluster.Internal
import CallClusters.Proofs.Analysis.Document
import CallClusters.Proofs.Analysis.Run
import CallClusters.Proofs.Record.Partition
import CallClusters.Proofs.Renaming.Data
import CallClusters.Proofs.Renaming.Partition
import CallClusters.Proofs.Graph.Degree
import CallClusters.Proofs.Report.Counts
import CallClusters.Proofs.Renaming.Cluster
import CallClusters.Proofs.Report.Order
import CallClusters.Proofs.Analysis.Exits
import CallClusters.Proofs.Analysis.Footprint
import CallClusters.Proofs.Analysis.Stages
import CallClusters.Proofs.Analysis.History
import CallClusters.Proofs.Partition.Bounds
import CallClusters.Proofs.Partition.Invariance
import CallClusters.Proofs.Partition.Levels
import CallClusters.Proofs.Cluster.Members
import CallClusters.Proofs.Cluster.Coarsening
import CallClusters.Proofs.Analysis.Loading
import CallClusters.Proofs.Graph.Additions
import CallClusters.Proofs.Graph.Insertion
import CallClusters.Proofs.Report.Quotients
import CallClusters.Proofs.Page.Palette
import CallClusters.Proofs.Page.Drawing
import CallClusters.Proofs.Page.Agreement
import CallClusters.Proofs.Page.Closings
import CallClusters.Proofs.Json.Record
import CallClusters.Proofs.Record.Spelling
import CallClusters.Proofs.DisjointSets.Depth
import CallClusters.Proofs.OrderStatistic
