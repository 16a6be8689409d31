import ShardFleet.Main
import ShardFleet.Rehearsal.Directory
import ShardFleet.Rehearsal.Recorder
import ShardFleet.Rehearsal.Servers
import ShardFleet.Proofs.ServerState
import ShardFleet.Proofs.Transactions
import ShardFleet.Proofs.Retirement
import ShardFleet.Proofs.Lending
import ShardFleet.Proofs.BorrowFailures
import ShardFleet.Proofs.Framing
import ShardFleet.Proofs.Streams
import ShardFleet.Proofs.Attribution
import ShardFleet.Proofs.Isolation
import ShardFleet.Proofs.Openings
import ShardFleet.Proofs.Pieces
import ShardFleet.Proofs.SessionHandles
import ShardFleet.Proofs.CommandFrames
import ShardFleet.Proofs.RingGrowth
import ShardFleet.Proofs.Texts
import ShardFleet.Proofs.Numerals
import ShardFleet.Proofs.Grammar
import ShardFleet.Proofs.Encoding
import ShardFleet.Proofs.Convergence
import ShardFleet.Proofs.Acyclicity
import ShardFleet.Proofs.Masters
import ShardFleet.Proofs.Topology
import ShardFleet.Proofs.SharedServers
import ShardFleet.Proofs.Construction
import ShardFleet.Proofs.SubscriptionRuns
import ShardFleet.Proofs.Acknowledgements
import ShardFleet.Proofs.AskedOnLinks
import ShardFleet.Proofs.HomeShards
import ShardFleet.Proofs.Misuse
import ShardFleet.Proofs.HashTags
import ShardFleet.Proofs.NamesTogether
import ShardFleet.Proofs.Interleaving
import ShardFleet.Proofs.QuietEndings
import ShardFleet.Proofs.Deliveries
import ShardFleet.Proofs.Shutdowns
import ShardFleet.Proofs.Handshakes
import ShardFleet.Proofs.ToldEndings
import ShardFleet.Proofs.StoppedPromotions
import ShardFleet.Proofs.SettingsFiles
import ShardFleet.Proofs.NormalForms
import ShardFleet.Proofs.HealthReports
import ShardFleet.Proofs.Bounds
