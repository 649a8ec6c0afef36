import ServiceDiscovery.Main
import ServiceDiscovery.Proofs.Registry.Rotation
import ServiceDiscovery.Proofs.Schedule.Publications
import ServiceDiscovery.Proofs.Schedule.Renewals
import ServiceDiscovery.Proofs.Store.LazyPurge
import ServiceDiscovery.Proofs.Registry.Sightings
import ServiceDiscovery.Proofs.Store.Entries
import ServiceDiscovery.Proofs.Roots
import ServiceDiscovery.Proofs.Schedule.Deeds
import ServiceDiscovery.Proofs.Schedule.TaskDeeds
import ServiceDiscovery.Proofs.Schedule.Announcements
import ServiceDiscovery.Proofs.Schedule.Discovery
import ServiceDiscovery.Proofs.Schedule.Isolation
import ServiceDiscovery.Proofs.Store.Lifetimes
import ServiceDiscovery.Proofs.Schedule.Ghosts
import ServiceDiscovery.Proofs.Schedule.Residue
import ServiceDiscovery.Proofs.Registry.History
import ServiceDiscovery.Proofs.Schedule.Patrols
import ServiceDiscovery.Proofs.Schedule.Visibility
import ServiceDiscovery.Proofs.Schedule.Conversations
import ServiceDiscovery.Proofs.Registry.Undisturbed
import ServiceDiscovery.Proofs.Schedule.Persistence
import ServiceDiscovery.Proofs.Schedule.Setbacks
import ServiceDiscovery.Proofs.Schedule.Trouble
import ServiceDiscovery.Proofs.Registry.Churn
import ServiceDiscovery.Proofs.Registry.Neighbours
import ServiceDiscovery.Proofs.Store.Bindings
import ServiceDiscovery.Proofs.Schedule.Refreshes
import ServiceDiscovery.Proofs.Json.Tolerance
import ServiceDiscovery.Proofs.Keys
import ServiceDiscovery.Proofs.Store.Streams
import ServiceDiscovery.Proofs.Deadlines
import ServiceDiscovery.Proofs.Schedule.Forestalled
import ServiceDiscovery.Proofs.Registry.Snapshots
import ServiceDiscovery.Proofs.Store.Scans
import ServiceDiscovery.Proofs.Registry.Stamps
