import PathIdentity.Clock.Order
import PathIdentity.Config.Load
import PathIdentity.Json.Coding
import PathIdentity.Json.Reader
import PathIdentity.Pool.Session
import PathIdentity.Proofs.Pool.Agreement
import PathIdentity.Proofs.Pool.Content
import PathIdentity.Proofs.Pool.Identity
import PathIdentity.Proofs.Pool.Canonical
import PathIdentity.Proofs.Clock.Hash
import PathIdentity.Proofs.Clock.Order
import PathIdentity.Proofs.Clock.Words
import PathIdentity.Proofs.Pool.History
import PathIdentity.Proofs.Pool.Lifecycle
import PathIdentity.Proofs.Pool.Mirror
import PathIdentity.Proofs.Pool.Isolation
import PathIdentity.Proofs.Clock.SwitchedOff
import PathIdentity.Proofs.Pool.Order
import PathIdentity.Proofs.Pool.Comparison
import PathIdentity.Proofs.Pool.Immutable
import PathIdentity.Proofs.Pool.Eviction
import PathIdentity.Proofs.Pool.InsertionLog
import PathIdentity.Proofs.Pool.Reinsertion
import PathIdentity.Proofs.NearMiss
import PathIdentity.Proofs.Clock.Times
import PathIdentity.Proofs.Clock.Filter
import PathIdentity.Proofs.Pool.Drops
import PathIdentity.Proofs.Pool.Provenance
import PathIdentity.Proofs.Config.Load
import PathIdentity.Proofs.Json.Coding
