import RemoteCall.Main
import RemoteCall.Client.Session
import RemoteCall.Frame.Sink
import RemoteCall.Frame.Source
import RemoteCall.Kit.Single
import RemoteCall.Server.Session
import RemoteCall.Trait.Expansion
import RemoteCall.Proofs.Client.Correlation
import RemoteCall.Proofs.Server.Queue
import RemoteCall.Proofs.Link.Power
import RemoteCall.Proofs.Server.Departure
import RemoteCall.Proofs.Server.Verdict
import RemoteCall.Proofs.Client.Ending
import RemoteCall.Proofs.Client.Ledger
import RemoteCall.Proofs.Frame.Cut
import RemoteCall.Proofs.Frame.Grammar
import RemoteCall.Proofs.Text.Casing
import RemoteCall.Proofs.Trait.Registration
import RemoteCall.Proofs.Link.Streams
import RemoteCall.Proofs.Hops
import RemoteCall.Proofs.Client.Leaving
import RemoteCall.Proofs.Server.Isolation
import RemoteCall.Proofs.Server.Aftermath
import RemoteCall.Proofs.Frame.Recovery
import RemoteCall.Proofs.Frame.Room
import RemoteCall.Proofs.Client.Arrivals
import RemoteCall.Proofs.Client.Requests
import RemoteCall.Proofs.Trait.Acceptance
import RemoteCall.Proofs.Trait.Reading
import RemoteCall.Proofs.Trait.Notation
import RemoteCall.Proofs.Client.Earliest
import RemoteCall.Proofs.Unexpected
import RemoteCall.Proofs.Trait.Naming
import RemoteCall.Proofs.MethodTable
import RemoteCall.Proofs.Power.Exact
import RemoteCall.Proofs.Json.Fronts
import RemoteCall.Proofs.Json.Bounds
import RemoteCall.Proofs.MessagePack.Fronts
import RemoteCall.Proofs.Payloads
import RemoteCall.Proofs.Client.FirstFree
