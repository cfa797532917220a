import SignalR.Transition
import SignalR.Value
import SignalR.Messages
import SignalR.Completer
import SignalR.Cells
import SignalR.Actions
import SignalR.Storage
import SignalR.View
import SignalR.Log
import SignalR.Settlement
import SignalR.StorageRuns
import SignalR.Completions
import SignalR.Records
import SignalR.Segments
import SignalR.Splitters
import SignalR.Reader
import SignalR.MessagePack
import SignalR.Serialization
import SignalR.Framing
import SignalR.Pipeline
import SignalR.Outcomes
import SignalR.Client
import SignalR.Writer
import SignalR.Parties
import SignalR.Generations
import SignalR.Cancellation
import SignalR.Losses
import SignalR.Charges
import SignalR.Disconnects
import SignalR.Readers
import SignalR.Handlers
import SignalR.Callbacks
import SignalR.Registrations
import SignalR.Deliveries
import SignalR.Reentrancy
import SignalR.Handles
import SignalR.Machine
import SignalR.Futures
import SignalR.Fifo
import SignalR.Closing
import SignalR.Backoff
import SignalR.Cycles
import SignalR.Handshake
import SignalR.UrlQuery
import SignalR.Negotiation
import SignalR.Commutation
import SignalR.Reactions
import SignalR.Independence
import SignalR.Keys
import SignalR.Deferrals
import SignalR.Streams
import SignalR.Items
import SignalR.Ownership
import SignalR.Verdicts
import SignalR.Ledger
import SignalR.Holdings
import SignalR.Entries
import SignalR.Contexts
import SignalR.Wire
import SignalR.Recovery
import SignalR.Poisoning
import SignalR.Shutdown
import SignalR.Channels
import SignalR.Sockets
import SignalR.Base64
import SignalR.Credentials
import SignalR.Settings
import SignalR.Refinement
import SignalR.Yields
