/-
SignalR/Client.lean

The client as a system of parties that share a connection state: the reconnect
monitor, the reader and the writer task of every connection, the calls
(`invoke`, `enumerate`, `send`), the graceful disconnects, and the user who
registers callbacks and handlers.  Every step below is one atomic action of one
party: a storage operation, one section of the state lock, one load or store of
the shutdown flag, one channel send, one frame.  A run is any interleaving.

A connection is known by its generation.  Generations come from an `AtomicUsize`,
which wraps after `usizeSize` of them; a run is taken to set up fewer, so that they
are natural numbers.  `holders` are the owners of the connection's `Arc`; its tasks
may be aborted once nobody owns it.

A reader handles a message in one step (`dispatch`).  For a `Completion` the code
locks the map twice, to update the action and then to remove it, and a callback that
is registered under the key between the two is removed by the second section;
`SignalR/Items.lean` has the two as steps of their own.  A registration, too, is one
step with its replay here, and several in `SignalR/Deliveries.lean`.

Left out: the drop of client handles (the client outlives the run), delays (a
sleep may take any time), and handlers and argument closures that panic.  A handler
is a task that may await calls; how it uses the client is up to the other parties.

`trace` is a ghost field that records the monitor's observable actions.
-/
import SignalR.Storage
import SignalR.Reader
import SignalR.Transition

namespace SignalR

variable {V : Type}

/-! ### The parties -/

/-- What `ReconnectPolicy` decides besides delays. -/
structure ReconnectPolicy where
  enabled : Bool
  maxAttempts : Option Nat

/-- The configuration of a client. -/
structure Config where
  serde : Serde
  protocol : Protocol
  policy : ReconnectPolicy
  deferredMessageCapacity : Nat

/-- `ConnectionEvent`. -/
inductive ConnectionEvent
  | connectionLost (generation : Nat) (reason : String)
  | shutdown
  deriving DecidableEq

/-- `ConnectionState`; a connection is found by its generation. -/
inductive ConnectionState
  | notConnected
  | reconnecting
  | connected (generation : Nat)
  deriving DecidableEq

/-- An owner of a connection: the shared state, the monitor while it installs the
connection, a call or a disconnect. -/
inductive Holder
  | state
  | monitor
  | call (c : Nat)
  | disconnect (d : Nat)
  deriving DecidableEq

/-- `WriterCommand`, with the number of the call or disconnect that sent it. -/
inductive WriterCommand
  | send (call : Nat)
  | close (disconnect : Nat)
  deriving DecidableEq

/-- The reader task.  While it runs, `todo` are the `process_message` calls left
to make for the current frame. -/
inductive ReaderState
  | absent
  | running (todo : List RawMessage)
  | ended
  | panicked
  | aborted
  deriving DecidableEq

/-- The writer task. -/
inductive WriterState
  | absent
  | running
  | ended
  | aborted
  deriving DecidableEq

/-- `CommunicationConnection` and its two tasks. -/
structure Connection where
  reader : ReaderState
  writer : WriterState
  commands : List WriterCommand
  holders : List Holder
  deriving DecidableEq

/-- A generation without a connection. -/
def Connection.absent : Connection :=
  { reader := .absent, writer := .absent, commands := [], holders := [] }

/-- `CommunicationConnection::new`: both tasks run. -/
def Connection.start (holder : Holder) : Connection :=
  { reader := .running [], writer := .running, commands := [], holders := [holder] }

/-- Where the monitor is, in `run_reconnect_monitor` and
`reconnect_until_connected`. -/
inductive MonitorPc
  /-- At `recv`. -/
  | idle
  /-- A loss was taken from the queue. -/
  | received (generation : Nat) (reason : String)
  /-- The shutdown flag was down; next is `mark_connection_lost`. -/
  | marking (generation : Nat) (reason : String)
  /-- The state was changed; next is `cancel_pending`. -/
  | cancelling (generation : Nat) (reason : String)
  /-- The pending actions were cancelled. -/
  | cancelled
  /-- Awaits the `on_reconnecting` handler, which awaits a call perhaps. -/
  | reconnecting (awaited : Option Nat)
  /-- At the top of the reconnect loop. -/
  | loopTop (attempt : Nat)
  /-- All attempts are used up. -/
  | exhausted
  | sleeping (attempt : Nat)
  | negotiating (attempt : Nat)
  /-- Sets up the socket of a new generation. -/
  | connecting (attempt : Nat) (generation : Nat)
  /-- The new connection runs; next it is stored. -/
  | installing (generation : Nat)
  /-- The new connection is stored. -/
  | installed (generation : Nat)
  /-- Awaits the `on_reconnected` handler, which awaits a call perhaps. -/
  | reconnected (generation : Nat) (awaited : Option Nat)
  /-- The monitor task has returned. -/
  | stopped
  deriving DecidableEq

/-- What kind of call a caller makes. -/
inductive CallKind
  | invoke
  | enumerate
  | send
  deriving DecidableEq

/-- Where a call is. -/
inductive CallPc
  | idle
  /-- The key was created. -/
  | created
  /-- The action was inserted (nothing to do for `send`); next is `send`. -/
  | inserted
  /-- `current_connection` returned generation `generation`. -/
  | holding (generation : Nat)
  /-- The channel refused the request; next is the event. -/
  | rejected (generation : Nat) (error : String)
  /-- `send` returned an error. -/
  | failed (error : String)
  /-- `send` returned `Ok`; the caller of `invoke` awaits its future. -/
  | waiting
  /-- The caller is done; next the `PendingInvocationCleanup` is dropped. -/
  | cleaning
  | returned
  deriving DecidableEq

/-- A call.  `sent` is the result of its `send`; `accepted`, a ghost field, is the
generation whose writer channel took the request. -/
structure Call where
  kind : CallKind
  key : String
  cell : Option Cell
  pc : CallPc
  sent : Option (Except String Unit)
  accepted : Option Nat

/-- A call that has not begun. -/
def Call.new : Call :=
  { kind := .send, key := "", cell := none, pc := .idle, sent := none, accepted := none }

/-- Where a `disconnect_gracefully` is.  After the close, `generation` keeps which
connection was closed, if there was one. -/
inductive DisconnectPc
  | idle
  /-- After `cancel_pending`. -/
  | cancelled
  /-- The shutdown flag is up. -/
  | flagged
  /-- A connection was found. -/
  | closing (generation : Nat)
  /-- The close command was accepted. -/
  | awaiting (generation : Nat)
  /-- The writer has answered. -/
  | answered (generation : Nat) (result : Except String Unit)
  /-- `close_result` is known. -/
  | closed (generation : Option Nat) (result : Except String Unit)
  /-- `NotConnected` is stored. -/
  | stored (generation : Option Nat) (result : Except String Unit)
  | returned (generation : Option Nat) (result : Except String Unit)

/-- The observable actions of the monitor. -/
inductive Observation
  /-- `mark_connection_lost` changed the state. -/
  | tornDown (generation : Nat)
  /-- `cancel_pending` for a generation resolved these futures. -/
  | cancelled (generation : Nat) (futures : List Nat)
  /-- The `on_reconnecting` handler was called. -/
  | reconnecting
  /-- `reconnect_until_connected` was called. -/
  | cycle
  /-- A new connection was stored. -/
  | installed (generation : Nat)
  /-- The `on_reconnected` handler was called. -/
  | reconnected (generation : Nat)
  deriving DecidableEq

/-- The client and everything that uses it. -/
structure Client (V : Type) where
  state : ConnectionState
  events : List ConnectionEvent
  shutdown : Bool
  /-- `_next_generation`, short of the wrap at `usizeSize`. -/
  nextGeneration : Nat
  reconnectingHandler : Bool
  reconnectedHandler : Bool
  monitor : MonitorPc
  connections : Nat → Connection
  store : Storage V
  calls : Nat → Call
  disconnects : Nat → DisconnectPc
  trace : List Observation

namespace Client

/-- The client that `connect` returns. -/
def init (C : Config) : Client V where
  state := .connected 1
  events := []
  shutdown := false
  nextGeneration := 2
  reconnectingHandler := false
  reconnectedHandler := false
  monitor := .idle
  connections := Function.update (fun _ => .absent) 1 (.start .state)
  store := .newWithDeferredMessageCapacity C.deferredMessageCapacity
  calls := fun _ => .new
  disconnects := fun _ => .idle
  trace := []

/-! ### Shared pieces -/

/-- Send an event; it is lost once the monitor has returned. -/
def emit (s : Client V) (e : ConnectionEvent) : Client V :=
  { s with events := if s.monitor = .stopped then s.events else s.events ++ [e] }

def setConnection (s : Client V) (g : Nat) (k : Connection) : Client V :=
  { s with connections := Function.update s.connections g k }

/-- Clone the `Arc` of connection `g`. -/
def acquire (s : Client V) (g : Nat) (holder : Holder) : Client V :=
  s.setConnection g
    { s.connections g with holders := holder :: (s.connections g).holders }

/-- Drop a clone of the `Arc` of connection `g`. -/
def release (s : Client V) (g : Nat) (holder : Holder) : Client V :=
  s.setConnection g
    { s.connections g with holders := (s.connections g).holders.erase holder }

/-- Drop the connection that a connection state holds. -/
def dropState (connections : Nat → Connection) : ConnectionState → Nat → Connection
  | .connected g =>
      Function.update connections g
        { connections g with holders := (connections g).holders.erase .state }
  | _ => connections

/-- Overwrite the connection state, dropping the connection it held. -/
def setState (s : Client V) (new : ConnectionState) : Client V :=
  { s with state := new, connections := dropState s.connections s.state }

def setCall (s : Client V) (c : Nat) (call : Call) : Client V :=
  { s with calls := Function.update s.calls c call }

def setDisconnect (s : Client V) (d : Nat) (pc : DisconnectPc) : Client V :=
  { s with disconnects := Function.update s.disconnects d pc }

theorem setConnection_self (s : Client V) (g : Nat) (k : Connection) :
    (s.setConnection g k).connections g = k :=
  Function.update_self ..

theorem setCall_self (s : Client V) (c : Nat) (call : Call) : (s.setCall c call).calls c = call :=
  Function.update_self ..

theorem setDisconnect_self (s : Client V) (d : Nat) (pc : DisconnectPc) :
    (s.setDisconnect d pc).disconnects d = pc :=
  Function.update_self ..

/-! ### Calls -/

/-- The steps of a call. -/
inductive CallLabel (V : Type)
  | invoke (target : String)
  | enumerate (target : String)
  | send
  /-- `add_invocation` or `add_stream`. -/
  | insert (decode : DeserializeOwned V)
  /-- `current_connection`. -/
  | lookup
  /-- `MessageParser::serialize` fails. -/
  | serializeFails (error : String)
  /-- `connection.send`. -/
  | offer
  /-- The event for a refused request. -/
  | report
  /-- `remove` after a failed `send`. -/
  | remove
  /-- The caller polls its future. -/
  | poll (w : Waker)
  /-- The caller drops its future. -/
  | abandon
  /-- The `PendingInvocationCleanup` is dropped. -/
  | cleanup
  /-- The owner polls the stream. -/
  | pollStream (w : Waker)

/-- The channel's error text when the receiver is gone. -/
def channelClosed : String := "channel closed"

/-- Create the key of a call. -/
def createKey (s : Client V) (c : Nat) (kind : CallKind) (target : String) : Client V :=
  { s with store := (s.store.createKey target).1 }.setCall c
    { s.calls c with kind, key := (s.store.createKey target).2, pc := .created }

/-- Insert the action of a call. -/
def insertAction (s : Client V) (c : Nat) (decode : DeserializeOwned V) : Client V :=
  match (s.calls c).kind with
  | .enumerate =>
      { s with store := s.store.addStream (s.calls c).key decode }.setCall c
        { s.calls c with cell := some (.stream s.store.heap.streamCount), pc := .inserted }
  | _ =>
      { s with store := s.store.addInvocation (s.calls c).key decode }.setCall c
        { s.calls c with cell := some (.future s.store.heap.futureCount), pc := .inserted }

/-- `send` of a call returns an error. -/
def failCall (s : Client V) (c : Nat) (error : String) : Client V :=
  s.setCall c { s.calls c with pc := .failed error, sent := some (.error error) }

/-- `current_connection`. -/
def lookup (s : Client V) (c : Nat) : Client V :=
  match s.state with
  -- the state lock is held for the match and the clone only
  | .notConnected => s.failCall c "Client is not connected, cannot send"
  | .reconnecting => s.failCall c "Client is reconnecting, cannot send"
  | .connected g =>
      (s.acquire g (.call c)).setCall c { s.calls c with pc := .holding g }

/-- `CommunicationConnection::send`; an accepted request ends `send`. -/
def offer (s : Client V) (c g : Nat) : Client V :=
  if (s.connections g).writer = .running then
    ((s.setConnection g
        { s.connections g with commands := (s.connections g).commands ++ [.send c] }).release g
          (.call c)).setCall c
      { s.calls c with
        -- `invoke` goes on to await its future; the others are done
        pc := if (s.calls c).kind = .invoke then .waiting else .returned
        sent := some (.ok ())
        accepted := some g }
  else
    -- the writer task has ended and dropped the receiver
    s.setCall c { s.calls c with pc := .rejected g ("Failed to send: " ++ channelClosed) }

/-- What follows a failed `send`: `remove` for `invoke` and `enumerate`. -/
def removeFailed (s : Client V) (c : Nat) : Client V :=
  match (s.calls c).kind with
  | .invoke =>
      { s with store := s.store.remove (s.calls c).key }.setCall c
        { s.calls c with pc := .cleaning }
  | .enumerate =>
      { s with store := s.store.remove (s.calls c).key }.setCall c
        { s.calls c with pc := .returned }
  | .send => s.setCall c { s.calls c with pc := .returned }

/-- The caller polls future `f`. -/
def pollCall (s : Client V) (c f : Nat) (w : Waker) : Client V :=
  match s.store.pollFuture f w with
  | (store, .pending) => { s with store }
  | (store, .ready _) => { s with store }.setCall c { s.calls c with pc := .cleaning }

/-- One step of call `c`. -/
def callStep (s : Client V) (c : Nat) : CallLabel V → Option (Client V)
  | .invoke target =>
      if (s.calls c).pc = .idle then some (s.createKey c .invoke target) else none
  | .enumerate target =>
      if (s.calls c).pc = .idle then some (s.createKey c .enumerate target) else none
  | .send =>
      if (s.calls c).pc = .idle then
        some (s.setCall c { s.calls c with kind := .send, pc := .inserted })
      else none
  | .insert decode =>
      if (s.calls c).pc = .created then some (s.insertAction c decode) else none
  | .lookup => if (s.calls c).pc = .inserted then some (s.lookup c) else none
  | .serializeFails error =>
      match (s.calls c).pc with
      | .holding g =>
          some ((s.release g (.call c)).failCall c ("Serialization failed: " ++ error))
      | _ => none
  | .offer =>
      match (s.calls c).pc with
      | .holding g => some (s.offer c g)
      | _ => none
  | .report =>
      match (s.calls c).pc with
      | .rejected g error =>
          -- a refused request reports the generation it was looked up with
          some (((s.emit (.connectionLost g error)).release g (.call c)).failCall c error)
      | _ => none
  | .remove =>
      match (s.calls c).pc with
      | .failed _ => some (s.removeFailed c)
      | _ => none
  | .poll w =>
      match (s.calls c).pc, (s.calls c).cell with
      | .waiting, some (.future f) => some (s.pollCall c f w)
      | _, _ => none
  | .abandon =>
      if (s.calls c).pc = .waiting then
        some (s.setCall c { s.calls c with pc := .cleaning })
      else none
  | .cleanup =>
      if (s.calls c).pc = .cleaning then
        some ({ s with store := s.store.remove (s.calls c).key }.setCall c
          { s.calls c with pc := .returned })
      else none
  | .pollStream w =>
      match (s.calls c).pc, (s.calls c).cell with
      | .returned, some (.stream st) => some { s with store := (s.store.pollStream st w).1 }
      | _, _ => none

/-! ### Connections -/

/-- The steps of the reader and writer task of a connection. -/
inductive ConnectionLabel
  /-- `read_frame` returns a frame. -/
  | readFrame (frame : Frame)
  /-- `read_frame` returns an error. -/
  | readError (error : String)
  /-- The reader makes its next `process_message` call. -/
  | dispatch
  /-- The writer takes a command and writes its frame. -/
  | write (result : Except String Unit)
  /-- Writing an automatic frame or a ping fails, or a ping cannot be serialized. -/
  | writeFails (reason : String)
  | abortReader
  | abortWriter

/-- The reader leaves its loop and reports the loss. -/
def endReader (s : Client V) (g : Nat) (reason : String) : Client V :=
  (s.setConnection g { s.connections g with reader := .ended }).emit (.connectionLost g reason)

/-- The writer leaves its loop and reports the loss; its commands are dropped. -/
def endWriter (s : Client V) (g : Nat) (reason : String) : Client V :=
  (s.setConnection g { s.connections g with writer := .ended, commands := [] }).emit
    (.connectionLost g reason)

/-- The reader makes a `process_message` call, with the calls `rest` still to
make, both locked sections of a `Completion` at once.  A panic ends the task on the
spot. -/
def dispatch (C : Config) (s : Client V) (g : Nat) (m : RawMessage) (rest : List RawMessage) :
    Client V :=
  match s.store.processMessage C.serde m with
  | (store, .panic) =>
      -- the calls still to make are lost, and no event is sent
      { s with store }.setConnection g { s.connections g with reader := .panicked }
  -- an `Err` is only logged
  | (store, _) =>
      { s with store }.setConnection g { s.connections g with reader := .running rest }

/-- The writer has sent a close frame: it answers and leaves its loop without an
event. -/
def answerClose (s : Client V) (g d : Nat) (result : Except String Unit) : Client V :=
  { s.setConnection g { s.connections g with writer := .ended, commands := [] } with
    disconnects :=
      match s.disconnects d with
      -- a disconnect that timed out has dropped the other end
      | .awaiting g' => Function.update s.disconnects d (.answered g' result)
      | _ => s.disconnects }

/-- One step of the tasks of connection `g`. -/
def connectionStep (C : Config) (s : Client V) (g : Nat) : ConnectionLabel → Option (Client V)
  | .readFrame frame =>
      if (s.connections g).reader = .running [] then
        if frame.opcode = .close then
          some (s.endReader g "Received close frame")
        else
          some (s.setConnection g
            { s.connections g with
              reader := .running (frameCalls C.serde C.protocol frame) })
      else none
  | .readError error =>
      if (s.connections g).reader = .running [] then
        some (s.endReader g ("Error reading frame: " ++ error))
      else none
  | .dispatch =>
      match (s.connections g).reader with
      | .running (m :: rest) => some (s.dispatch C g m rest)
      | _ => none
  | .write result =>
      if (s.connections g).writer = .running then
        match (s.connections g).commands, result with
        | .send _ :: rest, .ok _ =>
            some (s.setConnection g { s.connections g with commands := rest })
        | .send _ :: _, .error e => some (s.endWriter g ("Error writing frame: " ++ e))
        | .close d :: _, .ok _ => some (s.answerClose g d (.ok ()))
        | .close d :: _, .error e =>
            some (s.answerClose g d (.error ("Error writing close frame: " ++ e)))
        | [], _ => none
      else none
  | .writeFails reason =>
      if (s.connections g).writer = .running then some (s.endWriter g reason) else none
  | .abortReader =>
      -- the loop has no await between two calls of one frame, so it is aborted at `read_frame`
      if (s.connections g).reader = .running [] ∧ (s.connections g).holders = [] then
        some (s.setConnection g { s.connections g with reader := .aborted })
      else none
  | .abortWriter =>
      if (s.connections g).writer = .running ∧ (s.connections g).holders = [] then
        some (s.setConnection g { s.connections g with writer := .aborted, commands := [] })
      else none

/-! ### The reconnect monitor -/

/-- The steps of the monitor and of the handlers it awaits. -/
inductive MonitorLabel
  | recv
  | loadShutdown
  /-- `mark_connection_lost`. -/
  | mark
  /-- `cancel_pending`. -/
  | cancel
  /-- The policy is read, and the `on_reconnecting` handler called. -/
  | startReconnecting
  /-- The handler begins to await a call. -/
  | handlerAwaits (c : Nat)
  /-- The awaited call has returned. -/
  | handlerResumes
  | handlerReturns
  /-- The shutdown flag and the cap are checked at the top of the loop. -/
  | checkTop
  | storeExhausted
  /-- The sleep is over; the shutdown flag is checked again. -/
  | wake
  | negotiated (ok : Bool)
  | socket (ok : Bool)
  /-- The new connection is stored. -/
  | install
  /-- The `on_reconnected` handler is called. -/
  | startReconnected
  deriving DecidableEq

/-- The text calls are cancelled with after a loss. -/
def lossText (reason : String) : String :=
  "Connection lost before the invocation completed: " ++ reason

/-- The futures resolved between two states of the heap. -/
def resolvedSince (before after : Heap V) : List Nat :=
  (after.log.drop before.log.length).filterMap fun
    | .resolved f _ => some f
    | _ => none

def observe (s : Client V) (o : Observation) : Client V :=
  { s with trace := s.trace ++ [o] }

/-- `mark_connection_lost` for generation `g`. -/
def markConnectionLost (C : Config) (s : Client V) (g : Nat) (reason : String) : Client V :=
  -- an event of any other generation is stale
  if s.state = .connected g then
    { s.setState (if C.policy.enabled then .reconnecting else .notConnected) with
      monitor := .cancelling g reason }.observe (.tornDown g)
  else
    { s with monitor := .idle }

/-- The `cancel_pending` that follows. -/
def cancelLost (s : Client V) (g : Nat) (reason : String) : Client V :=
  { s with
    store := s.store.cancelPending (lossText reason)
    monitor := .cancelled }.observe
      (.cancelled g (resolvedSince s.store.heap (s.store.cancelPending (lossText reason)).heap))

/-- `reconnect_until_connected` begins. -/
def startCycle (s : Client V) : Client V :=
  { s with monitor := .loopTop 1 }.observe .cycle

/-- What follows the cancellation. -/
def startReconnecting (C : Config) (s : Client V) : Client V :=
  if C.policy.enabled then
    if s.reconnectingHandler then
      { s with monitor := .reconnecting none }.observe .reconnecting
    else
      s.startCycle
  else
    { s with monitor := .idle }

/-- The checks at the top of the loop. -/
def checkTop (C : Config) (s : Client V) (attempt : Nat) : Client V :=
  if s.shutdown then
    { s with monitor := .idle }
  else
    match C.policy.maxAttempts with
    | some maxAttempts =>
        if attempt > maxAttempts then { s with monitor := .exhausted }
        else { s with monitor := .sleeping attempt }
    | none => { s with monitor := .sleeping attempt }

/-- Store the new connection `h`. -/
def install (s : Client V) (h : Nat) : Client V :=
  { ((s.setState (.connected h)).acquire h .state).release h .monitor with
    monitor := .installed h }.observe (.installed h)

/-- One step of the monitor. -/
def monitorStep (C : Config) (s : Client V) : MonitorLabel → Option (Client V)
  | .recv =>
      match s.monitor, s.events with
      | .idle, .connectionLost g reason :: events =>
          some { s with events, monitor := .received g reason }
      | .idle, .shutdown :: events => some { s with events, monitor := .stopped }
      | _, _ => none
  | .loadShutdown =>
      match s.monitor with
      | .received g reason =>
          -- the flag ends the task here, without a cancellation
          some { s with monitor := if s.shutdown then .stopped else .marking g reason }
      | _ => none
  | .mark =>
      match s.monitor with
      | .marking g reason => some (s.markConnectionLost C g reason)
      | _ => none
  | .cancel =>
      match s.monitor with
      | .cancelling g reason => some (s.cancelLost g reason)
      | _ => none
  | .startReconnecting =>
      match s.monitor with
      | .cancelled => some (s.startReconnecting C)
      | _ => none
  | .handlerAwaits c =>
      match s.monitor with
      | .reconnecting none => some { s with monitor := .reconnecting (some c) }
      | .reconnected h none => some { s with monitor := .reconnected h (some c) }
      | _ => none
  | .handlerResumes =>
      match s.monitor with
      | .reconnecting (some c) =>
          if (s.calls c).pc = .returned then some { s with monitor := .reconnecting none }
          else none
      | .reconnected h (some c) =>
          if (s.calls c).pc = .returned then some { s with monitor := .reconnected h none }
          else none
      | _ => none
  | .handlerReturns =>
      match s.monitor with
      | .reconnecting none => some s.startCycle
      | .reconnected _ none => some { s with monitor := .idle }
      | _ => none
  | .checkTop =>
      match s.monitor with
      | .loopTop attempt => some (s.checkTop C attempt)
      | _ => none
  | .storeExhausted =>
      match s.monitor with
      | .exhausted => some { s.setState .notConnected with monitor := .idle }
      | _ => none
  | .wake =>
      match s.monitor with
      | .sleeping attempt =>
          -- leaving the loop returns to `recv`
          some { s with monitor := if s.shutdown then .idle else .negotiating attempt }
      | _ => none
  | .negotiated ok =>
      match s.monitor with
      | .negotiating attempt =>
          some (if ok then
            { s with
              monitor := .connecting attempt s.nextGeneration
              nextGeneration := s.nextGeneration + 1 }
          else { s with monitor := .loopTop (attempt + 1) })
      | _ => none
  | .socket ok =>
      match s.monitor with
      | .connecting attempt h =>
          some (if ok then
            -- the tasks of the new connection start before it is stored
            { s.setConnection h (.start .monitor) with monitor := .installing h }
          else { s with monitor := .loopTop (attempt + 1) })
      | _ => none
  | .install =>
      match s.monitor with
      -- the shutdown flag is not checked again here
      | .installing h => some (s.install h)
      | _ => none
  | .startReconnected =>
      match s.monitor with
      | .installed h =>
          some (if s.reconnectedHandler then
            { s with monitor := .reconnected h none }.observe (.reconnected h)
          else { s with monitor := .idle })
      | _ => none

/-! ### Graceful disconnects -/

/-- The steps of `disconnect_gracefully`. -/
inductive DisconnectLabel
  /-- `cancel_pending`. -/
  | cancel
  /-- The shutdown flag is raised. -/
  | raiseFlag
  /-- The connection is looked up. -/
  | lookup
  /-- The close command is sent to the writer. -/
  | requestClose
  /-- The answer arrives. -/
  | finishClose
  /-- No answer within `GRACEFUL_CLOSE_TIMEOUT`. -/
  | timeout
  /-- The writer is gone without an answer. -/
  | writerGone
  /-- `NotConnected` is stored. -/
  | store
  /-- The `Shutdown` event is sent. -/
  | sendShutdown
  deriving DecidableEq

/-- `close_gracefully` returns, and the clone of the connection is dropped. -/
def finishClose (s : Client V) (d g : Nat) (result : Except String Unit) : Client V :=
  (s.release g (.disconnect d)).setDisconnect d (.closed (some g) result)

/-- One step of disconnect `d`. -/
def disconnectStep (s : Client V) (d : Nat) : DisconnectLabel → Option (Client V)
  | .cancel =>
      match s.disconnects d with
      | .idle =>
          -- the pending actions go first, while the connection still accepts requests
          some ({ s with store := s.store.cancelPending "Client disconnected" }.setDisconnect d
            .cancelled)
      | _ => none
  | .raiseFlag =>
      match s.disconnects d with
      | .cancelled => some ({ s with shutdown := true }.setDisconnect d .flagged)
      | _ => none
  | .lookup =>
      match s.disconnects d, s.state with
      | .flagged, .connected g =>
          some ((s.acquire g (.disconnect d)).setDisconnect d (.closing g))
      -- nothing to close: not connected, or reconnecting
      | .flagged, _ => some (s.setDisconnect d (.closed none (.ok ())))
      | _, _ => none
  | .requestClose =>
      match s.disconnects d with
      | .closing g =>
          some (if (s.connections g).writer = .running then
            (s.setConnection g
              { s.connections g with
                commands := (s.connections g).commands ++ [.close d] }).setDisconnect d
              (.awaiting g)
          else
            s.finishClose d g (.error ("Failed to request graceful close: " ++ channelClosed)))
      | _ => none
  | .finishClose =>
      match s.disconnects d with
      | .answered g result => some (s.finishClose d g result)
      | _ => none
  | .timeout =>
      match s.disconnects d with
      | .awaiting g =>
          some (s.finishClose d g (.error "Timed out waiting to send close frame"))
      | _ => none
  | .writerGone =>
      match s.disconnects d with
      | .awaiting g =>
          if (s.connections g).writer = .running then none
          else some (s.finishClose d g
            (.error "Writer closed before acknowledging close frame"))
      | _ => none
  | .store =>
      match s.disconnects d with
      | .closed g result =>
          -- whatever the state is by now, a newer connection included
          some ((s.setState .notConnected).setDisconnect d (.stored g result))
      | _ => none
  | .sendShutdown =>
      match s.disconnects d with
      | .stored g result => some ((s.emit .shutdown).setDisconnect d (.returned g result))
      | _ => none

/-! ### The user -/

/-- What the user does besides calls and disconnects. -/
inductive UserLabel
  | register (target : String) (callback : Callback)
  | unregister (target : String)
  | onReconnecting
  | onReconnected

/-- One step of the user. -/
def userStep (C : Config) (s : Client V) : UserLabel → Client V
  | .register target callback =>
      { s with store := (s.store.addCallback C.serde target callback).1 }
  | .unregister target => { s with store := s.store.remove target }
  | .onReconnecting => { s with reconnectingHandler := true }
  | .onReconnected => { s with reconnectedHandler := true }

/-! ### The system -/

/-- The steps of all parties. -/
inductive Label (V : Type)
  | call (c : Nat) (l : CallLabel V)
  | connection (g : Nat) (l : ConnectionLabel)
  | monitor (l : MonitorLabel)
  | disconnect (d : Nat) (l : DisconnectLabel)
  | user (l : UserLabel)

/-- One step of the client. -/
def step (C : Config) (s : Client V) : Label V → Option (Client V)
  | .call c l => s.callStep c l
  | .connection g l => s.connectionStep C g l
  | .monitor l => s.monitorStep C l
  | .disconnect d l => s.disconnectStep d l
  | .user l => some (s.userStep C l)

/-- The states a run of the client reaches, if it takes every step in a state that
allows it by `allowed`. -/
def Reachable (C : Config) (allowed : Client V → Label V → Prop) (s : Client V) : Prop :=
  Transition.Reaches (step C) allowed (init C) s

/-! ### A client to run -/

/-- A client that reconnects and talks MessagePack; the body `1` is the server's
invocation of `boom`. -/
def sample : Config where
  serde := .ofTable [] [([1], .obj [("type", .int 1), ("target", .str "boom")])]
  protocol := .messagePack
  policy := { enabled := true, maxAttempts := none }
  deferredMessageCapacity := 8

/-- A frame with the invocation of `boom`. -/
def boomFrame : Frame :=
  { fin := true, opcode := .binary, payload := [1, separatorByte] }

/-- The `process_message` call that the frame causes. -/
def boomMessage : RawMessage :=
  { bytes := [1], messageType := .invocation, protocol := .messagePack }

theorem frameCalls_boomFrame :
    frameCalls sample.serde sample.protocol boomFrame = [boomMessage] := by
  have hsplit : getMessagesBinary boomFrame.payload = [[1]] := by
    rw [getMessagesBinary_eq]
    rfl
  show (getMessagesBinary boomFrame.payload).filterMap _ = _
  rw [hsplit]
  rfl

theorem step_boomFrame {s : Client V} {g : Nat} (h : (s.connections g).reader = .running []) :
    step sample s (.connection g (.readFrame boomFrame))
      = some (s.setConnection g
          { s.connections g with reader := .running [boomMessage] }) := by
  rw [← frameCalls_boomFrame]
  exact if_pos h

/-- A callback for `boom` that panics. -/
def boomCallback : Callback :=
  { id := 0, panics := fun _ => true }

end Client

end SignalR
