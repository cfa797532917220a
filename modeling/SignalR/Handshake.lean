/-
SignalR/Handshake.lean

`connect_socket`: from the endpoint to the connection that the reader task of
`SignalR/Reader.lean` serves.  The network, the TLS and HTTP crates and the server
are the parameter `Network`; every failing step maps its error to a text of its own.

The server answers the handshake request with a record, an object that is empty or
has an `error`, and may send hub messages behind it in the same frame.  The code
reads that first frame and does not look at it: `HandshakeResponse` is never
decoded, and the frame is never split.  So whatever the frame says connects, and
what it carries is dropped (`replyDecides_iff`).
-/
import SignalR.Reader
import SignalR.Serialization

namespace SignalR

/-! ### The handshake records -/

/-- `HandshakeRequest`. -/
structure HandshakeRequest where
  protocol : String
  version : Nat
  deriving DecidableEq

/-- `HandshakeRequest::new`. -/
def HandshakeRequest.new (protocol : String) : HandshakeRequest where
  protocol
  version := 1

/-- `HandshakeResponse`. -/
structure HandshakeResponse where
  error : Option String
  deriving DecidableEq

open Value in
def HandshakeResponse.decode (v : Value) : Option HandshakeResponse := do
  let get ← record ["error"] v
  let error ← optional asStr (get "error")
  pure { error }

/-- `Protocol::as_str`. -/
def Protocol.asStr : Protocol → String
  | .json => "json"
  | .messagePack => "messagepack"

/-! ### connect_socket -/

/-- What the code reads of a `Uri`. -/
structure Endpoint where
  scheme : Option String
  host : Option String
  port : Option Nat

/-- A `StatusCode` and its text. -/
structure Status where
  code : Nat
  text : String

/-- `ConnectionData`, as far as `connect_socket` reads it. -/
structure ConnectionData where
  endpoint : String
  protocol : Protocol

/-- The crates, the network and the server: what each call returns. -/
structure Network where
  /-- `{:?}` of a text. -/
  quoted : String → String
  /-- `Uri::from_str`. -/
  parseUri : String → Except String Endpoint
  /-- `TcpStream::connect`. -/
  tcpConnect : String → Except String Unit
  /-- `Builder::body`, for the upgrade request. -/
  buildRequest : Except String Unit
  /-- `RootCertStore::add`, for all native certificates. -/
  addCerts : Except String Unit
  /-- `ServerName::try_from`. -/
  serverName : String → Except String Unit
  /-- `TlsConnector::connect`. -/
  tlsConnect : Except String Unit
  /-- `http1::handshake`. -/
  httpHandshake : Except String Unit
  /-- `send_request`. -/
  sendRequest : Except String Status
  /-- `hyper::upgrade::on`. -/
  upgrade : Except String Unit
  /-- `write_frame`, for a text frame with this payload. -/
  writeFrame : List UInt8 → Except String Unit
  /-- `read_frame`, after the handshake request was written. -/
  readFrame : Except String Frame

/-- The part of `connect_socket` before the handshake: the websocket is open. -/
def openWebSocket (net : Network) (configuration : ConnectionData) : Except String Unit := do
  let endpoint ← (net.parseUri configuration.endpoint).mapError fun e =>
    "The endpoint URI " ++ net.quoted configuration.endpoint ++ " is invalid: " ++ e
  let host ← match endpoint.host with
    | some host => .ok host
    | none => .error "No host in URI"
  let isWss := endpoint.scheme == some "wss"
  let port := endpoint.port.getD (if isWss then 443 else 80)
  (net.tcpConnect (host ++ ":" ++ toString port)).mapError ("Failed to connect: " ++ ·)
  net.buildRequest.mapError ("Failed to build request: " ++ ·)
  if isWss then
    net.addCerts.mapError ("Failed to add cert: " ++ ·)
    (net.serverName host).mapError ("Invalid DNS name: " ++ ·)
    net.tlsConnect.mapError ("TLS connection failed: " ++ ·)
  net.httpHandshake.mapError ("Handshake failed: " ++ ·)
  let status ← net.sendRequest.mapError ("Failed to send request: " ++ ·)
  if status.code ≠ 101 then
    .error ("Server did not upgrade to websocket: " ++ status.text)
  net.upgrade.mapError ("Failed to upgrade: " ++ ·)

/-- The handshake request is sent; it is JSON under both protocols. -/
def requestHandshake (T : Serializer HandshakeRequest) (net : Network)
    (configuration : ConnectionData) : Except String Unit := do
  openWebSocket net configuration
  let handshakeBytes ← (serialize T (.new configuration.protocol.asStr) .json).mapError
    ("Handshake serialization failed: " ++ ·)
  (net.writeFrame handshakeBytes).mapError ("Handshake send failed: " ++ ·)

/-- What `CommunicationConnection::new` gets of the connection. -/
structure SocketConnection where
  generation : Nat
  protocol : Protocol

/-- `connect_socket`. -/
def connectSocket (T : Serializer HandshakeRequest) (net : Network)
    (configuration : ConnectionData) (generation : Nat) : Except String SocketConnection := do
  requestHandshake T net configuration
  -- the frame is read and dropped
  let _handshakeResponse ← net.readFrame.mapError ("Handshake response read failed: " ++ ·)
  pure { generation, protocol := configuration.protocol }

/-- The `process_message` calls of the new connection's reader task, when these frames
follow the first one. -/
def SocketConnection.calls (connection : SocketConnection) (S : Serde) (later : List Frame) :
    List RawMessage :=
  readerCalls S connection.protocol later

/-! ### What the first frame says -/

/-- The records of a data frame, as the reader task would split it. -/
def frameRecords (frame : Frame) : List (List UInt8) :=
  match frame.opcode with
  | .text =>
      match fromUtf8 frame.payload with
      | some text => (getMessagesText text).map asBytes
      | none => []
  | .binary => getMessagesBinary frame.payload
  | _ => []

/-- The protocol the reader task reads the records of a frame with. -/
def frameProtocol (protocol : Protocol) (frame : Frame) : Protocol :=
  if frame.opcode = .text then .json else protocol

/-- The first record of the frame is a handshake response without an error. -/
def AcceptsReply (S : Serde) (frame : Frame) : Prop :=
  ∃ first rest, frameRecords frame = first :: rest ∧
    deserialize S HandshakeResponse.decode first .json = .ok { error := none }

/-- The `process_message` calls for the records behind the first. -/
def furtherCalls (S : Serde) (protocol : Protocol) (frame : Frame) : List RawMessage :=
  (frameRecords frame).tail.filterMap (readRecord S (frameProtocol protocol frame))

/-- The reader task makes one call for each record of a frame whose type it can read. -/
theorem frameCalls_eq (S : Serde) (protocol : Protocol) (frame : Frame) :
    frameCalls S protocol frame
      = (frameRecords frame).filterMap (readRecord S (frameProtocol protocol frame)) := by
  rcases hop : frame.opcode with - | - | - | - | - | -
  · simp [frameCalls, frameRecords, hop]
  · rcases htext : fromUtf8 frame.payload with - | text
    · simp [frameCalls, frameRecords, hop, htext]
    · simp only [frameCalls, frameRecords, frameProtocol, hop, htext, List.filterMap_map]
      rfl
  · simp [frameCalls, frameRecords, frameProtocol, hop]
  · simp [frameCalls, frameRecords, hop]
  · simp [frameCalls, frameRecords, hop]
  · simp [frameCalls, frameRecords, hop]

/-! ### The reply decides -/

/-- **The reply decides the connection.**  A connection exists only if the first frame
accepts the handshake, and the hub messages behind the reply are processed before
those of later frames. -/
def ReplyDecides (S : Serde) (T : Serializer HandshakeRequest) (net : Network)
    (configuration : ConnectionData) (generation : Nat) : Prop :=
  ∀ connection, connectSocket T net configuration generation = .ok connection →
    ∃ frame, net.readFrame = .ok frame ∧ AcceptsReply S frame ∧
      ∀ later, connection.calls S later
        = furtherCalls S configuration.protocol frame
          ++ readerCalls S configuration.protocol later

section

variable {S : Serde} {T : Serializer HandshakeRequest} {net : Network}
variable {configuration : ConnectionData} {generation : Nat}

/-- The server has been reached and the request is out. -/
def Requested (T : Serializer HandshakeRequest) (net : Network)
    (configuration : ConnectionData) : Prop :=
  requestHandshake T net configuration = .ok ()

/-- Once the request is out, any frame at all connects. -/
theorem connectSocket_eq_ok_iff {connection : SocketConnection} :
    connectSocket T net configuration generation = .ok connection ↔
      Requested T net configuration ∧ (∃ frame, net.readFrame = .ok frame) ∧
        connection = { generation, protocol := configuration.protocol } := by
  rw [Requested, connectSocket]
  rcases requestHandshake T net configuration with e | -
  · exact iff_of_false nofun nofun
  · rcases net.readFrame with e | frame
    · refine iff_of_false nofun ?_
      rintro ⟨-, ⟨frame, hframe⟩, -⟩
      exact absurd hframe nofun
    · constructor
      · intro h
        obtain rfl := Except.ok.inj h
        exact ⟨rfl, ⟨frame, rfl⟩, rfl⟩
      · rintro ⟨-, -, rfl⟩
        rfl

/-- If the reply decides and a frame comes back, the frame accepts the handshake and
carries no hub message: without later frames nothing is processed at all. -/
theorem ReplyDecides.of_frame {frame : Frame}
    (h : ReplyDecides S T net configuration generation) (hreq : Requested T net configuration)
    (hframe : net.readFrame = .ok frame) :
    AcceptsReply S frame ∧
      ∀ record ∈ (frameRecords frame).tail,
        readRecord S (frameProtocol configuration.protocol frame) record = none := by
  obtain ⟨frame', hframe', haccepts, hcalls⟩ :=
    h _ (connectSocket_eq_ok_iff.mpr ⟨hreq, ⟨frame, hframe⟩, rfl⟩)
  obtain rfl : frame = frame' := Except.ok.inj (hframe.symm.trans hframe')
  refine ⟨haccepts, ?_⟩
  have hnone : furtherCalls S configuration.protocol frame = [] :=
    (List.append_eq_nil_iff.mp (hcalls []).symm).1
  exact List.filterMap_eq_nil_iff.mp hnone

/-- **When the reply decides.**  If the request goes out and a frame comes back, this
frame must accept the handshake and carry no hub message behind the reply. -/
theorem replyDecides_iff (S : Serde) (T : Serializer HandshakeRequest) (net : Network)
    (configuration : ConnectionData) (generation : Nat) :
    ReplyDecides S T net configuration generation ↔
      ∀ frame, Requested T net configuration → net.readFrame = .ok frame →
        AcceptsReply S frame ∧
          ∀ record ∈ (frameRecords frame).tail,
            readRecord S (frameProtocol configuration.protocol frame) record = none := by
  constructor
  · exact fun h frame hreq hframe => h.of_frame hreq hframe
  · intro h connection hconn
    obtain ⟨hreq, ⟨frame, hframe⟩, rfl⟩ := connectSocket_eq_ok_iff.mp hconn
    obtain ⟨haccepts, hnone⟩ := h frame hreq hframe
    refine ⟨frame, hframe, haccepts, fun later => ?_⟩
    have hcalls : furtherCalls S configuration.protocol frame = [] :=
      List.filterMap_eq_nil_iff.mpr hnone
    rw [hcalls]
    rfl

end

/-! ### Two replies -/

/-- A server that upgrades the connection and answers the handshake with a text frame. -/
def answering (reply : String) : Network where
  quoted := id
  parseUri _ := .ok { scheme := none, host := some "localhost", port := none }
  tcpConnect _ := .ok ()
  buildRequest := .ok ()
  addCerts := .ok ()
  serverName _ := .ok ()
  tlsConnect := .ok ()
  httpHandshake := .ok ()
  sendRequest := .ok { code := 101, text := "101 Switching Protocols" }
  upgrade := .ok ()
  writeFrame _ := .ok ()
  readFrame := .ok { fin := true, opcode := .text, payload := asBytes reply }

/-- The records of two replies: a refusal, and an acceptance with a ping behind it. -/
def replySerde : Serde :=
  .ofTable
    [("\x7b\"error\":\"bad protocol\"\x7d", .obj [("error", .str "bad protocol")]),
      ("\x7b\x7d", .obj []), ("\x7b\"type\":6\x7d", .obj [("type", .int 6)])] []

/-- A writer for the handshake request. -/
def requestWriter : Serializer HandshakeRequest where
  toStr request := .ok ("\x7b\"protocol\":\"" ++ request.protocol ++ "\",\"version\":1\x7d")
  toVec _ := .ok []

theorem frameRecords_reply (reply : String) (records : List String)
    (h : getMessagesText reply = records) :
    frameRecords { fin := true, opcode := .text, payload := asBytes reply }
      = records.map asBytes := by
  simp [frameRecords, h]

/-- A server that refuses the protocol is connected to all the same, and a message
that comes in one frame with the reply is lost. -/
theorem not_replyDecides_refused_and_batched :
    ¬ ReplyDecides replySerde requestWriter
        (answering "\x7b\"error\":\"bad protocol\"\x7d\x1e") ⟨"ws://localhost", .json⟩ 1 ∧
      ¬ ReplyDecides replySerde requestWriter
        (answering "\x7b\x7d\x1e\x7b\"type\":6\x7d\x1e") ⟨"ws://localhost", .json⟩ 1 := by
  constructor
  · intro h
    have hrecords := frameRecords_reply "\x7b\"error\":\"bad protocol\"\x7d\x1e"
      ["\x7b\"error\":\"bad protocol\"\x7d"] (by decide)
    obtain ⟨⟨first, rest, hfirst, haccepts⟩, -⟩ := h.of_frame rfl rfl
    rw [hrecords] at hfirst
    obtain ⟨rfl, -⟩ := List.cons.inj hfirst
    have hrefused : deserialize replySerde HandshakeResponse.decode
        (asBytes "\x7b\"error\":\"bad protocol\"\x7d") .json
          = .ok { error := some "bad protocol" } := by
      simp only [deserialize, fromUtf8_asBytes]
      rfl
    rw [hrefused] at haccepts
    simp at haccepts
  · intro h
    have hrecords := frameRecords_reply "\x7b\x7d\x1e\x7b\"type\":6\x7d\x1e"
      ["\x7b\x7d", "\x7b\"type\":6\x7d"] (by decide)
    obtain ⟨-, hnone⟩ := h.of_frame rfl rfl
    have hping := hnone (asBytes "\x7b\"type\":6\x7d") (by
      rw [hrecords]
      exact List.mem_singleton_self _)
    have hread : readRecord replySerde .json (asBytes "\x7b\"type\":6\x7d")
        = some ⟨asBytes "\x7b\"type\":6\x7d", .ping, .json⟩ := by
      simp only [readRecord, readSignalrMessageType, deserialize, fromUtf8_asBytes]
      rfl
    exact absurd (hping.symm.trans hread) (by simp)

end SignalR
