/-
  WebTransportBun.Wasm.Endpoint.Read

  Reading and routing streams (`read_stream`, `process_in_stream`, `read_one` and
  `read_streams` in `crates/wasm/src/endpoint.rs`).

  `process_in_stream` first decides a route while it updates the stream's entry, and then
  acts on the route; the first part is the pure function `routeInStream` here.  The three
  CONNECT branches of `read_one` differ only in what they do with the bytes
  (`pumpProtocol`).
-/

import WebTransportBun.Wasm.Endpoint.Connect

namespace WebTransportBun.Wasm

open Library Library.Prog Qpack

inductive ReadOutcome
  | «open»
  | finished
  | reset (code : Nat)
  deriving DecidableEq, Repr

def protocolReadChunk : Nat := 64 * 1024

def maxReadBatchesPerPump : Nat := 64

/-- `should_stop_read_batch`: stop when the stream is not open any more or made no
    progress. -/
def shouldStopReadBatch (outcome : ReadOutcome) (data : Bytes) : Bool :=
  outcome != .open || data.isEmpty

def shouldBackpressure (readLimit : Nat) (data : Bytes) (outcome : ReadOutcome) : Bool :=
  readLimit == 0 && data.isEmpty && outcome == .open

/-! ## Classifying a peer-accepted stream -/

/-- The type varint of the stream, once it is there.  A request stream has no type of its
    own: its first varint is the HEADERS frame type and stays for the frame parser. -/
def InStream.classify (st : InStream) : Option (Nat × InStream) :=
  match st.kind with
  | some kind => some (kind, st)
  | none =>
    match Varint.decode st.buf with
    | none => none
    | some (kind, n) =>
      if kind = FrameType.headers ∧ st.isBidi then some (kind, { st with kind := some kind })
      else some (kind, { st with kind := some kind, buf := st.buf.drop n })

inductive Route
  | control
  | qpackEncoder
  | qpackDecoder
  | serverConnect
  | ignore
  | wtData (handle : Nat) (payload : Bytes) (opened : Option (Nat × Nat × Nat × Bool))
  | rejectWt (error : String) (bidi : Bool) (code : Nat)
  | none

namespace Endpoint

variable {W : Type}

section

variable (s : WtEndpoint W)

def setInStream (h id : Nat) (st : InStream) : WtEndpoint W :=
  s.updInStream h id fun _ => st

def rejectInStream (h id : Nat) (st : InStream) (error : String)
    (bidi : Bool) (code : Nat) : Option Route × WtEndpoint W :=
  (some (.rejectWt error bidi code), setInStream s h id { st with buf := [] })

def bindInStream (h id connId : Nat) (st : InStream) (slot : Slot) :
    WtEndpoint W :=
  { s.indexInsert s.nextStream h id (st.wtSessionId.getD 0) with
    nextStream := s.nextStream + 1
    streamReservations := s.streamReservations.insert s.nextStream slot
    halfDone := s.halfDone.insert s.nextStream (if st.isBidi then 0 else halfSend)
    box := s.box.note (.bound s.nextStream connId id true) }

/-- Take a handle for a peer-accepted WebTransport stream: rate limit, stream slot, tables. -/
def openInStream (h id connId : Nat) (st : InStream) (now : Nat) :
    Except String Nat × WtEndpoint W :=
  if 2 ^ 32 ≤ s.nextStream + 1 then
    (.error "E_LIMIT_EXCEEDED: stream handle space exhausted", s)
  else
    match (if s.isServer then s.rateLimiter.checkConnection now connId .streamOpen
      else (.ok (), s.rateLimiter)) with
    | (.error e, rateLimiter) => (.error e, { s with rateLimiter })
    | (.ok (), rateLimiter) =>
      match s.box.reserveStream connId s.nextStream (if st.isBidi then .bidi else .uni) with
      | .error e => (.error e, { s with rateLimiter })
      | .ok (slot, box) =>
        (.ok s.nextStream, bindInStream { s with rateLimiter, box } h id connId st slot)

end

inductive SidStep
  | read (st : InStream)
  | unknown
  | wait

def InStream.readSid (st : InStream) (known : Nat → Bool) : SidStep :=
  if st.sidRead then .read st
  else
    match Varint.decode st.buf with
    | none => .wait
    | some (sid, n) =>
      if known sid then
        .read { st with sidRead := true, wtSessionId := some sid, buf := st.buf.drop n }
      else .unknown

section

variable (s : WtEndpoint W)

/-- The WebTransport branch: session id, handle, and then the bytes are payload. -/
def routeWebTransport (h id : Nat) (e : Entry) (st : InStream)
    (finished : Bool) (now : Nat) : Option Route × WtEndpoint W :=
  match InStream.readSid st e.session.isLiveConnect with
  | .unknown =>
    rejectInStream s h id st "E_SESSION_CLOSED: unknown WebTransport session id" st.isBidi
      wtBufferedStreamRejected
  | .wait => (if finished then some .none else none, setInStream s h id st)
  | .read st =>
    match st.handle with
    | some handle =>
      (some (.wtData handle st.buf none), setInStream s h id { st with buf := [] })
    | none =>
      match openInStream s h id e.id st now with
      | (.error error, s) =>
        rejectInStream s h id st error st.isBidi wtBufferedStreamRejected
      | (.ok handle, s) =>
        (some (.wtData handle st.buf
            (some (e.id, st.wtSessionId.getD 0, handle, st.isBidi))),
          setInStream s h id { st with handle := some handle, buf := [] })

/-- The request branch: admission, then the size of the buffered request. -/
def routeServerConnect (h id : Nat) (e : Entry) (st : InStream) :
    Option Route × WtEndpoint W :=
  if !st.connectAdmitted && max s.wtMaxSessions 1 ≤
      e.session.countUnlatchedConnectStreams + e.session.activeWtCount then
    rejectInStream s h id st "E_LIMIT_EXCEEDED: unlatched CONNECT admission cap" true 0
  else
    let st := { st with connectAdmitted := true }
    if maxH3FrameSize < st.buf.length then
      rejectInStream s h id st "E_LIMIT_EXCEEDED: CONNECT request buffer exceeded" true 0
    else (some .serverConnect, setInStream s h id st)

/-- The first part of `process_in_stream`: append the bytes, classify the stream, and choose
    the route; `none` is an early return. -/
def routeInStream (h id : Nat) (data : Bytes) (finished : Bool) (now : Nat) :
    Option Route × WtEndpoint W :=
  match s.registry.entries.get? h with
  | none => (none, s)
  | some e =>
    match e.session.inStreams.get? id with
    | none => (none, s)
    | some st =>
      let st := { st with buf := st.buf ++ data }
      match st.classify with
      | none => (none, setInStream s h id st)
      | some (kind, st) =>
        let taken := setInStream s h id { st with buf := [] }
        match classifyPeerStreamKind kind st.isBidi with
        | .control =>
          (some .control, taken.updSession h fun x =>
            { x with controlRx := x.controlRx ++ st.buf })
        | .serverConnect => routeServerConnect s h id e st
        | .qpackEncoder =>
          (some .qpackEncoder, taken.updSession h fun x =>
            { x with qpackEncoderRx := x.qpackEncoderRx ++ st.buf })
        | .qpackDecoder =>
          (some .qpackDecoder, taken.updSession h fun x =>
            { x with qpackDecoderRx := x.qpackDecoderRx ++ st.buf })
        | .webTransport => routeWebTransport s h id e st finished now
        | .ignore => (some .ignore, taken)

/-- The events of a WebTransport read: the stream opens, and its payload or FIN arrives. -/
def emitWtData (h handle : Nat) (payload : Bytes)
    (opened : Option (Nat × Nat × Nat × Bool)) (finished : Bool) : WtEndpoint W :=
  let s := match opened with
    | none => s
    | some (conn, sessionId, stream, bidi) =>
      s.pushEvent (.streamOpened conn sessionId stream bidi)
  if !payload.isEmpty || finished then
    match s.registry.handleToId h with
    | none => s
    | some conn => s.pushEvent (.streamData conn handle finished payload)
  else s

end

variable (env : Env W)

def processInStream (h id : Nat) (data : Bytes) (finished : Bool) (now : Nat) :
    EndpointM W Unit := do
  let s ← get
  let routed := routeInStream s h id data finished now
  set routed.2
  match routed.1 with
  | none | some .none | some .ignore => return
  | some .control => parseControl env h
  | some .qpackEncoder =>
    parseQpackEncoder env h
    retryBlockedConnects env h
  | some .qpackDecoder => parseQpackDecoder env h
  | some .serverConnect => parseServerConnect env h id
  | some (.wtData handle payload opened) =>
    modify (emitWtData · h handle payload opened finished)
  | some (.rejectWt error bidi code) =>
    modify (·.setLastError error)
    stopRecv env h id code
    when bidi (onConn env h (.reset h id code))
    modify (·.retireInStream h id)

/-! ## Reading -/

/-- The chunk loop of `read_stream`.  Every round that goes on adds a byte to `out`, so
    after `maxBytes` rounds the budget is used up. -/
def readChunks (h id maxBytes : Nat) : Nat → Bytes → EndpointM W (Bytes × ReadOutcome)
  | 0, out => return (out, .open)
  | fuel + 1, out => do
    if maxBytes ≤ out.length then return (out, .open)
    else
      match ← call env (.nextChunk h id (maxBytes - out.length)) with
      | .data bytes =>
        if bytes.val.isEmpty then return (out, .open)
        else readChunks h id maxBytes fuel (out ++ bytes.val)
      | .finished => return (out, .finished)
      | .reset code => return (out, .reset code)
      | .error => return (out, .open)

/-- The zero-length probe of `read_stream`: it sees FIN and RESET but takes no payload. -/
def probeStream (h id : Nat) : EndpointM W (Bytes × ReadOutcome) := do
  match ← call env (.nextChunk h id 0) with
  | .finished => return ([], .finished)
  | .reset code => return ([], .reset code)
  | _ => return ([], .open)

def readRecv (h id maxBytes : Nat) : EndpointM W (Bytes × ReadOutcome) := do
  if ((← get).registry.conn h).isNone then return ([], .open)
  else
    match ← call env (.read h id) with
    | .closedStream => return ([], .finished)
    | .error => return ([], .open)
    | .ok =>
      let taken ←
        if maxBytes = 0 then probeStream env h id else readChunks env h id maxBytes maxBytes []
      discard (call env (.finalize h id))
      return taken

def readStream (h id maxBytes : Nat) : EndpointM W (Bytes × ReadOutcome) := do
  let taken ← readRecv env h id maxBytes
  modify (·.noteAt h (.took · id taken.1))
  return taken

/-- `in_stream_read_limit`: the type and the session id are read one byte at a time, payload
    as far as the governor admits it. -/
def inStreamReadLimit (s : WtEndpoint W) (h id : Nat) : Nat :=
  match s.registry.entries.get? h with
  | none => 0
  | some e =>
    match e.session.inStreams.get? id with
    | none => 0
    | some st =>
      match st.kind with
      | none => 1
      | some kind =>
        if kind = StreamType.wtUni ∨ kind = FrameType.wtBidi then
          if !st.sidRead then 1
          else
            match st.handle with
            | none => 0
            | some handle => s.box.governor.availableEventBytes e.id (some handle)
        else protocolReadChunk

def requiredEventSlotsForRead (s : WtEndpoint W) (h id : Nat) : Nat :=
  match s.registry.session h with
  | none => 0
  | some x =>
    if x.selfBidi.contains id then 1
    else
      match x.inStreams.get? id with
      | none => 0
      | some st => requiredSlotsForInStream st.kind st.isBidi st.handle.isSome

/-- The read loop of a CONNECT stream: batches of protocol bytes, each absorbed at once. -/
def pumpProtocol (h id : Nat) (absorb : Bytes → EndpointM W Unit) : EndpointM W ReadOutcome :=
  rounds maxReadBatchesPerPump (do
    let (data, outcome) ← readStream env h id protocolReadChunk
    when (!data.isEmpty) (absorb data)
    return if shouldStopReadBatch outcome data then some outcome else none) (pure .open)

def readPrimaryConnect (h id : Nat) : EndpointM W Unit := do
  let outcome ← pumpProtocol env h id fun data => do
    modify (·.updSession h fun x => { x with connectRx := x.connectRx ++ data })
    parseClientConnect env h
  when (outcome != .open) (onConnectStreamEnded env h id true)

/-- A secondary CONNECT that ends while it is still pending closes its session. -/
def endPendingConnect (s : WtEndpoint W) (h id : Nat) : WtEndpoint W :=
  match s.registry.entries.get? h with
  | none => s
  | some e =>
    if e.session.pendingClientConnects.contains id then dropPendingSession s h id e.id else s

def readPendingConnect (h id : Nat) : EndpointM W Unit := do
  let outcome ← pumpProtocol env h id fun data => do
    modify (·.updSession h fun x => { x with
      pendingClientConnects := x.pendingClientConnects.modify id fun p =>
        { p with rx := p.rx ++ data } })
    parsePendingClientConnect env h id
  when (outcome != .open) (modify (endPendingConnect · h id))

/-- Client secondary CONNECT already latched into `extra_sessions`. -/
def readExtraConnect (h id : Nat) : EndpointM W Unit := do
  let outcome ← pumpProtocol env h id fun data => do
    modify (·.updSession h fun x =>
      { x with extraRx := x.extraRx.insert id ((x.extraRx.get? id).getD [] ++ data) })
    parseExtraConnectCapsules env h id
  when (outcome != .open) (onConnectStreamEnded env h id false)

/-- One batch of a peer-accepted stream; `some none` gives the read up. -/
def readInStreamRound (h id requiredSlots now : Nat) :
    EndpointM W (Option (Option ReadOutcome)) := do
  let s ← get
  if requiredSlots != 0 && !s.hasEventSlotCapacity requiredSlots then do
    modify fun s =>
      (s.setLastError "E_QUEUE_FULL: event queue item cap reached").holdBack h (.accepted id)
    return some none
  else do
    let readLimit := inStreamReadLimit s h id
    let (data, outcome) ← readStream env h id readLimit
    if shouldBackpressure readLimit data outcome then do
      modify (·.holdBack h (.accepted id))
      return some none
    else do
      processInStream env h id data (outcome == .finished) now
      return if shouldStopReadBatch outcome data then some (some outcome) else none

def finishInStream (s : WtEndpoint W) (h id : Nat) : ReadOutcome → WtEndpoint W
  | .finished => s.retireInStream h id
  | .reset code => (s.emitStreamReset h id (unmapWtAppError code)).retireInStream h id
  | .open => s

def readInStream (h id now : Nat) : EndpointM W Unit := do
  let s ← get
  let requiredSlots := requiredEventSlotsForRead s h id
  let isConnectStream := (s.registry.session h).any (·.isWtConnect id)
  let isPrimaryConnect := (s.registry.session h).any (·.connectStream == some id)
  match ← rounds maxReadBatchesPerPump (readInStreamRound env h id requiredSlots now)
      (pure (some .open)) with
  | none => return
  | some outcome =>
    modify (finishInStream · h id outcome)
    when (isConnectStream && outcome != .open)
      (onConnectStreamEnded env h id isPrimaryConnect)

/-- One batch of the peer's half of a self-opened stream. -/
def readSelfBidiRound (h id handle conn : Nat) : EndpointM W (Option (Option ReadOutcome)) := do
  let s ← get
  if !s.hasEventSlotCapacity 1 then do
    modify fun s =>
      (s.setLastError "E_QUEUE_FULL: event queue item cap reached").holdBack h (.opened id)
    return some none
  else do
    let readLimit := s.box.governor.availableEventBytes conn (some handle)
    let (data, outcome) ← readStream env h id readLimit
    if shouldBackpressure readLimit data outcome then do
      modify (·.holdBack h (.opened id))
      return some none
    else do
      when (!data.isEmpty || outcome == .finished)
        (modify (·.pushEvent (.streamData conn handle (outcome == .finished) data)))
      return if shouldStopReadBatch outcome data then some (some outcome) else none

def endSelfBidi (s : WtEndpoint W) (h id handle : Nat) : WtEndpoint W :=
  ((s.updSession h fun x => { x with selfBidi := x.selfBidi.erase id }).unpause
    handle).markStreamHalfDone handle halfRecv

def onSelfBidiReadOutcome (s : WtEndpoint W) (h id handle conn : Nat) :
    ReadOutcome → WtEndpoint W
  | .finished => endSelfBidi s h id handle
  | .reset code =>
    endSelfBidi (s.pushEvent (.streamReset conn handle (unmapWtAppError code))) h id handle
  | .open => s

def readSelfBidi (h id handle conn : Nat) : EndpointM W Unit := do
  match ← rounds maxReadBatchesPerPump (readSelfBidiRound env h id handle conn)
      (pure (some .open)) with
  | none => return
  | some outcome => modify (onSelfBidiReadOutcome · h id handle conn outcome)

def readOne (h id now : Nat) : EndpointM W Unit := do
  modify (·.noteAt h (.reading · (some id)))
  match (← get).registry.entries.get? h with
  | none => return
  | some e =>
    let x := e.session
    if x.connectSelfOpened && x.connectStream == some id then readPrimaryConnect env h id
    else if x.pendingClientConnects.contains id then readPendingConnect env h id
    else if x.connectSelfOpened && x.extraSessions.contains id then readExtraConnect env h id
    else if x.inStreams.contains id then readInStream env h id now
    else
      match x.selfBidi.get? id with
      | none => return
      | some handle => readSelfBidi env h id handle e.id

/-- The streams that `read_streams` reads before the CONNECT streams: peer-accepted ones,
    self-opened ones and pending CONNECTs, paused ones left out. -/
def readableStreams (s : WtEndpoint W) (x : Session) (connectIds : List Nat) :
    List Nat × List Nat × List Nat :=
  (x.inStreams.keys.filter fun id => !connectIds.contains id &&
      (x.inStreams.get? id).any fun st => st.handle.all fun hd => !s.paused.contains hd,
    x.selfBidi.keys.filter fun id => !connectIds.contains id &&
      (x.selfBidi.get? id).any fun hd => !s.paused.contains hd,
    x.pendingClientConnects.keys)

/-- `read_streams`: CONNECT streams come last, so that payload in the same flight is
    surfaced before a session ends. -/
def readStreams (h now : Nat) : EndpointM W Unit := do
  let s ← get
  match s.registry.session h with
  | none => return
  | some x =>
    let connectIds := (x.allConnectStreams x.extraSessions.keys).eraseDups
    let (ins, bidis, pending) := readableStreams s x connectIds
    let ins ← call env (.order ins)
    let bidis ← call env (.order bidis)
    let pending ← call env (.order pending)
    let connects ← call env (.order connectIds)
    (ins.val ++ bidis.val ++ pending.val).forM fun id => readOne env h id now
    connects.val.forM fun id => readOne env h id now

end Endpoint

end WebTransportBun.Wasm
