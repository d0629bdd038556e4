/-
  WebTransportBun.Wasm.Endpoint.DriveOperations

  Driving connections (`Endpoint.Drive`) as operations.  Only a client makes a stream it
  opened its primary CONNECT stream, so a server stays without CONNECTs of its own.
-/

import WebTransportBun.Wasm.Endpoint.ReadOperations

namespace WebTransportBun.Wasm

open Library Library.Prog Relation Qpack WebTransportBun.Wasm.Frame

namespace Endpoint

variable {W : Type} {env : Env W} {s : WtEndpoint W} {h : Nat}
  {P : Invariant (OpStep (W := W))}

/-! ## Teardown -/

/-- Packets go to the outbox until the connection has no more. -/
@[grind ←] theorem does_flushConnTransmits (now : Nat) :
    Does P (flushConnTransmits env h now) := by
  refine does_bind does_get fun s => does_when (does_loop ?_)
  grind [counted]

/-- The teardown tells quinn-proto and removes the connection. -/
@[grind ←] theorem does_cleanupConnection (now : Nat) :
    Does P (cleanupConnection env h now) :=
  does_bind (does_onConn _) fun _ => does_frame fun _ => frame_cleanup now

@[grind ←] theorem does_closeConn (connId code : Nat) (reason : Bytes) (now : Nat) :
    Does P (closeConn env connId code reason now) := by
  unfold closeConn
  grind

@[grind =] theorem counted_pushConnectionLost (id : Nat) (reason : ConnectionError) :
    counted (pushConnectionLost s id reason) = counted s := by
  unfold pushConnectionLost
  grind

@[grind =] theorem counted_unpauseAll (hds : List Nat) :
    counted (hds.foldl WtEndpoint.unpause s) = counted s :=
  counted_foldl (fun _ _ => counted_unpause _) hds s

/-- What can still be read is read, then the connection goes. -/
@[grind ←] theorem does_onConnectionLost (reason : ConnectionError) (now : Nat) :
    Does clean (onConnectionLost env h reason now) := by
  refine does_bind does_get fun s => ?_
  split <;> grind

/-! ## Streams -/

/-- A stream that arrives is noted, whichever table it goes to. -/
@[grind =] theorem counted_adoptInStream (sid : Nat) (dir : Dir) :
    counted (adoptInStream s h sid dir) = counted s := by
  rw [adoptInStream, counted_noteAt, counted_updSession, counted_updConn]
  intro x
  split <;> rfl

@[grind ←] theorem does_acceptStreams (dir : Dir) : Does P (acceptStreams env h dir) := by
  refine does_loop (does_bind does_get fun s => ?_)
  split <;> grind

@[grind =] theorem counted_onStreamStopped (sid code : Nat) :
    counted (s.onStreamStopped h sid code) = counted s := by
  unfold WtEndpoint.onStreamStopped
  grind

/-! ## Datagrams -/

/-- A datagram becomes an event, or closes the connection over a limit. -/
@[grind ←] theorem does_deliverDatagram (id sessionId : Nat) (payload : Bytes) (now : Nat) :
    Does P (deliverDatagram env id sessionId payload now) := by
  refine does_bind does_get fun s => does_bind (does_counted fun _ => rfl) fun _ => ?_
  split
  · grind
  · refine does_get_set (g := fun s : WtEndpoint W =>
      (s.tryPushEvent (.datagram id sessionId payload)).2)
      (fun _ _ => .single (.frame (.of_counted rfl))) fun s => ?_
    grind

/-- A round takes one datagram, if there is room for its event. -/
@[grind ←] theorem does_drainDatagramsRound (id now : Nat) :
    Does P (drainDatagramsRound env h id now) := by
  refine does_bind does_get fun s => ?_
  split
  · grind
  split
  · exact does_pure
  · refine does_bind (does_call _) fun dg => ?_
    split <;> grind

@[grind ←] theorem does_drainDatagrams (now : Nat) : Does P (drainDatagrams env h now) := by
  unfold drainDatagrams
  grind

/-! ## Connecting -/

@[grind ←] theorem does_openQuicStream (dir : Dir) : Does P (openQuicStream env h dir) := by
  refine does_bind does_get fun s => ?_
  split <;> grind

@[grind ←] theorem does_openControlStream : Does P (openControlStream env h) := by
  refine does_bind does_get fun s => does_bind (does_openQuicStream _) fun r => ?_
  split <;> grind

/-- The stream is stored in the session, outside the counted fields. -/
theorem does_openQpackStream (streamType : Nat) {store : Session → Nat → Session}
    (hstore : ∀ x sid, (store x sid).kept = x.kept) :
    Does P (openQpackStream env h streamType store) := by
  refine does_bind (does_openQuicStream _) fun r => ?_
  split <;> grind

@[grind ←] theorem does_sendConnectRequest (sid : Nat) : Does P (sendConnectRequest env h sid) := by
  unfold sendConnectRequest
  grind

/-- A client makes a stream its primary CONNECT. -/
@[grind ←] theorem frame_setPrimaryConnect (hclient : s.isServer = false) (bidi : Nat) :
    Frame s (setPrimaryConnect s h bidi) :=
  frame_noteAt (frame_updSession_client hclient) _

/-- Three streams are opened; a client then sends its CONNECT. -/
@[grind ←] theorem does_onConnected : Does P (onConnected env h) := by
  refine does_bind does_openControlStream fun _ => ?_
  refine does_bind (does_openQpackStream _ fun _ _ => rfl) fun _ => ?_
  refine does_bind (does_openQpackStream _ fun _ _ => rfl) fun _ => does_get_bind fun s hs => ?_
  cases hserver : s.isServer with
  | true => exact does_pure s hs
  -- from here on the endpoint is a client
  | false => exact (by grind : Does client _) s hserver

/-! ## Driving a connection -/

/-- One case per event of quinn-proto. -/
@[grind ←] theorem does_onQuicEvent (ev : QuicEvent) (now : Nat) :
    Does clean (onQuicEvent env h now ev) := by
  cases ev with
  | connected =>
    refine does_bind does_get fun s => ?_
    split
    · exact does_pure
    · refine does_bind (by grind) fun _ => does_bind does_onConnected fun _ => ?_
      grind [counted]
  | _ =>
    unfold onQuicEvent
    grind

@[grind ←] theorem does_driveRound (now : Nat) : Does clean (driveRound env h now) := by
  unfold driveRound
  grind

@[grind ←] theorem does_drive (now : Nat) : Does clean (drive env h now) := by
  unfold drive
  grind

@[grind ←] theorem does_driveAll (now : Nat) : Does clean (driveAll env now) := by
  unfold driveAll
  grind

/-! ## Waking held-back connections -/

/-- A round reads for the connection that has waited longest. -/
@[grind ←] theorem does_resumeWaitingRound (now : Nat) :
    Does clean (resumeWaitingRound env now) := by
  refine does_bind does_get fun s => ?_
  split
  · exact does_pure
  · refine does_bind (does_counted fun _ => rfl) fun _ => does_bind does_get fun s => ?_
    split <;> grind

@[grind ←] theorem does_resumeWaitingAfterCapacityChange :
    Does clean (resumeWaitingAfterCapacityChange env) := by
  refine does_bind does_get fun s => does_bind (does_counted fun _ => rfl) fun _ => ?_
  grind

end Endpoint

end WebTransportBun.Wasm
