/-
  WebTransportBun.Wasm.Endpoint.ReadOperations

  Reading and routing streams (`Endpoint.Read`) as operations.  Of all that is read, only a
  CONNECT concerns the count of sessions; the rest the count does not see.
-/

import WebTransportBun.Wasm.Endpoint.ConnectOperations

namespace WebTransportBun.Wasm

open Library Library.Prog Relation Qpack WtEndpoint WebTransportBun.Wasm.Frame

namespace Endpoint

variable {W : Type} {env : Env W} {s : WtEndpoint W} {h sid : Nat}
  {P : Invariant (OpStep (W := W))}

/-! ## Routing -/

/-- An update of a stream being read is what is read afterwards. -/
theorem inStream_updInStream (f : InStream → InStream) :
    (s.updInStream h sid f).inStream h sid = (s.inStream h sid).map f := by
  simp only [updInStream, updSession, inStream, session_update]
  cases s.registry.session h with
  | none => rfl
  | some x => simp

@[simp] theorem counted_setInStream (st : InStream) :
    counted (setInStream s h sid st) = counted s :=
  counted_updInStream ..

/-- Bytes move from a stream into the session without being counted. -/
theorem counted_taken (st : InStream) {f : Session → Session} (hf : ∀ x, (f x).kept = x.kept) :
    counted ((setInStream s h sid st).updSession h f) = counted s :=
  (counted_updSession hf).trans (counted_setInStream st)

@[simp] theorem counted_rejectInStream (st : InStream) (error : String) (bidi : Bool)
    (code : Nat) : counted (rejectInStream s h sid st error bidi code).2 = counted s :=
  counted_setInStream _

/-- A handle for a stream costs a token and a slot, which are not counted. -/
theorem counted_openInStream (s : WtEndpoint W) (h sid id : Nat) (st : InStream) (now : Nat) :
    counted (openInStream s h sid id st now).2 = counted s := by
  unfold openInStream
  split
  · rfl
  split
  · rfl
  · split <;> rfl

theorem counted_routeWebTransport (e : Entry) (st : InStream) (finished : Bool) (now : Nat) :
    counted (routeWebTransport s h sid e st finished now).2 = counted s := by
  unfold routeWebTransport
  split
  · simp
  · simp
  · next st' _ =>
    have hopen := counted_openInStream s h sid e.id st' now
    split
    · simp
    · split <;> simp_all

theorem counted_routeServerConnect (e : Entry) (st : InStream) :
    counted (routeServerConnect s h sid e st).2 = counted s := by
  unfold routeServerConnect
  dsimp only
  split_ifs <;> simp

/-- Whatever a stream turns out to be, routing its bytes starts no session. -/
theorem counted_routeInStream (data : Bytes) (finished : Bool) (now : Nat) :
    counted (routeInStream s h sid data finished now).2 = counted s := by
  unfold routeInStream
  split
  · rfl
  split
  · rfl
  dsimp only
  split
  · simp
  -- the bytes of a protocol stream move into the buffer of the session
  split
  · exact counted_taken _ fun _ => rfl
  · exact counted_routeServerConnect _ _
  · exact counted_taken _ fun _ => rfl
  · exact counted_taken _ fun _ => rfl
  · exact counted_routeWebTransport ..
  · simp

/-! ## Events about streams -/

@[grind =] theorem counted_emitWtData (hd : Nat) (payload : Bytes)
    (opened : Option (Nat × Nat × Nat × Bool)) (finished : Bool) :
    counted (emitWtData s h hd payload opened finished) = counted s := by
  unfold emitWtData
  grind

/-- Routing is not counted; the CONNECT it may find is taken as an operation. -/
@[grind ←] theorem does_processInStream (data : Bytes) (finished : Bool) (now : Nat) :
    Does clean (processInStream env h sid data finished now) := by
  refine does_get_set (g := fun s => (routeInStream s h sid data finished now).2) (fun s _ =>
    .single (.frame (.of_counted (counted_routeInStream ..)))) fun s => ?_
  split <;> grind

/-! ## Reading -/

/-- Chunks are read from quinn-proto, which is not counted. -/
@[grind ←] theorem does_readChunks (maxBytes fuel : Nat) (out : Bytes) :
    Does P (readChunks env h sid maxBytes fuel out) := by
  induction fuel generalizing out with
  | zero => exact does_pure
  | succ fuel ih =>
    unfold readChunks
    grind

@[grind ←] theorem does_readRecv (maxBytes : Nat) : Does P (readRecv env h sid maxBytes) := by
  refine does_bind does_get fun s => ?_
  split
  · exact does_pure
  · refine does_bind (does_call _) fun answer => ?_
    split
    · exact does_pure
    · exact does_pure
    · unfold probeStream
      grind

@[grind ←] theorem does_readStream (maxBytes : Nat) : Does P (readStream env h sid maxBytes) := by
  unfold readStream
  grind

/-- A protocol stream is pumped by what absorbs its bytes. -/
@[grind ←] theorem does_pumpProtocol {absorb : Bytes → EndpointM W Unit}
    (habsorb : ∀ data, Does P (absorb data)) : Does P (pumpProtocol env h sid absorb) := by
  unfold pumpProtocol
  grind

/-- The primary CONNECT stream is read by a client only. -/
theorem does_readPrimaryConnect : Does client (readPrimaryConnect env h sid) := by
  refine does_bind (does_pumpProtocol fun data => ?_) fun outcome => by grind
  grind [does_parseClientConnect]

/-- A CONNECT whose stream ended no longer waits. -/
@[grind ←] theorem frame_endPendingConnect (sid : Nat) : Frame s (endPendingConnect s h sid) := by
  unfold endPendingConnect
  grind

/-- So are the streams of further CONNECTs. -/
theorem does_readPendingConnect : Does client (readPendingConnect env h sid) := by
  refine does_bind (does_pumpProtocol fun data => ?_) fun outcome => by grind
  exact does_bind (does_client fun _ => frame_updSession_client) fun _ =>
    does_parsePendingClientConnect _

@[grind ←] theorem does_readExtraConnect : Does P (readExtraConnect env h sid) := by
  refine does_bind (does_pumpProtocol fun data => ?_) fun outcome => by grind
  grind

/-- A round reads once, if the queue has room for the events. -/
@[grind ←] theorem does_readInStreamRound (requiredSlots now : Nat) :
    Does clean (readInStreamRound env h sid requiredSlots now) := by
  refine does_bind does_get fun s => ?_
  split
  · grind
  · refine does_bind (does_readStream _) fun r => ?_
    grind

@[grind =] theorem counted_emitStreamReset (sid code : Nat) :
    counted (s.emitStreamReset h sid code) = counted s := by
  unfold emitStreamReset
  grind

@[grind =] theorem counted_finishInStream (sid : Nat) (outcome : ReadOutcome) :
    counted (finishInStream s h sid outcome) = counted s := by
  unfold finishInStream
  grind

@[grind ←] theorem does_readInStream (now : Nat) : Does clean (readInStream env h sid now) := by
  unfold readInStream
  grind

/-! ## Streams opened here -/

@[grind ←] theorem does_readSelfBidiRound (hd conn : Nat) :
    Does P (readSelfBidiRound env h sid hd conn) := by
  refine does_bind does_get fun s => ?_
  split
  · grind
  · refine does_bind (does_readStream _) fun r => ?_
    grind

@[grind =] theorem counted_endSelfBidi (hd : Nat) :
    counted (endSelfBidi s h sid hd) = counted s := by
  rw [endSelfBidi, counted_markStreamHalfDone, counted_unpause]
  exact counted_updSession fun _ => rfl

/-- The end of a stream opened here frees the stream alone. -/
@[grind =] theorem counted_onSelfBidiReadOutcome (hd conn : Nat) (outcome : ReadOutcome) :
    counted (onSelfBidiReadOutcome s h sid hd conn outcome) = counted s := by
  unfold onSelfBidiReadOutcome
  grind

@[grind ←] theorem does_readSelfBidi (hd conn : Nat) : Does P (readSelfBidi env h sid hd conn) := by
  unfold readSelfBidi
  grind

/-! ## All streams of a connection -/

/-- The streams that only a client reads are CONNECTs of its own. -/
@[grind ←] theorem does_readOne (sid now : Nat) : Does clean (readOne env h sid now) := by
  refine does_bind (by grind) fun _ => does_get_bind fun s hclean => ?_
  split
  · exact does_pure s hclean
  next e he =>
  have hx : s.registry.session h = some e.session := by simp [Registry.session, he]
  dsimp only
  split
  · next hprimary =>
    simp only [Bool.and_eq_true] at hprimary
    exact does_readPrimaryConnect s (hclean.isClient_of_selfOpened hx hprimary.1)
  split
  · next hpending => exact does_readPendingConnect s (hclean.isClient_of_pending hx hpending)
  · exact (by grind : Does clean _) s hclean

/-- In whatever order the maps list the streams. -/
@[grind ←] theorem does_readStreams (now : Nat) : Does clean (readStreams env h now) := by
  refine does_bind does_get fun s => ?_
  split
  · exact does_pure
  · refine does_bind (does_call _) fun ins => does_bind (does_call _) fun bidis => ?_
    refine does_bind (does_call _) fun pending => does_bind (does_call _) fun connects => ?_
    grind

end Endpoint

end WebTransportBun.Wasm
