/-
  WebTransportBun.Wasm.ControlStream

  What two endpoints tell each other about a connection: the SETTINGS frame that one of
  them writes to its control stream (`encode_control_preamble_with` of `h3.rs`) and the
  loop of `parse_control` that the other runs over what has arrived of it
  (`endpoint.rs`); and the datagrams, which carry the session they belong to.
-/

import WebTransportBun.Wasm.CapsuleAssembler
import WebTransportBun.Wasm.Endpoint.Drive
import WebTransportBun.Wasm.LiteralHeaders

namespace WebTransportBun.Wasm

open Library List Option Varint Endpoint Qpack

/-! ## SETTINGS -/

def encodeSetting (p : Nat × Nat) : Bytes := encode p.1 ++ encode p.2

def PeerSettings.applyAll (s : PeerSettings) (pairs : List (Nat × Nat)) : PeerSettings :=
  pairs.foldl (fun s p => s.apply p.1 p.2) s

section

variable {pairs : List (Nat × Nat)} (hpairs : ∀ p ∈ pairs, p.1 < 2 ^ 62 ∧ p.2 < 2 ^ 62)

include hpairs

theorem parseSettingsLoop_encode {fuel : Nat} (hfuel : pairs.length ≤ fuel) (s : PeerSettings) :
    parseSettingsLoop fuel s (encodeAll encodeSetting pairs) = some (s.applyAll pairs) := by
  induction pairs generalizing fuel s with
  | nil => cases fuel <;> rfl
  | cons p pairs ih =>
    obtain ⟨⟨hid, hval⟩, hpairs⟩ := forall_mem_cons.mp hpairs
    rw [length_cons] at hfuel
    obtain ⟨fuel, rfl⟩ : ∃ k, fuel = k + 1 := Nat.exists_eq_add_of_le' (by omega)
    have hne : encode p.1 ≠ [] := fun hnil => by simpa [hnil, decode] using decode_encode hid []
    rw [encodeAll_cons, encodeSetting, append_assoc,
      parseSettingsLoop.eq_3 _ _ _ (by simp [hne]), decode_encode hid]
    simp only [bind_eq_bind, bind_some]
    rw [← length_encode hid, drop_left, decode_encode hval]
    simp only [bind_some]
    rw [← length_encode hval, drop_left]
    exact ih hpairs (by omega) _

theorem length_encodeSettings : pairs.length ≤ (encodeAll encodeSetting pairs).length ∧
    (encodeAll encodeSetting pairs).length ≤ 16 * pairs.length := by
  have hwidth : ∀ v, 0 < width v ∧ width v ≤ 8 := by grind [width]
  induction pairs with
  | nil => decide
  | cons p pairs ih =>
    obtain ⟨⟨hid, hval⟩, hpairs⟩ := forall_mem_cons.mp hpairs
    have hrest := ih hpairs
    have h1 := hwidth p.1
    have h2 := hwidth p.2
    rw [encodeAll_cons, length_append, encodeSetting, length_append, length_encode hid,
      length_encode hval, length_cons]
    omega

end

/-! ## The loop of `parse_control` -/

/-- What the loop does about the front of the buffer. -/
def controlVerdict (s : Option PeerSettings) (buf : Bytes) :
    Verdict (Option PeerSettings) Unit :=
  match decodeFrameHeader buf with
  | .incomplete => .wait
  | .tooLarge => .fail s ()
  | .ready header total ftype =>
    .take total ((if ftype = FrameType.settings then
      parseSettings (framePayload buf header total) else none) <|> s)

/-- A chunk arrives on the control stream. -/
def feedControl (x : Session) (chunk : Bytes) : Bool × Session :=
  let x := { x with controlRx := x.controlRx ++ chunk }
  parseControlLoop (x.controlRx.length + 1) x

/-- The chunks of the control stream; an oversized frame closes the connection. -/
def feedControlAll : Session → List Bytes → Bool × Session
  | x, [] => (false, x)
  | x, chunk :: chunks =>
    match feedControl x chunk with
    | (true, x) => (true, x)
    | (false, x) => feedControlAll x chunks

/-- What the peer has announced, and the bytes that wait unless a frame was oversized. -/
def controlOutcome (r : Bool × Session) : Option PeerSettings × Except Unit Bytes :=
  (r.2.peerSettings, if r.1 then .error () else .ok r.2.controlRx)

variable {buf : Bytes} {s : Option PeerSettings}

theorem decodeFrameHeader_append (buf more : Bytes) :
    decodeFrameHeader buf = .incomplete ∨
      decodeFrameHeader (buf ++ more) = decodeFrameHeader buf := by
  cases hheader : frameHeader buf with
  | none => exact .inl (by rw [decodeFrameHeader, hheader])
  | some r => grind [decodeFrameHeader, frameHeader_append]

theorem frameHeader_width {ftype flen header : Nat}
    (h : frameHeader buf = some (ftype, flen, header)) :
    0 < header ∧ header ≤ 16 := by
  simp only [frameHeader, bind_eq_bind, bind_eq_some_iff] at h
  obtain ⟨⟨_, n1⟩, hfirst, ⟨_, n2⟩, hsecond, hr⟩ := h
  cases hr
  have hpos := (decode_take hfirst).1
  have h1 := decode_le_eight hfirst
  have h2 := decode_le_eight hsecond
  omega

theorem length_lt_of_frameHeader_none (h : frameHeader buf = none) : buf.length < 16 := by
  cases hfirst : decode buf with
  | none => exact (length_lt_eight_of_decode hfirst).trans (by decide)
  | some r =>
    have h1 := decode_le_eight hfirst
    cases hsecond : decode (buf.drop r.2) with
    | none =>
      have h2 := length_lt_eight_of_decode hsecond
      rw [length_drop] at h2
      omega
    | some q => simp [frameHeader, hfirst, hsecond] at h

theorem ready_within {header total ftype : Nat}
    (h : decodeFrameHeader buf = .ready header total ftype) :
    0 < total ∧ total ≤ buf.length := by
  unfold decodeFrameHeader at h
  split at h
  · cases h
  next hheader =>
  have hwidth := frameHeader_width hheader
  split at h
  · cases h
  split at h
  · cases h
  cases h
  omega

/-- A buffer that waits holds less than two varints and a payload within the limit. -/
theorem length_lt_of_wait (h : controlVerdict s buf = .wait) :
    buf.length < 16 + maxH3FrameSize := by
  unfold controlVerdict decodeFrameHeader at h
  split at h
  · next hincomplete =>
    split at hincomplete
    · next hheader => exact (length_lt_of_frameHeader_none hheader).trans_le (Nat.le_add_right ..)
    next hheader =>
    have hwidth := frameHeader_width hheader
    split at hincomplete
    · cases hincomplete
    split at hincomplete
    · omega
    · cases hincomplete
  · cases h
  · cases h

theorem settled_controlVerdict : Settled controlVerdict where
  stands s buf more := by
    refine (decodeFrameHeader_append buf more).imp (fun h => ?_) fun h => ?_
    · rw [controlVerdict, h]
    · grind [controlVerdict, decodeFrameHeader, framePayload]
  within s buf n s' h := by
    unfold controlVerdict at h
    split at h
    · cases h
    · cases h
    · next hready =>
      cases h
      exact ready_within hready

theorem controlOutcome_loop (fuel : Nat) (x : Session) : controlOutcome (parseControlLoop fuel x) =
    drain controlVerdict fuel x.peerSettings x.controlRx := by
  induction fuel generalizing x with
  | zero => cases hrx : x.controlRx <;> simp [parseControlLoop, controlOutcome, drain, hrx]
  | succ fuel ih =>
    by_cases hnil : x.controlRx = []
    · simp [hnil, parseControlLoop, frameHeader, decode, controlOutcome, drain]
    · rw [drain.eq_3 _ _ _ _ hnil, parseControlLoop, controlVerdict, decodeFrameHeader]
      cases hheader : frameHeader x.controlRx with
      | none => rfl
      | some r =>
        dsimp only
        split
        · rfl
        · split
          · rfl
          · exact ih _

theorem controlOutcome_feedControl (x : Session) (chunk : Bytes) :
    controlOutcome (feedControl x chunk) =
      drainAll controlVerdict x.peerSettings (x.controlRx ++ chunk) := by
  rw [feedControl, controlOutcome_loop]
  exact settled_controlVerdict.drain_fuel (Nat.le_succ _)

theorem controlOutcome_feedControlAll (x : Session) (chunks : List Bytes) :
    controlOutcome (feedControlAll x chunks) =
      drainChunks controlVerdict x.peerSettings x.controlRx chunks := by
  induction chunks generalizing x with
  | nil => rfl
  | cons chunk chunks ih =>
    rw [feedControlAll, drainChunks, ← controlOutcome_feedControl]
    rcases feedControl x chunk with ⟨_ | _, x'⟩
    · exact ih x'
    · rfl

theorem controlOutcome_whole (x : Session) (chunks : List Bytes) :
    controlOutcome (feedControlAll { x with controlRx := [] } chunks) =
      drainAll controlVerdict x.peerSettings chunks.flatten :=
  (controlOutcome_feedControlAll ..).trans (settled_controlVerdict.drainChunks_eq rfl chunks)

/-- However the control stream is cut into chunks, the peer's settings, the bytes that wait
    and whether a frame was oversized are those of the whole stream; and what waits is never
    more than one frame within the limit. -/
theorem control_stream_chunking (x : Session) (chunks : List Bytes) :
    controlOutcome (feedControlAll { x with controlRx := [] } chunks) =
        controlOutcome (feedControl { x with controlRx := [] } chunks.flatten) ∧
      ∀ rest, (controlOutcome (feedControlAll { x with controlRx := [] } chunks)).2 = .ok rest →
        rest.length < 16 + maxH3FrameSize := by
  rw [controlOutcome_whole, controlOutcome_feedControl]
  refine ⟨rfl, fun rest hrest => ?_⟩
  have hdrain := settled_controlVerdict.drainAll_rest (Prod.ext rfl hrest)
  by_cases hnil : rest = []
  · subst hnil
    exact Nat.succ_pos _
  · exact length_lt_of_wait (settled_controlVerdict.wait_of_drainAll hnil hdrain)

/-- A SETTINGS frame within the limit is read as the settings that it lists, in their order. -/
theorem drainAll_settings {pairs : List (Nat × Nat)} (hmany : 16 * pairs.length ≤ maxH3FrameSize)
    (hpairs : ∀ p ∈ pairs, p.1 < 2 ^ 62 ∧ p.2 < 2 ^ 62) :
    drainAll controlVerdict s (frameWrap FrameType.settings (encodeAll encodeSetting pairs)) =
      (some (PeerSettings.applyAll {} pairs), .ok []) := by
  have hsettings : FrameType.settings < 2 ^ 62 := by decide
  obtain ⟨hfuel, hlen⟩ := length_encodeSettings hpairs
  have hsize := hlen.trans hmany
  have hready := decodeFrameHeader_frameWrap hsettings hsize []
  have hpayload := framePayload_frameWrap hsettings (hsize.trans_lt (by decide)) []
  rw [append_nil] at hready hpayload
  have htake : controlVerdict s (frameWrap FrameType.settings (encodeAll encodeSetting pairs)) =
      .take (frameWrap FrameType.settings (encodeAll encodeSetting pairs)).length
        (some (PeerSettings.applyAll {} pairs)) := by
    rw [controlVerdict, hready]
    dsimp only
    rw [hpayload, parseSettings, parseSettingsLoop_encode hpairs hfuel]
    rfl
  rw [settled_controlVerdict.drainAll_take htake, drop_length, drainAll_nil]

/-- Behind the stream type, and in whatever chunks it arrives: the peer reads the settings that
    were written, and nothing stays in its buffer. -/
theorem settings_announced (x : Session) (maxSessions : Nat) (qpack : QpackLocalSettings)
    {chunks : List Bytes} (hmax : maxSessions < 2 ^ 62)
    (hcapacity : qpack.maxTableCapacity < 2 ^ 62) (hblocked : qpack.maxBlockedStreams < 2 ^ 62)
    (hchunks : encode StreamType.control ++ chunks.flatten =
      encodeControlPreambleWith maxSessions qpack) :
    controlOutcome (feedControlAll { x with controlRx := [] } chunks) =
      (some ⟨true, true, true, maxSessions, qpack.maxTableCapacity, qpack.maxBlockedStreams⟩,
        .ok []) := by
  rw [controlOutcome_whole, append_cancel_left hchunks]
  refine drainAll_settings (Nat.le_of_ble_eq_true rfl) ?_
  simp +decide only [forall_mem_cons, hmax, hcapacity, hblocked]

theorem settings_announced_bytewise :
    controlOutcome (feedControlAll (.new "" {} 0)
        ((encodeControlPreambleWith 2 {}).tail.map fun b => [b])) =
      (some ⟨true, true, true, 2, 4096, 16⟩, .ok []) :=
  settings_announced (.new "" {} 0) 2 {} (by decide) (by decide) (by decide) (by decide +kernel)

/-! ## Datagrams -/

/-- A datagram sent for a CONNECT stream of the peer is delivered, whole, to that stream's session
    and to no other: the ids of client-initiated bidirectional streams are known by their
    quarters. -/
theorem datagram_delivered (x : Session) {extras : List Nat} {sid : Nat} (payload : Bytes)
    (hsid : sid ∈ x.allConnectStreams extras)
    (hids : ∀ id ∈ x.allConnectStreams extras, id < 2 ^ 62 ∧ id % 4 = 0) :
    datagramPayloadForSession x extras (wrapDatagram sid payload) = some (sid, payload) ∧
      (wrapDatagram sid payload).length = datagramPrefixLen sid + payload.length := by
  have hquarter : sid / 4 < 2 ^ 62 := (Nat.div_le_self ..).trans_lt (hids sid hsid).1
  have hunwrap : unwrapDatagram (wrapDatagram sid payload) = some (sid / 4, payload) := by
    simp [unwrapDatagram, wrapDatagram, decode_encode hquarter, ← length_encode hquarter]
  have hfind : x.sessionForQsid extras (sid / 4) = some sid := by
    cases hfound : x.sessionForQsid extras (sid / 4) with
    | none => exact absurd (find?_eq_none.mp hfound sid hsid) (by simp)
    | some id =>
      have hid := (hids id (mem_of_find?_eq_some hfound)).2
      have heq : id / 4 = sid / 4 := by simpa using find?_some hfound
      have := (hids sid hsid).2
      congr 1
      omega
  refine ⟨?_, ?_⟩
  · simp [datagramPayloadForSession, hunwrap, hfind]
  · rw [wrapDatagram, length_append, length_encode hquarter, datagramPrefixLen]

theorem datagram_delivered_second :
    datagramPayloadForSession { Session.new "" {} 0 with connectStream := some 0 } [4, 8]
      (wrapDatagram 4 [1, 2]) = some (4, [1, 2]) :=
  (datagram_delivered { Session.new "" {} 0 with connectStream := some 0 } [1, 2]
    (by decide) (by decide)).1

end WebTransportBun.Wasm
