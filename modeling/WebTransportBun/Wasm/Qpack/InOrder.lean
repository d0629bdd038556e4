/-
  WebTransportBun.Wasm.Qpack.InOrder

  QPACK without reordering.

  `Loopback` is the codec alone: an encoder, arbitrary acknowledgements, and a decoder of
  the same capacity that receives every call's encoder-stream bytes and then, at once, its
  section.  Even here a section can be lost: the inserts of a CONNECT request may evict an
  acknowledged entry the same request has already chosen (`self_eviction_invalid`).  When
  no call does that, every section decodes to its headers (`sections_self_consistent`).

  `Link.between` is one direction of a connection whose ends have settings of their own.
  The encoder takes its capacity from the local settings and never looks at the peer's, so
  it works for settings that happen to agree (`Compatible`, `settings_compatible`), and
  breaks the connection for others (`capacity_refused`, `modulus_mismatch`).
-/

import WebTransportBun.Wasm.Qpack.Mirror
import WebTransportBun.Wasm.Qpack.Panics

namespace WebTransportBun.Wasm.Qpack

open Library List DynamicTable EncoderInstr Option

@[simp] theorem noteSectionAck_table (e : QpackEncoder) (ric : Nat) :
    (e.noteSectionAck ric).table = e.table := by
  unfold QpackEncoder.noteSectionAck
  split <;> rfl

/-! ## Loopback -/

structure Loopback where
  encoder : QpackEncoder
  decoder : QpackDecoder
  /-- What the decoder made of each section, right after its call. -/
  decoded : List (Call × Except QpackError (List HeaderField)) := []

namespace Loopback

/-- An encoder, and a decoder of the same maximum capacity. -/
def new (maxCapacity maxBlockedStreams : Nat) : Loopback :=
  { encoder := .new maxCapacity
    decoder := { table := .new maxCapacity, maxBlockedStreams } }

section

variable (huffman : Bytes → Option Bytes)

/-- Apply a call's encoder-stream bytes and decode its section.  Bytes that are refused or
    left over count as a failure. -/
def receive (d : QpackDecoder) (encoded : EncodedHeaders) :
    QpackDecoder × Except QpackError (List HeaderField) :=
  match feedEncoderStream huffman d encoded.encoderStream with
  | (d, .error _) => (d, .error .invalid)
  | (d, .ok n) =>
    match headersPayload encoded.headersFrame with
    | none => (d, .error .invalid)
    | some payload =>
      if n < encoded.encoderStream.length then (d, .error .invalid)
      else (d, (decodeFieldSection huffman payload d).map Prod.fst)

inductive Op
  | call (call : Call)
  | peerIci (delta : Nat)
  | sectionAck (ric : Nat)
  deriving DecidableEq, Repr

/-- An `encode_…_with` call that fails emits nothing and leaves the encoder as it was. -/
def apply (s : Loopback) : Op → Loopback
  | .call call =>
    match encodeHeadersWith s.encoder call.headers with
    | .error _ => s
    | .ok (encoded, encoder) =>
      let (decoder, result) := receive huffman s.decoder encoded
      { encoder, decoder, decoded := s.decoded ++ [(call, result)] }
  | .peerIci delta => { s with encoder := s.encoder.notePeerIci delta }
  | .sectionAck ric => { s with encoder := s.encoder.noteSectionAck ric }

/-- The strings of a call have `usize` lengths. -/
inductive Step : Loopback → Op → Loopback → Prop
  | call {s : Loopback} {call : Call}
      (hlen : ∀ str ∈ call.strings, (strBytes str).length ≤ usizeMax) :
      Step s (.call call) (s.apply huffman (.call call))
  | peerIci {s : Loopback} {delta : Nat} :
    Step s (.peerIci delta) (s.apply huffman (.peerIci delta))
  | sectionAck {s : Loopback} {ric : Nat} :
      Step s (.sectionAck ric) (s.apply huffman (.sectionAck ric))

/-- The condition on calls: see `Retains`. -/
def KeepsOwn (s : Loopback) : Op → Prop
  | .call call => Retains s.encoder call
  | _ => True

/-- Encoder and decoder agree, and every section decoded so far was intact. -/
structure Intact (s : Loopback) (log : List DynEntry) : Prop where
  consistent : s.encoder.table.Consistent log
  mirrors : Mirrors s.decoder.table s.encoder.table
  decoded : ∀ entry ∈ s.decoded, entry.2 = .ok entry.1.headers

/-- A decoder that admits the instructions takes all of their bytes. -/
theorem feedEncoderStream_encodeAll {d : QpackDecoder} {instrs : List EncoderInstr}
    (hadm : AdmitsAll EncoderInstr.admits EncoderInstr.apply d instrs) :
    feedEncoderStream huffman d (encodeAll encode instrs) =
      (instrs.foldl EncoderInstr.apply d, .ok (encodeAll EncoderInstr.encode instrs).length) := by
  have hfuel := (reads_encoderInstr huffman).length_le_encodeAll instrs
  obtain ⟨extra, hextra⟩ := Nat.exists_eq_add_of_le hfuel
  have hdrain := (reads_encoderInstr huffman).drain_items [] extra hadm
  rw [← hextra, append_nil] at hdrain
  have hempty : drain (encoderInstruction huffman) extra (instrs.foldl EncoderInstr.apply d) [] =
      (instrs.foldl EncoderInstr.apply d, .ok []) := by
    cases extra <;> rfl
  rw [feedEncoderStream, hdrain, hempty]
  simp only [length_nil, Nat.sub_zero]

variable {log : List DynEntry}

theorem Intact.call {s : Loopback} {call : Call} (h : Intact s log)
    (hlen : ∀ str ∈ call.strings, (strBytes str).length ≤ usizeMax)
    (hretains : Retains s.encoder call) : ∃ log', Intact (s.apply huffman (.call call)) log' := by
  simp only [apply]
  split
  · exact ⟨log, h⟩
  · next encoded encoder hres =>
    have hor : encodeOrLiteral s.encoder call.headers = (encoded, encoder) := by
      rw [encodeOrLiteral, hres]
    obtain ⟨instrs, log', hstream, hc, hemits⟩ :=
      encodeOrLiteral_emits huffman h.consistent hlen hretains hor
    obtain ⟨hadm, hm, payload, hpayload, hdecode⟩ := hemits s.decoder h.mirrors
    have hrecv : receive huffman s.decoder encoded =
        (instrs.foldl EncoderInstr.apply s.decoder, .ok call.headers) := by
      rw [receive, hstream, feedEncoderStream_encodeAll huffman hadm, hpayload]
      simp only [lt_irrefl, if_false, hdecode _ rfl, Except.map]
    simp only [hrecv]
    exact ⟨log', hc, hm,
      forall_mem_append.mpr ⟨h.decoded, forall_mem_singleton.mpr rfl⟩⟩

variable {op : Op}

theorem Intact.step {s s' : Loopback} (h : Intact s log)
    (hstep : restrict KeepsOwn (Step huffman) s op s') : ∃ log', Intact s' log' := by
  obtain ⟨hkeeps, hstep⟩ := hstep
  cases hstep with
  | call hlen => exact h.call huffman hlen hkeeps
  | peerIci => exact ⟨log, h.consistent, h.mirrors, h.decoded⟩
  | sectionAck =>
    refine ⟨log, ?_, ?_, h.decoded⟩
    · simp only [apply, noteSectionAck_table]
      exact h.consistent
    · simp only [apply, noteSectionAck_table]
      exact h.mirrors

end

/-- Whatever is acknowledged and in whatever order: as long as no call evicts an entry of
    its own section, every section decodes right after its call to the headers of the call. -/
theorem sections_self_consistent (huffman : Bytes → Option Bytes) {maxCapacity : Nat}
    (hcap : maxCapacity < usizeMax) (maxBlockedStreams : Nat) {ops : List Op} {s : Loopback}
    (hrun : Run (restrict KeepsOwn (Step huffman)) (new maxCapacity maxBlockedStreams) ops s) :
    ∀ entry ∈ s.decoded, entry.2 = .ok entry.1.headers := by
  have hnew : Intact (new maxCapacity maxBlockedStreams) [] :=
    ⟨⟨window_new _, sized_new _, hcap⟩,
      Mirrors.new le_rfl rfl, by simp [new]⟩
  obtain ⟨log, h⟩ := hrun.invariant (P := fun s => ∃ log, Intact s log)
    (fun _ _ _ ⟨_, h⟩ hstep => h.step huffman hstep) ⟨[], hnew⟩
  exact h.decoded

/-- Two requests on a table with room for both: the second reuses four entries. -/
theorem sections_self_consistent_two_requests :
    ∃ s, Run (restrict KeepsOwn (Step fun _ => none)) (new 4096 0)
        [.call (.connectRequest "a" "/"), .peerIci 5, .call (.connectRequest "b" "/")] s ∧
      s.decoded.length = 2 ∧ ∀ entry ∈ s.decoded, entry.2 = .ok entry.1.headers := by
  have h1 : Run (restrict KeepsOwn (Step fun _ => none)) (new 4096 0)
      [.call (.connectRequest "a" "/")] _ :=
    .single ⟨by simp only [KeepsOwn]; decide +kernel, .call (by decide)⟩
  have h2 := Run.snoc (l := Op.peerIci 5) h1 ⟨trivial, .peerIci⟩
  have h3 := Run.snoc (l := Op.call (.connectRequest "b" "/")) h2
    ⟨by simp only [KeepsOwn]; decide +kernel, .call (by decide)⟩
  exact ⟨_, h3, by decide +kernel, sections_self_consistent _ (by decide) 0 h3⟩

/-- A table of 224 bytes is full after one request.  The second request finds the first
    three of its entries, then inserts its authority, which evicts the acknowledged
    `:method` entry it has already chosen: its own section is invalid. -/
theorem self_eviction_invalid :
    ∃ s, Run (Step fun _ => none) (new 224 0)
        [.call (.connectRequest "a" "/"), .peerIci 5, .call (.connectRequest "b" "/")] s ∧
      s.decoded = [(.connectRequest "a" "/", .ok (connectHeaders "a" "/")),
        (.connectRequest "b" "/", .error .invalid)] := by
  have h1 : Run (Step fun _ => none) (new 224 0) [.call (.connectRequest "a" "/")] _ :=
    .single (.call (by decide))
  have h2 := Run.snoc (l := Op.peerIci 5) h1 .peerIci
  have h3 := Run.snoc (l := Op.call (.connectRequest "b" "/")) h2 (.call (by decide))
  exact ⟨_, h3, by decide +kernel⟩

end Loopback

/-! ## Settings of two endpoints -/

/-- The receiving side of a HEADERS frame: frames beyond `MAX_H3_FRAME_SIZE` are refused,
    then the section is decoded. -/
def acceptHeaders (huffman : Bytes → Option Bytes) (d : QpackDecoder) (frame : Bytes) :
    Except QpackError (List HeaderField × Nat) :=
  match decodeFrameHeader frame with
  | .ready header total ftype =>
    if ftype = FrameType.headers then decodeFieldSection huffman (framePayload frame header total) d
    else .error .invalid
  | _ => .error .invalid

namespace InOrder

section

variable (huffman : Bytes → Option Bytes)

/-- The next section is taken off its stream: decoded and acknowledged; left to wait, where
    the settings permit blocked streams; or answered by closing the connection. -/
def takeSection (l : Link) (sec : SentSection) : Link :=
  match acceptHeaders huffman l.decoder sec.encoded.headersFrame with
  | .ok (_, ric) =>
    { l with
      sections := l.sections.tail
      decoderStream :=
        if ric = 0 then l.decoderStream
        else l.decoderStream ++ encodeSectionAcknowledgement sec.streamId }
  | .error .blocked => if l.decoder.maxBlockedStreams = 0 then { l with closed := true } else l
  | .error .invalid => { l with closed := true }

inductive Op
  | encode (streamId : Nat) (call : Call)
  | deliverEncoder (n : Nat)
  | deliverDecoder (n : Nat)
  | takeSection
  deriving DecidableEq, Repr

/-- The steps of a connection that reorders nothing: a section is taken when everything
    written before it has been delivered, and nothing written after it is delivered first. -/
inductive Step : Link → Op → Link → Prop
  | encode {l : Link} {streamId : Nat} {call : Call} (hopen : l.closed = false)
      (hfresh : streamId ∉ l.usedStreams) (hid : streamId < 2 ^ 62)
      (hlen : ∀ s ∈ call.strings, (strBytes s).length ≤ usizeMax) :
      Step l (.encode streamId call) (l.encode streamId call)
  | deliverEncoder {l : Link} {n : Nat} (hopen : l.closed = false)
      (hnext : ∀ sec ∈ l.sections.head?, l.delivered + n ≤ sec.streamEnd) :
      Step l (.deliverEncoder n) (l.deliverEncoder huffman n)
  | deliverDecoder {l : Link} {n : Nat} (hopen : l.closed = false) :
      Step l (.deliverDecoder n) (l.deliverDecoder n)
  | takeSection {l : Link} {sec : SentSection} (hopen : l.closed = false)
      (hnext : l.sections.head? = some sec) (harrived : sec.streamEnd ≤ l.delivered) :
      Step l .takeSection (takeSection huffman l sec)

end

/-- The section of a frame is within `MAX_H3_FRAME_SIZE`. -/
def FrameFits (encoded : EncodedHeaders) : Prop :=
  ∀ payload ∈ headersPayload encoded.headersFrame, payload.length ≤ maxH3FrameSize

instance (encoded : EncodedHeaders) : Decidable (FrameFits encoded) :=
  inferInstanceAs (Decidable (∀ payload ∈ _, _))

/-- What a step must respect besides: a call keeps the entries of its own section and emits
    no frame beyond the frame limit, and a delivery leaves no more than that to parse. -/
def Keeps (l : Link) : Op → Prop
  | .encode _ call =>
    Retains l.encoder call ∧ FrameFits (encodeOrLiteral l.encoder call.headers).1
  | .deliverEncoder n => l.encoderRx.length + n ≤ maxH3FrameSize
  | .deliverDecoder n => l.decoderRx.length + n ≤ maxH3FrameSize
  | .takeSection => True

/-- Settings under which the encoder's choices suit the decoder: the capacity is so small
    that no entry fits and only literals are sent, or it is one the receiver admits and
    both ends count in the same `MaxEntries`. -/
def Compatible (sender receiver : QpackLocalSettings) : Prop :=
  encoderCapacity sender < 39 ∨
    encoderCapacity sender < usizeMax ∧
    encoderCapacity sender ≤ receiver.maxTableCapacity ∧
    encoderCapacity sender / 32 = min receiver.maxTableCapacity usizeMax / 32

/-! ### Decoders that keep up -/

/-- The decoder's table `d` keeps up with the encoder's table `e`: it mirrors it, or nothing
    will ever be inserted. -/
def Tracks (d e : DynamicTable) : Prop :=
  Mirrors d e ∨ ∃ cap < 39, e = DynamicTable.new cap

theorem entrySize_headers (call : Call) :
    ∃ h hs, call.headers = h :: hs ∧ 39 ≤ DynamicTable.entrySize h.1 h.2 := by
  cases call with
  | connectRequest authority path => exact ⟨_, _, rfl, by decide⟩
  | statusResponse status =>
    refine ⟨_, _, rfl, ?_⟩
    have hname : (strBytes ":status").length = 7 := by decide
    simp only [entrySize, saturatingAdd, usizeMax]
    omega

/-- An encoder with less room than any entry takes sends literals. -/
theorem encodeOrLiteral_of_small {cap : Nat} (hsmall : cap < 39) (krc : Nat) (call : Call) :
    encodeOrLiteral ⟨.new cap, krc⟩ call.headers =
      (encodeLiteralHeaders call.headers, ⟨.new cap, krc⟩) := by
  obtain ⟨h, hs, hheaders, hsize⟩ := entrySize_headers call
  -- The capacity is announced, but the first insert does not fit.
  have hann : announceCapacity ⟨.new cap, krc⟩ =
      .ok (qpackInt 0x20 5 cap, ⟨{ capacity := cap, maxCapacity := cap }, krc⟩) := by
    simp [announceCapacity, QpackEncoder.setCapacityInstruction, new,
      setCapacityWithAckFloor, evictToFit, evictLoop,
      saturatingAdd]
  have hfirst : ensureDynamicEntry ⟨{ capacity := cap, maxCapacity := cap }, krc⟩ h =
      .error .invalid := by
    simp only [ensureDynamicEntry, QpackEncoder.findAbsolute, range'_zero, find?_nil,
      QpackEncoder.insertLiteralInstruction, insertWithAckFloor, bind, Except.bind]
    rw [if_pos (by omega)]
  have hplace : placeHeaders ⟨.new cap, krc⟩ (h :: hs) = .error .invalid := by
    simp only [placeHeaders, hann, bind, Except.bind, ensureDynamicEntries, hfirst]
  simp only [encodeOrLiteral, encodeHeadersWith, bind, Except.bind]
  split
  · next res hok => grind
  · rfl

/-- An encode call whatever the settings, for decoders that keep up with the encoder. -/
theorem encode_emits (huffman : Bytes → Option Bytes) {e e' : QpackEncoder}
    {call : Call} {encoded : EncodedHeaders} (hc : e.table.Consistent log)
    (hlen : ∀ s ∈ call.strings, (strBytes s).length ≤ usizeMax) (hretains : Retains e call)
    (hres : encodeOrLiteral e call.headers = (encoded, e')) :
    Emits huffman Tracks e e' call encoded := by
  by_cases hsmall : ∃ cap < 39, e.table = new cap
  · obtain ⟨cap, hcap, htable⟩ := hsmall
    have hlit := encodeOrLiteral_of_small hcap e.knownReceivedCount call
    rw [← htable, hres] at hlit
    obtain ⟨rfl, rfl⟩ := hlit
    exact ⟨[], log, rfl, hc, fun d ht =>
      ⟨trivial, ht, carries_literal huffman _ (Call.headers_fit hlen)⟩⟩
  · obtain ⟨instrs, log', hstream, hc', hemits⟩ :=
      encodeOrLiteral_emits huffman hc hlen hretains hres
    refine ⟨instrs, log', hstream, hc', fun d ht => ?_⟩
    obtain ⟨hadm, hm, hcarries⟩ := hemits d (ht.resolve_right hsmall)
    exact ⟨hadm, .inl hm, hcarries⟩

/-! ### The sections on their way -/

/-- The sections that were sent and not taken yet, for a decoder that has parsed the first
    `pos` bytes of the encoder stream: each comes behind the instructions of its own call,
    which take the decoder to a table that decodes it; behind the last one, the decoder has
    caught up with the encoder's table `e`. -/
def Chain (huffman : Bytes → Option Bytes) :
    Nat → QpackDecoder → List SentSection → List EncoderInstr → DynamicTable → Prop
  | _, d, [], pending, e => pending = [] ∧ Tracks d.table e
  | pos, d, sec :: secs, pending, e =>
    ∃ own rest, pending = own ++ rest ∧
      AdmitsAll admits apply d own ∧
      sec.streamEnd = pos + (encodeAll encode own).length ∧
      Carries huffman (own.foldl apply d).table sec.encoded sec.headers ∧
      FrameFits sec.encoded ∧
      Chain huffman sec.streamEnd (own.foldl apply d) secs rest e

namespace Chain

variable {huffman : Bytes → Option Bytes} {pos : Nat} {d : QpackDecoder}
variable {secs : List SentSection} {pending : List EncoderInstr} {e : DynamicTable}

theorem congr {d' : QpackDecoder} (h : Chain huffman pos d secs pending e)
    (htable : d'.table = d.table) : Chain huffman pos d' secs pending e := by
  induction secs generalizing pos d d' pending with
  | nil =>
    rw [Chain, htable]
    exact h
  | cons sec secs ih =>
    obtain ⟨own, rest, hpending, hadm, hend, hcarries, hfits, hchain⟩ := h
    obtain ⟨hadm', hfold⟩ := follow_congr htable hadm
    refine ⟨own, rest, hpending, hadm', hend, ?_, hfits, ih hchain hfold⟩
    rw [hfold]
    exact hcarries

theorem admits (h : Chain huffman pos d secs pending e) :
    AdmitsAll admits apply d pending := by
  induction secs generalizing pos d pending with
  | nil =>
    obtain ⟨rfl, -⟩ := h
    trivial
  | cons sec secs ih =>
    obtain ⟨own, rest, rfl, hadm, -, -, -, hchain⟩ := h
    exact admitsAll_append.mpr ⟨hadm, ih hchain⟩

variable {sec : SentSection}

/-- One more call behind the ones on their way. -/
theorem snoc {instrs : List EncoderInstr} {e' : DynamicTable}
    (h : Chain huffman pos d secs pending e) (hemits : ∀ d : QpackDecoder, Tracks d.table e →
      AdmitsAll EncoderInstr.admits EncoderInstr.apply d instrs ∧
      Tracks (instrs.foldl apply d).table e' ∧
      Carries huffman (instrs.foldl apply d).table sec.encoded sec.headers)
    (hend : sec.streamEnd = pos + (encodeAll encode (pending ++ instrs)).length)
    (hfits : FrameFits sec.encoded) :
    Chain huffman pos d (secs ++ [sec]) (pending ++ instrs) e' := by
  induction secs generalizing pos d pending with
  | nil =>
    obtain ⟨rfl, htracks⟩ := h
    obtain ⟨hadm, htracks', hcarries⟩ := hemits d htracks
    exact ⟨instrs, [], by simp, hadm, hend, hcarries, hfits, rfl, htracks'⟩
  | cons first secs ih =>
    obtain ⟨own, rest, rfl, hadm, hend', hcarries, hfits', hchain⟩ := h
    refine ⟨own, rest ++ instrs, by simp, hadm, hend', hcarries, hfits', ih hchain ?_⟩
    rw [hend]
    simp only [encodeAll_append, length_append]
    omega

/-- The decoder applies instructions of the call that comes first. -/
theorem advance (more rest : List EncoderInstr) (h : Chain huffman pos d secs (more ++ rest) e)
    (hend : ∀ sec ∈ secs.head?, pos + (encodeAll encode more).length ≤ sec.streamEnd) :
    Chain huffman (pos + (encodeAll encode more).length)
      (more.foldl apply d) secs rest e := by
  cases secs with
  | nil =>
    obtain ⟨hnil, htracks⟩ := h
    obtain ⟨rfl, rfl⟩ := append_eq_nil_iff.mp hnil
    exact ⟨rfl, htracks⟩
  | cons sec secs =>
    obtain ⟨own, later, hpending, hadm, hend', hcarries, hfits, hchain⟩ := h
    have hle := hend sec rfl
    -- What is applied belongs to the first call, since it ends in front of its end.
    obtain ⟨own', rfl, rfl⟩ : ∃ own', own = more ++ own' ∧ rest = own' ++ later := by
      rcases append_eq_append_iff.mp hpending with ⟨own', hown, hrest⟩ | ⟨extra, hmore, hlater⟩
      · exact ⟨own', hown, hrest⟩
      · have hextra := (reads_encoderInstr huffman).length_le_encodeAll extra
        rw [hmore, encodeAll_append, length_append] at hle
        have hnil : extra = [] := length_eq_zero_iff.mp (by omega)
        subst hnil
        exact ⟨[], by simpa using hmore.symm, by simpa using hlater.symm⟩
    obtain ⟨-, hadm'⟩ := admitsAll_append.mp hadm
    rw [encodeAll_append, length_append] at hend'
    rw [foldl_append] at hcarries hchain
    exact ⟨own', later, rfl, hadm', by omega, hcarries, hfits, hchain⟩

end Chain

/-- An intact frame of admissible size is accepted. -/
theorem acceptHeaders_of_carries {huffman : Bytes → Option Bytes} {d : QpackDecoder}
    {encoded : EncodedHeaders} {headers : List HeaderField}
    (h : Carries huffman d.table encoded headers) (hfits : FrameFits encoded) :
    acceptHeaders huffman d encoded.headersFrame = .ok (headers, encoded.ric) := by
  obtain ⟨payload, hpayload, hdecode⟩ := h
  have hlen := hfits payload hpayload
  simp only [headersPayload, Option.bind_eq_bind, Option.bind_eq_some_iff, Option.pure_def,
    Option.some.injEq] at hpayload
  obtain ⟨⟨ftype, flen, header⟩, hheader, u, hguard, rfl⟩ := hpayload
  obtain ⟨hftype, hfull⟩ : ftype = frameHeaders ∧ header + flen ≤ encoded.headersFrame.length := by
    by_contra hno
    simp [hno] at hguard
  have hflen : flen ≤ maxH3FrameSize := by
    simp only [framePayload, length_drop, length_take] at hlen
    omega
  have hframe : decodeFrameHeader encoded.headersFrame = .ready header (header + flen) ftype := by
    simp only [decodeFrameHeader, hheader]
    rw [if_neg (by omega), if_neg (by omega)]
  rw [acceptHeaders, hframe]
  simp only [hftype]
  exact hdecode d rfl

theorem applySectionAcks_table (e : QpackEncoder) (pendingRic : Map Nat Nat) (sids : List Nat) :
    (applySectionAcks e pendingRic sids).1.table = e.table :=
  applySectionAcks_keep
    (fun _ _ ric _ e' h => (noteSectionAck_table e' ric).trans h) rfl

/-- Feedback moves the Known Received Count; the table stays. -/
theorem applyDecoderFeedback_table (e : QpackEncoder) (pendingRic : Map Nat Nat)
    (feedback : DecoderFeedback) :
    (applyDecoderFeedback e pendingRic feedback).1.table = e.table := by
  rw [applyDecoderFeedback, applySectionAcks_table]
  split <;> rfl

/-! ### The account of the link -/

/-- The account of a link in order, with the instructions `pending` behind what the decoder
    has parsed and the feedback `sent` behind what the encoder has parsed. -/
structure Lane (huffman : Bytes → Option Bytes) (l : Link) (log : List DynEntry)
    (pending : List EncoderInstr) (sent : List DecoderInstr) : Prop where
  up : l.closed = false
  encoder : l.encoder.table.Consistent log
  chain : Chain huffman (l.delivered - l.encoderRx.length) l.decoder l.sections pending
    l.encoder.table
  stream : l.encoderRx ++ l.encoderStream.drop l.delivered = encodeAll encode pending
  rx_le : l.encoderRx.length ≤ l.delivered
  delivered_le : l.delivered ≤ l.encoderStream.length
  held : Held encode l.encoderRx pending
  feedback : Feedback l.decoderRx l.decoderStream sent
  ids : ∀ sec ∈ l.sections, sec.streamId < 2 ^ 62

namespace Lane

variable {huffman : Bytes → Option Bytes} {l : Link} {log : List DynEntry}
variable {pending : List EncoderInstr} {sent : List DecoderInstr}

section

variable (h : Lane huffman l log pending sent)

include h

theorem encode {streamId : Nat} {call : Call}
    (hid : streamId < 2 ^ 62) (hlen : ∀ s ∈ call.strings, (strBytes s).length ≤ usizeMax)
    (hkeeps : Keeps l (.encode streamId call)) :
    ∃ log' instrs, Lane huffman (l.encode streamId call) log' (pending ++ instrs) sent := by
  obtain ⟨hretains, hfits⟩ := hkeeps
  generalize hres : encodeOrLiteral l.encoder call.headers = res at hfits
  obtain ⟨encoded, e'⟩ := res
  obtain ⟨instrs, log', hstream, hc, hemits⟩ := encode_emits huffman h.encoder hlen hretains hres
  have hdrop : (l.encoderStream ++ encoded.encoderStream).drop l.delivered =
      l.encoderStream.drop l.delivered ++ encoded.encoderStream :=
    drop_append_of_le_length h.delivered_le
  -- The bytes parsed so far, and the ones of the pending instructions, make up the stream.
  have htotal : l.encoderStream.length = l.delivered - l.encoderRx.length +
      (encodeAll EncoderInstr.encode pending).length := by
    have hsum := congrArg length h.stream
    have hle := h.delivered_le
    have hrx := h.rx_le
    rw [length_append, length_drop] at hsum
    omega
  refine ⟨log', instrs, ?_⟩
  simp only [Link.encode, hres]
  refine ⟨h.up, hc, h.chain.snoc hemits ?_ hfits, ?_, h.rx_le, ?_, h.held.append _, h.feedback,
    ?_⟩
  · simp only [length_append, encodeAll_append, hstream]
    omega
  · simp only [hdrop]
    rw [← append_assoc, h.stream, hstream, encodeAll_append]
  · exact h.delivered_le.trans (by simp)
  · exact forall_mem_append.mpr ⟨h.ids, forall_mem_singleton.mpr hid⟩

theorem deliverEncoder {n : Nat} (hnext : ∀ sec ∈ l.sections.head?, l.delivered + n ≤ sec.streamEnd)
    (hkeeps : Keeps l (.deliverEncoder n)) :
    ∃ pending' sent', Lane huffman (l.deliverEncoder huffman n) log pending' sent' := by
  have hle := h.delivered_le
  have hrxle := h.rx_le
  obtain ⟨more, rest, p, rfl, hcut, hrest, hheld, hdrain⟩ :=
    (reads_encoderInstr huffman).drain_delivery h.chain.admits h.stream n
  have hrxlen := congrArg length hcut
  rw [length_append, length_append, length_take, length_drop] at hrxlen
  have hdrop : (l.encoderStream.drop l.delivered).drop n =
      l.encoderStream.drop (min (l.delivered + n) l.encoderStream.length) := by
    rw [drop_drop]
    rcases le_total (l.delivered + n) l.encoderStream.length with hcut | hcut
    · rw [min_eq_left hcut]
    · rw [min_eq_right hcut, drop_length, drop_eq_nil_of_le hcut]
  rw [hdrop] at hrest
  have hfeed : feedEncoderStream huffman l.decoder (encodeAll EncoderInstr.encode more ++ p) =
      (more.foldl apply l.decoder,
        .ok (encodeAll EncoderInstr.encode more).length) := by
    rw [feedEncoderStream, hdrain]
    simp only [length_append, Nat.add_sub_cancel]
  have hsmall : (encodeAll EncoderInstr.encode more ++ p).length ≤ maxH3FrameSize := by
    grind [Keeps]
  have hpos : min (l.delivered + n) l.encoderStream.length - p.length =
      l.delivered - l.encoderRx.length + (encodeAll EncoderInstr.encode more).length := by
    omega
  have hchain := Chain.advance more rest h.chain fun sec hsec => by
    have hend := hnext sec hsec
    omega
  obtain ⟨d, hd, hparse⟩ := parseEncoderStream_ok hsmall hfeed
  simp only [Link.deliverEncoder, Link.parseQpackEncoder, hcut, hparse, drop_left]
  -- New inserts are reported; their number is bounded by the bytes that were parsed.
  have hcount := (grows_feedEncoderStream hfeed).le
  obtain ⟨sent', hfeedback, -⟩ := h.feedback.report
    ((more.foldl apply l.decoder).table.insertCount - l.decoder.table.insertCount) <| by
      simp only [maxH3FrameSize] at hsmall
      omega
  refine ⟨rest, sent', h.up, h.encoder, ?_, hrest, ?_, min_le_right _ _, hheld, hfeedback, h.ids⟩
  · simp only [hpos]
    exact hchain.congr hd
  · simp only
    omega

theorem deliverDecoder {n : Nat} (hkeeps : Keeps l (.deliverDecoder n)) :
    ∃ sent', Lane huffman (l.deliverDecoder n) log pending sent' := by
  obtain ⟨first, rest, p, feedback, rfl, hcut, hfeedback, hfeed, -, -⟩ := h.feedback.parse n
  have hsmall : (encodeAll DecoderInstr.encode first ++ p).length ≤ maxH3FrameSize := by
    grind [Keeps]
  refine ⟨rest, ?_⟩
  simp only [Link.deliverDecoder, Link.parseQpackDecoder, hcut,
    parseDecoderStream_ok hsmall hfeed, drop_left]
  refine { h with encoder := ?_, chain := ?_, feedback := hfeedback }
  · rw [applyDecoderFeedback_table]
    exact h.encoder
  · rw [applyDecoderFeedback_table]
    exact h.chain

/-- A section whose turn has come is accepted and decodes to its headers. -/
theorem accepts
    (hnext : l.sections.head? = some sec) (harrived : sec.streamEnd ≤ l.delivered) :
    acceptHeaders huffman l.decoder sec.encoded.headersFrame = .ok (sec.headers, sec.encoded.ric) ∧
      Chain huffman (l.delivered - l.encoderRx.length) l.decoder l.sections.tail pending
        l.encoder.table := by
  obtain ⟨secs, hsecs⟩ := head?_eq_some_iff.mp hnext
  have hchain := h.chain
  rw [hsecs] at hchain ⊢
  obtain ⟨own, rest, hpending, hadm, hend, hcarries, hfits, hrest⟩ := hchain
  -- None of its instructions is left: what is buffered is less than a whole instruction.
  have hown : own = [] := by
    rcases h.held with hnil | ⟨i, later, hlater, hcut⟩
    · have hlen := (reads_encoderInstr huffman).length_le_encodeAll own
      rw [hnil, length_nil] at hend
      exact length_eq_zero_iff.mp (by omega)
    · cases own with
      | nil => rfl
      | cons j own =>
        rw [hpending, cons_append, cons.injEq] at hlater
        have hlt := hcut.length_lt
        rw [← hlater.1] at hlt
        rw [encodeAll_cons, length_append] at hend
        omega
  subst hown
  rw [encodeAll_nil, length_nil, add_zero] at hend
  rw [hpending, ← hend]
  exact ⟨acceptHeaders_of_carries hcarries hfits, hrest⟩

theorem takeSection
    (hnext : l.sections.head? = some sec) (harrived : sec.streamEnd ≤ l.delivered) :
    ∃ sent', Lane huffman (takeSection huffman l sec) log pending sent' := by
  obtain ⟨haccept, hchain⟩ := h.accepts hnext harrived
  simp only [InOrder.takeSection, haccept]
  have hids : ∀ sec' ∈ l.sections.tail, sec'.streamId < 2 ^ 62 := fun sec' hsec' =>
    h.ids sec' (mem_of_mem_tail hsec')
  split
  · exact ⟨sent, { h with chain := hchain, ids := hids }⟩
  · have hfits : sec.streamId < 2 ^ 64 :=
      (h.ids sec (mem_of_mem_head? hnext)).trans (by decide)
    exact ⟨_, { h with
      chain := hchain
      feedback := h.feedback.snoc (i := .sectionAcknowledgement sec.streamId) hfits
      ids := hids }⟩

theorem step {l' : Link} (hstep : restrict Keeps (Step huffman) l op l') :
    ∃ log' pending' sent', Lane huffman l' log' pending' sent' := by
  obtain ⟨hkeeps, hstep⟩ := hstep
  cases hstep with
  | encode _ _ hid hlen =>
    obtain ⟨log', instrs, hlane⟩ := h.encode hid hlen hkeeps
    exact ⟨_, _, _, hlane⟩
  | deliverEncoder _ hnext =>
    obtain ⟨pending', sent', hlane⟩ := h.deliverEncoder hnext hkeeps
    exact ⟨_, _, _, hlane⟩
  | deliverDecoder =>
    obtain ⟨sent', hlane⟩ := h.deliverDecoder hkeeps
    exact ⟨_, _, _, hlane⟩
  | takeSection _ hnext harrived =>
    obtain ⟨sent', hlane⟩ := h.takeSection hnext harrived
    exact ⟨_, _, _, hlane⟩

end

theorem between {sender receiver : QpackLocalSettings} (hcompat : Compatible sender receiver) :
    Lane huffman (Link.between sender receiver) [] [] [] := by
  have hlt : encoderCapacity sender < usizeMax := by
    rcases hcompat with hsmall | ⟨hlt, -⟩
    · exact hsmall.trans (by decide)
    · exact hlt
  have htracks : Tracks (QpackDecoder.new receiver).table
      (QpackEncoder.new (encoderCapacity sender)).table := by
    rcases hcompat with hsmall | ⟨-, hle, hent⟩
    · exact .inr ⟨_, hsmall, rfl⟩
    · exact .inl (Mirrors.new (by omega) hent)
  exact ⟨rfl, ⟨window_new _, sized_new _, hlt⟩, ⟨rfl, htracks⟩, rfl,
    le_rfl, le_rfl, .inl rfl, ⟨rfl, by simp⟩, by simp [Link.between]⟩

end Lane

/-- Between endpoints with compatible settings, when nothing is reordered and no step
    breaks `Keeps`: the connection stays up, so every encoder-stream instruction was
    accepted, and every section is accepted in its turn and decodes to the headers that
    were encoded. -/
theorem settings_compatible (huffman : Bytes → Option Bytes)
    {sender receiver : QpackLocalSettings} (hcompat : Compatible sender receiver)
    {ops : List Op} {l : Link}
    (hrun : Run (restrict Keeps (Step huffman)) (Link.between sender receiver) ops l) :
    l.closed = false ∧ ∀ sec, l.sections.head? = some sec → sec.streamEnd ≤ l.delivered →
      acceptHeaders huffman l.decoder sec.encoded.headersFrame =
        .ok (sec.headers, sec.encoded.ric) := by
  obtain ⟨log, pending, sent, h⟩ :=
    hrun.invariant (P := fun l => ∃ log pending sent, Lane huffman l log pending sent)
      (fun _ _ _ ⟨_, _, _, h⟩ hstep => h.step hstep) ⟨[], [], [], Lane.between hcompat⟩
  exact ⟨h.up, fun sec hnext harrived => (h.accepts hnext harrived).1⟩

/-- A sender with 64 bytes and a receiver that admits 95: both count two entries. -/
theorem settings_compatible_within_entry :
    ∃ l sec, Run (restrict Keeps (Step fun _ => none)) (Link.between ⟨64, 0⟩ ⟨95, 0⟩)
        [.encode 0 (.statusResponse "200"), .deliverEncoder 14] l ∧
      l.sections.head? = some sec ∧ sec.streamEnd ≤ l.delivered ∧
      acceptHeaders (fun _ => none) l.decoder sec.encoded.headersFrame =
        .ok (sec.headers, sec.encoded.ric) := by
  have h1 : Run (restrict Keeps (Step fun _ => none)) (Link.between ⟨64, 0⟩ ⟨95, 0⟩)
      [.encode 0 (.statusResponse "200")] _ :=
    .single ⟨by simp only [Keeps]; decide +kernel, .encode rfl (by decide) (by decide) (by decide)⟩
  have h2 := Run.snoc (l := Op.deliverEncoder 14) h1
    ⟨by simp only [Keeps]; decide +kernel, .deliverEncoder rfl (by decide +kernel)⟩
  refine ⟨_, _, h2, rfl, by decide +kernel, ?_⟩
  exact (settings_compatible _ (.inr (by decide)) h2).2 _ rfl (by decide +kernel)

def exec (huffman : Bytes → Option Bytes) (l : Link) : Op → Option Link
  | .encode streamId call => l.exec huffman (.encode streamId call)
  | .deliverEncoder n =>
    if ∀ sec ∈ l.sections.head?, l.delivered + n ≤ sec.streamEnd then
      l.exec huffman (.deliverEncoder n)
    else none
  | .deliverDecoder n => l.exec huffman (.deliverDecoder n)
  | .takeSection =>
    match l.sections.head? with
    | some sec =>
      if l.closed = false ∧ sec.streamEnd ≤ l.delivered then some (takeSection huffman l sec)
      else none
    | none => none

theorem step_of_exec {huffman : Bytes → Option Bytes} {l l' : Link}
    (h : exec huffman l op = some l') : Step huffman l op l' := by
  unfold exec at h
  cases op with
  | encode streamId call =>
    cases Link.step_of_exec h with
    | encode hopen hfresh hid hlen => exact .encode hopen hfresh hid hlen
  | deliverEncoder n =>
    obtain ⟨hnext, h⟩ := ite_none_right_eq_some.mp h
    cases Link.step_of_exec h with
    | deliverEncoder hopen => exact .deliverEncoder hopen hnext
  | deliverDecoder n =>
    cases Link.step_of_exec h with
    | deliverDecoder hopen => exact .deliverDecoder hopen
  | takeSection =>
    dsimp only at h
    split at h
    · next sec hnext =>
      obtain ⟨⟨hopen, harrived⟩, h⟩ := ite_none_right_eq_some.mp h
      cases h
      exact .takeSection hopen hnext harrived
    · cases h

/-- A sender with the default 4096 bytes announces them to a receiver without a dynamic
    table, which closes the connection over the first response. -/
theorem capacity_refused :
    ∃ l, Run (Step fun _ => none) (Link.between ⟨4096, 16⟩ ⟨0, 0⟩)
        [.encode 0 (.statusResponse "200"), .deliverEncoder 15] l ∧ l.closed = true := by
  exact Run.exists_of_execAll _ (fun _ _ _ => step_of_exec) (by decide +kernel)
    fun _ _ h => h

/-- A sender with 64 bytes sends its counts modulo 4, a receiver with 4096 reads them modulo
    256: the fourth response, with all before it delivered and acknowledged, is invalid. -/
theorem modulus_mismatch :
    ∃ l sec, Run (Step fun _ => none) (Link.between ⟨64, 16⟩ ⟨4096, 16⟩)
        [.encode 0 (.statusResponse "200"), .deliverEncoder 14, .takeSection, .deliverDecoder 2,
          .encode 4 (.statusResponse "404"), .deliverEncoder 12, .takeSection, .deliverDecoder 2,
          .encode 8 (.statusResponse "429"), .deliverEncoder 12, .takeSection, .deliverDecoder 2,
          .encode 12 (.statusResponse "503"), .deliverEncoder 12] l ∧
      l.sections.head? = some sec ∧ sec.streamEnd ≤ l.delivered ∧
      acceptHeaders (fun _ => none) l.decoder sec.encoded.headersFrame = .error .invalid := by
  simp only [exists_and_left]
  exact Run.exists_of_execAll _ (fun _ _ _ => step_of_exec) (by decide +kernel) fun _ _ h => h

end InOrder

end WebTransportBun.Wasm.Qpack
