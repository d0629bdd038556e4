/-
  WebTransportBun.Wasm.Qpack.KnownReceived

  The Known Received Count of an encoder against the inserts its peer has applied, over any
  run of a link (`Link.Step`): sections overtake the encoder stream, entries they refer to
  are evicted, the connection breaks.

  Increments are harmless: the decoder reports each insert once.  An acknowledgement raises
  the count to the section's Required Insert Count, so it has to come from a decoder that
  has those inserts.  The decoder sees the count modulo `2 * MaxEntries` only.  When both
  ends count in the same `MaxEntries` the residue decides, because the encoder is never
  more than `MaxEntries` ahead (`ric_le_of_decode`).  An encoder that takes `MaxEntries`
  from its own settings may be acknowledged too much (`acknowledged_ahead`).
-/

import WebTransportBun.Wasm.Qpack.InOrder
import WebTransportBun.Wasm.Qpack.InsertCount

namespace WebTransportBun.Wasm.Qpack

open Library List Option Nat Link DynamicTable

/-! ## Sections that decode -/

/-- The Required Insert Count the decoder takes a section for. -/
theorem decodeRequiredInsertCount_of_decode {huffman : Bytes → Option Bytes} {d : QpackDecoder}
    {encoded ric : Nat} {rest : Bytes} {headers : List HeaderField} (henc : encoded < 2 ^ 64)
    (hok : decodeFieldSection huffman (qpackInt 0x00 8 encoded ++ rest) d = .ok (headers, ric)) :
    decodeRequiredInsertCount encoded d.table.maxCapacity d.table.insertCount = .ok ric ∧
      ric ≤ d.table.insertCount := by
  have hint := qpackIntDecode_qpackInt 0x00 (n := 8) (by decide) rfl henc rest
  unfold decodeFieldSection at hok
  split at hok
  · cases hok
  rw [hint] at hok
  simp only at hok
  split at hok
  · cases hok
  next ric' hric =>
  split at hok
  · cases hok
  next hhave =>
  split at hok
  · cases hok
  · cases hok
    exact ⟨hric, Nat.le_of_not_lt hhave⟩

/-- A section that decodes at a decoder which counts in the encoder's `MaxEntries`, and is
    at most that much behind, was complete: all inserts it requires are there. -/
theorem ric_le_of_decode {huffman : Bytes → Option Bytes} {d : QpackDecoder}
    {ric ric' maxCapacity : Nat} {front lines : Bytes} {headers : List HeaderField}
    (hpos : 0 < ric) (hmax : maxCapacity < usizeMax)
    (hfront : encodeSectionPrefix ric ric maxCapacity = some front)
    (hsame : maxEntries d.table.maxCapacity = maxEntries maxCapacity)
    (hahead : ric ≤ d.table.insertCount + maxEntries maxCapacity)
    (hok : decodeFieldSection huffman (front ++ lines) d = .ok (headers, ric')) :
    ric ≤ d.table.insertCount := by
  obtain ⟨hcap, rfl⟩ := encodeSectionPrefix_eq hpos hfront
  rw [← maxEntries, ← hsame] at hcap
  rw [← maxEntries, ← hsame, append_assoc] at hok
  have hresidue := mod_lt ric (show 0 < 2 * maxEntries d.table.maxCapacity by omega)
  have henc : ric % (2 * maxEntries d.table.maxCapacity) + 1 < 2 ^ 64 := by
    grind [maxEntries, usizeMax]
  obtain ⟨hcount, hhave⟩ := decodeRequiredInsertCount_of_decode henc hok
  have hmod := residue_of_ok hcap (succ_pos _) hcount (by omega)
  obtain ⟨-, hwindow, -⟩ := inWindow_of_ok hcap (succ_pos _) hcount
  -- the two counts have the same residue and are less than a period apart
  by_contra hmissing
  have hdvd := sub_mod_eq_zero_of_mod_eq
    (show ric % (2 * maxEntries d.table.maxCapacity) =
      ric' % (2 * maxEntries d.table.maxCapacity) by omega)
  rw [mod_eq_of_lt (by omega)] at hdvd
  omega

/-! ## The ledger -/

/-- What is known of a section that is not decoded yet; `received` is the sum of the
    increments the encoder has received. -/
structure SectionLedger (used : List Nat) (pendingRic : Map Nat Nat) (maxCapacity received : Nat)
    (sec : SentSection) : Prop
    extends Awaits used pendingRic sec.streamId sec.encoded.ric where
  body : ∃ payload, headersPayload sec.encoded.headersFrame = some payload ∧
    ((payload = literalSection sec.headers ∧ ∀ h ∈ sec.headers, HeaderFits h) ∨
      0 < sec.encoded.ric ∧ sec.encoded.ric ≤ received + maxEntries maxCapacity ∧
        ∃ front lines, payload = front ++ lines ∧
          encodeSectionPrefix sec.encoded.ric sec.encoded.ric maxCapacity = some front)

/-- The account of a link whose ends count in the same `MaxEntries`.  The increments
    received and those on their way are the inserts of the decoder. -/
structure Ledger (l : Link) (received : Nat) (sent : List DecoderInstr) : Prop where
  encoder : ∃ log, l.encoder.table.Consistent log
  entries : maxEntries l.decoder.table.maxCapacity = maxEntries l.encoder.table.maxCapacity
  feedback : Feedback l.decoderRx l.decoderStream sent
  known : l.encoder.knownReceivedCount ≤ received
  floor : l.encoder.table.evicted ≤ received
  tally : Tally l.usedStreams l.pendingSectionRic received l.decoder.table.insertCount sent
  sections : ∀ sec ∈ l.sections, SectionLedger l.usedStreams l.pendingSectionRic
    l.encoder.table.maxCapacity received sec

section

variable {huffman : Bytes → Option Bytes} {l l' : Link} {received : Nat} {sent : List DecoderInstr}

theorem Ledger.sound (h : Ledger l received sent) :
    l.encoder.knownReceivedCount ≤ l.decoder.table.insertCount := by
  have hknown := h.known
  have htotal := h.tally.total
  omega

theorem Ledger.encode {streamId : Nat} {call : Call} (h : Ledger l received sent)
    (hid : streamId < 2 ^ 62) (hfresh : streamId ∉ l.usedStreams)
    (hlen : ∀ s ∈ call.strings, (strBytes s).length ≤ usizeMax) :
    Ledger (l.encode streamId call) received sent := by
  have hfits := Call.headers_fit hlen
  obtain ⟨log, hlog⟩ := h.encoder
  generalize hres : encodeOrLiteral l.encoder call.headers = res
  obtain ⟨encoded, e'⟩ := res
  have hold : ∀ sec ∈ l.sections, SectionLedger (streamId :: l.usedStreams)
      (trackSectionRic l.pendingSectionRic streamId encoded.ric) l.encoder.table.maxCapacity
      received sec := fun sec hsec =>
    ⟨(h.sections sec hsec).toAwaits.mono (fun _ => mem_cons_of_mem _)
      (get?_trackSectionRic hfresh), (h.sections sec hsec).body⟩
  have htally := h.tally.track encoded.ric hfresh
  have hawaits := h.tally.awaits encoded.ric hfresh hid
  simp only [Link.encode, hres]
  rcases encodeOrLiteral_cases hlog hfits hres with ⟨rfl, rfl⟩ |
    ⟨indexes, bytes, instrs, log', front, lines, hplace, rfl, hext, hplaced, hfront, hlines⟩
  · -- literals: the encoder is as it was
    exact { h with
      tally := htally
      sections := forall_mem_append.mpr ⟨hold, forall_mem_singleton.mpr
        ⟨hawaits, _, Call.payload_literal hfits, .inl ⟨rfl, hfits⟩⟩⟩ }
  · obtain ⟨-, hpos, hpayload⟩ := Call.payload_indexed hext hplaced hfront hlines
    have hfloor : e'.table.evicted ≤ received := by
      have hnew := hext.floor
      have hold := h.floor
      have hknown := h.known
      omega
    -- the table holds at most `MaxEntries`, and what it lost was received
    have hahead : e'.table.insertCount ≤ received + maxEntries e'.table.maxCapacity := by
      have hheld := hext.consistent.sized.length_le
      simp only [evicted] at hfloor
      simp only [maxEntries]
      omega
    rw [← hext.maxCapacity] at hold
    exact { h with
      encoder := ⟨log', hext.consistent⟩
      entries := hext.maxCapacity ▸ h.entries
      known := hext.krc ▸ h.known
      floor := hfloor
      tally := htally
      sections := forall_mem_append.mpr ⟨hold, forall_mem_singleton.mpr
        ⟨hawaits, _, hpayload, .inr ⟨hpos, hahead, front, lines, rfl, hfront⟩⟩⟩ }

/-- A link that the step closed is judged by its counts alone. -/
def Sound (l : Link) : Prop :=
  l.encoder.knownReceivedCount ≤ l.decoder.table.insertCount ∧
    (l.closed = false → ∃ received sent, Ledger l received sent)

theorem Ledger.isSound (h : Ledger l received sent) : Sound l :=
  ⟨h.sound, fun _ => ⟨received, sent, h⟩⟩

theorem Ledger.deliverEncoder {n : Nat} (h : Ledger l received sent) :
    Sound (l.deliverEncoder huffman n) := by
  generalize hrx : l.encoderRx ++ (l.encoderStream.drop l.delivered).take n = rx
  simp only [Link.deliverEncoder, Link.parseQpackEncoder, hrx]
  by_cases hsmall : rx.length ≤ maxH3FrameSize
  swap
  · rw [parseEncoderStream, if_pos (by omega)]
    exact ⟨h.sound, by simp⟩
  rcases hfeed : feedEncoderStream huffman l.decoder rx with ⟨d, stop | k⟩
  · -- the decoder keeps what it applied before the error
    have hsound := h.sound.trans (grows_feedEncoderStream hfeed).ge
    rw [parseEncoderStream, if_neg (by omega), hfeed]
    cases stop <;> exact ⟨hsound, by simp⟩
  have hgrows := grows_feedEncoderStream hfeed
  have hge := hgrows.ge
  have hle := hgrows.le
  obtain ⟨sent', hfeedback, htally⟩ := h.feedback.report
    (d.table.insertCount - l.decoder.table.insertCount) (by grind [maxH3FrameSize])
  have htally := htally h.tally
  rw [Nat.add_sub_cancel' hge] at htally
  obtain ⟨d', hd, hparse⟩ := parseEncoderStream_ok hsmall hfeed
  rw [← hd] at htally
  simp only [hparse]
  refine Ledger.isSound (show Ledger _ received sent' from { h with
    entries := ?_
    feedback := hfeedback
    tally := htally })
  rw [hd, hgrows.maxCapacity]
  exact h.entries

theorem applySectionAcks_le (e : QpackEncoder) (pendingRic : Map Nat Nat) (sids : List Nat)
    {bound : Nat} (hknown : e.knownReceivedCount ≤ bound)
    (h : ∀ sid ∈ sids, ∀ ric, pendingRic.get? sid = some ric → ric ≤ bound) :
    (applySectionAcks e pendingRic sids).1.knownReceivedCount ≤ bound := by
  refine applySectionAcks_keep (P := (·.knownReceivedCount ≤ bound)) ?_ hknown
  intro sid hsid ric hget e hknown
  rw [QpackEncoder.noteSectionAck]
  split
  · exact (min_le_left _ _).trans (h sid hsid ric hget)
  · exact hknown

theorem Ledger.deliverDecoder {n : Nat} (h : Ledger l received sent) :
    Sound (l.deliverDecoder n) := by
  obtain ⟨first, rest, p, feedback, rfl, hcut, hfeedback, hfeed, hici, hsids⟩ :=
    h.feedback.parse n
  simp only [deliverDecoder, parseQpackDecoder, hcut]
  by_cases hsmall : (encodeAll DecoderInstr.encode first ++ p).length ≤ maxH3FrameSize
  swap
  · rw [parseDecoderStream, if_pos (by omega)]
    exact ⟨h.sound, by simp⟩
  obtain ⟨hacks, -⟩ := acksCovered_append.mp h.tally.acks
  simp only [parseDecoderStream_ok hsmall hfeed, applyDecoderFeedback, drop_left]
  -- the increments are counted as received, then the acknowledgements are covered by them
  generalize hinc : (if 0 < feedback.ici then l.encoder.notePeerIci feedback.ici
    else l.encoder) = e
  have hknown : e.knownReceivedCount ≤ received + iciSum first := by
    have hold := h.known
    rw [← hinc]
    split
    · simp only [QpackEncoder.notePeerIci]
      omega
    · omega
  have htable : (applySectionAcks e l.pendingSectionRic feedback.sectionAcks).1.table =
      l.encoder.table := by
    rw [InOrder.applySectionAcks_table, ← hinc]
    split <;> rfl
  have hle := applySectionAcks_le e l.pendingSectionRic feedback.sectionAcks hknown
    fun sid hsid _ hr => hacks.ric_le (hsids sid hsid) hr
  have hsections : ∀ sec ∈ l.sections, SectionLedger l.usedStreams
      (applySectionAcks e l.pendingSectionRic feedback.sectionAcks).2 l.encoder.table.maxCapacity
      (received + iciSum first) sec := by
    intro sec hsec
    obtain ⟨payload, hpayload, hbody⟩ := (h.sections sec hsec).body
    refine ⟨(h.sections sec hsec).toAwaits.mono (fun _ => id)
      fun _ _ _ => applySectionAcks_pending, payload, hpayload, ?_⟩
    rcases hbody with hlit | ⟨hpos, hle, hfront⟩
    · exact .inl hlit
    · exact .inr ⟨hpos, by omega, hfront⟩
  refine Ledger.isSound (show Ledger _ (received + iciSum first) rest from { h with
    encoder := ?_, entries := ?_
    feedback := hfeedback
    known := hle
    floor := ?_
    tally := h.tally.parse fun _ _ => applySectionAcks_pending
    sections := ?_ }) <;> rw [htable]
  · exact h.encoder
  · exact h.entries
  · exact le_add_right_of_le h.floor
  · exact hsections

theorem Ledger.decode {sec : SentSection} (h : Ledger l received sent) (hsec : sec ∈ l.sections) :
    Sound (l.decode huffman sec) := by
  have hbook := h.sections sec hsec
  have htotal := h.tally.total
  obtain ⟨log, hlog⟩ := h.encoder
  have hrest := fun sec' hsec' => h.sections sec' (mem_of_mem_erase (b := sec) hsec')
  obtain ⟨payload, hpayload, hbody⟩ := hbook.body
  simp only [Link.decode, Link.tryDecode, hpayload]
  split
  · next headers ric hok =>
    split
    · exact Ledger.isSound (show Ledger _ received sent from { h with sections := hrest })
    next hnonzero =>
    -- an acknowledged section has its inserts
    have hhave : sec.encoded.ric ≤ l.decoder.table.insertCount := by
      rcases hbody with ⟨rfl, hfits⟩ | ⟨hpos, hahead, front, lines, rfl, hfront⟩
      · rw [decodeFieldSection_literal huffman fun g hg => ?_] at hok
        · cases hok
          exact absurd rfl hnonzero
        · obtain ⟨hname, hvalue⟩ := hfits g hg
          exact ⟨by omega, hvalue⟩
      · exact ric_le_of_decode hpos hlog.maxCapacity_lt hfront h.entries (by omega) hok
    have hfits : sec.streamId < 2 ^ 64 := hbook.id_lt.trans (by decide)
    exact Ledger.isSound (show Ledger _ received _ from { h with
      feedback := h.feedback.snoc (i := .sectionAcknowledgement sec.streamId) hfits
      tally := h.tally.acknowledge hbook.used fun ric' hr => hbook.pendingRic ric' hr ▸ hhave
      sections := hrest })
  · exact h.isSound
  · exact ⟨h.sound, by simp⟩

/-! ## Runs -/

theorem sound_step {op : Link.Op} (h : Sound l) (hstep : Link.Step huffman l op l') : Sound l' := by
  cases hstep with
  | encode hopen hfresh hid hlen =>
    obtain ⟨received, sent, hledger⟩ := h.2 hopen
    exact (hledger.encode hid hfresh hlen).isSound
  | deliverEncoder hopen =>
    obtain ⟨received, sent, hledger⟩ := h.2 hopen
    exact hledger.deliverEncoder
  | deliverDecoder hopen =>
    obtain ⟨received, sent, hledger⟩ := h.2 hopen
    exact hledger.deliverDecoder
  | decode hopen hsec =>
    obtain ⟨received, sent, hledger⟩ := h.2 hopen
    exact hledger.decode hsec

/-- Settings under which both ends count in the same `MaxEntries`. -/
def SameEntries (sender receiver : QpackLocalSettings) : Prop :=
  encoderCapacity sender < usizeMax ∧
    maxEntries (encoderCapacity sender) = maxEntries (min receiver.maxTableCapacity usizeMax)

instance (sender receiver : QpackLocalSettings) : Decidable (SameEntries sender receiver) :=
  inferInstanceAs (Decidable (_ ∧ _))

theorem ledger_between {sender receiver : QpackLocalSettings} (h : SameEntries sender receiver) :
    Ledger (Link.between sender receiver) 0 [] :=
  ⟨⟨[], window_new _, sized_new _, h.1⟩, h.2.symm, ⟨rfl, by simp⟩, le_rfl, le_rfl,
    ⟨rfl, trivial, by simp [between]⟩, by simp [between]⟩

end

/-- Between endpoints that count in the same `MaxEntries`, in every run, the Known Received
    Count of the encoder stays within the inserts the peer's decoder has applied. -/
theorem known_received_count_sound (huffman : Bytes → Option Bytes)
    {sender receiver : QpackLocalSettings} (hsame : SameEntries sender receiver)
    {ops : List Link.Op} {l : Link}
    (hrun : Run (Link.Step huffman) (Link.between sender receiver) ops l) :
    l.encoder.knownReceivedCount ≤ l.decoder.table.insertCount := by
  have hsound := hrun.invariant (fun _ _ _ h hstep => sound_step h hstep)
    (ledger_between hsame).isSound
  exact hsound.1

/-- Default settings on one side, a little more room on the other. -/
theorem known_received_count_sound_default :
    ∃ l, Run (Link.Step fun _ => none) (Link.between ⟨4096, 16⟩ ⟨4100, 16⟩)
        [.encode 0 (.statusResponse "200"), .deliverEncoder 20, .deliverDecoder 1] l ∧
      l.encoder.knownReceivedCount = 1 ∧
      l.encoder.knownReceivedCount ≤ l.decoder.table.insertCount := by
  refine Run.exists_of_execAll (·.encoder.knownReceivedCount = 1) (fun _ _ _ => step_of_exec)
    (by decide +kernel) fun l hrun hknown => ⟨hknown, ?_⟩
  exact known_received_count_sound _ (by decide) hrun

/-- Two rounds of responses in flight at a time: the sender counts modulo 4, the receiver
    modulo 6.  The eighth response arrives when six inserts have; its residue reads as the
    sixth insert, so it decodes and is acknowledged as if all eight were there. -/
theorem acknowledged_ahead :
    ∃ ops l, Run (Link.Step fun _ => none) (Link.between ⟨84, 16⟩ ⟨96, 16⟩) ops l ∧
      l.encoder.knownReceivedCount = 8 ∧ l.decoder.table.insertCount = 6 := by
  have hexec : ((execAll (exec fun _ => none) (between ⟨84, 16⟩ ⟨96, 16⟩)
      [.encode 0 (.statusResponse "200"), .encode 4 (.statusResponse "404"),
        .deliverEncoder 26, .deliverDecoder 1,
        .encode 8 (.statusResponse "429"), .encode 12 (.statusResponse "200"),
        .deliverEncoder 24, .deliverDecoder 1,
        .encode 16 (.statusResponse "404"), .encode 20 (.statusResponse "429"),
        .deliverEncoder 24, .deliverDecoder 1,
        .encode 24 (.statusResponse "200"), .encode 28 (.statusResponse "404")]).bind
      fun l => l.sections.getLast?.bind fun sec =>
        execAll (exec fun _ => none) l [.decode sec, .deliverDecoder 1]).map
      (fun l => (l.encoder.knownReceivedCount, l.decoder.table.insertCount)) = some (8, 6) := by
    decide +kernel
  obtain ⟨l, hl, hcounts⟩ := map_eq_some_iff.mp hexec
  obtain ⟨mid, hmid, hl⟩ := bind_eq_some_iff.mp hl
  obtain ⟨sec, -, hl⟩ := bind_eq_some_iff.mp hl
  have hrun := (Run.of_execAll (fun _ _ _ => step_of_exec) hmid).append
    (Run.of_execAll (fun _ _ _ => step_of_exec) hl)
  exact ⟨_, l, hrun, congrArg Prod.fst hcounts, congrArg Prod.snd hcounts⟩

end WebTransportBun.Wasm.Qpack
