/-
  WebTransportBun.Wasm.Qpack.Reorder

  QPACK under reordering.  The code protects a table entry from eviction only until its
  insert is acknowledged; a section that refers to the entry may still be on its way.  The
  file shows what that breaks (`evicted_reference_invalid`), and that a link on which it
  does not happen delivers every section intact, whatever the order in which the encoder
  stream, the section streams and the decoder stream arrive (`sections_decode`).

  The proof keeps one account of the link (`Books`): the encoder stream is a list of
  instructions, of which the decoder has applied a first part `done` and follows with the
  rest to the encoder's table; the Known Received Count is the decoder's insert count less
  the increments still on their way.
-/

import WebTransportBun.Wasm.Qpack.Encode
import WebTransportBun.Wasm.Qpack.Link

namespace WebTransportBun.Wasm.Qpack

open Library List Library.Map EncoderInstr DynamicTable Link Call Nat

/-! ## A decoder that follows -/

variable {d : QpackDecoder} {log : List DynEntry}

theorem apply_consistent {i : EncoderInstr}
    (hc : d.table.Consistent log) (hadm : admits d i) :
    (apply d i).table.Consistent (log ++ logOf [i]) ∧
      d.table.evicted ≤ (apply d i).table.evicted ∧
      (apply d i).table.maxCapacity = d.table.maxCapacity := by
  obtain ⟨-, hok⟩ := hadm
  cases i with
  | setCapacity capacity =>
    generalize hres : onTable d.table (.setCapacity capacity) = res at hok
    obtain ⟨r, t⟩ := res
    subst hok
    simp only [apply, hres]
    obtain ⟨hle, hevict⟩ := setCapacityWithAckFloor_ok hres
    have hlt := hc.maxCapacity_lt
    have hev := evictToFit_evicts { d.table with capacity } 0 none
    rw [hevict] at hev
    have hwin : DynamicTable.Window { d.table with capacity } log :=
      ⟨hc.window.insertCount, hc.window.suffix⟩
    obtain ⟨hsize, hroom⟩ := evictToFit_size (t := { d.table with capacity })
      hc.sized.size (by simp only; omega) (by decide) hevict
    have hmax : t.maxCapacity = d.table.maxCapacity := hev.maxCapacity
    have hcap : t.capacity = capacity := hev.capacity
    refine ⟨⟨?_, ⟨hsize, hroom, by omega⟩, by omega⟩, hev.evicted_le, hmax⟩
    have hlog : log ++ logOf [.setCapacity capacity] = log := append_nil log
    rw [hlog]
    exact hwin.evict hev
  | insert name value =>
    generalize hres : onTable d.table (.insert name value) = res at hok
    obtain ⟨r, t⟩ := res
    subst hok
    simp only [apply, hres]
    have hspec := insertWithAckFloor_ok hres
    have hmax : t.maxCapacity = d.table.maxCapacity := hspec.maxCapacity
    refine ⟨⟨hc.window.insert hspec, hc.sized.insert hc.maxCapacity_lt hres, ?_⟩,
      hspec.evicted_le, hmax⟩
    rw [hmax]
    exact hc.maxCapacity_lt

theorem foldl_apply_consistent {is : List EncoderInstr} (hc : d.table.Consistent log)
    (hadm : AdmitsAll admits apply d is) :
    (is.foldl apply d).table.Consistent (log ++ logOf is) ∧
      d.table.evicted ≤ (is.foldl apply d).table.evicted ∧
      (is.foldl apply d).table.maxCapacity = d.table.maxCapacity := by
  induction is generalizing d log with
  | nil =>
    refine ⟨?_, le_rfl, rfl⟩
    simpa [logOf] using hc
  | cons i is ih =>
    obtain ⟨hone, hev, hmax⟩ := apply_consistent hc hadm.1
    obtain ⟨hrest, hev', hmax'⟩ := ih hone hadm.2
    refine ⟨?_, hev.trans hev', hmax'.trans hmax⟩
    rw [append_assoc, logOf, logOf, ← filterMap_append] at hrest
    exact hrest

/-! ## The books of a link -/

/-- The increments among feedback instructions. -/
def DecoderInstr.increment : DecoderInstr → Nat
  | .insertCountIncrement delta => delta
  | .sectionAcknowledgement _ => 0

def iciSum (sent : List DecoderInstr) : Nat := (sent.map DecoderInstr.increment).sum

@[simp] theorem iciSum_append (a b : List DecoderInstr) :
    iciSum (a ++ b) = iciSum a + iciSum b := by
  simp [iciSum]

/-- Every acknowledgement in the feedback comes behind increments that cover the Required
    Insert Count it stands for; `krc` is the Known Received Count in front. -/
def AcksCovered (used : List Nat) (pendingRic : Map Nat Nat) : Nat → List DecoderInstr → Prop
  | _, [] => True
  | krc, .insertCountIncrement delta :: rest => AcksCovered used pendingRic (krc + delta) rest
  | krc, .sectionAcknowledgement sid :: rest =>
    (sid ∈ used ∧ ∀ ric, pendingRic.get? sid = some ric → ric ≤ krc) ∧
      AcksCovered used pendingRic krc rest

variable {used : List Nat} {pendingRic : Map Nat Nat} {krc : Nat}

theorem acksCovered_append {a b : List DecoderInstr} : AcksCovered used pendingRic krc (a ++ b) ↔
      AcksCovered used pendingRic krc a ∧ AcksCovered used pendingRic (krc + iciSum a) b := by
  induction a generalizing krc with
  | nil => simp [AcksCovered, iciSum]
  | cons i a ih =>
    cases i with
    | insertCountIncrement delta =>
      simp only [cons_append, AcksCovered, ih, iciSum, map_cons, sum_cons,
        DecoderInstr.increment, add_assoc]
    | sectionAcknowledgement sid =>
      simp only [cons_append, AcksCovered, ih, iciSum, map_cons, sum_cons,
        DecoderInstr.increment, zero_add, and_assoc]

theorem AcksCovered.mono {used' : List Nat} {pendingRic' : Map Nat Nat} {a : List DecoderInstr}
    (h : AcksCovered used pendingRic krc a)
    (hused : ∀ sid ∈ used, sid ∈ used')
    (hric : ∀ sid ∈ used, ∀ ric, pendingRic'.get? sid = some ric →
      pendingRic.get? sid = some ric) : AcksCovered used' pendingRic' krc a := by
  induction a generalizing krc with
  | nil => trivial
  | cons i a ih =>
    cases i with
    | insertCountIncrement delta => exact ih h
    | sectionAcknowledgement sid =>
      obtain ⟨⟨hmem, hle⟩, hrest⟩ := h
      exact ⟨⟨hused sid hmem, fun ric hr => hle ric (hric sid hmem ric hr)⟩, ih hrest⟩

/-- Feedback on its way to the encoder, which has buffered `rx` of it. -/
structure Feedback (rx stream : Bytes) (sent : List DecoderInstr) : Prop where
  bytes : rx ++ stream = encodeAll DecoderInstr.encode sent
  fits : ∀ i ∈ sent, i.Fits

/-- The increments `received` and those in `sent` are the inserts of the decoder, and they
    come in front of the acknowledgements that need them. -/
structure Tally (used : List Nat) (pendingRic : Map Nat Nat) (received inserts : Nat)
    (sent : List DecoderInstr) : Prop where
  total : received + iciSum sent = inserts
  acks : AcksCovered used pendingRic received sent
  ricUsed : ∀ sid ric, pendingRic.get? sid = some ric → sid ∈ used

variable {rx stream : Bytes} {received inserts : Nat} {sent : List DecoderInstr} {i : DecoderInstr}

theorem Feedback.snoc (h : Feedback rx stream sent) (hi : i.Fits) :
    Feedback rx (stream ++ i.encode) (sent ++ [i]) := by
  refine ⟨?_, forall_mem_append.mpr ⟨h.fits, forall_mem_singleton.mpr hi⟩⟩
  rw [← append_assoc, h.bytes, encodeAll_append, encodeAll_cons, encodeAll_nil, append_nil]

/-- The decoder reports its new inserts, and says nothing where there are none. -/
theorem Feedback.report (h : Feedback rx stream sent) (delta : Nat) (hfits : delta < 2 ^ 64) :
    ∃ sent', Feedback rx
        (if 0 < delta then stream ++ encodeInsertCountIncrement delta else stream) sent' ∧
      ∀ {used pendingRic received inserts}, Tally used pendingRic received inserts sent →
        Tally used pendingRic received (inserts + delta) sent' := by
  split
  · refine ⟨_, h.snoc (i := .insertCountIncrement delta) hfits, fun ht =>
      ⟨?_, acksCovered_append.mpr ⟨ht.acks, trivial⟩, ht.ricUsed⟩⟩
    rw [iciSum_append, ← add_assoc, ht.total]
    rfl
  · next hzero =>
    obtain rfl : delta = 0 := by omega
    exact ⟨sent, h, id⟩

theorem Tally.acknowledge (h : Tally used pendingRic received inserts sent) {sid : Nat}
    (hused : sid ∈ used)
    (hhave : ∀ ric, pendingRic.get? sid = some ric → ric ≤ inserts) :
    Tally used pendingRic received inserts (sent ++ [.sectionAcknowledgement sid]) := by
  refine ⟨?_, acksCovered_append.mpr ⟨h.acks, ⟨hused, ?_⟩, trivial⟩, h.ricUsed⟩
  · rw [iciSum_append, ← h.total]
    rfl
  · rw [h.total]
    exact hhave

/-- The feedback `first` has been parsed, and nothing else was added to what waits. -/
theorem Tally.parse {first rest : List DecoderInstr} {pendingRic' : Map Nat Nat}
    (h : Tally used pendingRic received inserts (first ++ rest))
    (hsub : ∀ sid ric, pendingRic'.get? sid = some ric → pendingRic.get? sid = some ric) :
    Tally used pendingRic' (received + iciSum first) inserts rest := by
  obtain ⟨-, hrest⟩ := acksCovered_append.mp h.acks
  refine ⟨?_, hrest.mono (fun _ => id) fun sid _ => hsub sid,
    fun sid ric hr => h.ricUsed sid ric (hsub sid ric hr)⟩
  rw [add_assoc, ← iciSum_append, h.total]

/-- A section with Required Insert Count `ric` on a stream that waits for no other one. -/
structure Awaits (used : List Nat) (pendingRic : Map Nat Nat) (streamId ric : Nat) : Prop where
  used : streamId ∈ used
  id_lt : streamId < 2 ^ 62
  pendingRic : ∀ r, pendingRic.get? streamId = some r → r = ric

variable {streamId ric : Nat}

theorem Awaits.mono {used' : List Nat} {pendingRic' : Map Nat Nat}
    (h : Awaits used pendingRic streamId ric) (hused : ∀ sid ∈ used, sid ∈ used')
    (hric : ∀ sid ∈ used, ∀ r, pendingRic'.get? sid = some r →
      pendingRic.get? sid = some r) : Awaits used' pendingRic' streamId ric :=
  ⟨hused _ h.used, h.id_lt, fun r hr => h.pendingRic r (hric _ h.used r hr)⟩

theorem get?_trackSectionRic (hfresh : streamId ∉ used) :
    ∀ sid ∈ used, ∀ r, (trackSectionRic pendingRic streamId ric).get? sid = some r →
      pendingRic.get? sid = some r := by
  grind [trackSectionRic, get?_insert]

theorem Tally.track (h : Tally used pendingRic received inserts sent) (ric : Nat)
    (hfresh : streamId ∉ used) :
    Tally (streamId :: used) (trackSectionRic pendingRic streamId ric) received inserts sent := by
  refine ⟨h.total, h.acks.mono (fun _ => mem_cons_of_mem _) (get?_trackSectionRic hfresh), ?_⟩
  have hused := h.ricUsed
  grind [trackSectionRic, get?_insert]

theorem Tally.awaits (h : Tally used pendingRic received inserts sent) (ric : Nat)
    (hfresh : streamId ∉ used) (hid : streamId < 2 ^ 62) :
    Awaits (streamId :: used) (trackSectionRic pendingRic streamId ric) streamId ric := by
  refine ⟨mem_cons_self, hid, ?_⟩
  have hused := h.ricUsed
  grind [trackSectionRic, get?_insert]

/-- A section over the dynamic table: made when the encoder stream held the instructions
    `before`, and every entry it names is still in the encoder's table. -/
structure DynamicSection (table : DynamicTable) (instrs before : List EncoderInstr)
    (sec : SentSection) (payload : Bytes) : Prop where
  isBefore : before <+: instrs
  streamEnd : sec.streamEnd = (encodeAll encode before).length
  ric : sec.encoded.ric = (logOf before).length
  ric_pos : 0 < sec.encoded.ric
  placed : Placed (logOf before) sec.indexes sec.headers
  indexes_ne_nil : sec.indexes ≠ []
  live : ∀ abs ∈ sec.indexes, table.evicted < abs
  payload : ∃ front lines, payload = front ++ lines ∧
    encodeSectionPrefix sec.encoded.ric sec.encoded.ric table.maxCapacity = some front ∧
    encodeIndexedLines sec.encoded.ric sec.indexes = some lines

/-- What the books say about a section that is not decoded yet. -/
structure SectionBooks (used : List Nat) (pendingRic : Map Nat Nat) (table : DynamicTable)
    (instrs : List EncoderInstr) (sec : SentSection) : Prop
    extends Awaits used pendingRic sec.streamId sec.encoded.ric where
  body : ∃ payload, headersPayload sec.encoded.headersFrame = some payload ∧
    ((sec.encoded.ric = 0 ∧ payload = literalSection sec.headers ∧
        ∀ h ∈ sec.headers, HeaderFits h) ∨
      ∃ before, DynamicSection table instrs before sec payload)

structure Books (l : Link) (done pending : List EncoderInstr) (sent : List DecoderInstr) :
    Prop where
  up : l.closed = false
  encoder : l.encoder.table.Consistent (logOf (done ++ pending))
  decoder : l.decoder.table.Consistent (logOf done)
  capacity : l.decoder.table.maxCapacity = l.encoder.table.maxCapacity
  stream : l.encoderStream = encodeAll encode (done ++ pending)
  delivered : l.delivered = (encodeAll encode done).length + l.encoderRx.length
  encoderRx : Held encode l.encoderRx pending
  admits : AdmitsAll admits apply l.decoder pending
  follow : (pending.foldl apply l.decoder).table = l.encoder.table
  feedback : Feedback l.decoderRx l.decoderStream sent
  floor : l.encoder.table.evicted ≤ l.encoder.knownReceivedCount
  tally : Tally l.usedStreams l.pendingSectionRic l.encoder.knownReceivedCount
    l.decoder.table.insertCount sent
  bound : l.encoder.table.insertCount < 2 ^ 63
  sections : ∀ sec ∈ l.sections,
    SectionBooks l.usedStreams l.pendingSectionRic l.encoder.table (done ++ pending) sec

/-! ## Frames and lengths -/

variable {payload : Bytes}

theorem headersPayload_frameWrap (hlen : payload.length < 2 ^ 62) :
    headersPayload (frameWrap frameHeaders payload) = some payload := by
  have hheader := @frameHeader_frameWrap frameHeaders _ (by decide) hlen []
  rw [append_nil] at hheader
  have hfront : (Varint.encode frameHeaders ++ Varint.encode payload.length).length =
      Varint.width frameHeaders + Varint.width payload.length := by
    rw [length_append, Varint.length_encode (by decide), Varint.length_encode hlen]
  have hdrop : (frameWrap frameHeaders payload).drop
      (Varint.width frameHeaders + Varint.width payload.length) = payload := by
    rw [frameWrap, ← hfront, drop_left]
  have htotal : Varint.width frameHeaders + Varint.width payload.length + payload.length ≤
      (frameWrap frameHeaders payload).length := by
    rw [frameWrap, length_append, hfront]
  simp [headersPayload, hheader, framePayload, drop_take, hdrop, htotal]

theorem length_qpackLiteral {h : HeaderField} (hfits : HeaderFits h) :
    (qpackLiteral h).length ≤ 2 * usizeMax + 22 := by
  obtain ⟨hname, hvalue⟩ := hfits
  have h1 := length_qpackInt 0x20 3 (strBytes h.1).length
  have h2 := length_qpackInt 0x00 7 (strBytes h.2).length
  simp only [qpackLiteral, qpackString, length_append]
  omega

theorem length_literalSection {headers : List HeaderField} (hfits : ∀ h ∈ headers, HeaderFits h) :
    (literalSection headers).length ≤ headers.length * (2 * usizeMax + 22) + 2 := by
  have hlines : (headers.map qpackLiteral).flatten.length ≤
      headers.length * (2 * usizeMax + 22) := by
    induction headers with
    | nil => simp
    | cons h hs ih =>
      have hh := length_qpackLiteral (hfits h mem_cons_self)
      have hrest := ih fun g hg => hfits g (mem_cons_of_mem _ hg)
      rw [map_cons, flatten_cons, length_append, length_cons, succ_mul]
      omega
  simp only [literalSection, length_cons]
  omega

variable {indexes : List Nat} {lines : Bytes}

theorem length_encodeIndexedLines {base : Nat}
    (h : encodeIndexedLines base indexes = some lines) : lines.length ≤ indexes.length * 11 := by
  induction indexes generalizing lines with
  | nil =>
    cases h
    simp
  | cons abs rest ih =>
    simp only [encodeIndexedLines, QpackEncoder.encodeDynamicIndexed, Option.bind_eq_bind,
      Option.bind_eq_some_iff, Option.pure_def, Option.some.injEq] at h
    obtain ⟨line, hline, more, hmore, rfl⟩ := h
    split at hline
    · cases hline
    · grind [length_qpackInt]

variable {front : Bytes}

theorem length_indexedSection {maxCapacity : Nat}
    {headers : List HeaderField} (hlen : indexes.length = headers.length)
    (hfive : headers.length ≤ 5) (hpos : 0 < ric)
    (hfront : encodeSectionPrefix ric ric maxCapacity = some front)
    (hlines : encodeIndexedLines ric indexes = some lines) : (front ++ lines).length < 2 ^ 62 := by
  obtain ⟨-, rfl⟩ := encodeSectionPrefix_eq hpos hfront
  have h1 := length_encodeIndexedLines hlines
  have h2 := length_qpackInt 0x00 8 (ric % (2 * (maxCapacity / 32)) + 1)
  have h3 := length_qpackInt 0x00 7 0
  simp only [length_append]
  omega

variable {call : Call}

/-- The headers of a call fit the decoder's arithmetic. -/
theorem Call.headers_fit (hlen : ∀ s ∈ call.strings, (strBytes s).length ≤ usizeMax) :
    ∀ h ∈ call.headers, HeaderFits h := by
  cases call with
  | connectRequest authority path =>
    simp only [strings, mem_cons, not_mem_nil, or_false, forall_eq_or_imp,
      forall_eq] at hlen
    intro h hh
    simp only [headers, connectHeaders, mem_cons, not_mem_nil, or_false] at hh
    rcases hh with rfl | rfl | rfl | rfl | rfl
    · exact ⟨by decide, by decide⟩
    · exact ⟨by decide, by decide⟩
    · exact ⟨by decide, by decide⟩
    · exact ⟨by simp only; decide, hlen.1⟩
    · exact ⟨by simp only; decide, hlen.2⟩
  | statusResponse status =>
    intro h hh
    simp only [headers, mem_singleton] at hh
    subst hh
    exact ⟨by simp only; decide, hlen status (mem_singleton.mpr rfl)⟩

theorem Call.length_headers (call : Call) : 0 < call.headers.length ∧ call.headers.length ≤ 5 := by
  cases call <;> simp [headers, connectHeaders]

theorem Call.payload_literal (hfits : ∀ h ∈ call.headers, HeaderFits h) :
    headersPayload (encodeLiteralHeaders call.headers).headersFrame =
      some (literalSection call.headers) := by
  apply headersPayload_frameWrap
  have hlen := length_literalSection hfits
  have hfive := call.length_headers.2
  simp only [usizeMax] at hlen
  omega

variable {instrs : List EncoderInstr}

/-- A call that used the table names an entry, and its frame carries the section. -/
theorem Call.payload_indexed {e e' : QpackEncoder} {log' : List DynEntry}
    (hext : Extends e log instrs e' log') (hplaced : Placed log' indexes call.headers)
    (hfront : encodeSectionPrefix e'.table.insertCount e'.table.insertCount
      e'.table.maxCapacity = some front)
    (hlines : encodeIndexedLines e'.table.insertCount indexes = some lines) :
    indexes ≠ [] ∧ 0 < e'.table.insertCount ∧
      headersPayload (frameWrap frameHeaders (front ++ lines)) = some (front ++ lines) := by
  have hlen : indexes.length = call.headers.length := hplaced.length_eq
  have hne : indexes ≠ [] := by
    rw [← length_pos_iff, hlen]
    exact call.length_headers.1
  have hpos : 0 < e'.table.insertCount := by
    obtain ⟨abs, rest, rfl⟩ := exists_cons_of_ne_nil hne
    have hle := hplaced.le_length abs mem_cons_self
    rw [hext.consistent.window.insertCount]
    omega
  exact ⟨hne, hpos,
    headersPayload_frameWrap (length_indexedSection hlen call.length_headers.2 hpos hfront hlines)⟩

/-! ## Sections survive the other steps -/

variable {sec : SentSection}

theorem DynamicSection.mono {table table' : DynamicTable} {instrs' before : List EncoderInstr}
    (h : DynamicSection table instrs before sec payload)
    (hcap : table'.maxCapacity = table.maxCapacity) (hinstrs : instrs <+: instrs')
    (hlive : ∀ abs ∈ sec.indexes, table'.evicted < abs) :
    DynamicSection table' instrs' before sec payload :=
  { h with
    isBefore := h.isBefore.trans hinstrs
    live := hlive
    payload := hcap ▸ h.payload }

/-! ## The condition on steps -/

/-- What a step must respect for the link to stay intact.

    - An encode call evicts no entry that a section still refers to, its own section
      included (and the insert count stays far below `2 ^ 64`).
    - A delivery leaves at most `MAX_H3_FRAME_SIZE` bytes to parse.
    - A section whose inserts have not arrived is not tried while the decoder's window of
      residues has already moved past its Required Insert Count. -/
def Keeps (l : Link) : Link.Op → Prop
  | .encode streamId call => (∀ sec ∈ (l.encode streamId call).sections, ∀ abs ∈ sec.indexes,
      (l.encode streamId call).encoder.table.evicted < abs) ∧
    (l.encode streamId call).encoder.table.insertCount < 2 ^ 63
  | .deliverEncoder n => l.encoderRx.length + n ≤ maxH3FrameSize
  | .deliverDecoder n => l.decoderRx.length + n ≤ maxH3FrameSize
  | .decode sec =>
    let maxEntries := l.decoder.table.maxCapacity / 32
    sec.encoded.ric ≤ l.decoder.table.insertCount ∨
      sec.encoded.ric / (2 * maxEntries) =
        (l.decoder.table.insertCount + maxEntries) / (2 * maxEntries)

variable {l : Link} {done pending : List EncoderInstr}

/-! ## Encode calls -/

/-- The link after an encode call that fell back to literals. -/
theorem Books.encode_literal (h : Books l done pending sent)
    (hid : streamId < 2 ^ 62) (hfresh : streamId ∉ l.usedStreams)
    (hfits : ∀ h ∈ call.headers, HeaderFits h)
    (hlit : encodeOrLiteral l.encoder call.headers =
      (encodeLiteralHeaders call.headers, l.encoder)) :
    Books (l.encode streamId call) done pending sent := by
  simp only [Link.encode, hlit]
  refine { h with stream := ?_, tally := h.tally.track 0 hfresh, sections := ?_ }
  · simpa [encodeLiteralHeaders] using h.stream
  · refine forall_mem_append.mpr ⟨fun sec hold => ?_, forall_mem_singleton.mpr ?_⟩
    · have hsec := h.sections sec hold
      exact ⟨hsec.toAwaits.mono (fun _ => mem_cons_of_mem _) (get?_trackSectionRic hfresh),
        hsec.body⟩
    · exact ⟨h.tally.awaits 0 hfresh hid, _, payload_literal hfits, .inl ⟨rfl, rfl, hfits⟩⟩

/-- The link after an encode call that used the table. -/
theorem Books.encode_dynamic {e' : QpackEncoder} {bytes : Bytes}
    {log' : List DynEntry} (h : Books l done pending sent) (hid : streamId < 2 ^ 62)
    (hfresh : streamId ∉ l.usedStreams)
    (hplace : placeHeaders l.encoder call.headers = .ok (indexes, e', bytes))
    (hres : encodeOrLiteral l.encoder call.headers =
      ({ headersFrame := frameWrap frameHeaders (front ++ lines)
         encoderStream := encodeAll encode instrs
         ric := e'.table.insertCount }, e'))
    (hext : Extends l.encoder (logOf (done ++ pending)) instrs e' log')
    (hplaced : Placed log' indexes call.headers)
    (hfront : encodeSectionPrefix e'.table.insertCount e'.table.insertCount
      e'.table.maxCapacity = some front)
    (hlines : encodeIndexedLines e'.table.insertCount indexes = some lines)
    (hkeeps : Keeps l (.encode streamId call)) :
    Books (l.encode streamId call) done (pending ++ instrs) sent := by
  obtain ⟨hne, hpos, hpayload⟩ := payload_indexed hext hplaced hfront hlines
  obtain ⟨hkeep, hbound⟩ := hkeeps
  simp only [Link.encode, hres, hplace] at hkeep hbound ⊢
  obtain ⟨hadm, hfold⟩ := hext.follow (pending.foldl apply l.decoder) h.follow
  have hlog : log' = logOf (done ++ (pending ++ instrs)) := by
    rw [hext.log_eq, ← append_assoc, logOf, logOf, logOf, ← filterMap_append]
  have hstream : l.encoderStream ++ encodeAll encode instrs =
      encodeAll encode (done ++ (pending ++ instrs)) := by
    rw [h.stream, ← encodeAll_append, append_assoc]
  refine { h with
    encoder := hlog ▸ hext.consistent
    capacity := h.capacity.trans hext.maxCapacity.symm
    stream := hstream
    encoderRx := h.encoderRx.append _
    admits := admitsAll_append.mpr ⟨h.admits, hadm⟩
    follow := ?_, floor := ?_
    tally := hext.krc ▸ h.tally.track e'.table.insertCount hfresh
    bound := hbound
    sections := ?_ }
  · rw [foldl_append, hfold]
  · have hfl := hext.floor
    have hfl₀ := h.floor
    show e'.table.evicted ≤ e'.knownReceivedCount
    rw [hext.krc]
    omega
  · rw [forall_mem_append, forall_mem_singleton] at hkeep ⊢
    refine ⟨fun sec hold => ?_, h.tally.awaits _ hfresh hid, _, hpayload,
      .inr ⟨done ++ (pending ++ instrs), ?_⟩⟩
    · have hsec := h.sections sec hold
      obtain ⟨payload, hpayload, hbody⟩ := hsec.body
      refine ⟨hsec.toAwaits.mono (fun _ => mem_cons_of_mem _) (get?_trackSectionRic hfresh),
        payload, hpayload, ?_⟩
      rcases hbody with hlit | ⟨before, hdyn⟩
      · exact .inl hlit
      · refine .inr ⟨before, hdyn.mono hext.maxCapacity ?_ (hkeep.1 sec hold)⟩
        rw [← append_assoc]
        exact prefix_append _ _
    · refine ⟨prefix_rfl, congrArg List.length hstream, ?_, hpos, hlog ▸ hplaced, hne, hkeep.2,
        front, lines, rfl, hfront, hlines⟩
      simp only
      rw [hext.consistent.window.insertCount, hlog]

/-- The books of a link after an encode call. -/
theorem Books.encode (h : Books l done pending sent)
    (hid : streamId < 2 ^ 62) (hfresh : streamId ∉ l.usedStreams)
    (hlen : ∀ s ∈ call.strings, (strBytes s).length ≤ usizeMax)
    (hkeeps : Keeps l (.encode streamId call)) :
    ∃ instrs, Books (l.encode streamId call) done (pending ++ instrs) sent := by
  have hfits := headers_fit hlen
  generalize hres : encodeOrLiteral l.encoder call.headers = res
  obtain ⟨encoded, e'⟩ := res
  rcases encodeOrLiteral_cases h.encoder hfits hres with ⟨rfl, rfl⟩ |
    ⟨indexes, bytes, instrs, log', front, lines, hplace, rfl, hext, hplaced, hfront, hlines⟩
  · refine ⟨[], ?_⟩
    rw [append_nil]
    exact h.encode_literal hid hfresh hfits hres
  · exact ⟨instrs, h.encode_dynamic hid hfresh hplace hres hext hplaced hfront hlines hkeeps⟩

/-! ## Deliveries -/

theorem follow_congr {is : List EncoderInstr} {d' : QpackDecoder} (h : d'.table = d.table)
    (hadm : AdmitsAll admits apply d is) :
    AdmitsAll admits apply d' is ∧
      (is.foldl apply d').table = (is.foldl apply d).table := by
  induction is generalizing d d' with
  | nil => exact ⟨trivial, h⟩
  | cons i is ih =>
    have hone : (apply d' i).table = (apply d i).table := by
      simp only [apply, h]
    have hadm' : admits d' i := by
      simp only [admits, h]
      exact hadm.1
    obtain ⟨hrest, hfold⟩ := ih hone hadm.2
    exact ⟨⟨hadm', hrest⟩, hfold⟩

theorem Books.unparsed (h : Books l done pending sent) :
    l.encoderRx ++ l.encoderStream.drop l.delivered = encodeAll EncoderInstr.encode pending := by
  obtain ⟨rest, hrest⟩ := h.encoderRx.isBeginning
  rw [h.stream, h.delivered, encodeAll_append, ← drop_drop, drop_left, ← hrest,
    drop_left]

theorem Books.insertCount_le (h : Books l done pending sent) :
    l.decoder.table.insertCount ≤ l.encoder.table.insertCount := by
  rw [h.decoder.window.insertCount, h.encoder.window.insertCount, logOf, logOf,
    filterMap_append, length_append]
  exact le_add_right _ _

/-- The books after the decoder has applied the instructions `more` and reported the inserts among
    them by `fresh`. -/
theorem Books.advance {more rest : List EncoderInstr} {p decoderStream : Bytes}
    {sent' : List DecoderInstr} (h : Books l done (more ++ rest) sent)
    (hd : d.table = (more.foldl apply l.decoder).table)
    (hheld : Held EncoderInstr.encode p rest)
    (hfeedback : Feedback l.decoderRx decoderStream sent')
    (htally : Tally l.usedStreams l.pendingSectionRic l.encoder.knownReceivedCount
      d.table.insertCount sent') :
    Books { l with
      decoder := d
      encoderRx := p
      delivered := (encodeAll EncoderInstr.encode (done ++ more)).length + p.length
      decoderStream } (done ++ more) rest sent' := by
  obtain ⟨hadm, hadm'⟩ := admitsAll_append.mp h.admits
  obtain ⟨hcons, -, hmax⟩ := foldl_apply_consistent h.decoder hadm
  obtain ⟨hrest, hfold⟩ := follow_congr hd hadm'
  have hfollow := h.follow
  rw [foldl_append] at hfollow
  have hall : done ++ more ++ rest = done ++ (more ++ rest) := append_assoc ..
  refine { h with
    encoder := hall ▸ h.encoder
    decoder := ?_, capacity := ?_
    stream := hall ▸ h.stream
    delivered := rfl
    encoderRx := hheld
    admits := hrest
    follow := hfold.trans hfollow
    feedback := hfeedback
    tally := htally
    sections := hall ▸ h.sections }
  · rw [hd, logOf, filterMap_append]
    exact hcons
  · rw [hd, hmax]
    exact h.capacity

/-- The books of a link after a delivery of encoder-stream bytes. -/
theorem Books.deliverEncoder (huffman : Bytes → Option Bytes) {n : Nat}
    (h : Books l done pending sent) (hkeeps : Keeps l (.deliverEncoder n)) : ∃ more rest sent',
      Books (l.deliverEncoder huffman n) (done ++ more) rest sent' := by
  obtain ⟨more, rest, p, rfl, hcut, -, hheld, hdrain⟩ :=
    (reads_encoderInstr huffman).drain_delivery h.admits h.unparsed n
  have hrxlen := congrArg List.length hcut
  rw [length_append, length_append, length_take, length_drop] at hrxlen
  have hfeed : feedEncoderStream huffman l.decoder (encodeAll EncoderInstr.encode more ++ p) =
      (more.foldl apply l.decoder,
        .ok (encodeAll EncoderInstr.encode more).length) := by
    rw [feedEncoderStream, hdrain]
    simp only [length_append, Nat.add_sub_cancel]
  have hdelivered : min (l.delivered + n) l.encoderStream.length =
      (encodeAll EncoderInstr.encode (done ++ more)).length + p.length := by
    have hd := h.delivered
    have hs : l.delivered ≤ l.encoderStream.length := by
      rw [h.stream, encodeAll_append, length_append]
      have := h.encoderRx.isBeginning.length_le
      omega
    rw [encodeAll_append, length_append]
    omega
  have hsmall : (encodeAll EncoderInstr.encode more ++ p).length ≤ maxH3FrameSize := by
    grind [Keeps]
  obtain ⟨hadm, -⟩ := admitsAll_append.mp h.admits
  obtain ⟨hcons, -, -⟩ := foldl_apply_consistent h.decoder hadm
  have hcount := hcons.window.insertCount
  rw [length_append, ← h.decoder.window.insertCount] at hcount
  have hfits : (logOf more).length < 2 ^ 64 := by
    have hE := h.encoder.window.insertCount
    have hbound := h.bound
    rw [logOf, filterMap_append, filterMap_append, length_append, length_append] at hE
    simp only [logOf]
    omega
  obtain ⟨sent', hfeedback, htally⟩ := h.feedback.report _ hfits
  have htally := htally h.tally
  rw [← hcount] at htally
  obtain ⟨d, hd, hparse⟩ := parseEncoderStream_ok hsmall hfeed
  refine ⟨more, rest, sent', ?_⟩
  simp only [deliverEncoder, parseQpackEncoder, hcut, hdelivered, hparse, hcount, drop_left,
    Nat.add_sub_cancel_left]
  exact h.advance hd hheld hfeedback (hd ▸ htally)

/-- What parsed feedback adds up to. -/
theorem foldl_decoderInstr (is : List DecoderInstr) (s : DecoderFeedback) :
    (is.foldl DecoderInstr.apply s).ici = s.ici + iciSum is ∧
      ∀ sid ∈ (is.foldl DecoderInstr.apply s).sectionAcks,
        sid ∈ s.sectionAcks ∨ .sectionAcknowledgement sid ∈ is := by
  induction is generalizing s with
  | nil => simp [iciSum]
  | cons i is ih =>
    obtain ⟨hici, hacks⟩ := ih (DecoderInstr.apply s i)
    rw [foldl_cons]
    refine ⟨?_, fun sid hsid => ?_⟩
    · rw [hici]
      cases i <;> (simp only [DecoderInstr.apply, iciSum, map_cons, sum_cons,
        DecoderInstr.increment]; omega)
    · rcases hacks sid hsid with hold | hnew
      · cases i with
        | insertCountIncrement delta => exact .inl hold
        | sectionAcknowledgement sid' => grind [DecoderInstr.apply]
      · exact .inr (mem_cons_of_mem _ hnew)

theorem AcksCovered.ric_le
    {is : List DecoderInstr} (h : AcksCovered used pendingRic krc is) {sid : Nat}
    (hsid : .sectionAcknowledgement sid ∈ is) (hric : pendingRic.get? sid = some ric) :
    ric ≤ krc + iciSum is := by
  induction is generalizing krc with
  | nil => exact absurd hsid (not_mem_nil)
  | cons i is ih =>
    cases i with
    | insertCountIncrement delta =>
      have hrest := ih h (by simpa using hsid)
      simp only [iciSum, map_cons, sum_cons, DecoderInstr.increment] at hrest ⊢
      omega
    | sectionAcknowledgement sid' =>
      obtain ⟨⟨-, hle⟩, hcov⟩ := h
      simp only [iciSum, map_cons, sum_cons, DecoderInstr.increment, zero_add]
      rcases mem_cons.mp hsid with heq | hmem
      · grind
      · exact ih hcov hmem

theorem applySectionAcks_pending {e : QpackEncoder} {sids : List Nat}
    {sid : Nat} (h : (applySectionAcks e pendingRic sids).2.get? sid = some ric) :
    pendingRic.get? sid = some ric := by
  induction sids generalizing e pendingRic with
  | nil => exact h
  | cons first sids ih =>
    rw [applySectionAcks] at h
    split at h
    · exact ih h
    · exact get?_of_erase (ih h)

theorem applySectionAcks_covered (e : QpackEncoder) (pendingRic : Map Nat Nat) (sids : List Nat)
    (h : ∀ sid ∈ sids, ∀ ric, pendingRic.get? sid = some ric → ric ≤ e.knownReceivedCount) :
    (applySectionAcks e pendingRic sids).1 = e := by
  refine applySectionAcks_keep (P := (· = e)) ?_ rfl
  rintro sid hsid ric hget _ rfl
  rw [QpackEncoder.noteSectionAck, if_neg (not_lt.mpr (h sid hsid ric hget))]

/-- A delivery of well-formed feedback is read: whole instructions are taken, and a cut-off
    beginning of the next one stays. -/
theorem Feedback.parse (h : Feedback rx stream sent) (n : Nat) :
    ∃ first rest p feedback, sent = first ++ rest ∧
      rx ++ stream.take n = encodeAll DecoderInstr.encode first ++ p ∧
      Feedback p (stream.drop n) rest ∧
      feedDecoderStream (encodeAll DecoderInstr.encode first ++ p) =
        .ok ((encodeAll DecoderInstr.encode first).length, feedback) ∧ feedback.ici = iciSum first ∧
      ∀ sid ∈ feedback.sectionAcks, .sectionAcknowledgement sid ∈ first := by
  have hadm : ∀ (is : List DecoderInstr) (s : DecoderFeedback), (∀ i ∈ is, i.Fits) →
      AdmitsAll (fun _ i => i.Fits) DecoderInstr.apply s is := by
    intro is
    induction is with
    | nil => exact fun _ _ => trivial
    | cons i is ih =>
      intro s hs
      exact ⟨hs i mem_cons_self, ih _ fun j hj => hs j (mem_cons_of_mem _ hj)⟩
  obtain ⟨first, rest, p, rfl, hcut, hrest, -, hdrain⟩ :=
    reads_decoderInstr.drain_delivery (hadm sent {} h.fits) h.bytes n
  obtain ⟨hici, hsids⟩ := foldl_decoderInstr first {}
  refine ⟨first, rest, p, _, rfl, hcut, ⟨hrest, (forall_mem_append.mp h.fits).2⟩, ?_,
    hici.trans (zero_add _), fun sid hsid => ?_⟩
  · rw [feedDecoderStream, hdrain]
    simp only [length_append, Nat.add_sub_cancel]
  · exact (hsids sid hsid).resolve_left not_mem_nil

/-- The books of a link after a delivery of decoder-stream bytes. -/
theorem Books.deliverDecoder {n : Nat} (h : Books l done pending sent)
    (hkeeps : Keeps l (.deliverDecoder n)) :
    ∃ rest, Books (l.deliverDecoder n) done pending rest := by
  obtain ⟨first, rest, p, feedback, rfl, hcut, hfeedback, hfeed, hici, hsids⟩ :=
    h.feedback.parse n
  have hsmall : (encodeAll DecoderInstr.encode first ++ p).length ≤ maxH3FrameSize := by
    grind [Keeps]
  have htotal := h.tally.total
  rw [iciSum_append] at htotal
  have hle := h.insertCount_le
  -- The increments never exceed what the encoder has inserted, so the cap does not bite.
  have henc : (if 0 < feedback.ici then l.encoder.notePeerIci feedback.ici else l.encoder) =
      { l.encoder with knownReceivedCount := l.encoder.knownReceivedCount + iciSum first } := by
    split
    · simp only [QpackEncoder.notePeerIci, hici]
      rw [min_eq_left (by omega)]
    · have hzero : iciSum first = 0 := by omega
      rw [hzero, add_zero]
  obtain ⟨hacks, -⟩ := acksCovered_append.mp h.tally.acks
  have hsame := applySectionAcks_covered
    { l.encoder with knownReceivedCount := l.encoder.knownReceivedCount + iciSum first }
    l.pendingSectionRic feedback.sectionAcks fun sid hsid _ hr => hacks.ric_le (hsids sid hsid) hr
  refine ⟨rest, ?_⟩
  simp only [deliverDecoder, parseQpackDecoder, hcut, parseDecoderStream_ok hsmall hfeed,
    applyDecoderFeedback, henc, drop_left, hsame]
  exact { h with
    feedback := hfeedback
    floor := le_add_right_of_le h.floor
    tally := h.tally.parse fun _ _ => applySectionAcks_pending
    sections := fun sec hsec => ⟨(h.sections sec hsec).toAwaits.mono (fun _ => id)
      fun _ _ _ => applySectionAcks_pending, (h.sections sec hsec).body⟩ }

/-! ## Decoding -/

variable {before : List EncoderInstr}

section

variable (h : Books l done pending sent)

include h

section

variable (hdyn : DynamicSection l.encoder.table (done ++ pending) before sec payload)

include hdyn

/-- A section over the table is in range of the decoder. -/
theorem Books.inRange (hkeeps : Keeps l (.decode sec)) :
    InRange l.decoder.table sec.encoded.ric := by
  have helen := h.encoder.sized.length_le
  have hcap := h.capacity
  have hmax := h.encoder.maxCapacity_lt
  obtain ⟨-, hev, -⟩ := foldl_apply_consistent h.decoder h.admits
  have hfloor := h.floor
  have htotal := h.tally.total
  have hle := h.insertCount_le
  have hbound := h.bound
  have hric : sec.encoded.ric ≤ l.encoder.table.insertCount := by
    rw [hdyn.ric, h.encoder.window.insertCount]
    exact (List.IsPrefix.filterMap _ hdyn.isBefore).length_le
  -- Any entry the section names bounds the count from below.
  obtain ⟨abs, habs, hlive, hlt⟩ : ∃ abs ∈ sec.indexes, l.encoder.table.evicted < abs ∧
      abs ≤ sec.encoded.ric := by
    obtain ⟨abs, rest, hcons⟩ := exists_cons_of_ne_nil hdyn.indexes_ne_nil
    have hmem : abs ∈ sec.indexes := by
      rw [hcons]
      exact mem_cons_self ..
    refine ⟨abs, hmem, hdyn.live abs hmem, ?_⟩
    rw [hdyn.ric]
    exact (hdyn.placed.le_length abs hmem).2
  simp only [evicted] at hev hlive hfloor
  simp only [usizeMax] at hmax
  refine ⟨?_, ?_, hkeeps, ?_⟩
  · omega
  · omega
  · omega

/-- The entries a section names are what the decoder has under their indexes. -/
theorem Books.getAbsolute (hhave : sec.encoded.ric ≤ l.decoder.table.insertCount) :
    List.Forall₂ (fun abs (h : HeaderField) => l.decoder.table.getAbsolute abs = some ⟨h.1, h.2⟩)
      sec.indexes sec.headers := by
  obtain ⟨-, hev, -⟩ := foldl_apply_consistent h.decoder h.admits
  rw [h.follow] at hev
  have hdone : logOf done <+: logOf (done ++ pending) :=
    List.IsPrefix.filterMap _ (prefix_append _ _)
  have hbefore : logOf before <+: logOf (done ++ pending) :=
    List.IsPrefix.filterMap _ hdyn.isBefore
  have hshort : (logOf before).length ≤ (logOf done).length := by
    rw [← hdyn.ric, ← h.decoder.window.insertCount]
    exact hhave
  -- Both logs are beginnings of one log, so the shorter one is a beginning of the other.
  have hpre : logOf before <+: logOf done :=
    prefix_of_prefix_length_le hbefore hdone hshort
  refine List.Forall₂.imp ?_
    ((forall₂_and_left _ _).mpr ⟨hdyn.live, hdyn.placed.mono hpre⟩)
  rintro abs hd ⟨hlive, -, hget⟩
  rw [h.decoder.window.getAbsolute (lt_of_le_of_lt hev hlive), hget]

/-- A section whose part of the encoder stream has arrived has all its inserts. -/
theorem Books.inserts_arrived (harrived : sec.streamEnd ≤ l.delivered) :
    sec.encoded.ric ≤ l.decoder.table.insertCount := by
  have hdone : done <+: done ++ pending := prefix_append _ _
  have hpre : before <+: done := by
    rcases prefix_or_prefix_of_prefix hdyn.isBefore hdone with hpre | ⟨extra, hextra⟩
    · exact hpre
    · cases extra with
      | nil =>
        rw [append_nil] at hextra
        rw [hextra]
      | cons i extra =>
        -- The next instruction is one of the section's, and it is not complete.
        exfalso
        have hbefore := hdyn.isBefore
        rw [← hextra] at hbefore
        have hhead := (prefix_append_right_inj _).mp hbefore
        have hlen : l.encoderRx.length < (EncoderInstr.encode i).length := by
          have hpos := length_pos_iff.mpr ((reads_encoderInstr (fun _ => none)).nonempty i)
          rcases h.encoderRx with hnil | ⟨i', rest, hpend, hcut⟩
          · rw [hnil]
            exact hpos
          · rw [hpend, cons_prefix_cons] at hhead
            rw [hhead.1]
            exact hcut.length_lt
        rw [hdyn.streamEnd, h.delivered, ← hextra, encodeAll_append, encodeAll_cons,
          length_append, length_append] at harrived
        omega
  rw [hdyn.ric, h.decoder.window.insertCount]
  exact (List.IsPrefix.filterMap _ hpre).length_le

end

end

/-- Trying a section gives its headers when the decoder has its inserts, and otherwise
    says that it is blocked. -/
theorem Books.tryDecode (huffman : Bytes → Option Bytes) (h : Books l done pending sent)
    (hsec : sec ∈ l.sections) (hkeeps : Keeps l (.decode sec)) :
    l.tryDecode huffman sec = if sec.encoded.ric ≤ l.decoder.table.insertCount then
      .ok (sec.headers, sec.encoded.ric) else .error .blocked := by
  obtain ⟨payload, hpayload, hbody⟩ := (h.sections sec hsec).body
  simp only [Link.tryDecode, hpayload]
  rcases hbody with ⟨hzero, rfl, hfits⟩ | ⟨before, hdyn⟩
  · rw [hzero]
    refine decodeFieldSection_literal huffman fun g hg => ?_
    obtain ⟨hname, hvalue⟩ := hfits g hg
    exact ⟨by omega, hvalue⟩
  · have hrange := h.inRange hdyn hkeeps
    obtain ⟨front, lines, rfl, hfront, hlines⟩ := hdyn.payload
    rw [← h.capacity] at hfront
    split
    · next hhave =>
      exact decodeFieldSection_indexed huffman hdyn.ric_pos hfront hlines hrange hhave
        (h.getAbsolute hdyn hhave)
    · next hwait =>
      exact decodeFieldSection_blocked huffman hdyn.ric_pos hfront hrange (by omega)

/-- The books of a link after a section was tried. -/
theorem Books.decode (huffman : Bytes → Option Bytes) (h : Books l done pending sent)
    (hsec : sec ∈ l.sections) (hkeeps : Keeps l (.decode sec)) :
    ∃ sent', Books (l.decode huffman sec) done pending sent' := by
  have hbooks := h.sections sec hsec
  simp only [Link.decode, h.tryDecode huffman hsec hkeeps]
  by_cases hhave : sec.encoded.ric ≤ l.decoder.table.insertCount
  · rw [if_pos hhave]
    have hsections := fun sec' hsec' => h.sections sec' (mem_of_mem_erase (b := sec) hsec')
    simp only
    split
    · exact ⟨sent, { h with sections := hsections }⟩
    · have hfits : sec.streamId < 2 ^ 64 := hbooks.id_lt.trans (by decide)
      exact ⟨_, { h with
        feedback := h.feedback.snoc (i := .sectionAcknowledgement sec.streamId) hfits
        tally := h.tally.acknowledge hbooks.used fun ric hr => hbooks.pendingRic ric hr ▸ hhave
        sections := hsections }⟩
  · rw [if_neg hhave]
    exact ⟨sent, h⟩

/-! ## Runs -/

theorem books_new {settings : QpackLocalSettings} (hcap : settings.maxTableCapacity < usizeMax) :
    Books (between settings settings) [] [] [] := by
  have hcapacity : encoderCapacity settings = min settings.maxTableCapacity usizeMax := by
    rw [encoderCapacity, if_pos hcap.le, min_eq_left hcap.le]
  have hcons : (new (min settings.maxTableCapacity usizeMax)).Consistent [] :=
    ⟨window_new _, sized_new _, min_lt_of_left_lt hcap⟩
  rw [between, hcapacity]
  exact ⟨rfl, hcons, hcons, rfl, rfl, rfl, .inl rfl, trivial, rfl, ⟨rfl, by simp⟩, le_rfl,
    ⟨rfl, trivial, by simp⟩, (by decide : 0 < 2 ^ 63), by simp⟩

theorem Books.step {huffman : Bytes → Option Bytes} {op : Link.Op} {l' : Link}
    (h : Books l done pending sent) (hstep : restrict Keeps (Link.Step huffman) l op l') :
    ∃ done' pending' sent', Books l' done' pending' sent' := by
  obtain ⟨hkeeps, hstep⟩ := hstep
  cases hstep with
  | encode _ hfresh hid hlen =>
    obtain ⟨instrs, hbooks⟩ := h.encode hid hfresh hlen hkeeps
    exact ⟨_, _, _, hbooks⟩
  | deliverEncoder =>
    obtain ⟨more, rest, sent', hbooks⟩ := h.deliverEncoder huffman hkeeps
    exact ⟨_, _, _, hbooks⟩
  | deliverDecoder =>
    obtain ⟨rest, hbooks⟩ := h.deliverDecoder hkeeps
    exact ⟨_, _, _, hbooks⟩
  | decode _ hsec =>
    obtain ⟨sent', hbooks⟩ := h.decode huffman hsec hkeeps
    exact ⟨_, _, _, hbooks⟩

/-- On a link whose steps all respect `Keeps`, in every state reached and for every section
    not decoded yet: once the encoder stream up to its inserts has arrived it decodes to
    exactly the headers that were encoded; before that it is at worst blocked, never
    invalid; and the encoder stream has not torn the connection down. -/
theorem sections_decode (huffman : Bytes → Option Bytes) {settings : QpackLocalSettings}
    (hcap : settings.maxTableCapacity < usizeMax) {ops : List Link.Op}
    (hrun : Run (restrict Keeps (Link.Step huffman)) (Link.between settings settings) ops l) :
    l.closed = false ∧ ∀ sec ∈ l.sections,
      (sec.streamEnd ≤ l.delivered →
        l.tryDecode huffman sec = .ok (sec.headers, sec.encoded.ric)) ∧
      (Keeps l (.decode sec) → l.tryDecode huffman sec ≠ .error .invalid) := by
  obtain ⟨done, pending, sent, h⟩ :=
    hrun.invariant (P := fun l => ∃ done pending sent, Books l done pending sent)
      (fun _ _ _ ⟨_, _, _, h⟩ hstep => h.step hstep) ⟨[], [], [], books_new hcap⟩
  refine ⟨h.up, fun sec hsec => ⟨fun harrived => ?_, fun hkeeps => ?_⟩⟩
  · have hhave : sec.encoded.ric ≤ l.decoder.table.insertCount := by
      obtain ⟨payload, -, ⟨hzero, -⟩ | ⟨before, hdyn⟩⟩ := (h.sections sec hsec).body
      · rw [hzero]
        exact zero_le _
      · exact h.inserts_arrived hdyn harrived
    rw [h.tryDecode huffman hsec (.inl hhave), if_pos hhave]
  · rw [h.tryDecode huffman hsec hkeeps]
    split <;> simp

/-- A response in flight while its insert has only half arrived, on a table with room: it
    is not invalid, and after the rest of the stream it would decode. -/
theorem sections_decode_half_arrived :
    ∃ l sec, Run (restrict Keeps (Link.Step fun _ => none)) (Link.between ⟨4096, 2⟩ ⟨4096, 2⟩)
        [.encode 0 (.statusResponse "200"), .deliverEncoder 5] l ∧
      sec ∈ l.sections ∧ Keeps l (.decode sec) ∧
      l.tryDecode (fun _ => none) sec ≠ .error .invalid := by
  have h1 : Run (restrict Keeps (Link.Step fun _ => none)) (between ⟨4096, 2⟩ ⟨4096, 2⟩)
      [.encode 0 (.statusResponse "200")] _ :=
    .single ⟨by simp only [Keeps]; decide, .encode rfl (by decide) (by decide) (by decide)⟩
  have h2 := Run.snoc h1 ⟨by simp only [Keeps]; decide, .deliverEncoder (n := 5) rfl⟩
  have hall := (sections_decode (fun _ => none) (by decide) h2).2 _ mem_cons_self
  refine ⟨_, _, h2, mem_cons_self .., ?_, hall.2 ?_⟩
  · exact .inr (by decide)
  · exact .inr (by decide)

/-! ## What the code does without the condition -/

/-- A table of 64 bytes holds one `:status` entry.  The response `200` is on its way while
    its insert is acknowledged; the response `404` then evicts the entry, and when the
    first section arrives last it is invalid although all its inserts arrived. -/
theorem evicted_reference_invalid :
    ∃ l sec, Run (Link.Step fun _ => none) (Link.between ⟨64, 2⟩ ⟨64, 2⟩)
        [.encode 0 (.statusResponse "200"), .deliverEncoder 14, .deliverDecoder 1,
          .encode 4 (.statusResponse "404"), .deliverEncoder 12] l ∧
      sec ∈ l.sections ∧ sec.headers = [(":status", "200")] ∧ sec.streamEnd ≤ l.delivered ∧
      l.tryDecode (fun _ => none) sec = .error .invalid := by
  simp only [exists_and_left]
  exact Run.exists_of_execAll _ (fun _ _ _ => step_of_exec) (by decide +kernel) fun _ _ h => h

/-- The same table after two responses that were delivered and acknowledged.  The third
    section arrives before its insert; its residue lies behind the end of the decoder's
    window, and `decode_required_insert_count` refuses it instead of reporting it blocked. -/
theorem blocked_across_window_invalid :
    ∃ l sec, Run (Link.Step fun _ => none) (between ⟨64, 2⟩ ⟨64, 2⟩)
        [.encode 0 (.statusResponse "200"), .deliverEncoder 14, .deliverDecoder 1,
          .encode 4 (.statusResponse "404"), .deliverEncoder 12, .deliverDecoder 1,
          .encode 8 (.statusResponse "500")] l ∧
      sec ∈ l.sections ∧ l.decoder.table.insertCount < sec.encoded.ric ∧
      l.tryDecode (fun _ => none) sec = .error .invalid := by
  simp only [exists_and_left]
  exact Run.exists_of_execAll _ (fun _ _ _ => step_of_exec) (by decide +kernel) fun _ _ h => h

end WebTransportBun.Wasm.Qpack
