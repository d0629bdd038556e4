/-
  Sink.Fifo

  The ring as a FIFO.  `Inv` relates a state of the system to the blocks between the
  two cursors; every step keeps it, so in every state reached the reader has handed
  out a beginning of what was committed, and the producer's next store is to a byte
  of no unreclaimed record.
-/

import WebTransportBun.Sink.Commit

namespace WebTransportBun.Sink

open Library List Option Nat SinkRing RecordType Sink.System Sink.Action

/-! ## Producer calls -/

/-- A call that leaves a plan to bring the tail from `T` to `F`, and touches none of the
    words the reader uses. -/
structure Admitted (ring : SinkRing) (sh : Shared) (H T : Nat) (c : Called) (F : Nat) :
    Prop where
  dataCapacity : c.ring.dataCapacity = ring.dataCapacity
  tail : c.shared.tail = sh.tail
  head : c.shared.head = sh.head
  dataLen : c.shared.dataLen = sh.dataLen
  bytes : c.shared.bytes = sh.bytes
  plan : Plan ring.dataCapacity.value H T sh.bytes c.actions F

section

variable {ring : SinkRing} {sh : Shared} {H T F : Nat} {bytes : Nat → UInt8}
  {rest : List Action}

theorem align8_spec (n : Nat) : n ≤ align8 n ∧ align8 n < n + 8 := by
  simp only [align8]
  omega

theorem align8_le_quarter (cap : DataCapacity) {n : Nat} (h : n ≤ maxPayloadBytes cap.value) :
    align8 (recordHeaderBytes + n) ≤ cap.value / 4 := by
  have hquarter := cap.quarter
  have hlower := cap.lower
  simp only [align8, maxPayloadBytes, recordHeaderBytes, minDataCapacity] at *
  omega

theorem flushPendingGap_dataCapacity (ring : SinkRing) (tail : Nat) :
    (ring.flushPendingGap tail).1.dataCapacity = ring.dataCapacity := by
  rw [flushPendingGap]
  split <;> rfl

/-- Disclosing a pending gap whose cost was admitted, then the rest. -/
theorem flushPendingGap_plan (hle : H ≤ T)
    (hT : T % ring.dataCapacity.value + recordHeaderBytes ≤ ring.dataCapacity.value)
    (hcost : T + ring.gapCost (T % cursorModulus) ≤ H + ring.dataCapacity.value)
    (hrest : (T + ring.gapCost (T % cursorModulus)) % ring.dataCapacity.value +
        recordHeaderBytes ≤ ring.dataCapacity.value →
      ∀ bytes, Plan ring.dataCapacity.value H (T + ring.gapCost (T % cursorModulus)) bytes rest F) :
    Plan ring.dataCapacity.value H T bytes
      ((ring.flushPendingGap (T % cursorModulus)).2 ++ rest) F := by
  have hlower := ring.dataCapacity.lower
  by_cases hgap : ring.pendingGapRecords = 0
  · grind [gapCost, flushPendingGap]
  · simp only [gapCost, if_pos (pos_of_ne_zero hgap)] at hcost hrest
    rw [flushPendingGap, if_neg hgap]
    refine commit_plan hle hT (by simp [gapRecord]) (by simp [gapRecord,
      toByte]) ?_ hcost hrest
    simp only [recordHeaderBytes, minDataCapacity] at hlower ⊢
    omega

variable {timestampNs streamOffset : UInt64} {kind : RecordType} {payload : Bytes}

variable {c : Called}

/-- `push`: an admitted record ends below the terminal reserve, a refused one changes
    nothing the reader uses. -/
theorem push_admitted
    {outcome : PushOutcome} (hkind : kind = .data ∨ kind = .message) (hle : H ≤ T)
    (htail : sh.tail = T % cursorModulus) (hfill : sh.fill = T - H)
    (hT : T % ring.dataCapacity.value + recordHeaderBytes ≤ ring.dataCapacity.value)
    (hcall : ring.push sh kind timestampNs streamOffset payload = .ok (outcome, c)) :
    ∃ F, Admitted ring sh H T c F ∧ c.shared.state = sh.state ∧
      (F = T ∨ F + reservedTailBytes ≤ H + ring.dataCapacity.value) := by
  have hlower := ring.dataCapacity.lower
  simp only [push] at hcall
  split at hcall
  · cases hcall
  next hlen =>
  split at hcall
  · -- No room outside the reserve.
    refine ⟨T, ?_⟩
    split at hcall <;> cases hcall <;>
      exact ⟨⟨rfl, rfl, rfl, rfl, rfl, .nil _ _⟩, rfl, .inl rfl⟩
  next hadmit =>
    cases hcall
    have hquarter := align8_le_quarter ring.dataCapacity (Nat.le_of_not_lt hlen)
    have hbound : align8 (recordHeaderBytes + payload.length) + recordHeaderBytes ≤
        ring.dataCapacity.value := by
      simp only [recordHeaderBytes, minDataCapacity] at hquarter hlower ⊢
      omega
    have hcursor : (T % cursorModulus + ring.gapCost (T % cursorModulus)) % cursorModulus =
        (T + ring.gapCost (T % cursorModulus)) % cursorModulus := mod_add_mod _ _ _
    simp only [htail, hcursor] at hadmit ⊢
    generalize hgap : ring.gapCost (T % cursorModulus) = gapCost at hadmit
    generalize hcost : ring.dataCapacity.costAt ((T + gapCost) % cursorModulus)
      (align8 (recordHeaderBytes + payload.length)) = cost at hadmit
    have hroom : T + gapCost + cost + reservedTailBytes ≤ H + ring.dataCapacity.value := by
      simp only [reservedTailBytes, minDataCapacity] at hadmit hlower ⊢
      omega
    refine ⟨T + gapCost + cost, ⟨flushPendingGap_dataCapacity _ _, rfl, rfl, rfl, rfl,
      ?_⟩, trivial, .inr hroom⟩
    refine flushPendingGap_plan hle hT (by rw [hgap]; omega) fun hstart bytes => ?_
    rw [hgap] at hstart ⊢
    rw [← append_nil (ring.dataCapacity.commit _ _ _ _), ← hcost]
    refine commit_plan (by omega) hstart (align8_spec _).1 ?_ hbound (by rw [hcost]; omega)
      fun _ bytes => .nil _ _
    rcases hkind with rfl | rfl <;> simp [toByte]

/-- A terminal record with its WRAP or its padding never costs more than the reserve. -/
theorem costAt_terminal (cap : DataCapacity) (T : Nat) {recLen : Nat} (h : recLen ≤ 64) :
    cap.costAt (T % cursorModulus) recLen ≤ reservedTailBytes := by
  rw [cap.costAt_eq]
  have hheader : recordHeaderBytes = 32 := rfl
  have hreserve : reservedTailBytes = 128 := rfl
  split_ifs <;> omega

/-- `push_terminal` on a ring that keeps the reserve: the terminal record fits. -/
theorem pushTerminal_admitted
    {aux : UInt32} (hkind : kind.isTerminal = true)
    (hlen : payload.length ≤ maxTerminalPayloadBytes) (hle : H ≤ T)
    (htail : sh.tail = T % cursorModulus) (hfill : sh.fill = T - H)
    (hT : T % ring.dataCapacity.value + recordHeaderBytes ≤ ring.dataCapacity.value)
    (hreserve : sh.state = stateActive → T + reservedTailBytes ≤ H + ring.dataCapacity.value) :
    ∃ F, Admitted ring sh H T (ring.pushTerminal sh kind timestampNs streamOffset payload aux).2 F ∧
      (ring.pushTerminal sh kind timestampNs streamOffset payload aux).2.shared.state ≠
        stateActive := by
  have hlower := ring.dataCapacity.lower
  simp only [pushTerminal]
  split
  · next hstate => exact ⟨T, ⟨rfl, rfl, rfl, rfl, rfl, .nil _ _⟩, hstate⟩
  next hactive =>
  have hshort : align8 (recordHeaderBytes + payload.length) ≤ 64 := by
    simp only [align8, recordHeaderBytes, maxTerminalPayloadBytes] at hlen ⊢
    omega
  have hbound : align8 (recordHeaderBytes + payload.length) + recordHeaderBytes ≤
      ring.dataCapacity.value := by
    simp only [recordHeaderBytes, minDataCapacity] at hshort hlower ⊢
    omega
  have hnotwrap : kind.toByte ≠ wrap.toByte := by
    cases kind <;> simp_all [toByte, isTerminal]
  have hcursor : (T % cursorModulus + ring.gapCost (T % cursorModulus)) % cursorModulus =
      (T + ring.gapCost (T % cursorModulus)) % cursorModulus := mod_add_mod _ _ _
  simp only [htail, hcursor]
  split
  · -- The gap is disclosed first; the check covers both records.
    next hdiscloses =>
    refine ⟨T + ring.gapCost (T % cursorModulus) + ring.dataCapacity.costAt
        ((T + ring.gapCost (T % cursorModulus)) % cursorModulus)
        (align8 (recordHeaderBytes + payload.length)),
      ⟨flushPendingGap_dataCapacity _ _, htail.symm, rfl, rfl, rfl, ?_⟩, by decide⟩
    refine flushPendingGap_plan hle hT (by omega) fun hstart bytes => ?_
    rw [← append_nil (ring.dataCapacity.commit _ _ _ _)]
    exact commit_plan (by omega) hstart (align8_spec _).1 hnotwrap hbound (by omega)
      fun _ bytes => .nil _ _
  · have hcost := costAt_terminal ring.dataCapacity T hshort
    refine ⟨T + ring.dataCapacity.costAt (T % cursorModulus)
        (align8 (recordHeaderBytes + payload.length)),
      ⟨rfl, htail.symm, rfl, rfl, rfl, ?_⟩, by decide⟩
    rw [← append_nil (ring.dataCapacity.commit _ _ _ _)]
    exact commit_plan hle hT (align8_spec _).1 hnotwrap hbound (by omega) fun _ bytes => .nil _ _

end

/-! ## The invariant -/

/-- Cursors, bytes and the running call: `blocks` lie between the reader's cursor `H` and
    the tail `T`, and the call will bring the tail to `F`. -/
structure RingInv (cap : DataCapacity) (s : System) (H T F : Nat) (blocks : List Block) :
    Prop where
  dataCapacity : s.ring.dataCapacity = cap
  readerHead : s.reader.head = H % cursorModulus
  head : s.shared.head = H % cursorModulus
  tail : s.shared.tail = T % cursorModulus
  region : cap.value ≤ s.shared.dataLen
  laid : Laid cap.value s.shared.bytes H blocks T
  room : T ≤ H + cap.value
  start : T % cap.value + recordHeaderBytes ≤ cap.value
  plan : Plan cap.value H T s.shared.bytes s.actions F
  reserve : s.shared.state = stateActive → F + reservedTailBytes ≤ H + cap.value

/-- What each phase of the reader knows about the blocks it has not handed out. -/
def Phase.Expects (unread : List Block) : Phase → Prop
  | .idle | .polling => True
  | .seen => unread ≠ []
  | .skipping n => ∃ rest, unread = ⟨n, none⟩ :: rest
  | .threw => False

/-- The block on loan is the last record handed out. -/
structure Loan (reader : SinkReader) (yielded : List Record) (b : Block) : Prop where
  idle : reader.phase = .idle
  len : b.len = reader.pendingAdvance
  content : ∃ r ys, b.content = some r ∧ yielded = ys ++ [r]

/-- The reader's logs: `unread` is what it has not handed out of `blocks`. -/
structure ReaderInv (reader : SinkReader) (committed yielded : List Record)
    (blocks unread : List Block) : Prop where
  account : committed = yielded ++ records unread
  loan : reader.pendingAdvance = 0 ∧ blocks = unread ∨
    ∃ b, blocks = b :: unread ∧ Loan reader yielded b
  phase : reader.phase.Expects unread
  active : reader.ended = false → ∀ r ∈ yielded, r.isTerminal = false
  ended : reader.ended = true → reader.phase = .idle ∧
    ∃ ys r, yielded = ys ++ [r] ∧ r.isTerminal = true ∧ ∀ x ∈ ys, x.isTerminal = false

def Inv (cap : DataCapacity) (s : System) : Prop :=
  ∃ H T F blocks unread, RingInv cap s H T F blocks ∧
    ReaderInv s.reader s.committed s.yielded blocks unread

theorem records_append (bs bs' : List Block) : records (bs ++ bs') = records bs ++ records bs' :=
  filterMap_append

section

variable {cap : DataCapacity} {s : System} {H T F : Nat} {blocks unread : List Block}

section

variable (h : RingInv cap s H T F blocks)

include h

theorem RingInv.turn_lt : T < H + cursorModulus := by
  have hroom := h.room
  have hupper := cap.upper
  simp only [maxDataCapacity, cursorModulus] at hupper ⊢
  omega

theorem RingInv.fill : s.shared.fill = T - H :=
  Shared.fill_eq h.head h.tail h.laid.le h.turn_lt

theorem RingInv.head_eq_tail_iff :
    s.reader.head = s.shared.tail ↔ blocks = [] := by
  rw [h.laid.eq_nil_iff, h.readerHead, h.tail]
  have hle := h.laid.le
  have hlt := h.turn_lt
  simp only [cursorModulus] at hlt ⊢
  omega

end

theorem Free.ne {a x : Nat} (h : Free cap.value H T a) (hlow : H ≤ x) (hhigh : x < T) :
    x % cap.value ≠ a := by
  obtain ⟨y, hy, hturn, rfl⟩ := h
  exact mod_ne_of_lt (by omega) (by omega)

/-! ## Steps of the producer -/

/-- A call in an idle producer starts the plan it was admitted with. -/
theorem RingInv.called {F' : Nat} (h : RingInv cap s H T F blocks)
    (hadm : Admitted s.ring s.shared H T c F')
    (hreserve : c.shared.state = stateActive → F' + reservedTailBytes ≤ H + cap.value) :
    RingInv cap (s.called c) H T F' blocks where
  dataCapacity := hadm.dataCapacity.trans h.dataCapacity
  readerHead := h.readerHead
  head := hadm.head.trans h.head
  tail := hadm.tail.trans h.tail
  region := by
    show cap.value ≤ c.shared.dataLen
    rw [hadm.dataLen]
    exact h.region
  laid := by
    show Laid cap.value c.shared.bytes H blocks T
    rw [hadm.bytes]
    exact h.laid
  room := h.room
  start := h.start
  plan := by
    show Plan cap.value H T c.shared.bytes c.actions F'
    rw [hadm.bytes, ← h.dataCapacity]
    exact hadm.plan
  reserve := hreserve

theorem RingInv.idle (h : RingInv cap s H T F blocks) (hidle : s.actions = []) : F = T := by
  have hplan := h.plan
  rw [hidle] at hplan
  cases hplan
  rfl

variable {rest : List Action}

theorem RingInv.write {addr : Nat} {byte : UInt8}
    (h : RingInv cap s H T F blocks) (hactions : s.actions = .write addr byte :: rest) :
    RingInv cap { s with
      shared := { s.shared with bytes := store s.shared.bytes addr byte }
      actions := rest } H T F blocks := by
  have hplan := h.plan
  rw [hactions] at hplan
  cases hplan with
  | write free hrest =>
    refine { h with laid := h.laid.congr fun x hlow hhigh => ?_, plan := hrest }
    show _ = store s.shared.bytes addr byte (x % cap.value)
    rw [store, if_neg (free.ne hlow hhigh)]

variable {newTail : Nat}

theorem perform_noteHighWater {ring ring' : SinkRing} {sh sh' : Shared}
    (h : (noteHighWater newTail).perform ring sh = some (ring', sh')) :
    (∃ n, ring' = { ring with highWater := n }) ∧ ∃ n, sh' = { sh with highWater := n } := by
  rw [perform] at h
  generalize wrappingSub newTail sh.head = fill at h
  by_cases hlt : ring.highWater < fill
  · grind
  · rw [if_neg hlt] at h
    cases h
    exact ⟨⟨ring.highWater, rfl⟩, sh.highWater, rfl⟩

theorem RingInv.noteHighWater {ring : SinkRing}
    {shared : Shared} (h : RingInv cap s H T F blocks)
    (hactions : s.actions = .noteHighWater newTail :: rest)
    (hdone : (noteHighWater newTail).perform s.ring s.shared = some (ring, shared)) :
    RingInv cap { s with ring, shared, actions := rest } H T F blocks := by
  obtain ⟨⟨m, rfl⟩, n, rfl⟩ := perform_noteHighWater hdone
  have hplan := h.plan
  rw [hactions] at hplan
  cases hplan with
  | noteHighWater hrest => exact { h with plan := hrest }

variable {r : Record}

theorem RingInv.publish
    (h : RingInv cap s H T F blocks) (hactions : s.actions = .publish newTail r :: rest) :
    ∃ U bs, records bs = [r] ∧
      RingInv cap { s with
        shared := { s.shared with tail := newTail }
        actions := rest
        committed := s.committed ++ [r] } H U F (blocks ++ bs) := by
  have hplan := h.plan
  rw [hactions] at hplan
  cases hplan with
  | @publish _ U _ _ _ _ _ bs laid content room start word hrest =>
    exact ⟨U, bs, content, { h with
      tail := word
      laid := h.laid.append laid
      room := room
      start := start
      plan := hrest }⟩

theorem Phase.Expects.append {p : Phase} (h : p.Expects unread) (bs : List Block) :
    p.Expects (unread ++ bs) := by
  cases p with
  | idle => trivial
  | polling => trivial
  | seen => exact fun hnil => h (append_eq_nil_iff.mp hnil).1
  | skipping n =>
    obtain ⟨rest, rfl⟩ := h
    exact ⟨rest ++ bs, rfl⟩
  | threw => exact h

theorem ReaderInv.publish {reader : SinkReader} {committed yielded : List Record}
    (h : ReaderInv reader committed yielded blocks unread) {bs : List Block}
    (hbs : records bs = [r]) :
    ReaderInv reader (committed ++ [r]) yielded (blocks ++ bs) (unread ++ bs) where
  account := by rw [h.account, records_append, hbs, append_assoc]
  loan := by
    rcases h.loan with ⟨hzero, rfl⟩ | ⟨b, rfl, hloan⟩
    · exact .inl ⟨hzero, rfl⟩
    · exact .inr ⟨b, rfl, hloan⟩
  phase := h.phase.append bs
  active := h.active
  ended := h.ended

/-- One action of the producer. -/
theorem Inv.produce {a : Action} {ring : SinkRing} {shared : Shared}
    (h : Inv cap s) (hactions : s.actions = a :: rest)
    (hdone : a.perform s.ring s.shared = some (ring, shared)) :
    Inv cap { s with
      ring, shared, actions := rest, committed := s.committed ++ a.published } := by
  obtain ⟨H, T, F, blocks, unread, hring, hreader⟩ := h
  cases a with
  | write addr byte =>
    simp only [perform] at hdone
    split at hdone
    · cases hdone
      simp only [published, append_nil]
      exact ⟨H, T, F, blocks, unread, hring.write hactions, hreader⟩
    · cases hdone
  | noteHighWater newTail =>
    simp only [published, append_nil]
    exact ⟨H, T, F, blocks, unread, hring.noteHighWater hactions hdone, hreader⟩
  | publish newTail r =>
    cases hdone
    obtain ⟨U, bs, hbs, hring'⟩ := hring.publish hactions
    exact ⟨H, U, F, blocks ++ bs, unread ++ bs, hring', hreader.publish hbs⟩

/-! ## Steps of the reader -/

theorem RingInv.reader {reader : SinkReader} {heartbeat : Nat} {yielded : List Record}
    (h : RingInv cap s H T F blocks) (hhead : reader.head = s.reader.head) :
    RingInv cap { s with reader, shared := { s.shared with heartbeat }, yielded } H T F blocks :=
  { h with readerHead := hhead.trans h.readerHead }

variable {b : Block}

/-- Reclaiming the first block moves the cursor behind it. -/
theorem RingInv.reclaim {n : Nat} {reader : SinkReader}
    (h : RingInv cap s H T F (b :: blocks)) (hn : b.len = n)
    (hhead : reader.head = (s.reader.head + n) % cursorModulus) :
    RingInv cap { s with
      reader
      shared := { s.shared with head := (s.reader.head + n) % cursorModulus } }
      (H + n) T F blocks := by
  subst hn
  have hmod : (s.reader.head + b.len) % cursorModulus = (H + b.len) % cursorModulus := by
    rw [h.readerHead, mod_add_mod]
  cases h.laid with
  | cons long _ _ hrest =>
    have hroom := h.room
    exact { h with
      readerHead := hhead.trans hmod
      head := hmod
      laid := hrest
      room := by omega
      plan := h.plan.mono (by omega)
      reserve := fun hactive => le_trans (h.reserve hactive) (by omega) }

/-- `#advancePending`: afterwards nothing is on loan. -/
theorem Inv.reclaim (h : Inv cap s) (hidle : s.reader.phase = .idle) :
    ∃ H T F unread, RingInv cap s.reclaim H T F unread ∧
      ReaderInv s.reclaim.reader s.committed s.yielded unread unread ∧
      s.reclaim.reader.pendingAdvance = 0 ∧ s.reclaim.reader.phase = .idle ∧
      s.reclaim.committed = s.committed ∧ s.reclaim.yielded = s.yielded := by
  obtain ⟨H, T, F, blocks, unread, hring, hreader⟩ := h
  rw [System.reclaim]
  rcases hreader.loan with ⟨hzero, rfl⟩ | ⟨b, rfl, hloan⟩
  · rw [if_pos hzero]
    exact ⟨H, T, F, blocks, hring, hreader, hzero, hidle, rfl, rfl⟩
  · have hlong : s.reader.pendingAdvance ≠ 0 := by
      cases hring.laid with
      | cons long _ _ _ =>
        simp only [recordHeaderBytes] at long
        rw [← hloan.len]
        omega
    rw [if_neg hlong]
    exact ⟨H + s.reader.pendingAdvance, T, F, unread, hring.reclaim hloan.len rfl,
      ⟨hreader.account, .inl ⟨rfl, rfl⟩, hreader.phase, hreader.active, hreader.ended⟩,
      rfl, hidle, rfl, rfl⟩

theorem Inv.advancePending (h : Inv cap s) (hidle : s.reader.phase = .idle) :
    Inv cap s.advancePending := by
  obtain ⟨H, T, F, unread, hring, hreader, hzero, -, hcommitted, hyielded⟩ := h.reclaim hidle
  rw [← hcommitted, ← hyielded] at hreader
  simp only [System.advancePending]
  split
  · exact ⟨H, T, F, unread, unread, hring, hreader⟩
  · next hactive =>
    refine ⟨H, T, F, unread, unread, hring.reader rfl, ?_⟩
    exact ⟨hreader.account, .inl ⟨hzero, rfl⟩, trivial, hreader.active,
      fun hended => absurd hended hactive⟩

theorem ReaderInv.busy {reader : SinkReader} {committed yielded : List Record}
    (h : ReaderInv reader committed yielded blocks unread) (hbusy : reader.phase ≠ .idle) :
    reader.pendingAdvance = 0 ∧ blocks = unread ∧ reader.ended = false := by
  have hactive : reader.ended = false := by
    rw [← Bool.not_eq_true]
    exact fun hended => hbusy (h.ended hended).1
  rcases h.loan with ⟨hzero, heq⟩ | ⟨b, -, hloan⟩
  · exact ⟨hzero, heq, hactive⟩
  · exact absurd hloan.idle hbusy

theorem Inv.loadTail (h : Inv cap s) (hpolling : s.reader.phase = .polling) :
    Inv cap s.loadTail := by
  obtain ⟨H, T, F, blocks, unread, hring, hreader⟩ := h
  obtain ⟨hzero, rfl, hactive⟩ := hreader.busy (by simp [hpolling])
  refine ⟨H, T, F, blocks, blocks, hring.reader rfl, hreader.account, .inl ⟨hzero, rfl⟩, ?_,
    hreader.active, fun hended => ?_⟩
  · show Phase.Expects blocks (if s.reader.head = s.shared.tail then .idle else .seen)
    split
    · trivial
    · next hne => exact fun hnil => hne (hring.head_eq_tail_iff.mpr hnil)
  · exact absurd (hactive.symm.trans hended) (by decide)

/-- What the reader parses at the first block. -/
theorem RingInv.parseAt (h : RingInv cap s H T F (b :: blocks)) :
    s.shared.parseAt (s.ring.dataCapacity.position s.reader.head) =
      some (match b.content with
        | none => .wrap b.len
        | some r => .record b.len r) := by
  have hpos : s.ring.dataCapacity.position s.reader.head = H % cap.value := by
    rw [h.dataCapacity, cap.position_eq, h.readerHead, cap.mod_cursorModulus_mod]
  have hregion := h.region
  have hupper := cap.upper
  rw [hpos]
  cases h.laid with
  | cons long inside holds _ =>
    have hlen : b.len < cursorModulus := by
      simp only [maxDataCapacity, cursorModulus] at hupper ⊢
      omega
    cases hc : b.content with
    | none => exact holds.parseAt_wrap hc hlen (by omega)
    | some r => exact holds.parseAt_record hc hlen (by omega)

theorem Inv.parse (h : Inv cap s) (hseen : s.reader.phase = .seen) : Inv cap s.parse := by
  obtain ⟨H, T, F, blocks, unread, hring, hreader⟩ := h
  obtain ⟨hzero, rfl, hactive⟩ := hreader.busy (by simp [hseen])
  have hphase := hreader.phase
  rw [hseen] at hphase
  obtain ⟨b, rest, rfl⟩ := exists_cons_of_ne_nil hphase
  have hparse := hring.parseAt
  have hold := hreader.active hactive
  rcases hc : b.content with _ | r
  · rw [hc] at hparse
    simp only [System.parse, hparse]
    refine ⟨H, T, F, b :: rest, b :: rest, hring.reader rfl, hreader.account,
      .inl ⟨hzero, rfl⟩, ⟨rest, ?_⟩, hreader.active, fun hended => ?_⟩
    · rw [← hc]
    · exact absurd (hactive.symm.trans hended) (by decide)
  · rw [hc] at hparse
    simp only [System.parse, hparse]
    have haccount : s.committed = s.yielded ++ [r] ++ records rest := by
      rw [hreader.account, records, filterMap_cons_some hc, append_assoc]
      rfl
    refine ⟨H, T, F, b :: rest, rest, hring.reader rfl, haccount,
      .inr ⟨b, rfl, rfl, rfl, r, s.yielded, hc, rfl⟩, trivial, ?_, ?_⟩
    · simp only [hactive]
      exact fun hopen => forall_mem_append.mpr ⟨hold, forall_mem_singleton.mpr hopen⟩
    · simp only [hactive]
      exact fun hterminal => ⟨trivial, s.yielded, r, rfl, hterminal, hold⟩

theorem Inv.skipWrap {recLen : Nat} (h : Inv cap s)
    (hskip : s.reader.phase = .skipping recLen) : Inv cap (s.skipWrap recLen) := by
  obtain ⟨H, T, F, blocks, unread, hring, hreader⟩ := h
  obtain ⟨hzero, rfl, hactive⟩ := hreader.busy (by simp [hskip])
  have hphase := hreader.phase
  rw [hskip] at hphase
  obtain ⟨rest, rfl⟩ := hphase
  exact ⟨H + recLen, T, F, rest, rest, hring.reclaim rfl rfl, hreader.account,
    .inl ⟨hzero, rfl⟩, trivial, hreader.active,
    fun hended => absurd (hactive.symm.trans hended) (by decide)⟩

/-! ## Runs -/

theorem inv_start (mode : OverflowMode) (flags : Nat) {dataLen cursor : Nat}
    (old : Nat → UInt8) (hlen : cap.value ≤ dataLen) (hcursor : cursor < cursorModulus)
    (hroom : cursor % cap.value + recordHeaderBytes ≤ cap.value) :
    Inv cap (System.start cap mode flags dataLen cursor old) := by
  have hword : cursor = cursor % cursorModulus := (mod_eq_of_lt hcursor).symm
  have hlower := cap.lower
  simp only [minDataCapacity] at hlower
  refine ⟨cursor, cursor, cursor, [], [], ⟨rfl, hword, hword, hword, hlen, .nil _, ?_, hroom,
    .nil _ _, fun _ => ?_⟩, rfl, .inl ⟨rfl, rfl⟩, trivial, ?_, ?_⟩
  · omega
  · simp only [reservedTailBytes]
    omega
  · intro _ r hr
    cases hr
  · intro hended
    cases hended

theorem Inv.push
    {outcome : PushOutcome} (h : Inv cap s) (hidle : s.actions = [])
    (hkind : kind = .data ∨ kind = .message)
    (hcall : s.ring.push s.shared kind timestampNs streamOffset payload = .ok (outcome, c)) :
    Inv cap (s.called c) := by
  obtain ⟨H, T, F, blocks, unread, hring, hreader⟩ := h
  have hF := hring.idle hidle
  have hstart := hring.start
  rw [← hring.dataCapacity] at hstart
  obtain ⟨F', hadm, hstate, hend⟩ :=
    push_admitted hkind hring.laid.le hring.tail hring.fill hstart hcall
  refine ⟨H, T, F', blocks, unread, hring.called hadm fun hactive => ?_, hreader⟩
  rw [hring.dataCapacity] at hend
  rcases hend with rfl | hroom
  · rw [← hF]
    exact hring.reserve (hstate ▸ hactive)
  · exact hroom

theorem Inv.pushTerminal
    {aux : UInt32} (h : Inv cap s) (hidle : s.actions = [])
    (hkind : kind.isTerminal = true) (hlen : payload.length ≤ maxTerminalPayloadBytes) : Inv cap
      (s.called (s.ring.pushTerminal s.shared kind timestampNs streamOffset payload aux).2) := by
  obtain ⟨H, T, F, blocks, unread, hring, hreader⟩ := h
  have hstart := hring.start
  have hreserve := hring.reserve
  rw [← hring.dataCapacity] at hstart hreserve
  rw [hring.idle hidle] at hreserve
  obtain ⟨F', hadm, hstate⟩ :=
    pushTerminal_admitted hkind hlen hring.laid.le hring.tail hring.fill hstart hreserve
  exact ⟨H, T, F', blocks, unread,
    hring.called hadm fun hactive => absurd hactive hstate, hreader⟩

theorem Inv.step {op : Op} {t : System} (h : Inv cap s) (hstep : System.Step s op t) :
    Inv cap t := by
  cases hstep.effect with
  | pushed hidle hkind hcall => exact h.push hidle hkind hcall
  | refused => exact h
  | ended hidle hkind hlen => exact h.pushTerminal hidle hkind hlen
  | produced hactions hdone => exact h.produce hactions hdone
  | advanced hidle => exact h.advancePending hidle
  | loaded hpolling => exact h.loadTail hpolling
  | parsed hseen => exact h.parse hseen
  | skipped hskip => exact h.skipWrap hskip

end

/-! ## What a run delivers -/

def untilTerminal : List Record → List Record
  | [] => []
  | r :: rs => if r.isTerminal then [r] else r :: untilTerminal rs

theorem untilTerminal_append {ys zs : List Record} (h : ∀ y ∈ ys, y.isTerminal = false) :
    untilTerminal (ys ++ zs) = ys ++ untilTerminal zs := by
  induction ys with
  | nil => rfl
  | cons y ys ih =>
    have hy := h y mem_cons_self
    rw [cons_append, untilTerminal, hy, ih fun x hx => h x (mem_cons_of_mem _ hx)]
    rfl

/-- The reader's `next()` is about to return null: it has ended, or the TAIL it loads
    equals its head. -/
def System.ReturnsNull (s : System) : Prop :=
  s.reader.ended = true ∨ s.reader.phase = .polling ∧ s.reader.head = s.shared.tail

structure System.Fifo (cap : DataCapacity) (s : System) : Prop where
  /-- What was handed out is a beginning of what was committed. -/
  inOrder : s.yielded <+: untilTerminal s.committed
  /-- Null is returned only when everything was handed out. -/
  complete : s.ReturnsNull → s.yielded = untilTerminal s.committed
  /-- No read of the reader is out of range. -/
  reads : s.reader.phase ≠ .threw
  /-- The next store is in the data region and outside the unreclaimed records. -/
  stores : ∀ addr byte rest, s.actions = .write addr byte :: rest →
    addr < cap.value ∧ ∀ i < s.shared.fill, addr ≠ (s.shared.head + i) % cap.value
  /-- The payload on loan still reads as it was handed out. -/
  loan : s.reader.pendingAdvance ≠ 0 → ∃ r, s.yielded.getLast? = some r ∧
    s.shared.subarray (cap.position s.reader.head + recordHeaderBytes) r.payload.length =
      r.payload

section

variable {cap : DataCapacity} {s : System} {H T F : Nat} {blocks unread : List Block}

theorem RingInv.stores (h : RingInv cap s H T F blocks) {addr : Nat} {byte : UInt8}
    (hactions : s.actions = .write addr byte :: rest) :
    addr < cap.value ∧ ∀ i < s.shared.fill, addr ≠ (s.shared.head + i) % cap.value := by
  have hplan := h.plan
  rw [hactions] at hplan
  cases hplan with
  | write free _ =>
    constructor
    · obtain ⟨x, -, -, rfl⟩ := free
      exact mod_lt x cap.pos
    · intro i hi heq
      rw [h.fill] at hi
      refine free.ne (x := H + i) (by omega) (by omega) ?_
      rw [heq, h.head, add_mod (H % cursorModulus), cap.mod_cursorModulus_mod, ← add_mod]

theorem RingInv.loan (h : RingInv cap s H T F (b :: blocks))
    (hc : b.content = some r) :
    s.shared.subarray (cap.position s.reader.head + recordHeaderBytes) r.payload.length =
      r.payload := by
  have hregion := h.region
  rw [cap.position_eq, h.readerHead, cap.mod_cursorModulus_mod]
  cases h.laid with
  | cons _ inside holds _ =>
    have hin := holds.inside r hc
    rw [Shared.subarray, min_eq_left (by omega), Nat.add_sub_cancel_left]
    exact holds.payload r hc

theorem Inv.fifo (h : Inv cap s) : s.Fifo cap := by
  obtain ⟨H, T, F, blocks, unread, hring, hreader⟩ := h
  have hterminal : s.reader.ended = true → s.yielded = untilTerminal s.committed := by
    intro hended
    obtain ⟨-, ys, r, hlast, hr, hys⟩ := hreader.ended hended
    rw [hreader.account, hlast, append_assoc, untilTerminal_append hys, singleton_append,
      untilTerminal, if_pos hr]
  refine ⟨?_, ?_, ?_, fun _ _ _ => hring.stores, ?_⟩
  · by_cases hended : s.reader.ended = true
    · exact ⟨[], (append_nil _).trans (hterminal hended)⟩
    · rw [hreader.account,
        untilTerminal_append (hreader.active (by simpa using hended))]
      exact prefix_append _ _
  · rintro (hended | ⟨hpolling, hempty⟩)
    · exact hterminal hended
    · obtain ⟨-, rfl, hactive⟩ := hreader.busy (by simp [hpolling])
      rw [hring.head_eq_tail_iff] at hempty
      rw [hreader.account, untilTerminal_append (hreader.active hactive), hempty]
      simp [records, untilTerminal]
  · intro hthrew
    have hphase := hreader.phase
    rw [hthrew] at hphase
    exact hphase
  · intro hloaned
    rcases hreader.loan with ⟨hzero, -⟩ | ⟨b, rfl, hloan⟩
    · exact absurd hzero hloaned
    · obtain ⟨r, ys, hc, hlast⟩ := hloan.content
      exact ⟨r, by rw [hlast, getLast?_concat], hring.loan hc⟩

end

/-- For every accepted capacity, every starting cursor with room for a header before the
    end of the region, and every interleaving of producer and reader steps, the ring is a
    byte-exact FIFO up to the first terminal record. -/
theorem ring_fifo {cap : DataCapacity} {mode : OverflowMode} {flags dataLen cursor : Nat}
    {old : Nat → UInt8} (hlen : cap.value ≤ dataLen) (hcursor : cursor < cursorModulus)
    (hroom : cursor % cap.value + recordHeaderBytes ≤ cap.value) {ops : List Op} {s : System}
    (hrun : Run System.Step (System.start cap mode flags dataLen cursor old) ops s) :
    s.Fifo cap :=
  (hrun.invariant (fun _ _ _ h hstep => h.step hstep)
    (inv_start mode flags old hlen hcursor hroom)).fifo

def smallestCapacity : DataCapacity := ⟨1024, ⟨10, rfl⟩, by decide, by decide⟩

/-- Cursors 32 bytes before they wrap: a record of three bytes goes behind a WRAP header while
    both words wrap, a second one follows it, and both are read back. -/
theorem ring_fifo_wrapping_cursor :
    ∃ s, Run System.Step
        (System.start smallestCapacity .block 0 1024 (2 ^ 32 - 32) fun _ => 0)
        (.push .data 5 9 [7, 8, 9] :: List.replicate 69 .produce ++
          .push .message 6 12 [1] :: List.replicate 35 .produce ++
          [.advancePending, .loadTail, .parse, .skipWrap, .loadTail, .parse, .advancePending,
            .loadTail, .parse]) s ∧
      s.shared.tail = 80 ∧ s.yielded = [⟨1, 5, 9, [7, 8, 9], 0⟩, ⟨2, 6, 12, [1], 0⟩] ∧
      s.Fifo smallestCapacity := by
  refine Run.exists_of_execAll (fun s => s.shared.tail = 80 ∧
      s.yielded = [⟨1, 5, 9, [7, 8, 9], 0⟩, ⟨2, 6, 12, [1], 0⟩])
    (fun _ _ _ h => h) (by decide +kernel) fun s hrun ⟨htail, hyielded⟩ => ?_
  exact ⟨htail, hyielded, ring_fifo (by decide) (by decide) (by decide) hrun⟩

/-! ## What the ring does outside these bounds -/

theorem ended_yields_nothing {s t : System} {ops : List Op} (hended : s.reader.ended = true)
    (hidle : s.reader.phase = .idle) (hrun : Run System.Step s ops t) : t.yielded = s.yielded := by
  have hstays : t.reader.ended = true ∧ t.reader.phase = .idle ∧ t.yielded = s.yielded := by
    refine hrun.invariant
      (P := fun u => u.reader.ended = true ∧ u.reader.phase = .idle ∧ u.yielded = s.yielded)
      ?_ ⟨hended, hidle, rfl⟩
    rintro u op v ⟨hue, hui, huy⟩ hstep
    cases hstep.effect with
    | pushed | refused | ended | produced => exact ⟨hue, hui, huy⟩
    | advanced => grind [reclaim, advancePending]
    | loaded hphase | parsed hphase | skipped hphase =>
      rw [hui] at hphase
      cases hphase
  exact hstays.2.2

/-- `push` does not look at the state word: a record pushed after the terminal one is
    committed, and the reader, which has ended, never hands it out. -/
theorem push_after_terminal_unread :
    ∃ s, Run System.Step (System.start smallestCapacity .block 0 1024 0 fun _ => 0)
        (.pushTerminal .eof 0 0 [] 0 :: List.replicate 34 .produce ++
          [.advancePending, .loadTail, .parse, .push .data 0 0 [7]] ++
          List.replicate 35 .produce) s ∧
      s.committed = [⟨3, 0, 0, [], 0⟩, ⟨1, 0, 0, [7], 0⟩] ∧
      ∀ ops t, Run System.Step s ops t → t.yielded = [⟨3, 0, 0, [], 0⟩] := by
  refine Run.exists_of_execAll (fun s => s.committed = [⟨3, 0, 0, [], 0⟩, ⟨1, 0, 0, [7], 0⟩] ∧
      s.yielded = [⟨3, 0, 0, [], 0⟩] ∧ s.reader.ended = true ∧ s.reader.phase = .idle)
    (fun _ _ _ h => h) (by decide +kernel) fun s _ ⟨hcommitted, hyielded, hended, hidle⟩ => ?_
  refine ⟨hcommitted, fun ops t hrun => ?_⟩
  rw [ended_yields_nothing hended hidle hrun, hyielded]

/-- A starting cursor with less than a header of room: the WRAP header of the first push
    runs over the end of the region, and the store there leaves the buffer. -/
theorem start_near_end_overruns :
    ∃ s, Run System.Step (System.start smallestCapacity .block 0 1024 1020 fun _ => 0)
        (.push .data 0 0 [] :: List.replicate 4 .produce) s ∧
      (∃ byte rest, s.actions = .write 1024 byte :: rest) ∧ s.exec .produce = none := by
  refine Run.exists_of_execAll
    (fun s => s.actions.head? = some (.write 1024 6) ∧ (s.exec .produce).isNone)
    (fun _ _ _ h => h) (by decide +kernel) fun s _ ⟨hnext, hstuck⟩ => ?_
  obtain ⟨rest, hactions⟩ := head?_eq_some_iff.mp hnext
  exact ⟨⟨6, rest, hactions⟩, isNone_iff_eq_none.mp hstuck⟩

end WebTransportBun.Sink
