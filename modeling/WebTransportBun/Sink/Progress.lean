/-
  Sink.Progress

  The ring never gets stuck.  The terminal record fits into the reserve in every state, is
  committed once however often `push_terminal` is called, and a push that passes the size
  check is written whenever the reader has given everything back.
-/

import WebTransportBun.Sink.Gaps
import WebTransportBun.Sink.Options

namespace WebTransportBun.Sink

open Library List Sink.System SinkRing Record

/-! ## Room -/

section

variable {c H T F : Nat} {bytes : Nat → UInt8} {acts : List Action}

/-- All stores of a call go behind the tail it starts from, and no tail it publishes is more
    than a turn ahead of the reader. -/
theorem Plan.fits (h : Plan c H T bytes acts F) :
    (∀ addr byte, .write addr byte ∈ acts → Free c H T addr) ∧
      ∀ newTail r, .publish newTail r ∈ acts →
        ∃ U, T ≤ U ∧ U ≤ H + c ∧ newTail = U % cursorModulus := by
  induction h with
  | nil => exact ⟨fun _ _ hmem => absurd hmem not_mem_nil, fun _ _ hmem => absurd hmem not_mem_nil⟩
  | write free _ ih => grind
  | noteHighWater _ ih =>
    exact ⟨fun addr byte hmem => ih.1 addr byte (by simpa using hmem),
      fun newTail r hmem => ih.2 newTail r (by simpa using hmem)⟩
  | @publish T U _ _ _ _ _ _ laid _ room _ word _ ih =>
    have hle := laid.le
    refine ⟨fun addr byte hmem => ?_, fun newTail r hmem => ?_⟩
    · obtain ⟨x, hlow, hhigh, rfl⟩ := ih.1 addr byte (by simpa using hmem)
      exact ⟨x, by omega, hhigh, rfl⟩
    · rcases mem_cons.mp hmem with heq | hmem
      · cases heq
        exact ⟨U, hle, room, word⟩
      · obtain ⟨V, hV, hroom, hword⟩ := ih.2 newTail r hmem
        exact ⟨V, by omega, hroom, hword⟩

theorem costAt_record (cap : DataCapacity) (T : Nat) {recLen : Nat} (h : recLen ≤ cap.value / 4) :
    cap.costAt (T % cursorModulus) recLen ≤ cap.value / 2 := by
  have hlower := cap.lower
  simp only [minDataCapacity] at hlower
  rw [cap.costAt_eq]
  have hheader : recordHeaderBytes = 32 := rfl
  split_ifs <;> omega

end

/-- A call stores into the data region, outside the unreclaimed records, and publishes no tail
    more than a turn ahead of HEAD. -/
def Called.Fits (c : Called) (cap : DataCapacity) (sh : Shared) : Prop :=
  (∀ addr byte, .write addr byte ∈ c.actions →
      addr < cap.value ∧ ∀ i < sh.fill, addr ≠ (sh.head + i) % cap.value) ∧
    ∀ newTail r, .publish newTail r ∈ c.actions → wrappingSub newTail sh.head ≤ cap.value

section

variable {cap : DataCapacity} {s : System} {H T F : Nat} {blocks : List Block}

theorem RingInv.fits {c : Called} {F' : Nat} (h : RingInv cap s H T F blocks)
    (hadm : Admitted s.ring s.shared H T c F') : c.Fits cap s.shared := by
  have hplan := hadm.plan
  rw [h.dataCapacity] at hplan
  refine ⟨fun addr byte hmem => ⟨?_, fun i hi heq => ?_⟩, fun newTail r hmem => ?_⟩
  · obtain ⟨x, -, -, rfl⟩ := hplan.fits.1 addr byte hmem
    exact Nat.mod_lt x cap.pos
  · rw [h.fill] at hi
    refine (hplan.fits.1 addr byte hmem).ne (x := H + i) (by omega) (by omega) ?_
    rw [heq, h.head, Nat.add_mod (H % cursorModulus), cap.mod_cursorModulus_mod, ← Nat.add_mod]
  · obtain ⟨U, hlow, hroom, rfl⟩ := hplan.fits.2 newTail r hmem
    have hle := h.laid.le
    have hupper := cap.upper
    rw [h.head]
    simp only [wrappingSub, cursorModulus] at hupper ⊢
    omega

/-- On a ring whose records have all been reclaimed a push is written, with a pending gap too. -/
theorem RingInv.push_written (h : RingInv cap s H T F blocks) (hempty : s.shared.fill = 0)
    (kind : RecordType) (timestampNs streamOffset : UInt64) {payload : Bytes}
    (hlen : payload.length ≤ maxPayloadBytes cap.value) :
    ∃ c, s.ring.push s.shared kind timestampNs streamOffset payload = .ok (.written, c) := by
  have hquarter := align8_le_quarter cap hlen
  have hlower := cap.lower
  have hgap : s.ring.gapCost s.shared.tail ≤ reservedTailBytes := by
    rw [gapCost, h.tail]
    split
    · exact costAt_terminal _ _ (by decide)
    · exact Nat.zero_le _
  have hrecord := costAt_record cap (s.shared.tail + s.ring.gapCost s.shared.tail) hquarter
  simp only [minDataCapacity, reservedTailBytes] at hlower hgap
  simp only [push, h.dataCapacity]
  rw [if_neg (not_lt.mpr hlen), if_neg]
  · exact ⟨_, rfl⟩
  · simp only [reservedTailBytes]
    omega

end

/-! ## One terminal record -/

def Op.isPushTerminal : Op → Bool
  | .pushTerminal .. => true
  | _ => false

/-- The terminal records that are committed, or that the running call is about to commit. -/
def System.terminals (s : System) : Nat :=
  (s.committed ++ s.actions.flatMap Action.published).countP isTerminal

/-- The state word says whether the terminal record is on its way. -/
def Once (called : Bool) (s : System) : Prop :=
  s.shared.state = (if called then stateTerminalCommitted else stateActive) ∧
    s.terminals = called.toNat

theorem flushPendingGap_not_terminal (ring : SinkRing) (tail : Nat) :
    ((ring.flushPendingGap tail).2.flatMap Action.published).countP isTerminal = 0 := by
  rw [flushPendingGap]
  split
  · rfl
  · rw [commit_published]
    rfl

variable {called : Bool}

theorem Once.push {s : System} {kind : RecordType}
    {timestampNs streamOffset : UInt64} {payload : Bytes} {outcome : PushOutcome} {c : Called}
    (h : Once called s) (hidle : s.actions = []) (hkind : kind = .data ∨ kind = .message)
    (hcall : s.ring.push s.shared kind timestampNs streamOffset payload = .ok (outcome, c)) :
    Once called (s.called c) := by
  obtain ⟨hstate, hcount⟩ := h
  simp only [System.terminals, hidle, flatMap_nil, append_nil] at hcount
  simp only [SinkRing.push] at hcall
  split at hcall
  · cases hcall
  split at hcall
  · split at hcall <;> cases hcall <;>
      exact ⟨hstate, by simpa only [System.terminals, System.called, flatMap_nil,
        append_nil] using hcount⟩
  · cases hcall
    refine ⟨hstate, ?_⟩
    simp only [System.terminals, System.called, flatMap_append, commit_published,
      countP_append, flushPendingGap_not_terminal, hcount]
    rcases hkind with rfl | rfl <;> simp [isTerminal, RecordType.toByte]

theorem Once.pushTerminal {s : System} (h : Once called s)
    (hidle : s.actions = []) {kind : RecordType} (hkind : kind.isTerminal = true)
    (timestampNs streamOffset : UInt64) (payload : Bytes) (aux : UInt32) : Once true
      (s.called (s.ring.pushTerminal s.shared kind timestampNs streamOffset payload aux).2) := by
  obtain ⟨hstate, hcount⟩ := h
  simp only [terminals, hidle, flatMap_nil, append_nil] at hcount
  have hrecord : isTerminal ⟨kind.toByte, timestampNs, streamOffset, payload, aux⟩ = true := by
    cases kind <;> simp_all [isTerminal, RecordType.isTerminal]
  cases called with
  | true =>
    have hover : s.shared.state ≠ stateActive := by
      rw [hstate]
      decide
    rw [pushTerminal, if_pos hover]
    refine ⟨hstate, ?_⟩
    simpa only [terminals, called, flatMap_nil, append_nil] using hcount
  | false =>
    have hactive : ¬ s.shared.state ≠ stateActive := not_not.mpr hstate
    simp only [pushTerminal, if_neg hactive]
    refine ⟨rfl, ?_⟩
    simp only [terminals, called, flatMap_append, commit_published,
      countP_append, hcount]
    split
    · rw [flushPendingGap_not_terminal]
      simp [hrecord]
    · simp [hrecord]

theorem Once.step {s t : System} {op : Op} (h : Once called s)
    (hstep : System.Step s op t) : Once (called || op.isPushTerminal) t := by
  cases hstep.effect with
  | pushed hidle hkind hcall =>
    simp only [Op.isPushTerminal, Bool.or_false]
    exact h.push hidle hkind hcall
  | refused =>
    simp only [Op.isPushTerminal, Bool.or_false]
    exact h
  | ended hidle hkind =>
    simp only [Op.isPushTerminal, Bool.or_true]
    exact h.pushTerminal hidle hkind _ _ _ _
  | produced hactions hdone =>
    simp only [Op.isPushTerminal, Bool.or_false]
    obtain ⟨hactive, hcount⟩ := h
    simp only [terminals, hactions, flatMap_cons, ← append_assoc] at hcount
    exact ⟨(perform_keeps hdone).2.1.trans hactive, hcount⟩
  | advanced _ hread | loaded _ hread | parsed _ hread | skipped _ hread =>
    simp only [Op.isPushTerminal, Bool.or_false]
    unfold Once terminals
    rw [hread.shared.1, hread.committed, hread.actions]
    exact h

theorem once_of_run {s t : System} {ops : List Op} (hstart : Once false s)
    (hrun : Run System.Step s ops t) : Once (ops.any Op.isPushTerminal) t := by
  induction hrun with
  | nil => exact hstart
  | snoc _ hstep ih =>
    rw [any_append, any_cons, any_nil, Bool.or_false]
    exact ih.step hstep

/-! ## Every state -/

/-- In every state reached, whatever the capacity and the cursor the ring starts from:
    exactly one terminal record is committed or under way if `push_terminal` was called, and
    none if not; a call of `push_terminal` fits; and once everything is reclaimed, a push of a
    payload within the cap is written. -/
theorem ring_progress {cap : DataCapacity} {mode : OverflowMode} {flags dataLen cursor : Nat}
    {old : Nat → UInt8} (hlen : cap.value ≤ dataLen) (hcursor : cursor < cursorModulus)
    (hroom : cursor % cap.value + recordHeaderBytes ≤ cap.value) {ops : List Op} {s : System}
    (hrun : Run System.Step (System.start cap mode flags dataLen cursor old) ops s) :
    s.terminals = (ops.any Op.isPushTerminal).toNat ∧
      (s.actions = [] → ∀ kind timestampNs streamOffset payload aux,
        kind.isTerminal = true → payload.length ≤ maxTerminalPayloadBytes →
        (s.ring.pushTerminal s.shared kind timestampNs streamOffset payload aux).2.Fits cap
          s.shared) ∧
      (s.shared.fill = 0 → ∀ kind timestampNs streamOffset payload,
        payload.length ≤ maxPayloadBytes cap.value →
        ∃ c, s.ring.push s.shared kind timestampNs streamOffset payload = .ok (.written, c)) := by
  obtain ⟨H, T, F, blocks, unread, hring, -⟩ := hrun.invariant (fun _ _ _ h hstep => h.step hstep)
    (inv_start mode flags old hlen hcursor hroom)
  have hstart : Once false (start cap mode flags dataLen cursor old) := ⟨rfl, rfl⟩
  refine ⟨(once_of_run hstart hrun).2, ?_, ?_⟩
  · intro hidle kind timestampNs streamOffset payload aux hkind hpayload
    have hstart := hring.start
    have hreserve := hring.reserve
    rw [← hring.dataCapacity] at hstart hreserve
    rw [hring.idle hidle] at hreserve
    obtain ⟨F', hadm, -⟩ :=
      pushTerminal_admitted hkind hpayload hring.laid.le hring.tail hring.fill hstart hreserve
    exact hring.fits hadm
  · intro hempty kind timestampNs streamOffset payload hpayload
    exact hring.push_written hempty kind timestampNs streamOffset hpayload

/-- A terminal record that ends with the region; the second call commits nothing. -/
theorem ring_progress_two_calls :
    ∃ s, Run System.Step (System.start smallestCapacity .dropNewest 0 1024 992 fun _ => 0)
        (.pushTerminal .eof 0 0 [] 0 :: List.replicate 34 .produce ++
          [.pushTerminal .reset 0 0 [] 7])
        s ∧ s.committed = [⟨3, 0, 0, [], 0⟩] ∧ s.terminals = 1 := by
  refine Run.exists_of_execAll (·.committed = [⟨3, 0, 0, [], 0⟩]) (fun _ _ _ h => h)
    (by decide +kernel) fun s hrun hcommitted => ⟨hcommitted, ?_⟩
  exact (ring_progress (by decide) (by decide) (by decide) hrun).1

/-! ## From the options to the ring -/

/-- The sizes that `normalizeRingBytes` computes are accepted by `init` on the buffer that is
    allocated for them, and the ring it sets up is a FIFO for the reader on the same buffer. -/
theorem opened_ring_fifo {requested : Js} {ringBytes base : Nat}
    (hsize : normalizeRingBytes requested = .ok ringBytes) (hbase : 0 < base ∧ base % 8 = 0)
    (flags : Nat) (mode : OverflowMode) (old : Nat → UInt8) :
    ∃ ring shared,
      SinkRing.init base (dataOffset + ringBytes) ringBytes flags mode old = .ok (ring, shared) ∧
        ∀ ops s, Run System.Step ⟨ring, ⟨0, 0, false, .idle⟩, shared, [], [], []⟩ ops s →
          s.Fifo ring.dataCapacity := by
  have hcap := capacity_of_normalizeRingBytes hsize
  let cap : DataCapacity := ⟨ringBytes, hcap.1, hcap.2.1, hcap.2.2⟩
  let start := System.start cap mode flags (dataOffset + ringBytes - dataOffset) 0 old
  refine ⟨start.ring, start.shared, ?_, fun ops s hrun => ?_⟩
  · rw [SinkRing.init, if_neg (by omega), dif_pos hcap, if_neg (by omega)]
    rfl
  · have hlower : 1024 ≤ cap.value := hcap.2.1
    exact (hrun.invariant (fun _ _ _ h hstep => h.step hstep) (inv_start mode flags old
      (by show ringBytes ≤ _; omega) (by decide)
        (by rw [recordHeaderBytes, Nat.zero_mod]; omega))).fifo

/-- A ring of the default size, with a record that is pushed and read back. -/
theorem opened_ring_fifo_default : ∃ ring shared s,
    SinkRing.init 8 (dataOffset + roundRingBytes defaultRingBytes)
        (roundRingBytes defaultRingBytes) 0 .block (fun _ => 0) = .ok (ring, shared) ∧
      Run System.Step ⟨ring, ⟨0, 0, false, .idle⟩, shared, [], [], []⟩
        (.push .message 5 9 [7, 8] :: List.replicate 36 .produce ++
          [.advancePending, .loadTail, .parse]) s ∧
      s.yielded = [⟨2, 5, 9, [7, 8], 0⟩] ∧ s.Fifo ring.dataCapacity := by
  obtain ⟨ring, shared, hinit, hfifo⟩ := opened_ring_fifo
    (rfl : normalizeRingBytes .undefined = _) (by decide : 0 < 8 ∧ _) 0 .block fun _ => 0
  have hread : ∃ s, Run System.Step ⟨ring, ⟨0, 0, false, .idle⟩, shared, [], [], []⟩
      (.push .message 5 9 [7, 8] :: List.replicate 36 .produce ++
        [.advancePending, .loadTail, .parse]) s ∧ s.yielded = [⟨2, 5, 9, [7, 8], 0⟩] := by
    cases hinit
    exact Run.exists_of_execAll (·.yielded = [⟨2, 5, 9, [7, 8], 0⟩]) (fun _ _ _ h => h)
      (by decide +kernel) fun _ _ h => h
  obtain ⟨s, hrun, hyielded⟩ := hread
  exact ⟨ring, shared, s, hinit, hrun, hyielded, hfifo _ s hrun⟩

end WebTransportBun.Sink
