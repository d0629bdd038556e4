/-
  Sink.Gaps

  What a drop-newest ring tells its reader about the records it dropped.  Every pushed
  record has a fate, delivered or dropped; `disclose` turns the fates into the records a
  reader should see: before a delivered record, one DROP_GAP for the whole run of records
  dropped since the previous one.  The ring commits exactly these records, whatever the
  reader does in between, and holds the run at the end as its pending gap
  (`drops_disclosed`).
-/

import WebTransportBun.Sink.Fifo

namespace WebTransportBun.Sink

open Library List Option SinkRing Sink.System Sink.Action

inductive Fate
  | delivered
  | dropped
  deriving DecidableEq, Repr

/-- The record that discloses a run of dropped records: where it starts, and how many. -/
def gapOf : List Record → List Record
  | [] => []
  | first :: more =>
    [⟨RecordType.dropGap.toByte, 0, first.streamOffset, [], UInt32.ofNat (more.length + 1)⟩]

/-- The records to be seen for pushes with these fates, behind a run of dropped records;
    and the run that is still undisclosed at the end. -/
def disclose : List Record → List (Record × Fate) → List Record × List Record
  | run, [] => ([], run)
  | run, (r, .dropped) :: rest => disclose (run ++ [r]) rest
  | run, (r, .delivered) :: rest =>
    let (out, last) := disclose [] rest
    (gapOf run ++ r :: out, last)

def droppedOf (fates : List (Record × Fate)) : List Record :=
  (fates.filter (·.2 = .dropped)).map Prod.fst

def payloadBytes (rs : List Record) : Nat := (rs.map (·.payload.length)).sum

/-- The record of a push that passes the size check. -/
def Op.pushed (cap : DataCapacity) : Op → Option Record
  | .push kind timestampNs streamOffset payload =>
    if maxPayloadBytes cap.value < payload.length then none
    else some ⟨kind.toByte, timestampNs, streamOffset, payload, 0⟩
  | _ => none

def pushedRecords (cap : DataCapacity) (ops : List Op) : List Record :=
  ops.filterMap (Op.pushed cap)

/-! ## Fates -/

theorem disclose_dropped (run : List Record) (fates : List (Record × Fate)) (r : Record) :
    disclose run (fates ++ [(r, .dropped)]) =
      ((disclose run fates).1, (disclose run fates).2 ++ [r]) := by
  induction fates generalizing run with
  | nil => rfl
  | cons f fates ih =>
    obtain ⟨r', _ | _⟩ := f
    · simp only [cons_append, disclose, ih]
    · simp only [cons_append, disclose, ih]

theorem disclose_delivered (run : List Record) (fates : List (Record × Fate)) (r : Record) :
    disclose run (fates ++ [(r, .delivered)]) =
      ((disclose run fates).1 ++ gapOf (disclose run fates).2 ++ [r], []) := by
  induction fates generalizing run with
  | nil => simp [disclose]
  | cons f fates ih =>
    obtain ⟨r', _ | _⟩ := f
    · simp only [cons_append, disclose, ih, append_assoc]
    · simp only [cons_append, disclose, ih]

section

variable (fates : List (Record × Fate))

@[simp] theorem droppedOf_delivered (r : Record) :
    droppedOf (fates ++ [(r, .delivered)]) = droppedOf fates := by
  simp [droppedOf]

@[simp] theorem droppedOf_dropped (r : Record) :
    droppedOf (fates ++ [(r, .dropped)]) = droppedOf fates ++ [r] := by
  simp [droppedOf]

end

theorem gapOf_not_terminal (run : List Record) : ∀ r ∈ gapOf run, r.isTerminal = false := by
  intro r hr
  cases run with
  | nil => cases hr
  | cons first more =>
    rw [gapOf, mem_singleton] at hr
    subst hr
    rfl

theorem disclose_not_terminal {run : List Record} {fates : List (Record × Fate)}
    (h : ∀ f ∈ fates, f.1.isTerminal = false) :
    ∀ r ∈ (disclose run fates).1, r.isTerminal = false := by
  induction fates generalizing run with
  | nil => simp [disclose]
  | cons f fates ih =>
    obtain ⟨r', _ | _⟩ := f
    · intro r hr
      simp only [disclose, mem_append, mem_cons] at hr
      rcases hr with hr | rfl | hr
      · exact gapOf_not_terminal run r hr
      · exact h _ mem_cons_self
      · exact ih (fun f hf => h f (mem_cons_of_mem _ hf)) r hr
    · exact ih fun f hf => h f (mem_cons_of_mem _ hf)

/-! ## The ring's account -/

theorem untilTerminal_isBeginning (rs more : List Record) :
    untilTerminal rs <+: untilTerminal (rs ++ more) := by
  induction rs with
  | nil => exact nil_prefix
  | cons r rs ih =>
    rw [cons_append, untilTerminal, untilTerminal]
    split
    · exact prefix_rfl
    · exact (prefix_append_right_inj [r]).mpr ih

/-- The ring's pending gap is the run. -/
def SinkRing.Holds (ring : SinkRing) (run : List Record) : Prop :=
  ring.pendingGapRecords = run.length ∧
    ∀ first ∈ run.head?, ring.pendingGapStartOffset = first.streamOffset

/-- How the records behind the last push end: with nothing while the ring is active; else
    with the terminal record, in front of which the last run is disclosed, or not. -/
def Ending (s : System) (run tail : List Record) : Prop :=
  (s.shared.state = stateActive ∧ tail = [] ∧ s.ring.Holds run) ∨
    s.shared.state ≠ stateActive ∧ ∃ terminal : Record, terminal.isTerminal = true ∧
      ((tail = [terminal] ∧ s.ring.Holds run) ∨
        (tail = gapOf run ++ [terminal] ∧ s.ring.pendingGapRecords = 0))

/-- The account of a drop-newest ring after pushes with these fates. -/
structure Account (cap : DataCapacity) (s : System) (fates : List (Record × Fate))
    (tail : List Record) : Prop where
  dataCapacity : s.ring.dataCapacity = cap
  mode : s.ring.mode = .dropNewest
  /-- Published, or about to be published by the running call. -/
  records : s.committed ++ s.actions.flatMap published = (disclose [] fates).1 ++ tail
  ending : Ending s (disclose [] fates).2 tail
  fits : s.ring.pendingGapRecords < cursorModulus
  droppedRecords : s.shared.droppedRecords = (droppedOf fates).length % 2 ^ 64
  droppedBytes : s.shared.droppedBytes = payloadBytes (droppedOf fates) % 2 ^ 64
  kinds : ∀ f ∈ fates, f.1.isTerminal = false

/-- What the pushes of a session respect: none after the terminal record, and gap counts
    below `2 ^ 32`. -/
def InSession (s : System) : Op → Prop
  | .push _ _ _ _ => s.shared.state = stateActive ∧ s.ring.pendingGapRecords + 1 < cursorModulus
  | _ => True

theorem commit_published (cap : DataCapacity) (tail recLen cost : Nat) (r : Record) :
    (cap.commit tail recLen cost r).flatMap published = [r] := by
  have hwrites : ∀ ws : List (Nat × UInt8),
      (ws.map fun w => write w.1 w.2).flatMap published = [] := by
    intro ws
    induction ws with
    | nil => rfl
    | cons w ws ih => exact ih
  rw [DataCapacity.commit, flatMap_append, hwrites]
  rfl

theorem flushPendingGap_published {ring : SinkRing} {run : List Record} (h : ring.Holds run)
    (hfits : ring.pendingGapRecords < cursorModulus) (tail : Nat) :
    (ring.flushPendingGap tail).2.flatMap published = gapOf run ∧
      (ring.flushPendingGap tail).1.pendingGapRecords = 0 := by
  obtain ⟨hcount, hstart⟩ := h
  cases run with
  | nil =>
    rw [length_nil] at hcount
    rw [flushPendingGap, if_pos hcount]
    exact ⟨rfl, hcount⟩
  | cons first more => grind [commit_published, flushPendingGap, gapRecord, gapOf]

theorem flushPendingGap_mode (ring : SinkRing) (tail : Nat) :
    (ring.flushPendingGap tail).1.mode = ring.mode := by
  rw [flushPendingGap]
  split <;> rfl

/-! ## What a step does to the producer -/

theorem perform_keeps {a : Action} {ring ring' : SinkRing} {sh sh' : Shared}
    (h : a.perform ring sh = some (ring', sh')) :
    (ring'.dataCapacity = ring.dataCapacity ∧ ring'.mode = ring.mode ∧
        ring'.pendingGapRecords = ring.pendingGapRecords ∧
        ring'.pendingGapStartOffset = ring.pendingGapStartOffset) ∧
      sh'.state = sh.state ∧ sh'.droppedRecords = sh.droppedRecords ∧
        sh'.droppedBytes = sh.droppedBytes := by
  cases a with
  | write addr byte => grind [perform]
  | noteHighWater newTail =>
    obtain ⟨⟨m, rfl⟩, n, rfl⟩ := perform_noteHighWater h
    exact ⟨⟨rfl, rfl, rfl, rfl⟩, rfl, rfl, rfl⟩
  | publish newTail r =>
    cases h
    exact ⟨⟨rfl, rfl, rfl, rfl⟩, rfl, rfl, rfl⟩

/-! ## A ring that blocks -/

/-- The record of a call that the ring admits. -/
def System.admits (s : System) : Op → List Record
  | .push kind timestampNs streamOffset payload =>
    match s.ring.push s.shared kind timestampNs streamOffset payload with
    | .ok (.written, _) => [⟨kind.toByte, timestampNs, streamOffset, payload, 0⟩]
    | _ => []
  | .pushTerminal kind timestampNs streamOffset payload aux =>
    if s.shared.state = stateActive then [⟨kind.toByte, timestampNs, streamOffset, payload, aux⟩]
    else []
  | _ => []

/-- The records of the calls that are admitted in the course of these steps, in order. -/
def System.admitted : System → List Op → List Record
  | _, [] => []
  | s, op :: ops =>
    s.admits op ++ match s.exec op with
      | some t => t.admitted ops
      | none => []

theorem admitted_append {s t : System} {ops : List Op} (hrun : Run System.Step s ops t)
    (more : List Op) : s.admitted (ops ++ more) = s.admitted ops ++ t.admitted more := by
  induction hrun generalizing more with
  | nil => rfl
  | @snoc t u ops op _ hstep ih =>
    have hexec : t.exec op = some u := hstep
    have hone : ∀ more, t.admitted (op :: more) = t.admits op ++ u.admitted more := fun more => by
      rw [System.admitted, hexec]
    rw [append_assoc, singleton_append, ih, ih, hone, hone, append_assoc, System.admitted,
      append_nil]

theorem Effect.logged {s t : System} {op : Op} (h : Effect s op t) (hmode : s.ring.mode = .block)
    (hgap : s.ring.pendingGapRecords = 0) :
    t.ring.mode = .block ∧ t.ring.pendingGapRecords = 0 ∧
      t.committed ++ t.actions.flatMap published =
        s.committed ++ s.actions.flatMap published ++ s.admits op := by
  have hflush : ∀ tail, s.ring.flushPendingGap tail = (s.ring, []) := fun _ => if_pos hgap
  have hread : Reads s t → s.admits op = [] → t.ring.mode = .block ∧
      t.ring.pendingGapRecords = 0 ∧ t.committed ++ t.actions.flatMap published =
        s.committed ++ s.actions.flatMap published ++ s.admits op := by
    intro h hnone
    rw [h.ring, h.actions, h.committed, hnone, append_nil]
    exact ⟨hmode, hgap, rfl⟩
  cases h with
  | pushed hidle hkind hcall =>
    simp only [System.admits, hcall]
    simp only [push, hflush, hmode] at hcall
    split at hcall
    · cases hcall
    split at hcall <;> cases hcall
    · exact ⟨hmode, hgap, by simp [called, hidle]⟩
    · exact ⟨hmode, hgap, by simp [called, hidle, commit_published]⟩
  | refused hcall =>
    simp only [System.admits, hcall, append_nil]
    exact ⟨hmode, hgap, trivial⟩
  | ended hidle hkind hlen =>
    simp only [System.admits, pushTerminal, hidle]
    split
    · next hstate => simp [called, hmode, hgap]
    · next hstate => simp [called, not_not.mp hstate, hmode, hgap, commit_published]
  | produced hactions hdone =>
    obtain ⟨⟨-, hmode', hgap', -⟩, -⟩ := perform_keeps hdone
    refine ⟨hmode'.trans hmode, hgap'.trans hgap, ?_⟩
    simp [System.admits, hactions]
  | advanced _ h | loaded _ h | parsed _ h | skipped _ h => exact hread h rfl

/-- In block mode what is published, or about to be, is what the calls passed that the ring
    admitted. -/
theorem block_ring_log {cap : DataCapacity} {flags dataLen cursor : Nat} {old : Nat → UInt8}
    {ops : List Op} {s : System}
    (hrun : Run System.Step (start cap .block flags dataLen cursor old) ops s) :
    s.committed ++ s.actions.flatMap published =
      (start cap .block flags dataLen cursor old).admitted ops := by
  suffices h : s.ring.mode = .block ∧ s.ring.pendingGapRecords = 0 ∧
      s.committed ++ s.actions.flatMap published =
        (start cap .block flags dataLen cursor old).admitted ops from h.2.2
  induction hrun with
  | nil => exact ⟨rfl, rfl, rfl⟩
  | @snoc t u ops op hrun hstep ih =>
    obtain ⟨hmode, hgap, hlog⟩ := ih
    obtain ⟨hmode', hgap', hlog'⟩ := hstep.effect.logged hmode hgap
    refine ⟨hmode', hgap', ?_⟩
    have hone : t.admitted [op] = t.admits op := by
      rw [System.admitted, show t.exec op = some u from hstep]
      exact append_nil _
    rw [hlog', hlog, admitted_append hrun, hone]

namespace Account

variable {cap : DataCapacity} {s : System} {fates : List (Record × Fate)} {tail : List Record}

variable {t : System}

/-- Steps that change neither the counters nor the pending gap keep the account. -/
theorem congr (h : Account cap s fates tail)
    (hring : t.ring.dataCapacity = s.ring.dataCapacity ∧ t.ring.mode = s.ring.mode ∧
      t.ring.pendingGapRecords = s.ring.pendingGapRecords ∧
      t.ring.pendingGapStartOffset = s.ring.pendingGapStartOffset)
    (hshared : t.shared.state = s.shared.state ∧ t.shared.droppedRecords = s.shared.droppedRecords ∧
      t.shared.droppedBytes = s.shared.droppedBytes)
    (hrecords : t.committed ++ t.actions.flatMap published =
      s.committed ++ s.actions.flatMap published) : Account cap t fates tail := by
  obtain ⟨hcap, hmode, hpending, hstart⟩ := hring
  obtain ⟨hstate, hrecs, hbytes⟩ := hshared
  refine ⟨hcap.trans h.dataCapacity, hmode.trans h.mode, hrecords.trans h.records, ?_, ?_, ?_, ?_,
    h.kinds⟩
  · have hending := h.ending
    simp only [Ending, SinkRing.Holds] at hending ⊢
    rw [hstate, hpending, hstart]
    exact hending
  · rw [hpending]
    exact h.fits
  · rw [hrecs]
    exact h.droppedRecords
  · rw [hbytes]
    exact h.droppedBytes

theorem active (h : Account cap s fates tail) (hstate : s.shared.state = stateActive) :
    tail = [] ∧ s.ring.Holds (disclose [] fates).2 := by
  rcases h.ending with ⟨-, htail, hholds⟩ | ⟨hended, -⟩
  · exact ⟨htail, hholds⟩
  · exact absurd hstate hended

variable {kind : RecordType} {timestampNs streamOffset : UInt64} {payload : Bytes}
  {ring : SinkRing}

section

variable (h : Account cap s fates tail)

include h

/-- A push that finds no room: its record joins the pending gap. -/
theorem drop {sh : Shared} (hidle : s.actions = [])
    (hsession : InSession s (.push kind timestampNs streamOffset payload))
    (hkind : kind = .data ∨ kind = .message)
    (hdrop : s.ring.noteDrop s.shared streamOffset = (ring, sh)) :
    Account cap (s.called ⟨ring,
        { sh with droppedBytes := (sh.droppedBytes + payload.length) % 2 ^ 64 }, []⟩)
      (fates ++ [(⟨kind.toByte, timestampNs, streamOffset, payload, 0⟩, .dropped)]) [] := by
  obtain ⟨hstate, hfits⟩ := hsession
  obtain ⟨rfl, hcount, hstart⟩ := h.active hstate
  have hrecords := h.records
  rw [hidle] at hrecords
  obtain ⟨rfl, rfl⟩ := hdrop
  refine ⟨h.dataCapacity, h.mode, ?_, .inl ⟨hstate, rfl, ?_, ?_⟩, hfits, ?_, ?_, ?_⟩
  · rw [disclose_dropped]
    exact hrecords
  · rw [disclose_dropped, length_append, ← hcount]
    rfl
  · intro first hfirst
    rw [disclose_dropped] at hfirst
    simp only [called]
    cases hrun : (disclose [] fates).2 with
    | nil => grind
    | cons oldest more => grind
  · simp only [called, droppedOf_dropped, length_append, length_singleton,
      h.droppedRecords]
    omega
  · simp only [called, droppedOf_dropped, payloadBytes, map_append, sum_append,
      map_cons, map_nil, sum_cons, sum_nil, h.droppedBytes]
    omega
  · refine forall_mem_append.mpr ⟨h.kinds, forall_mem_singleton.mpr ?_⟩
    rcases hkind with rfl | rfl <;> rfl

/-- A push that finds room: the gap is disclosed, then the record. -/
theorem deliver {gapActions : List Action} {tail' recLen cost : Nat} (hidle : s.actions = [])
    (hstate : s.shared.state = stateActive) (hkind : kind = .data ∨ kind = .message)
    (hflush : s.ring.flushPendingGap s.shared.tail = (ring, gapActions)) :
    Account cap (s.called ⟨ring, s.shared, gapActions ++ cap.commit tail' recLen cost
        ⟨kind.toByte, timestampNs, streamOffset, payload, 0⟩⟩)
      (fates ++ [(⟨kind.toByte, timestampNs, streamOffset, payload, 0⟩, .delivered)]) [] := by
  obtain ⟨rfl, hholds⟩ := h.active hstate
  obtain ⟨hpublished, hzero⟩ := flushPendingGap_published hholds h.fits s.shared.tail
  have hmode := flushPendingGap_mode s.ring s.shared.tail
  have hcap := flushPendingGap_dataCapacity s.ring s.shared.tail
  rw [hflush] at hpublished hzero hmode hcap
  have hrecords := h.records
  rw [hidle, flatMap_nil, append_nil] at hrecords
  refine ⟨hcap.trans h.dataCapacity, hmode.trans h.mode, ?_, .inl ⟨hstate, rfl, ?_, ?_⟩, ?_, ?_, ?_,
    ?_⟩
  · simp only [called, flatMap_append, hpublished, commit_published, hrecords,
      disclose_delivered, append_assoc, append_nil]
  · rw [disclose_delivered]
    exact hzero
  · rw [disclose_delivered]
    nofun
  · simp only [called] at hzero ⊢
    rw [hzero]
    decide
  · rw [droppedOf_delivered]
    exact h.droppedRecords
  · rw [droppedOf_delivered]
    exact h.droppedBytes
  · refine forall_mem_append.mpr ⟨h.kinds, forall_mem_singleton.mpr ?_⟩
    rcases hkind with rfl | rfl <;> rfl

/-- `push`: a refused payload is no record; any other is delivered or dropped. -/
theorem push {outcome : PushOutcome} {c : Called} (hidle : s.actions = [])
    (hsession : InSession s (.push kind timestampNs streamOffset payload))
    (hkind : kind = .data ∨ kind = .message)
    (hcall : s.ring.push s.shared kind timestampNs streamOffset payload = .ok (outcome, c)) :
    payload.length ≤ maxPayloadBytes cap.value ∧ ∃ fate, Account cap (s.called c)
      (fates ++ [(⟨kind.toByte, timestampNs, streamOffset, payload, 0⟩, fate)]) [] := by
  simp only [SinkRing.push, h.dataCapacity, h.mode] at hcall
  split at hcall
  · cases hcall
  next hlen =>
  refine ⟨Nat.le_of_not_lt hlen, ?_⟩
  split at hcall
  · cases hcall
    exact ⟨.dropped, h.drop hidle hsession hkind rfl⟩
  · cases hcall
    exact ⟨.delivered, h.deliver hidle hsession.1 hkind rfl⟩

/-- `push_terminal` on an active ring: the last run is disclosed if there is room for the
    gap and the terminal, else it stays pending. -/
theorem pushTerminal {aux : UInt32} (hidle : s.actions = [])
    (hkind : kind.isTerminal = true) : ∃ tail', Account cap
      (s.called (s.ring.pushTerminal s.shared kind timestampNs streamOffset payload aux).2)
      fates tail' := by
  have hrecords := h.records
  by_cases hactive : s.shared.state = stateActive
  · obtain ⟨rfl, hholds⟩ := h.active hactive
    rw [hidle, flatMap_nil, append_nil, append_nil] at hrecords
    have hterminal : Record.isTerminal ⟨kind.toByte, timestampNs, streamOffset, payload, aux⟩ =
        true := by
      cases kind <;> simp_all [Record.isTerminal, RecordType.isTerminal]
    have hended : stateTerminalCommitted ≠ stateActive := by decide
    simp only [SinkRing.pushTerminal, ne_eq, hactive, not_true_eq_false, if_false]
    split
    · obtain ⟨hpublished, hzero⟩ := flushPendingGap_published hholds h.fits s.shared.tail
      refine ⟨gapOf (disclose [] fates).2 ++
          [⟨kind.toByte, timestampNs, streamOffset, payload, aux⟩],
        (flushPendingGap_dataCapacity _ _).trans h.dataCapacity,
        (flushPendingGap_mode _ _).trans h.mode, ?_,
        .inr ⟨hended, _, hterminal, .inr ⟨rfl, hzero⟩⟩, ?_, h.droppedRecords, h.droppedBytes,
        h.kinds⟩
      · simp only [called, flatMap_append, hpublished, commit_published, hrecords]
      · simp only [called, hzero]
        decide
    · refine ⟨[⟨kind.toByte, timestampNs, streamOffset, payload, aux⟩], h.dataCapacity, h.mode, ?_,
        .inr ⟨hended, _, hterminal, .inl ⟨rfl, hholds⟩⟩, h.fits, h.droppedRecords, h.droppedBytes,
        h.kinds⟩
      simp only [called, nil_append, commit_published, hrecords]
  · refine ⟨tail, ?_⟩
    rw [SinkRing.pushTerminal, if_pos hactive]
    refine h.congr ⟨rfl, rfl, rfl, rfl⟩ ⟨rfl, rfl, rfl⟩ ?_
    rw [hidle]
    rfl

theorem produce {a : Action} {rest : List Action} {shared : Shared}
    (hactions : s.actions = a :: rest)
    (hdone : a.perform s.ring s.shared = some (ring, shared)) :
    Account cap { s with
      ring, shared, actions := rest, committed := s.committed ++ a.published } fates tail := by
  have hrecords : s.committed ++ a.published ++ rest.flatMap published =
      s.committed ++ s.actions.flatMap published := by
    rw [hactions, flatMap_cons, append_assoc]
  exact h.congr (perform_keeps hdone).1 (perform_keeps hdone).2 hrecords

theorem reader (hread : Reads s t) : Account cap t fates tail := by
  refine h.congr ?_ hread.shared ?_
  · rw [hread.ring]
    exact ⟨rfl, rfl, rfl, rfl⟩
  · rw [hread.actions, hread.committed]

/-- Every step keeps the account, extended by the record it pushes. -/
theorem step {op : Op} (hsession : InSession s op)
    (hstep : System.Step s op t) : ∃ fates' tail', Account cap t fates' tail' ∧
      fates'.map Prod.fst = fates.map Prod.fst ++ (op.pushed cap).toList := by
  cases hstep.effect with
  | pushed hidle hkind hcall =>
    obtain ⟨hlen, fate, haccount⟩ := h.push hidle hsession hkind hcall
    refine ⟨_, _, haccount, ?_⟩
    rw [Op.pushed, if_neg (not_lt.mpr hlen), map_append]
    rfl
  | @refused _ _ _ payload _ hcall =>
    have hlong : maxPayloadBytes cap.value < payload.length := by
      by_contra hshort
      simp only [SinkRing.push, h.dataCapacity, h.mode, if_neg hshort] at hcall
      split at hcall <;> cases hcall
    refine ⟨fates, tail, h, ?_⟩
    rw [Op.pushed, if_pos hlong]
    exact (append_nil _).symm
  | ended hidle hkind =>
    obtain ⟨tail', haccount⟩ := h.pushTerminal hidle hkind
    exact ⟨fates, tail', haccount, (append_nil _).symm⟩
  | produced hactions hdone =>
    exact ⟨fates, tail, h.produce hactions hdone, (append_nil _).symm⟩
  | advanced _ hread | loaded _ hread | parsed _ hread | skipped _ hread =>
    exact ⟨fates, tail, h.reader hread, (append_nil _).symm⟩

theorem untilTerminal_records :
    untilTerminal ((disclose [] fates).1 ++ tail) = (disclose [] fates).1 ++ tail := by
  rw [untilTerminal_append (disclose_not_terminal h.kinds)]
  rcases h.ending with ⟨-, rfl, -⟩ | ⟨-, terminal, hterminal, ⟨rfl, -⟩ | ⟨rfl, -⟩⟩
  · rfl
  · rw [untilTerminal, if_pos hterminal]
  · rw [untilTerminal_append (gapOf_not_terminal _), untilTerminal, if_pos hterminal]

end

end Account

theorem account_start (cap : DataCapacity) (flags dataLen cursor : Nat) (old : Nat → UInt8) :
    Account cap (System.start cap .dropNewest flags dataLen cursor old) [] [] where
  dataCapacity := rfl
  mode := rfl
  records := rfl
  ending := .inl ⟨rfl, rfl, rfl, nofun⟩
  fits := show 0 < cursorModulus by decide
  droppedRecords := rfl
  droppedBytes := rfl
  kinds := nofun

/-- The account of a whole run. -/
theorem account_run {cap : DataCapacity} {flags dataLen cursor : Nat} {old : Nat → UInt8}
    {ops : List Op} {s : System} (hrun : Run (restrict InSession System.Step)
      (System.start cap .dropNewest flags dataLen cursor old) ops s) :
    ∃ fates tail, Account cap s fates tail ∧ fates.map Prod.fst = pushedRecords cap ops := by
  induction hrun with
  | nil => exact ⟨[], [], account_start cap flags dataLen cursor old, rfl⟩
  | @snoc _ _ ops op _ last ih =>
    obtain ⟨fates, tail, haccount, hpushed⟩ := ih
    obtain ⟨fates', tail', haccount', hpushed'⟩ := haccount.step last.1 last.2
    refine ⟨fates', tail', haccount', ?_⟩
    have hlast : [op].filterMap (Op.pushed cap) = (op.pushed cap).toList := by
      cases hop : op.pushed cap <;> simp [hop]
    rw [hpushed', hpushed, pushedRecords, pushedRecords, filterMap_append, hlast]

/-- How the losses of a drop-newest ring are told, in one state and for the pushes with
    these fates. -/
structure System.Disclosed (s : System) (fates : List (Record × Fate)) (tail : List Record) :
    Prop where
  /-- What was handed out is a beginning of the records that disclose every drop. -/
  inOrder : s.yielded <+: (disclose [] fates).1 ++ tail
  /-- All of them were, once no call is running and `next()` returns null. -/
  complete : s.actions = [] → s.ReturnsNull → s.yielded = (disclose [] fates).1 ++ tail
  /-- The run at the end is pending, or disclosed in front of the terminal record. -/
  ending : Ending s (disclose [] fates).2 tail
  droppedRecords : s.shared.droppedRecords = (droppedOf fates).length % 2 ^ 64
  droppedBytes : s.shared.droppedBytes = payloadBytes (droppedOf fates) % 2 ^ 64

/-- For every accepted capacity and starting cursor, every sequence of pushes in
    drop-newest mode with an optional terminal record behind them, and every interleaving
    with the reader: each pushed record has a fate, and what the reader sees, the pending
    gap and the two counters are those of the fates. -/
theorem drops_disclosed {cap : DataCapacity} {flags dataLen cursor : Nat} {old : Nat → UInt8}
    (hlen : cap.value ≤ dataLen) (hcursor : cursor < cursorModulus)
    (hroom : cursor % cap.value + recordHeaderBytes ≤ cap.value) {ops : List Op} {s : System}
    (hrun : Run (restrict InSession System.Step)
      (System.start cap .dropNewest flags dataLen cursor old) ops s) :
    ∃ fates tail, fates.map Prod.fst = pushedRecords cap ops ∧ s.Disclosed fates tail := by
  obtain ⟨fates, tail, haccount, hpushed⟩ := account_run hrun
  have hfifo := (hrun.of_restrict.invariant (fun _ _ _ h hstep => h.step hstep)
    (inv_start .dropNewest flags old hlen hcursor hroom)).fifo
  have huntil := haccount.untilTerminal_records
  rw [← haccount.records] at huntil
  refine ⟨fates, tail, hpushed, ?_, ?_, haccount.ending, haccount.droppedRecords,
    haccount.droppedBytes⟩
  · rw [← haccount.records, ← huntil]
    exact hfifo.inOrder.trans (untilTerminal_isBeginning _ _)
  · intro hidle hnull
    rw [← haccount.records, ← huntil, hidle, flatMap_nil, append_nil]
    exact hfifo.complete hnull

instance (s : System) (op : Op) : Decidable (InSession s op) := by
  cases op <;> unfold InSession <;> infer_instance

/-- Two records fill a ring up to its reserve, the first behind a WRAP record, and the third
    is dropped; the end of the stream comes behind the gap. -/
def fullRing : List Op :=
  .push .data 1 0 (replicate 224 7) :: replicate 290 .produce ++
    .push .data 2 224 (replicate 224 8) :: replicate 258 .produce ++
    [.push .data 3 448 (replicate 224 9), .pushTerminal .eof 4 672 [] 0] ++
    replicate 68 .produce

theorem drops_disclosed_full_ring :
    ∃ s fates tail, Run (restrict InSession System.Step)
        (System.start smallestCapacity .dropNewest 0 1024 776 fun _ => 0) fullRing s ∧
      s.committed.map (fun r => (r.kind, r.streamOffset, r.aux)) =
        [(1, 0, 0), (1, 224, 0), (7, 448, 1), (3, 672, 0)] ∧
      s.shared.droppedRecords = 1 ∧ s.shared.droppedBytes = 224 ∧
      fates.map Prod.fst = pushedRecords smallestCapacity fullRing ∧ s.Disclosed fates tail := by
  have hexec : (execAll (guarded InSession exec)
      (start smallestCapacity .dropNewest 0 1024 776 fun _ => 0) fullRing).map
        (fun s => (s.committed.map fun r => (r.kind, r.streamOffset, r.aux),
        s.shared.droppedRecords, s.shared.droppedBytes)) =
      some ([(1, 0, 0), (1, 224, 0), (7, 448, 1), (3, 672, 0)], 1, 224) := by decide +kernel
  obtain ⟨s, hs, hseen⟩ := map_eq_some_iff.mp hexec
  obtain ⟨hcommitted, hcounts⟩ := Prod.mk.inj hseen
  obtain ⟨hrecords, hbytes⟩ := Prod.mk.inj hcounts
  have hrun := Run.of_execAll (fun _ _ _ => restrict_of_guarded) hs
  obtain ⟨fates, tail, hpushed, hdisclosed⟩ :=
    drops_disclosed (by decide) (by decide) (by decide) hrun
  exact ⟨s, fates, tail, hrun, hcommitted, hrecords, hbytes, hpushed, hdisclosed⟩

end WebTransportBun.Sink
