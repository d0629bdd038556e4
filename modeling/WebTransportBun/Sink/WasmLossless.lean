/-
  Sink.WasmLossless

  A wasm sink in block mode whose payloads all fit into the ring delivers a stream that ends
  with FIN: for a consumer that keeps reading, the records hold the bytes of the stream, with
  contiguous offsets, and an EOF follows (`sink_lossless`).

  The run gets there because `work` never grows, and falls with every step of the task but
  those that find the ring full; the consumer brings such a wait to its end.

  A payload beyond a quarter of the ring is not recorded, and nothing says so
  (`oversized_chunk_vanishes`).
-/

import WebTransportBun.Library.Fair
import WebTransportBun.Sink.WasmAccount

namespace WebTransportBun.Sink.Wasm

open Library List Option Nat State Wasm.Task Trace

/-! ## The end of a stream -/

/-- The last chunk, and no other, brings FIN. -/
def EndsWithFin (chunks : List Chunk) : Prop :=
  ∃ before last, chunks = before ++ [last] ∧ last.fin = true ∧ ∀ chunk ∈ before, chunk.fin = false

/-- A framed stream consists of whole frames. -/
def WellFormed (framing : Option FramingConfig) (chunks : List Chunk) : Prop :=
  ∀ c, framing = some c → ∃ frames, Splits c.IsFrame (bytesOf chunks) frames []

/-- The records hold the stream, and the EOF behind them is the last. -/
def Delivered (kind : RecordType) (chunks : List Chunk) (rs : List Record) : Prop :=
  ∃ before eof, rs = before ++ [eof] ∧ Lays kind 0 before ∧
    (payloadsOf before).flatten = bytesOf chunks ∧ eof.kind = RecordType.eof.toByte ∧
    eof.streamOffset = UInt64.ofNat (bytesOf chunks).length ∧ eof.payload = []

theorem EndsWithFin.eq_nil {taken more : List Chunk} (h : EndsWithFin (taken ++ more))
    (hfin : taken.any Chunk.fin = true) : more = [] := by
  obtain ⟨before, last, heq, -, hbefore⟩ := h
  rcases eq_nil_or_concat more with rfl | ⟨front, chunk, rfl⟩
  · rfl
  · -- all of `taken` would be in front of the last chunk
    rw [concat_eq_append, ← append_assoc] at heq
    obtain ⟨heq, -⟩ := append_inj' heq rfl
    obtain ⟨chunk', hmem, hchunk'⟩ := any_eq_true.mp hfin
    have hfalse := hbefore chunk' (heq ▸ mem_append_left _ hmem)
    rw [hfalse] at hchunk'
    cases hchunk'

section

variable {c : FramingConfig} {frames frames' : List Bytes} {stream rest : Bytes}

theorem eq_nil_of_splits (hv : c.Valid) (h : Splits c.IsFrame stream frames [])
    (h' : Splits c.IsFrame stream frames' rest)
    (hrest : ∀ frame, c.IsFrame frame → ¬ frame <+: rest) :
    rest = [] :=
  (h.unique (fun _ _ hi hj hpre => hi.eq_of_isPrefix hj hpre) h'
    (fun _ hi => (FramingConfig.incomplete_nil hv).not_isPrefix hi) hrest).2.symm

end

/-! ## Who takes part -/

/-- Since when a push waits for room, and the heartbeat it has seen then. -/
def Task.waits : Task → Option (ℚ × UInt32)
  | pushing p => p.stallStarted.map (·, p.heartbeatSeen)
  | _ => none

/-- Nobody resets the stream or closes the sink, and a consumer that is waited for gives a
    heartbeat before the task looks again past the deadline. -/
def Reading (s : State) : Op → Prop
  | .turn _ now => ∀ w ∈ s.task.waits,
      s.config.backpressureTimeoutMs ≤ now - w.1 → s.ring.heartbeat ≠ w.2
  | .reset _ _ => False
  | .close _ => False
  | _ => True

instance (s : State) : DecidablePred (Reading s)
  | .turn _ _ => inferInstanceAs (Decidable (∀ w ∈ s.task.waits, _ → _))
  | .reset _ _ => inferInstanceAs (Decidable False)
  | .close _ => inferInstanceAs (Decidable False)
  | .deliver => inferInstanceAs (Decidable True)
  | .deliverLate => inferInstanceAs (Decidable True)
  | .beat => inferInstanceAs (Decidable True)
  | .reclaim _ => inferInstanceAs (Decidable True)

def Op.IsTurn : Op → Prop
  | turn _ _ => True
  | _ => False

def Op.IsReclaim : Op → Prop
  | reclaim _ => True
  | _ => False

def Op.IsDeliver : Op → Prop
  | deliver => True
  | _ => False

/-- A run in which everyone does their part. -/
structure Served (σ : Trace Step) : Prop where
  reading : σ.Meets Reading
  /-- The consumer frees what it has read. -/
  reclaims : σ.Fair Op.IsReclaim
  /-- The event loop runs the task. -/
  turns : σ.Fair Op.IsTurn
  /-- The stream delivers unless it is paused. -/
  delivers : σ.Fair Op.IsDeliver

section

variable {S : Setting} {s t : State} {taken : List Chunk} {op : Op}

/-- A sink that goes on, or one that has delivered the stream. -/
def Good (S : Setting) (s : State) : Prop :=
  (∃ taken, Progress S s taken) ∨ (s.ended = true ∧ Delivered S.config.kind S.chunks s.ring.records)

/-- The only reason to end is FIN, and then all of the stream has been committed. -/
theorem Cause.delivered {term : Record} (hcause : Cause S s op term) (h : Progress S s taken)
    (hfin : EndsWithFin S.chunks) (hformed : WellFormed S.config.framing S.chunks)
    (hreading : Reading s op) : Delivered S.config.kind S.chunks (s.ring.records ++ [term]) := by
  cases hcause with
  | @fin taken staging more hkind hoffset hpayload hall hany hcuts =>
    obtain rfl : more = [] := (hall ▸ hfin : EndsWithFin (taken ++ more)).eq_nil hany
    rw [append_nil] at hall
    have hstaging : staging = [] := by
      cases hframing : S.config.framing with
      | none =>
        rw [hframing] at hcuts
        exact hcuts.2
      | some c =>
        rw [hframing] at hcuts
        obtain ⟨frames, hframes⟩ := hformed c hframing
        rw [← hall] at hframes
        exact eq_nil_of_splits (S.valid c hframing) hframes hcuts.1 fun _ hi =>
          hcuts.2.not_isPrefix hi
    have hbytes := hcuts.bytes
    rw [hstaging, append_nil, hall] at hbytes
    exact ⟨_, term, rfl, h.lays, hbytes, hkind, by rw [hoffset, hbytes], hpayload⟩
  | @fault taken more c frames bad hall hframing hsplit hfault =>
    -- a faulty header stays one, however the stream goes on
    obtain ⟨frames', hframes⟩ := hformed c hframing
    have hlong : c.Faulty (bad ++ bytesOf more) := by
      refine ⟨by rw [length_append]; exact le_add_right_of_le hfault.1, ?_⟩
      rw [take_append_of_le_length hfault.1]
      exact hfault.2
    have hall' : Splits c.IsFrame (bytesOf S.chunks) frames (bad ++ bytesOf more) := by
      rw [← hall, bytesOf_append]
      exact hsplit.append _
    have hnil := eq_nil_of_splits (S.valid c hframing) hframes hall' fun _ hi =>
      hlong.not_isPrefix hi
    have hlen := hlong.1
    have hpos := (S.valid c hframing).header_pos
    rw [hnil, length_nil] at hlen
    omega
  | @stalled clock now since p hop htask hseen hsince hlate =>
    subst hop
    rw [← h.config] at hlate
    have hwaits : (since, p.heartbeatSeen) ∈ s.task.waits := by
      rw [htask, waits, hsince]
      rfl
    exact absurd hseen (hreading _ hwaits hlate)
  | interrupted hop =>
    rcases hop with ⟨clock, code, rfl⟩ | ⟨clock, rfl⟩
    · exact hreading.elim
    · exact hreading.elim

theorem Good.step (h : Good S s) (hfin : EndsWithFin S.chunks)
    (hformed : WellFormed S.config.framing S.chunks) (hreading : Reading s op)
    (hstep : Step s op t) : Good S t := by
  rcases h with ⟨taken, h⟩ | ⟨hended, hdelivered⟩
  · cases h.step hstep with
    | goes taken' h' => exact .inl ⟨taken', h'⟩
    | ends hended _ hrecords hcause =>
      exact .inr ⟨hended, hrecords ▸ hcause.delivered h hfin hformed hreading⟩
  · obtain ⟨hended', hrecords⟩ := ended_stays hended hstep
    exact .inr ⟨hended', hrecords ▸ hdelivered⟩

/-! ## What is left to do -/

def Task.rank : Task → Nat
  | idle => 0
  | looping => 1
  | pushing _ => 2
  | returned _ _ => 3

/-- Bytes to commit, chunks to deliver and chunks to take, weighted so that every step of the
    task that does something lowers the sum. -/
def work (S : Setting) (s : State) : Nat :=
  4 * ((bytesOf S.chunks).length - (payloadsOf s.ring.records).flatten.length) +
    6 * s.live.length + 4 * s.backlog.length + s.task.rank

/-- What a step that does not end the sink does. -/
inductive Moves (S : Setting) (s : State) (op : Op) (t : State) : Prop
  | works (hwork : work S t < work S s)
  | consumes {head heartbeat : UInt32} (ht : t = { s with ring := { s.ring with head, heartbeat } })
      (hfill : t.ring.fill ≤ s.ring.fill) (hreclaim : op.IsReclaim → t.ring.fill < s.ring.fill)
      (hturn : ¬ op.IsTurn) (hdeliver : ¬ op.IsDeliver)
  | waits {p p' : PushCall} (htask : s.task = .pushing p) (hroom : ¬ s.ring.HasRoom p.payload)
      (ht : t = { s with task := .pushing p' }) (hpayload : p'.payload = p.payload)
      (hop : op.IsTurn)

theorem Cuts.ne_nil {framing : Option FramingConfig} {payloads : List Bytes} {staging : Bytes}
    (h : Cuts framing taken payloads staging) (hvalid : ∀ c, framing = some c → c.Valid) :
    ∀ payload ∈ payloads, payload ≠ [] := by
  intro payload hmem
  cases framing with
  | none =>
    obtain ⟨rfl, -⟩ := h
    exact of_decide_eq_true (mem_filter.mp hmem).2
  | some c =>
    rintro rfl
    have hlow := (h.1.all _ hmem).bounds.1
    have hpos := (hvalid c rfl).header_pos
    rw [length_nil] at hlow
    omega

/-- The task has gone on without committing anything. -/
structure Onward (s t : State) : Prop where
  ring : t.ring = s.ring
  live : t.live = s.live
  backlog : t.backlog = s.backlog
  rank : t.task.rank ≤ 2

theorem Onward.work_lt {s₀ : State} (h : Onward s t) (hring : s.ring = s₀.ring)
    (hlive : s.live = s₀.live)
    (hrank : 4 * s.backlog.length + 2 < 4 * s₀.backlog.length + s₀.task.rank) :
    work S t < work S s₀ := by
  have hle := h.rank
  rw [work, work, h.ring, h.live, h.backlog, hring, hlive]
  omega

variable {clock : UInt64}

theorem onward_endChunk {fin : Bool} (hrunning : (s.endChunk clock fin).ended = false) :
    Onward s (s.endChunk clock fin) := by
  cases fin with
  | false => exact ⟨rfl, rfl, rfl, le_succ 1⟩
  | true =>
    have hended := s.ended_finish clock .eof "" 0 false
    rw [show (s.endChunk clock true).ended = (s.finish clock .eof "" 0 false).ended from rfl,
      hended] at hrunning
    cases hrunning

variable {now : ℚ}

theorem onward_pushNext {timestampNs : UInt64} {fin : Bool} {todo : List Bytes}
    (hblock : s.config.dropNewest = false)
    (hrunning : (s.pushNext timestampNs clock now fin todo).ended = false) :
    Onward s (s.pushNext timestampNs clock now fin todo) := by
  cases todo with
  | cons payload rest => exact ⟨rfl, rfl, rfl, le_refl 2⟩
  | nil =>
    have hcheck : s.checkIdle clock now = s := by
      rw [checkIdle, hblock, if_neg (fun hdrop => by cases hdrop.1)]
    rw [pushNext, hcheck] at hrunning ⊢
    exact onward_endChunk hrunning

theorem onward_processChunk {chunk : Chunk}
    (hblock : s.config.dropNewest = false) (hstep : s.processChunk clock now chunk = some t)
    (hrunning : t.ended = false) : Onward s t := by
  unfold processChunk at hstep
  split at hstep
  · cases hstep
    exact onward_endChunk hrunning
  split at hstep
  · cases hstep
    exact onward_pushNext hblock hrunning
  split at hstep
  · cases hstep
  · next staging frames _ =>
    cases hstep
    have honward := onward_pushNext (s := { s with staging }) hblock hrunning
    exact { honward with }
  · next staging _ _ =>
    cases hstep
    have hended :=
      ({ s with staging } : State).ended_finish clock .error "E_SINK_FRAME_FAULT" 0 true
    exact absurd (hrunning.symm.trans hended) Bool.false_ne_true

section

variable (h : Progress S s taken)

include h

variable {p : PushCall}

theorem Progress.length_le (htask : s.task = .pushing p) :
    (payloadsOf s.ring.records).flatten.length + p.payload.length ≤ (bytesOf S.chunks).length ∧
      0 < p.payload.length := by
  have hcuts := h.cuts
  rw [htask] at hcuts
  constructor
  · have hbytes := congrArg length hcuts.bytes
    rw [← h.all, bytesOf_append, length_append, ← hbytes, flatten_append, todo,
      flatten_cons]
    simp only [length_append]
    omega
  · have hne := hcuts.ne_nil S.valid p.payload (mem_append_right _ mem_cons_self)
    exact length_pos_iff.mpr hne

theorem Progress.moves_turn (hstep : s.turn clock now = some t) (hrunning : t.ended = false) :
    Moves S s (.turn clock now) t := by
  have hblock : s.config.dropNewest = false := by rw [h.config]; exact S.block
  unfold State.turn at hstep
  split at hstep
  · cases hstep
  · next htask =>
    rw [if_neg h.not_ended] at hstep
    split at hstep
    · cases hstep
      refine .works ?_
      simp only [work, htask, rank]
      omega
    · next chunk backlog hbacklog =>
      have honward := onward_processChunk (s := { s with backlog }) hblock hstep hrunning
      refine .works (honward.work_lt rfl rfl ?_)
      rw [hbacklog, htask, length_cons]
      dsimp only
      omega
  · next p htask =>
    rw [if_neg h.not_ended] at hstep
    have hfit := h.payload_fits htask
    by_cases hroom : s.ring.HasRoom p.payload
    · rw [Ring.push_of_room h.noGap hfit hroom] at hstep
      cases hstep
      refine .works ?_
      obtain ⟨hle, hpos⟩ := h.length_le htask
      have hlength : ∀ r : Record, (payloadsOf (s.ring.records ++ [r])).flatten.length =
          (payloadsOf s.ring.records).flatten.length + r.payload.length := fun r => by
        simp [payloadsOf]
      simp only [work, Ring.commit, hlength, rank]
      omega
    · rw [Ring.push_of_full h.noGap h.block hfit hroom] at hstep
      cases hstep
      unfold State.blocked at hrunning ⊢
      dsimp only at hrunning ⊢
      split at hrunning
      · rw [ended_finish] at hrunning
        cases hrunning
      · next hearly =>
        rw [if_neg hearly]
        exact .waits htask hroom rfl rfl trivial
  · next p ok htask =>
    rw [h.returned p ok htask] at hstep
    cases hstep
    have honward := onward_pushNext (s := { s with offset := s.offset + p.payload.length }) hblock
      hrunning
    refine .works (honward.work_lt rfl rfl ?_)
    rw [htask, rank]
    dsimp only
    omega

theorem Progress.works_onData (hstep : s.onData = some t) :
    work S t < work S s := by
  unfold State.onData at hstep
  split at hstep
  · cases hstep
  · next chunk live hlive =>
    rw [if_neg h.not_ended] at hstep
    cases hstep
    have hrank : s.task.drain.rank ≤ s.task.rank + 1 := by
      cases s.task with
      | idle => exact le_refl 1
      | _ => exact le_succ _
    simp only [work, hlive, length_append, length_cons, length_nil]
    omega

theorem Progress.moves (hreading : Reading s op) (hstep : Step s op t)
    (hrunning : t.ended = false) : Moves S s op t := by
  cases op with
  | deliver | deliverLate => exact .works (h.works_onData (onData_of_deliver hstep (by simp)))
  | turn clock now => exact h.moves_turn hstep hrunning
  | reset clock code => exact hreading.elim
  | close clock => exact hreading.elim
  | beat =>
    cases hstep
    exact .consumes rfl le_rfl False.elim id id
  | reclaim n =>
    obtain ⟨hn, ht⟩ := ite_none_right_eq_some.mp hstep
    cases ht
    have hfill := Ring.fill_reclaim hn.2
    refine .consumes rfl ?_ (fun _ => ?_) id id
    · show (s.ring.reclaim n).fill ≤ s.ring.fill
      omega
    · show (s.ring.reclaim n).fill < s.ring.fill
      omega

/-! ## The run gets on -/

/-- The task can go on, unless it is not running. -/
theorem Progress.exists_turn (hidle : s.task ≠ .idle) :
    Enabled Step Op.IsTurn s := by
  suffices hturn : ∃ t, s.turn 0 0 = some t by
    obtain ⟨t, ht⟩ := hturn
    exact ⟨.turn 0 0, t, trivial, ht⟩
  unfold State.turn
  split
  · next htask => exact absurd htask hidle
  · rw [if_neg h.not_ended]
    split
    · exact ⟨_, rfl⟩
    · next chunk backlog _ =>
      unfold State.processChunk
      split
      · exact ⟨_, rfl⟩
      split
      · exact ⟨_, rfl⟩
      · next c hframing =>
        rw [h.config] at hframing
        have hcuts := h.cuts
        rw [hframing] at hcuts
        obtain ⟨frames, _, result, staging, -, -, -, hpush⟩ :=
          FrameCutter.push_returns (S.valid c hframing) hcuts.2 chunk.data
        rw [hpush]
        cases result with
        | ok u => exact ⟨_, rfl⟩
        | error halt => exact ⟨_, rfl⟩
  · rw [if_neg h.not_ended]
    split
    · exact ⟨_, rfl⟩
    · exact ⟨_, rfl⟩
    · exact ⟨_, rfl⟩
  · dsimp only
    split
    · exact ⟨_, rfl⟩
    · exact ⟨_, rfl⟩

/-- A sink that waits for the stream has chunks to get. -/
theorem Progress.exists_deliver (hfin : EndsWithFin S.chunks)
    (hidle : s.task = .idle) : Enabled Step Op.IsDeliver s := by
  obtain ⟨hbacklog, hpaused⟩ := h.idle hidle
  cases hlive : s.live with
  | nil =>
    -- FIN would have been taken
    have hall := h.all
    rw [hbacklog, hlive, append_nil, append_nil] at hall
    obtain ⟨before, last, heq, hlast, -⟩ := hfin
    have hany : taken.any Chunk.fin = true := by
      rw [hall, heq]
      simp [hlast]
    rw [h.fin, hidle] at hany
    cases hany
  | cons chunk live =>
    suffices hdata : ∃ t, s.onData = some t by
      obtain ⟨t, ht⟩ := hdata
      refine ⟨.deliver, t, trivial, ?_⟩
      simp only [Step, exec, hpaused]
      exact ht
    unfold State.onData
    rw [hlive]
    dsimp only
    split
    · exact ⟨_, rfl⟩
    · exact ⟨_, rfl⟩

theorem Progress.exists_reclaim
    (htask : s.task = .pushing p) (hroom : ¬ s.ring.HasRoom p.payload) :
    Enabled Step Op.IsReclaim s := by
  have hfill : s.ring.fill ≠ 0 := fun hempty =>
    hroom (Ring.hasRoom_of_fill hempty (h.payload_fits htask))
  exact ⟨.reclaim 1, { s with ring := s.ring.reclaim 1 }, trivial, if_pos ⟨one_pos, by omega⟩⟩

end

/-- A sink that goes on, with this much to do. -/
def Doing (S : Setting) (w : Nat) (s : State) : Prop :=
  (∃ taken, Progress S s taken) ∧ work S s = w

/-- The sink has ended, or less is left to do. -/
def Ahead (S : Setting) (w : Nat) (s : State) : Prop := s.ended = true ∨ work S s < w

theorem Doing.consumes {w : Nat} {head heartbeat : UInt32} (h : Doing S w s) :
    Doing S w { s with ring := { s.ring with head, heartbeat } } := by
  obtain ⟨⟨taken, h⟩, hwork⟩ := h
  exact ⟨⟨taken, h.consumer head heartbeat⟩, hwork⟩

/-- One moment of a run: the sink is ahead, or nothing but a wait. -/
theorem Doing.step {w : Nat} (h : Doing S w s) (hgood : Good S t) (hreading : Reading s op)
    (hstep : Step s op t) : Ahead S w t ∨ ((∃ taken, Progress S t taken) ∧ Moves S s op t) := by
  obtain ⟨⟨taken, h⟩, -⟩ := h
  rcases hgood with ⟨taken', h'⟩ | ⟨hended, -⟩
  · exact .inr ⟨⟨taken', h'⟩, h.moves hreading hstep h'.running⟩
  · exact .inl (.inl hended)

variable {σ : Trace Step} {w n : Nat}

theorem Ring.HasRoom.consumes {payload : Bytes} {r : Ring} {head heartbeat : UInt32}
    (h : r.HasRoom payload) (hfill : ({ r with head, heartbeat } : Ring).fill ≤ r.fill) :
    ({ r with head, heartbeat } : Ring).HasRoom payload :=
  (Nat.add_le_add_right hfill _).trans h

/-- A task that is not at a push, or has room for it, stays where it is until one of the group
    gets the sink ahead. -/
theorem ahead_of_group (hserved : Served σ) (hgood : ∀ m, Good S (σ.state m)) {A : Op → Prop}
    (hfair : σ.Fair A) (hA : ∀ op, A op → op.IsTurn ∨ op.IsDeliver) {task : Task}
    (henabled : ∀ s taken, Progress S s taken → s.task = task → Enabled Step A s)
    (hn : Doing S w (σ.state n)) (htask : (σ.state n).task = task)
    (hroom : ∀ p, task = .pushing p → (σ.state n).ring.HasRoom p.payload) :
    ∃ m ≥ n, Ahead S w (σ.state m) := by
  refine eventually_while
    (P := fun s => Doing S w s ∧ s.task = task ∧ ∀ p, task = .pushing p → s.ring.HasRoom p.payload)
    hfair hserved.reading (fun _ => 0) ?_ ?_ (fun m _ => hgood m) ⟨hn, htask, hroom⟩
  · rintro s op t ⟨h, htask, hroom⟩ hgood hreading hstep
    rcases h.step hgood hreading hstep with hahead | ⟨-, hmoves⟩
    · exact .inl hahead
    cases hmoves with
    | works hwork => exact .inl (.inr (h.2 ▸ hwork))
    | consumes ht hfill _ hturn hdeliver =>
      subst ht
      exact .inr ⟨⟨h.consumes, htask, fun p hp => (hroom p hp).consumes hfill⟩, le_rfl,
        fun hop => ((hA op hop).elim hturn hdeliver).elim⟩
    | waits hpush hfull _ _ _ => exact absurd (hroom _ (htask.symm.trans hpush)) hfull
  · rintro s ⟨⟨⟨taken, h⟩, -⟩, htask, -⟩
    exact henabled s taken h htask

theorem ahead_of_turn (hserved : Served σ) (hgood : ∀ m, Good S (σ.state m))
    (hn : Doing S w (σ.state n)) (hidle : (σ.state n).task ≠ .idle)
    (hroom : ∀ p, (σ.state n).task = .pushing p → (σ.state n).ring.HasRoom p.payload) :
    ∃ m ≥ n, Ahead S w (σ.state m) :=
  ahead_of_group hserved hgood hserved.turns (fun _ => .inl)
    (fun _ _ h htask => h.exists_turn (htask ▸ hidle)) hn rfl hroom

def Pushes (payload : Bytes) (s : State) : Prop := ∃ p, s.task = .pushing p ∧ p.payload = payload

variable {payload : Bytes}

/-- Without room, the consumer makes some. -/
theorem ahead_of_full (hserved : Served σ) (hgood : ∀ m, Good S (σ.state m))
    (hn : Doing S w (σ.state n)) (hpush : Pushes payload (σ.state n))
    (hroom : ¬ (σ.state n).ring.HasRoom payload) : ∃ m ≥ n, Ahead S w (σ.state m) ∨
      Doing S w (σ.state m) ∧ Pushes payload (σ.state m) ∧ (σ.state m).ring.HasRoom payload := by
  refine eventually_while
    (P := fun s => Doing S w s ∧ Pushes payload s ∧ ¬ s.ring.HasRoom payload)
    (Q := fun s => Ahead S w s ∨ Doing S w s ∧ Pushes payload s ∧ s.ring.HasRoom payload)
    hserved.reclaims hserved.reading (fun s => s.ring.fill) ?_ ?_ (fun m _ => hgood m)
    ⟨hn, hpush, hroom⟩
  · rintro s op t ⟨h, ⟨p, htask, rfl⟩, hroom⟩ hgood hreading hstep
    rcases h.step hgood hreading hstep with hahead | ⟨hprogress, hmoves⟩
    · exact .inl (.inl hahead)
    cases hmoves with
    | works hwork => exact .inl (.inl (.inr (h.2 ▸ hwork)))
    | consumes ht hfill hreclaim _ _ =>
      by_cases hnow : t.ring.HasRoom p.payload
      · subst ht
        exact .inl (.inr ⟨h.consumes, ⟨p, htask, rfl⟩, hnow⟩)
      · subst ht
        exact .inr ⟨⟨h.consumes, ⟨p, htask, rfl⟩, hnow⟩, hfill, hreclaim⟩
    | @waits p₁ p' hpush _ ht hpayload hop =>
      obtain rfl := pushing.inj (htask.symm.trans hpush)
      subst ht
      refine .inr ⟨⟨⟨hprogress, ?_⟩, ⟨p', rfl, hpayload⟩, hroom⟩, le_rfl, fun hop' => ?_⟩
      · rw [← h.2, work, work, htask]
        rfl
      · cases op with
        | turn clock now => exact hop'.elim
        | _ => exact hop.elim
  · rintro s ⟨⟨⟨taken, h⟩, -⟩, ⟨p, htask, rfl⟩, hroom⟩
    exact h.exists_reclaim htask hroom

/-- As long as the sink goes on, it gets ahead. -/
theorem exists_ahead (hserved : Served σ) (hgood : ∀ m, Good S (σ.state m))
    (hfin : EndsWithFin S.chunks) (hn : Doing S w (σ.state n)) :
    ∃ m ≥ n, Ahead S w (σ.state m) := by
  cases htask : (σ.state n).task with
  | idle =>
    -- only the stream can get it ahead
    exact ahead_of_group hserved hgood hserved.delivers (fun _ => .inr)
      (fun _ _ h hidle => h.exists_deliver hfin hidle) hn htask (by simp)
  | looping | returned => exact ahead_of_turn hserved hgood hn (by simp [htask]) (by simp [htask])
  | pushing p =>
    by_cases hroom : (σ.state n).ring.HasRoom p.payload
    · exact ahead_of_turn hserved hgood hn (by simp [htask]) (by simpa [htask] using hroom)
    · obtain ⟨m, hm, hahead | ⟨hdoing, ⟨p', htask', hpayload⟩, hroom⟩⟩ :=
        ahead_of_full hserved hgood hn ⟨p, htask, rfl⟩ hroom
      · exact ⟨m, hm, hahead⟩
      · rw [← hpayload] at hroom
        obtain ⟨k, hk, hahead⟩ :=
          ahead_of_turn hserved hgood hdoing (by simp [htask']) (by simpa [htask'] using hroom)
        exact ⟨k, le_trans hm hk, hahead⟩

theorem exists_ended (hserved : Served σ) (hgood : ∀ m, Good S (σ.state m))
    (hfin : EndsWithFin S.chunks) (n : Nat) : ∃ m ≥ n, (σ.state m).ended = true := by
  induction hwork : work S (σ.state n) using Nat.strongRecOn generalizing n with
  | ind w ih =>
    rcases hgood n with hprogress | ⟨hended, -⟩
    · obtain ⟨m, hm, hended | hless⟩ := exists_ahead hserved hgood hfin ⟨hprogress, hwork⟩
      · exact ⟨m, hm, hended⟩
      · obtain ⟨k, hk, hended⟩ := ih _ hless m rfl
        exact ⟨k, le_trans hm hk, hended⟩
    · exact ⟨n, le_refl n, hended⟩

end

/-- A sink that was opened in block mode, on a stream no payload of which is too large for the
    ring:

    - in every run, whatever the consumer does and whoever interrupts it, nothing that was
      taken from the stream is lost before a terminal record ends the sink;
    - when the stream ends with FIN and consists of whole frames if it is framed, and everyone
      does their part, the sink ends, with all bytes of the stream in its records, contiguous
      offsets, and an EOF behind them. -/
theorem sink_lossless {text : Js → String} {opts : Js} {captured live : List Chunk} {s₀ : State}
    (hopen : openWasmReadSink text opts captured live = .ok s₀)
    (hblock : (opts.get "overflow").isString "drop-newest" = false)
    (hfits : Fits s₀.config.framing s₀.ring.capacity (captured ++ live)) :
    (∀ ops t, Run Step s₀ ops t → Accounted (captured ++ live) t) ∧
      (EndsWithFin (captured ++ live) → WellFormed s₀.config.framing (captured ++ live) →
        ∀ σ : Trace Step, σ.state 0 = s₀ → Served σ →
          (∀ n, (σ.state n).ended = true →
            Delivered s₀.config.kind (captured ++ live) (σ.state n).ring.records) ∧
          ∃ n, (σ.state n).ended = true) := by
  obtain ⟨S, hconfig, hchunks, hstart⟩ := progress_of_open hopen hblock hfits
  rw [← hconfig, ← hchunks]
  constructor
  · intro ops t hrun
    exact (hrun.invariant (P := Inv S) (fun _ _ _ h hstep => h.step hstep)
      (.inl ⟨[], hstart⟩)).accounted
  · intro hfin hformed σ hzero hserved
    have hgood : ∀ m, Good S (σ.state m) := fun m =>
      @invariant _ _ _ (σ.restricted hserved.reading) (Good S)
        (fun _ _ _ h hstep => h.step hfin hformed hstep.1 hstep.2) 0 m (zero_le m)
        (.inl ⟨[], hzero ▸ hstart⟩)
    refine ⟨fun n hended => ?_, ?_⟩
    · rcases hgood n with ⟨taken, h⟩ | ⟨-, hdelivered⟩
      · rw [h.running] at hended
        cases hended
      · exact hdelivered
    · obtain ⟨n, -, hended⟩ := exists_ended hserved hgood hfin 0
      exact ⟨n, hended⟩

/-- A stream of two chunks: one was captured, the other is delivered. -/
def twoChunks : State where
  config := ⟨none, false, 5000, 0⟩
  ring := { capacity := ⟨2 ^ 22, ⟨22, rfl⟩, by decide, by decide⟩, dropNewest := false }
  backlog := [⟨[1], false⟩]
  task := .looping
  live := [⟨[2, 3], true⟩]
  paused := true

/-- The task takes a chunk, pushes it, goes on behind the push and finds the backlog empty,
    twice; then the consumer frees the three records. -/
def twoChunksScript (n : Nat) : Op :=
  [.turn 0 0, .turn 0 0, .turn 0 0, .turn 0 0, .deliver, .turn 0 0, .turn 0 0, .turn 0 0, .turn 0 0,
    .reclaim 40, .reclaim 40, .reclaim 32].getD n (.turn 0 0)

theorem Task.eq_idle {task : Task} (h : task.rank = 0) : task = .idle := by
  cases task with
  | idle => rfl
  | _ => cases h

theorem sink_lossless_two_chunks :
    openWasmReadSink (fun _ => "") .undefined [⟨[1], false⟩] [⟨[2, 3], true⟩] = .ok twoChunks ∧
      ∃ σ : Trace Step, σ.state 0 = twoChunks ∧ Served σ ∧
        ∃ n, Delivered .data [⟨[1], false⟩, ⟨[2, 3], true⟩] (σ.state n).ring.records := by
  have hopen : openWasmReadSink (fun _ => "") .undefined [⟨[1], false⟩] [⟨[2, 3], true⟩] =
      .ok twoChunks := rfl
  -- behind the script the sink has ended, and nobody can do anything
  have hidle : (following exec twoChunksScript twoChunks 12).task = .idle :=
    eq_idle (by decide +kernel)
  have hfill : (following exec twoChunksScript twoChunks 12).ring.fill = 0 := by decide +kernel
  have hafter : ∀ n ≥ 12, twoChunksScript n = .turn 0 0 := fun n hn => by
    rw [twoChunksScript, getD_eq_getElem?_getD, getElem?_eq_none hn, getD_none]
  have hsame : ∀ n ≥ 12, (exec (following exec twoChunksScript twoChunks 12)
      (twoChunksScript n)).getD (following exec twoChunksScript twoChunks 12) =
      following exec twoChunksScript twoChunks 12 := by
    intro n hn
    rw [hafter n hn]
    simp only [exec]
    rfl
  have hmeets : ∀ n, Reading (following exec twoChunksScript twoChunks n) (twoChunksScript n) := by
    have hscript : ∀ n < 12,
        Reading (following exec twoChunksScript twoChunks n) (twoChunksScript n) := by
      decide +kernel
    intro n
    rcases lt_or_ge n 12 with hn | hn
    · exact hscript n hn
    · rw [following_stay hsame hn, hafter n hn, Reading]
      exact fun w hw => by cases hw
  let σ : Trace Step := follow (fun _ _ _ h => h) twoChunksScript twoChunks
  have hserved : Served σ := by
    refine ⟨follow_meets hmeets, follow_fair_of_stay hsame ?_,
      follow_fair_of_stay hsame ?_, follow_fair_of_stay hsame ?_⟩
    · rintro ⟨op, t, hop, hstep⟩
      cases op with
      | reclaim n => grind [Step, exec]
      | _ => exact hop
    · rintro ⟨op, t, hop, hstep⟩
      cases op with
      | turn clock now =>
        cases hstep
      | _ => exact hop
    · rintro ⟨op, t, hop, hstep⟩
      cases op with
      | deliver =>
        cases hstep
      | _ => exact hop
  have hfits :
      Fits twoChunks.config.framing twoChunks.ring.capacity [⟨[1], false⟩, ⟨[2, 3], true⟩] := by
    intro chunk hchunk
    rcases mem_cons.mp hchunk with rfl | hchunk
    · decide
    · rcases mem_singleton.mp hchunk with rfl
      decide
  obtain ⟨hdelivered, n, hended⟩ := (sink_lossless hopen rfl hfits).2
    ⟨[⟨[1], false⟩], ⟨[2, 3], true⟩, rfl, rfl, by decide⟩ (fun c hc => by cases hc) σ rfl hserved
  exact ⟨hopen, σ, rfl, hserved, n, hdelivered n hended⟩

theorem turn_of_oversized {s : State} (htask : s.task = .pushing p)
    (hrunning : s.ended = false)
    (hlong : ringMaxPayloadBytes s.ring.capacity.value < p.payload.length) (clock : UInt64)
    (now : ℚ) :
    s.turn clock now = some { s with task := .idle } := by
  unfold turn
  split
  · next hidle => cases htask.symm.trans hidle
  · next hlooping => cases htask.symm.trans hlooping
  · next p' hpushing =>
    obtain rfl := pushing.inj (htask.symm.trans hpushing)
    rw [if_neg (by rw [hrunning]; exact Bool.false_ne_true), Ring.push, if_pos hlong]
  · next hreturned => cases htask.symm.trans hreturned

/-- A sink with the smallest ring, over one captured chunk that ends the stream. -/
def oneChunk (data : Bytes) : State where
  config := ⟨none, false, 5000, 0⟩
  ring := { capacity := ⟨2 ^ 16, ⟨16, rfl⟩, by decide, by decide⟩, dropNewest := false }
  backlog := [⟨data, true⟩]
  task := .looping
  live := []
  paused := true

theorem open_oneChunk {data : Bytes} (hne : data ≠ []) :
    openWasmReadSink (fun _ => "") (.object [("ringBytes", .number 65536)]) [⟨data, true⟩] [] =
      .ok (oneChunk data) := by
  have hpaused : ([⟨data, true⟩] : List Chunk).any (fun chunk => chunk.data ≠ []) = true := by
    simp [hne]
  unfold openWasmReadSink
  rw [hpaused]
  rfl

/-- Two turns of the task, and the chunk is gone. -/
theorem oneChunk_vanishes {data : Bytes} (hlong : ringMaxPayloadBytes (2 ^ 16) < data.length) :
    ∃ t, execAll exec (oneChunk data) [.turn 0 0, .turn 0 0] = some t ∧ t.task = .idle ∧
      t.backlog = [] ∧ t.live = [] ∧ t.ended = false ∧ t.ring.records = [] ∧ t.staging = [] := by
  have hne : data ≠ [] := by
    rintro rfl
    cases hlong
  let pushing : State := { oneChunk data with
    backlog := []
    task :=
      .pushing { timestampNs := 0, payload := data, rest := [], fin := true, heartbeatSeen := 0 } }
  have htaken : exec (oneChunk data) (.turn 0 0) = some pushing := by
    show ({ oneChunk data with backlog := [] } : State).processChunk 0 0 ⟨data, true⟩ = _
    rw [processChunk, if_neg hne]
    rfl
  have hthrown : exec pushing (.turn 0 0) = some { pushing with task := .idle } :=
    turn_of_oversized (s := pushing) rfl rfl hlong 0 0
  refine ⟨{ pushing with task := .idle }, ?_, rfl, rfl, rfl, rfl, rfl, rfl⟩
  rw [execAll, htaken, bind_some, execAll, hthrown, bind_some, execAll]

/-- A chunk of 16353 bytes for a ring of 64 KiB: the push throws, and the whole stream, FIN
    included, is gone, with neither a record nor a terminal record. -/
theorem oversized_chunk_vanishes :
    ∃ s₀ t, openWasmReadSink (fun _ => "") (.object [("ringBytes", .number 65536)])
        [⟨List.replicate 16353 0, true⟩] [] = .ok s₀ ∧
      Run Step s₀ [.turn 0 0, .turn 0 0] t ∧ t.task = .idle ∧ t.ended = false ∧
      t.ring.records = [] ∧ ¬ Accounted [⟨List.replicate 16353 0, true⟩] t := by
  have hlength : (replicate 16353 (0 : UInt8)).length = 16353 := length_replicate
  generalize replicate 16353 (0 : UInt8) = data at hlength
  have hlong : ringMaxPayloadBytes (2 ^ 16) < data.length := by
    rw [hlength]
    decide
  have hne : data ≠ [] := by
    rintro rfl
    cases hlength
  obtain ⟨t, hrun, htask, hbacklog, hlive, hended, hrecords, hstaging⟩ := oneChunk_vanishes hlong
  refine ⟨oneChunk data, t, open_oneChunk hne, .of_execAll (fun _ _ _ h => h) hrun, htask, hended,
    hrecords, ?_⟩
  rintro (⟨hended', -⟩ | ⟨-, -, taken, hall, hbytes, -, -⟩)
  · rw [hended] at hended'
    cases hended'
  · rw [hbacklog, hlive, append_nil, append_nil] at hall
    rw [hrecords, htask, hstaging, hall] at hbytes
    exact hne ((bytesOf_singleton _).symm.trans hbytes.symm)

end WebTransportBun.Sink.Wasm
