/-
  Sink.WasmAccount

  Where the bytes of a stream are while a wasm sink in block mode runs, provided that every
  payload fits into the ring.  What the chunks that were taken have brought is in the committed
  records, in the hands of the push that is under way, or staged as a piece of a frame
  (`Progress`).  A step keeps that, or commits the one terminal record, for a reason
  (`Progress.step`, `Cause`); so in every run nothing is lost before a terminal record says so
  (`Inv.accounted`).
-/

import WebTransportBun.Sink.Fifo
import WebTransportBun.Sink.WasmSink

namespace WebTransportBun.Sink.Wasm

open Library List Option State Chunk

/-! ## The ring in block mode -/

namespace Ring

variable {r : Ring}

theorem fill_reclaim {n : Nat} (h : n ≤ r.fill) : (r.reclaim n).fill = r.fill - n := by
  have hhead := r.head.toNat_lt
  simp only [fill, reclaim, UInt32.toNat_sub, UInt32.toNat_add, UInt32.toNat_ofNat'] at h ⊢
  omega

/-- Whatever is left up to the end of the region, a record costs little more than twice its
    length. -/
theorem costAt_le (skip recLen : Nat) : r.costAt skip recLen ≤ 2 * recLen + recordHeaderBytes := by
  simp only [costAt, DataCapacity.costAt]
  split
  · omega
  split
  · omega
  · omega

def HasRoom (r : Ring) (payload : Bytes) : Prop :=
  r.fill + r.costAt 0 (align8 (recordHeaderBytes + payload.length)) ≤
    r.capacity.value - reservedTailBytes

theorem hasRoom_of_fill {payload : Bytes} (hfill : r.fill = 0)
    (hfit : payload.length ≤ ringMaxPayloadBytes r.capacity.value) : r.HasRoom payload := by
  have hquarter := align8_le_quarter r.capacity hfit
  have hcost := costAt_le (r := r) 0 (align8 (recordHeaderBytes + payload.length))
  have hlower := r.capacity.lower
  simp only [HasRoom, recordHeaderBytes, reservedTailBytes, minDataCapacity] at *
  omega

variable {kind : RecordType} {timestampNs : UInt64} {streamOffset : Nat} {payload : Bytes}

theorem push_of_room (hgap : r.pendingGapRecords = 0)
    (hfit : payload.length ≤ ringMaxPayloadBytes r.capacity.value) (hroom : r.HasRoom payload) :
    r.push kind timestampNs streamOffset payload =
      .ok (.written, r.commit (r.costAt 0 (align8 (recordHeaderBytes + payload.length)))
        ⟨kind.toByte, timestampNs, UInt64.ofNat streamOffset, payload, 0⟩) := by
  have hcost : r.gapCost = 0 := by simp [gapCost, hgap]
  unfold HasRoom at hroom
  simp only [push, hcost, flushPendingGap, hgap, if_true]
  rw [if_neg (by omega), if_neg (by omega)]

theorem push_of_full (hgap : r.pendingGapRecords = 0) (hblock : r.dropNewest = false)
    (hfit : payload.length ≤ ringMaxPayloadBytes r.capacity.value) (hroom : ¬ r.HasRoom payload) :
    r.push kind timestampNs streamOffset payload = .ok (.wouldBlock, r) := by
  have hcost : r.gapCost = 0 := by simp [gapCost, hgap]
  unfold HasRoom at hroom
  simp only [push, hcost, hblock]
  rw [if_neg (by omega), if_pos (by omega)]
  rfl

theorem records_pushTerminal (hactive : r.state = stateActive) (hgap : r.pendingGapRecords = 0)
    (aux : UInt32) : (r.pushTerminal kind timestampNs streamOffset payload aux).records =
      r.records ++ [⟨kind.toByte, timestampNs, UInt64.ofNat streamOffset, payload, aux⟩] := by
  simp [pushTerminal, hactive, hgap, commit]

end Ring

/-! ## What chunks are cut into -/

def bytesOf (chunks : List Chunk) : Bytes := (chunks.map data).flatten

@[simp] theorem bytesOf_append (as bs : List Chunk) :
    bytesOf (as ++ bs) = bytesOf as ++ bytesOf bs := by
  simp [bytesOf]

@[simp] theorem bytesOf_singleton (chunk : Chunk) : bytesOf [chunk] = chunk.data := by
  simp [bytesOf]

/-- The payloads that chunks are cut into, and the piece of a frame behind them. -/
def Cuts (framing : Option FramingConfig) (taken : List Chunk) (payloads : List Bytes)
    (staging : Bytes) : Prop :=
  match framing with
  | none => payloads = (taken.map data).filter (· ≠ []) ∧ staging = []
  | some c => Splits c.IsFrame (bytesOf taken) payloads staging ∧ c.Incomplete staging

/-- No payload of the stream is too large for the ring. -/
def Fits (framing : Option FramingConfig) (capacity : DataCapacity) (chunks : List Chunk) : Prop :=
  match framing with
  | none => ∀ chunk ∈ chunks, chunk.data.length ≤ ringMaxPayloadBytes capacity.value
  | some c => ∀ frames rest, Splits c.IsFrame (bytesOf chunks) frames rest →
      ∀ frame ∈ frames, frame.length ≤ ringMaxPayloadBytes capacity.value

section

variable {framing : Option FramingConfig} {taken : List Chunk} {payloads : List Bytes}
  {staging : Bytes} {chunk : Chunk}

theorem Cuts.start (hvalid : ∀ c, framing = some c → c.Valid) : Cuts framing [] [] [] := by
  cases framing with
  | none => exact ⟨rfl, rfl⟩
  | some c => exact ⟨.nil _ _, FramingConfig.incomplete_nil (hvalid c rfl)⟩

theorem Cuts.bytes (h : Cuts framing taken payloads staging) :
    payloads.flatten ++ staging = bytesOf taken := by
  cases framing with
  | none =>
    obtain ⟨rfl, rfl⟩ := h
    rw [append_nil, bytesOf, flatten_filter_ne_nil]
  | some c => exact h.1.eq.symm

theorem Cuts.fits {capacity : DataCapacity} (h : Cuts framing taken payloads staging)
    (more : List Chunk) (hfits : Fits framing capacity (taken ++ more)) :
    ∀ payload ∈ payloads, payload.length ≤ ringMaxPayloadBytes capacity.value := by
  intro payload hmem
  cases framing with
  | none =>
    obtain ⟨rfl, -⟩ := h
    obtain ⟨chunk, hchunk, rfl⟩ := mem_map.mp (mem_filter.mp hmem).1
    exact hfits chunk (mem_append_left _ hchunk)
  | some c =>
    refine hfits payloads (staging ++ bytesOf more) ?_ payload hmem
    rw [bytesOf_append]
    exact h.1.append _

theorem Cuts.skip (h : Cuts framing taken payloads staging) (hdata : chunk.data = []) :
    Cuts framing (taken ++ [chunk]) payloads staging := by
  cases framing with
  | none => simpa [Cuts, hdata] using h
  | some c => simpa [Cuts, hdata] using h

theorem Cuts.data (h : Cuts none taken payloads staging) (hdata : chunk.data ≠ []) :
    Cuts none (taken ++ [chunk]) (payloads ++ [chunk.data]) staging := by
  obtain ⟨rfl, hstaging⟩ := h
  refine ⟨?_, hstaging⟩
  simp [hdata]

/-- What the cutter makes of a chunk: frames and a piece of one more, or a fault. -/
theorem Cuts.push {c : FramingConfig} (h : Cuts (some c) taken payloads staging) (hv : c.Valid)
    (chunk : Chunk) : ∃ staging' frames result,
      FrameCutter.push c staging chunk.data = some (Pushed.returned ⟨staging', frames, result⟩) ∧
      (result = .ok () → Cuts (some c) (taken ++ [chunk]) (payloads ++ frames) staging') ∧
      ∀ halt, result = .error halt →
        ∃ frames' bad, Splits c.IsFrame (bytesOf (taken ++ [chunk])) frames' bad ∧
          c.Faulty bad := by
  obtain ⟨hsplit, hincomplete⟩ := h
  obtain ⟨frames, rest, result, staging', hmore, hends, hkept, hpush⟩ :=
    FrameCutter.push_returns hv hincomplete chunk.data
  have hall : Splits c.IsFrame (bytesOf (taken ++ [chunk])) (payloads ++ frames) rest := by
    rw [bytesOf_append, bytesOf_singleton]
    exact (hsplit.append chunk.data).trans hmore
  refine ⟨staging', frames, result, hpush, ?_, ?_⟩
  · rintro rfl
    rw [hkept rfl]
    exact ⟨hall, hends⟩
  · rintro halt rfl
    cases halt with
    | fault message => exact ⟨_, rest, hall, hends⟩
    | panic => exact hends.elim

end

/-! ## Records that follow each other -/

/-- The records are of one kind, and each begins where the one before ends. -/
def Lays (kind : RecordType) : Nat → List Record → Prop
  | _, [] => True
  | offset, r :: rs =>
    (r.kind = kind.toByte ∧ r.streamOffset = UInt64.ofNat offset ∧ r.aux = 0) ∧
      Lays kind (offset + r.payload.length) rs

def payloadsOf (rs : List Record) : List Bytes := rs.map Record.payload

@[simp] theorem payloadsOf_append (rs rs' : List Record) :
    payloadsOf (rs ++ rs') = payloadsOf rs ++ payloadsOf rs' := by
  simp [payloadsOf]

variable {kind : RecordType}

theorem Lays.concat {offset : Nat} {rs : List Record} {r : Record}
    (h : Lays kind offset rs) (hkind : r.kind = kind.toByte) (haux : r.aux = 0)
    (hoffset : r.streamOffset = UInt64.ofNat (offset + (payloadsOf rs).flatten.length)) :
    Lays kind offset (rs ++ [r]) := by
  induction rs generalizing offset with
  | nil => exact ⟨⟨hkind, by simpa [payloadsOf] using hoffset, haux⟩, trivial⟩
  | cons r' rs ih =>
    refine ⟨h.1, ih h.2 ?_⟩
    rw [hoffset, add_assoc]
    simp [payloadsOf]

theorem Lays.not_terminal (hkind : kind = .data ∨ kind = .message) {offset : Nat}
    {rs : List Record} (h : Lays kind offset rs) : ∀ r ∈ rs, r.isTerminal = false := by
  induction rs generalizing offset with
  | nil => exact fun r hr => by cases hr
  | cons r' rs ih =>
    intro r hr
    rcases mem_cons.mp hr with rfl | hr
    · rw [Record.isTerminal, h.1.1]
      rcases hkind with rfl | rfl
      · decide
      · decide
    · exact ih h.2 r hr

/-! ## Where the bytes are -/

/-- The payloads that the push under way still has to commit. -/
def Task.todo : Task → List Bytes
  | pushing p => p.payload :: p.rest
  | returned p _ => p.rest
  | _ => []

/-- What is committed and not in the offset yet. -/
def Task.lag : Task → Nat
  | returned p _ => p.payload.length
  | _ => 0

def Task.fin : Task → Bool
  | pushing p => p.fin
  | returned p _ => p.fin
  | _ => false

section

/-- The settings of a sink in block mode, and the chunks of its stream. -/
structure Setting where
  config : Config
  capacity : DataCapacity
  chunks : List Chunk
  valid : ∀ c, config.framing = some c → c.Valid
  block : config.dropNewest = false
  deadline : 0 < config.backpressureTimeoutMs
  fits : Fits config.framing capacity chunks

variable {S : Setting}

/-- The bytes of the chunks that were taken, with `todo` the payloads still to be pushed. -/
structure Carries (S : Setting) (s : State) (taken : List Chunk) (todo : List Bytes) (lag : Nat)
    (fin : Bool) : Prop where
  config : s.config = S.config
  capacity : s.ring.capacity = S.capacity
  block : s.ring.dropNewest = false
  noGap : s.ring.pendingGapRecords = 0
  active : s.ring.state = stateActive
  running : s.ended = false
  all : taken ++ (s.backlog ++ s.live) = S.chunks
  cuts : Cuts S.config.framing taken (payloadsOf s.ring.records ++ todo) s.staging
  lays : Lays S.config.kind 0 s.ring.records
  offset : s.offset + lag = (payloadsOf s.ring.records).flatten.length
  fin : taken.any Chunk.fin = fin

structure Progress (S : Setting) (s : State) (taken : List Chunk) : Prop
    extends Carries S s taken s.task.todo s.task.lag s.task.fin where
  idle : s.task = .idle → s.backlog = [] ∧ s.paused = false
  returned : ∀ p ok, s.task = .returned p ok → ok = true

variable {s t : State} {taken : List Chunk} {todo : List Bytes} {lag : Nat} {fin : Bool}

theorem Carries.congr (h : Carries S s taken todo lag fin) (hconfig : t.config = s.config)
    (hring : t.ring = s.ring) (hended : t.ended = s.ended) (hoffset : t.offset = s.offset)
    (hstaging : t.staging = s.staging) (hqueue : t.backlog ++ t.live = s.backlog ++ s.live) :
    Carries S t taken todo lag fin where
  config := hconfig.trans h.config
  capacity := hring ▸ h.capacity
  block := hring ▸ h.block
  noGap := hring ▸ h.noGap
  active := hring ▸ h.active
  running := hended.trans h.running
  all := by rw [hqueue]; exact h.all
  cuts := by rw [hring, hstaging]; exact h.cuts
  lays := hring ▸ h.lays
  offset := by rw [hring, hoffset]; exact h.offset
  fin := h.fin

theorem Carries.not_ended (h : Carries S s taken todo lag fin) : ¬ s.ended = true := by
  rw [h.running]
  exact Bool.false_ne_true

theorem Carries.looping (h : Carries S s taken [] 0 false) (htask : s.task = .looping) :
    Progress S s taken := by
  refine ⟨?_, fun hidle => ?_, fun p ok hret => ?_⟩
  · rw [htask]
    exact h
  · cases htask.symm.trans hidle
  · cases htask.symm.trans hret

variable {p : PushCall}

theorem Carries.pushing (h : Carries S s taken (p.payload :: p.rest) 0 p.fin)
    (htask : s.task = .pushing p) : Progress S s taken := by
  refine ⟨?_, fun hidle => ?_, fun p ok hret => ?_⟩
  · rw [htask]
    exact h
  · cases htask.symm.trans hidle
  · cases htask.symm.trans hret

/-! ### How a sink ends -/

/-- Why the terminal record `term` is committed in a step from `s`. -/
inductive Cause (S : Setting) (s : State) (op : Op) (term : Record) : Prop
  | fin {taken : List Chunk} {staging : Bytes} {more : List Chunk}
      (hkind : term.kind = RecordType.eof.toByte)
      (hoffset : term.streamOffset = UInt64.ofNat (payloadsOf s.ring.records).flatten.length)
      (hpayload : term.payload = [])
      (hall : taken ++ more = S.chunks) (hfin : taken.any Chunk.fin = true)
      (hcuts : Cuts S.config.framing taken (payloadsOf s.ring.records) staging)
  | fault {taken more : List Chunk} {c : FramingConfig} {frames : List Bytes} {bad : Bytes}
      (hall : taken ++ more = S.chunks) (hframing : S.config.framing = some c)
      (hsplit : Splits c.IsFrame (bytesOf taken) frames bad) (hfault : c.Faulty bad)
  | stalled {clock : UInt64} {now since : ℚ} {p : PushCall} (hop : op = .turn clock now)
      (htask : s.task = .pushing p) (hseen : s.ring.heartbeat = p.heartbeatSeen)
      (hsince : p.stallStarted = some since)
      (hlate : S.config.backpressureTimeoutMs ≤ now - since)
  | interrupted (hop : (∃ clock code, op = .reset clock code) ∨ ∃ clock, op = .close clock)

inductive After (S : Setting) (s : State) (op : Op) (t : State) : Prop
  | goes (taken : List Chunk) (h : Progress S t taken)
  | ends {term : Record} (hended : t.ended = true) (hterm : term.isTerminal = true)
      (hrecords : t.ring.records = s.ring.records ++ [term]) (hcause : Cause S s op term)

theorem State.finish_of_running (s : State) (hrunning : s.ended = false)
    (hactive : s.ring.state = stateActive)
    (hgap : s.ring.pendingGapRecords = 0) (clock : UInt64) (kind : RecordType) (code : String)
    (aux : UInt32) (stopWire : Bool) :
    (s.finish clock kind code aux stopWire).ended = true ∧
      (s.finish clock kind code aux stopWire).ring.records = s.ring.records ++
        [⟨kind.toByte, clock, UInt64.ofNat s.offset,
          if kind = .error then code.toUTF8.data.toList else [], aux⟩] := by
  rw [finish, if_neg (by rw [hrunning]; exact Bool.false_ne_true)]
  exact ⟨rfl, Ring.records_pushTerminal hactive hgap aux⟩

theorem isTerminal_of_kind {r : Record} (h : r.kind = kind.toByte)
    (hkind : kind = .eof ∨ kind = .error ∨ kind = .reset) : r.isTerminal = true := by
  rw [Record.isTerminal, h]
  rcases hkind with rfl | rfl | rfl
  · decide
  · decide
  · decide

variable {op : Op}

theorem Carries.endChunk (h : Carries S s taken [] 0 fin) (s₀ : State)
    (hrecords : s.ring.records = s₀.ring.records) (clock : UInt64) :
    After S s₀ op (s.endChunk clock fin) := by
  have hcuts := h.cuts
  have hoffset := h.offset
  rw [append_nil] at hcuts
  cases hfin : fin with
  | false =>
    rw [hfin] at h
    refine .goes taken (Carries.looping ?_ rfl)
    exact h.congr rfl rfl rfl rfl rfl rfl
  | true =>
    obtain ⟨hended, hrecs⟩ :=
      s.finish_of_running h.running h.active h.noGap clock .eof "" 0 false
    refine .ends hended (isTerminal_of_kind rfl (.inl rfl)) (hrecs.trans (by rw [hrecords])) ?_
    refine .fin rfl ?_ rfl h.all (h.fin.trans hfin) (hrecords ▸ hcuts)
    rw [← hrecords]
    exact congrArg UInt64.ofNat hoffset

theorem Carries.checkIdle (h : Carries S s taken todo lag fin) (clock : UInt64) (now : ℚ) :
    s.checkIdle clock now = s := by
  rw [State.checkIdle, h.config, S.block, if_neg (fun hdrop => by cases hdrop.1)]

theorem Carries.pushNext (h : Carries S s taken todo 0 fin) (s₀ : State)
    (hrecords : s.ring.records = s₀.ring.records) (timestampNs clock : UInt64) (now : ℚ) :
    After S s₀ op (s.pushNext timestampNs clock now fin todo) := by
  cases todo with
  | nil =>
    rw [pushNext, h.checkIdle]
    exact h.endChunk s₀ hrecords clock
  | cons payload rest =>
    refine .goes taken (Carries.pushing ?_ rfl)
    exact h.congr rfl rfl rfl rfl rfl rfl

variable {clock : UInt64} {now : ℚ}

section

variable (h : Progress S s taken)

include h

/-- A chunk is taken from the backlog. -/
theorem Progress.processChunk {backlog : List Chunk} {chunk : Chunk} (hlooping : s.task = .looping)
    (hbacklog : s.backlog = chunk :: backlog)
    (hstep : ({ s with backlog } : State).processChunk clock now chunk = some t) :
    After S s op t := by
  have hcarries := h.toCarries
  rw [hlooping] at hcarries
  have hcuts := hcarries.cuts
  have hoffset := hcarries.offset
  rw [show Task.looping.todo = [] from rfl, append_nil] at hcuts
  have hall : (taken ++ [chunk]) ++ (backlog ++ s.live) = S.chunks := by
    rw [← h.all, hbacklog]
    simp
  have hfin : (taken ++ [chunk]).any fin = chunk.fin := by
    rw [any_append, hcarries.fin]
    simp [Task.fin]
  -- what the sink carries once the chunk has been cut
  have hcut : ∀ staging frames,
      Cuts S.config.framing (taken ++ [chunk]) (payloadsOf s.ring.records ++ frames) staging →
      Carries S { s with backlog, staging } (taken ++ [chunk]) frames 0 chunk.fin :=
    fun staging frames hcuts' =>
      { hcarries with all := hall, cuts := hcuts', fin := hfin, offset := hoffset }
  unfold State.processChunk at hstep
  split at hstep
  · next hdata =>
    cases hstep
    refine (hcut s.staging [] ?_).endChunk s rfl clock
    rw [append_nil]
    exact hcuts.skip hdata
  · next hdata =>
    split at hstep
    · next hframing =>
      cases hstep
      rw [hcarries.config] at hframing
      refine (hcut s.staging [chunk.data] ?_).pushNext s rfl clock clock now
      rw [hframing] at hcuts ⊢
      exact hcuts.data hdata
    · next c hframing =>
      rw [hcarries.config] at hframing
      rw [hframing] at hcuts
      obtain ⟨staging, frames, result, hpush, hok, herror⟩ := hcuts.push (S.valid c hframing) chunk
      rw [hpush] at hstep
      cases result with
      | ok u =>
        cases hstep
        refine (hcut staging frames ?_).pushNext s rfl clock clock now
        rw [hframing]
        exact hok rfl
      | error halt =>
        cases hstep
        obtain ⟨frames', bad, hsplit, hfault⟩ := herror halt rfl
        obtain ⟨hended, hrecords⟩ :=
          ({ s with backlog, staging } : State).finish_of_running h.running h.active h.noGap
            clock .error "E_SINK_FRAME_FAULT" 0 true
        exact .ends hended (isTerminal_of_kind rfl (.inr (.inl rfl))) hrecords
          (.fault hall hframing hsplit hfault)

section

variable (htask : s.task = .pushing p)

include htask

theorem Progress.payload_fits :
    p.payload.length ≤ ringMaxPayloadBytes s.ring.capacity.value := by
  have hcuts := h.cuts
  rw [htask] at hcuts
  rw [h.capacity]
  refine hcuts.fits (s.backlog ++ s.live) (by rw [h.all]; exact S.fits) p.payload ?_
  exact mem_append_right _ mem_cons_self

/-- A push that finds room. -/
theorem Progress.commit (cost : Nat) :
    Progress S { s with
        ring := s.ring.commit cost
          ⟨s.config.kind.toByte, p.timestampNs, UInt64.ofNat s.offset, p.payload, 0⟩
        task := .returned p true } taken := by
  have hcarries := h.toCarries
  rw [htask] at hcarries
  have hoffset : s.offset = (payloadsOf s.ring.records).flatten.length := hcarries.offset
  have hcuts := hcarries.cuts
  refine ⟨{ hcarries with cuts := ?_, lays := ?_, offset := ?_ }, (nofun), ?_⟩
  · show Cuts S.config.framing taken (payloadsOf (s.ring.records ++ [_]) ++ p.rest) s.staging
    rw [payloadsOf_append, append_assoc]
    exact hcuts
  · refine hcarries.lays.concat (by rw [h.config]) rfl ?_
    rw [zero_add, ← hoffset]
  · show s.offset + p.payload.length = (payloadsOf (s.ring.records ++ [_])).flatten.length
    rw [payloadsOf_append, flatten_append, length_append, ← hoffset]
    simp [payloadsOf]
  · rintro p' ok ⟨⟩
    rfl

/-- A round of `pushRecord` that finds the ring full. -/
theorem Progress.blocked : After S s (.turn clock now) (s.blocked p clock now) := by
  have hpos : (0 : ℚ) < S.config.backpressureTimeoutMs := by exact_mod_cast S.deadline
  have hcarries := h.toCarries
  rw [htask] at hcarries
  unfold State.blocked
  dsimp only
  split
  · next hlate =>
    obtain ⟨hended, hrecords⟩ :=
      s.finish_of_running h.running h.active h.noGap clock .error "E_SINK_STALLED" 0 true
    refine .ends hended (isTerminal_of_kind rfl (.inr (.inl rfl))) hrecords ?_
    -- the deadline has passed since an earlier round, without a heartbeat
    rw [h.config, PushCall.stallSince] at hlate
    by_cases hseen : s.ring.heartbeat = p.heartbeatSeen
    · rw [if_pos hseen] at hlate
      cases hsince : p.stallStarted with
      | none =>
        rw [hsince, getD_none, sub_self] at hlate
        exact absurd hlate (not_le.mpr hpos)
      | some since =>
        rw [hsince] at hlate
        exact .stalled rfl htask hseen hsince hlate
    · rw [if_neg hseen, sub_self] at hlate
      exact absurd hlate (not_le.mpr hpos)
  · refine .goes taken (Carries.pushing ?_ rfl)
    exact hcarries.congr rfl rfl rfl rfl rfl rfl

end

theorem Progress.turn (hstep : s.turn clock now = some t) : After S s (.turn clock now) t := by
  unfold State.turn at hstep
  split at hstep
  · cases hstep
  · next htask =>
    rw [if_neg h.not_ended] at hstep
    split at hstep
    · next hbacklog =>
      cases hstep
      have hcarries := h.toCarries
      rw [htask] at hcarries
      refine .goes taken
        ⟨?_, (fun _ => ⟨hbacklog, rfl⟩), fun p ok hret => by cases hret⟩
      exact hcarries.congr rfl rfl rfl rfl rfl rfl
    · next chunk backlog hbacklog => exact h.processChunk htask hbacklog hstep
  · next p htask =>
    rw [if_neg h.not_ended] at hstep
    have hfit := h.payload_fits htask
    by_cases hroom : s.ring.HasRoom p.payload
    · rw [Ring.push_of_room h.noGap hfit hroom] at hstep
      cases hstep
      exact .goes taken (h.commit htask _)
    · rw [Ring.push_of_full h.noGap h.block hfit hroom] at hstep
      cases hstep
      exact h.blocked htask
  · next p ok htask =>
    rw [h.returned p ok htask] at hstep
    cases hstep
    have hcarries := h.toCarries
    rw [htask] at hcarries
    have hcaught :
        Carries S { s with offset := s.offset + p.payload.length } taken p.rest 0 p.fin :=
      { hcarries with offset := hcarries.offset }
    exact hcaught.pushNext s rfl _ _ _

end

theorem Task.drain_spec (task : Task) :
    task.drain.todo = task.todo ∧ task.drain.lag = task.lag ∧ task.drain.fin = task.fin ∧
      task.drain ≠ .idle ∧ ∀ p ok, task.drain = .returned p ok → task = .returned p ok := by
  cases task with
  | idle => exact ⟨rfl, rfl, rfl, (nofun), fun p ok h => by cases h⟩
  | _ => exact ⟨rfl, rfl, rfl, (nofun), fun p ok h => h⟩

theorem Progress.onData (h : Progress S s taken) (hstep : s.onData = some t) :
    Progress S t taken := by
  unfold State.onData at hstep
  split at hstep
  · cases hstep
  · next chunk live hlive =>
    rw [if_neg h.not_ended] at hstep
    cases hstep
    obtain ⟨htodo, hlag, hfin, hidle, hreturned⟩ := s.task.drain_spec
    have hqueue : (s.backlog ++ [chunk]) ++ live = s.backlog ++ s.live := by
      rw [hlive]
      simp
    refine ⟨?_, fun hdrain => absurd hdrain hidle, fun p ok hdrain =>
      h.returned p ok (hreturned p ok hdrain)⟩
    rw [htodo, hlag, hfin]
    exact h.toCarries.congr rfl rfl rfl rfl rfl hqueue

theorem Progress.consumer (h : Progress S s taken) (head heartbeat : UInt32) :
    Progress S { s with ring := { s.ring with head, heartbeat } } taken :=
  ⟨{ h.toCarries with capacity := h.capacity }, h.idle, h.returned⟩

theorem onData_of_deliver (hstep : Step s op t) (hop : op = .deliver ∨ op = .deliverLate) :
    s.onData = some t := by
  rcases hop with rfl | rfl
  · exact (ite_none_left_eq_some.mp hstep).2
  · exact (ite_none_right_eq_some.mp hstep).2

/-- Every step of a sink that goes on leads to such a sink, or to its terminal record. -/
theorem Progress.step (h : Progress S s taken) (hstep : Step s op t) : After S s op t := by
  cases op with
  | deliver | deliverLate => exact .goes taken (h.onData (onData_of_deliver hstep (by simp)))
  | turn clock now => exact h.turn hstep
  | reset clock code =>
    cases hstep
    obtain ⟨hended, hrecords⟩ :=
      s.finish_of_running h.running h.active h.noGap clock .reset "" code false
    exact .ends hended (isTerminal_of_kind rfl (.inr (.inr rfl))) hrecords
      (.interrupted (.inl ⟨clock, code, rfl⟩))
  | close clock =>
    cases hstep
    obtain ⟨hended, hrecords⟩ :=
      s.finish_of_running h.running h.active h.noGap clock .error "E_SINK_CLOSED" 0 true
    exact .ends hended (isTerminal_of_kind rfl (.inr (.inl rfl))) hrecords
      (.interrupted (.inr ⟨clock, rfl⟩))
  | beat =>
    cases hstep
    exact .goes taken (h.consumer _ _)
  | reclaim n =>
    obtain ⟨-, ht⟩ := ite_none_right_eq_some.mp hstep
    cases ht
    exact .goes taken (h.consumer _ _)

/-! ### After the end -/

theorem State.ended_finish (s : State) (clock : UInt64) (kind : RecordType) (code : String)
    (aux : UInt32) (stopWire : Bool) : (s.finish clock kind code aux stopWire).ended = true := by
  unfold finish
  split
  · next hended => exact hended
  · rfl

variable {s : State}

section

variable (h : s.ended = true)

include h

theorem State.finish_of_ended (clock : UInt64) (kind : RecordType)
    (code : String) (aux : UInt32) (stopWire : Bool) : s.finish clock kind code aux stopWire = s :=
  if_pos h

theorem State.checkIdle_of_ended (clock : UInt64) (now : ℚ) :
    (s.checkIdle clock now).ended = true ∧ (s.checkIdle clock now).ring = s.ring := by
  unfold checkIdle
  rw [finish_of_ended h]
  split
  · split
    · split
      · rw [ite_self]
        exact ⟨h, rfl⟩
      · exact ⟨h, rfl⟩
    · exact ⟨h, rfl⟩
  · exact ⟨h, rfl⟩

theorem State.pushNext_of_ended (timestampNs clock : UInt64)
    (now : ℚ) (fin : Bool) (todo : List Bytes) :
    (s.pushNext timestampNs clock now fin todo).ended = true ∧
      (s.pushNext timestampNs clock now fin todo).ring = s.ring := by
  cases todo with
  | cons payload rest => exact ⟨h, rfl⟩
  | nil =>
    obtain ⟨hended, hring⟩ := checkIdle_of_ended h clock now
    simp only [pushNext, endChunk, finish_of_ended hended, ite_self]
    exact ⟨hended, hring⟩

end

theorem ended_stays (hended : s.ended = true) (hstep : Step s op t) :
    t.ended = true ∧ t.ring.records = s.ring.records := by
  have hdata : ∀ t, s.onData = some t → t.ended = true ∧ t.ring.records = s.ring.records := by
    grind [onData]
  cases op with
  | deliver | deliverLate => exact hdata t (onData_of_deliver hstep (by simp))
  | turn clock now => grind [turn, Step, exec, pushNext_of_ended]
  | reset clock | close clock =>
    cases hstep
    rw [finish_of_ended hended]
    exact ⟨hended, rfl⟩
  | beat =>
    cases hstep
    exact ⟨hended, rfl⟩
  | reclaim n =>
    obtain ⟨-, ht⟩ := ite_none_right_eq_some.mp hstep
    cases ht
    exact ⟨hended, rfl⟩

/-! ## Every run -/

def Terminated (rs : List Record) : Prop :=
  ∃ before last, rs = before ++ [last] ∧ last.isTerminal = true ∧
    ∀ r ∈ before, r.isTerminal = false

/-- What the chunks that were taken have brought is recorded, in the hands of the push under way
    or staged as a piece of a frame; or a terminal record has ended the sink. -/
def Accounted (chunks : List Chunk) (s : State) : Prop :=
  (s.ended = true ∧ Terminated s.ring.records) ∨
    (s.ended = false ∧ Lays s.config.kind 0 s.ring.records ∧
      ∃ taken, taken ++ (s.backlog ++ s.live) = chunks ∧
        (payloadsOf s.ring.records).flatten ++ (s.task.todo.flatten ++ s.staging) = bytesOf taken ∧
        (s.config.framing = none → s.staging = []) ∧ taken.any Chunk.fin = s.task.fin)

theorem Progress.accounted (h : Progress S s taken) : Accounted S.chunks s := by
  refine .inr ⟨h.running, ?_, taken, h.all, ?_, ?_, h.fin⟩
  · rw [h.config]
    exact h.lays
  · rw [← h.cuts.bytes, flatten_append, append_assoc]
  · intro hframing
    have hcuts := h.cuts
    rw [← h.config, hframing] at hcuts
    exact hcuts.2

theorem kind_data_or_message (config : Config) : config.kind = .data ∨ config.kind = .message := by
  unfold Config.kind
  split
  · exact .inr rfl
  · exact .inl rfl

/-- A sink that goes on, or one that ended with a terminal record. -/
def Inv (S : Setting) (s : State) : Prop :=
  (∃ taken, Progress S s taken) ∨ (s.ended = true ∧ Terminated s.ring.records)

theorem Inv.step (h : Inv S s) (hstep : Step s op t) : Inv S t := by
  rcases h with ⟨taken, h⟩ | ⟨hended, hterminated⟩
  · cases h.step hstep with
    | goes taken' h' => exact .inl ⟨taken', h'⟩
    | ends hended hterm hrecords _ =>
      exact .inr ⟨hended, _, _, hrecords, hterm,
        h.lays.not_terminal (kind_data_or_message S.config)⟩
  · obtain ⟨hended', hrecords⟩ := ended_stays hended hstep
    exact .inr ⟨hended', hrecords ▸ hterminated⟩

theorem Inv.accounted (h : Inv S s) : Accounted S.chunks s := by
  rcases h with ⟨taken, h⟩ | hterminated
  · exact h.accounted
  · exact .inl hterminated

/-- The sink that is opened, before it has taken a chunk. -/
theorem progress_of_open {text : Js → String} {opts : Js} {captured live : List Chunk}
    (hopen : openWasmReadSink text opts captured live = .ok s)
    (hblock : (opts.get "overflow").isString "drop-newest" = false)
    (hfits : Fits s.config.framing s.ring.capacity (captured ++ live)) :
    ∃ S : Setting, S.config = s.config ∧ S.chunks = captured ++ live ∧ Progress S s [] := by
  obtain ⟨_, hvalidate, hopen⟩ := bind_eq_ok hopen
  obtain ⟨ringBytes, -, hopen⟩ := bind_eq_ok hopen
  obtain ⟨framing, hframing, hopen⟩ := bind_eq_ok hopen
  obtain ⟨ring, hring, hopen⟩ := bind_eq_ok hopen
  cases hopen
  have hvalid : ∀ c, framing = some c → c.Valid := by
    rintro c rfl
    unfold openCutter at hframing
    split at hframing
    · cases hframing
    · obtain ⟨c', hnew, hframing⟩ := bind_eq_ok hframing
      cases hframing
      exact (FrameCutter.valid_of_new hnew).1
  have hring : ring.dropNewest = (opts.get "overflow").isString "drop-newest" ∧
      ring.pendingGapRecords = 0 ∧ ring.state = stateActive ∧ ring.records = [] := by
    unfold Ring.new at hring
    split at hring
    · cases hring
      exact ⟨rfl, rfl, rfl, rfl⟩
    · cases hring
  obtain ⟨hdrop, hgap, hactive, hrecords⟩ := hring
  obtain ⟨htask, hnext⟩ :
      (∀ p ok, (if captured = [] then Task.idle else .looping) ≠ .returned p ok) ∧
      (if captured = [] then Task.idle else .looping).todo = [] ∧
      (if captured = [] then Task.idle else .looping).lag = 0 ∧
      (if captured = [] then Task.idle else .looping).fin = false := by
    split
    · exact ⟨fun p ok hret => (by cases hret), rfl, rfl, rfl⟩
    · exact ⟨fun p ok hret => (by cases hret), rfl, rfl, rfl⟩
  obtain ⟨htodo, hlag, hfin⟩ := hnext
  have hdeadline : 0 < timeoutMs opts "backpressureTimeoutMs" defaultBackpressureTimeoutMs :=
    backpressureTimeoutMs_pos hvalidate (by decide)
  refine ⟨⟨_, _, captured ++ live, hvalid, hblock, hdeadline, hfits⟩, rfl, rfl, ⟨?_, ?_, ?_⟩⟩
  · refine ⟨rfl, rfl, hdrop.trans hblock, hgap, hactive, rfl, rfl, ?_, ?_, ?_, hfin.symm⟩
    · dsimp only
      rw [hrecords, htodo]
      exact Cuts.start hvalid
    · dsimp only
      rw [hrecords]
      trivial
    · dsimp only
      rw [hrecords, hlag]
      rfl
  · grind
  · exact fun p ok hret => absurd hret (htask p ok)

end

end WebTransportBun.Sink.Wasm
