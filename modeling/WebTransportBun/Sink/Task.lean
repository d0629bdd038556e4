/-
  Sink.Task

  `run_sink_task` of `stream_sink.rs`: read a chunk, deframe it, push its frames as MESSAGE
  records, and end with one terminal record.  The ring is one that never fills, so a push
  writes its record unless the payload is too large for any ring of its size.

  The frames of a chunk are pushed after all of it was deframed.  A chunk that holds whole
  frames in front of a faulty header therefore loses them, and what a consumer sees depends
  on how the transport cut the stream (`fault_hides_frames`).  It does not depend on that
  exactly when no header wraps and none behind a whole frame is faulty
  (`framed_output_chunking_iff`).
-/

import WebTransportBun.Sink.Deframer
import WebTransportBun.Sink.Ring

namespace WebTransportBun.Sink

open Library List FramingConfig

inductive TaskState
  | eof
  | error
  | reset
  | stalled
  | closed
  deriving DecidableEq, Repr

/-- How the read loop ends: the terminal kind, its code, `aux`, and the final task state. -/
structure Outcome where
  kind : RecordType
  code : String
  aux : UInt32
  state : TaskState
  deriving DecidableEq, Repr

structure SinkTaskConfig where
  /-- `None` pushes the chunks themselves, as DATA records. -/
  framing : Option FramingConfig
  idleTimeout : Option Nat
  baseOffset : UInt64
  /-- `max_payload_bytes` of the ring. -/
  maxPayload : Nat
  deriving DecidableEq, Repr

/-- A chunk, with the clock, the consumer's heartbeat and the time of the idle check. -/
structure Arrival where
  bytes : Bytes
  timestampNs : UInt64
  heartbeat : Nat
  now : Nat
  deriving DecidableEq, Repr

inductive ReadEnd
  | stopped
  | finished
  | wire (kind : RecordType) (code : String) (aux : UInt32)
  deriving DecidableEq, Repr

def ReadEnd.outcome : ReadEnd → Outcome
  | stopped => ⟨.error, "E_SINK_CLOSED", 0, .closed⟩
  | finished => ⟨.eof, "", 0, .eof⟩
  | wire kind code aux => ⟨kind, code, aux, if kind = .reset then .reset else .error⟩

structure TaskVars where
  staging : Bytes := []
  offset : UInt64
  /-- The heartbeat last seen, and when it last changed. -/
  idleWatch : Option (Nat × Nat) := none
  deriving DecidableEq, Repr

/-- Push payloads in order.  An oversized one ends the task; the offset has moved past it. -/
def pushAll (maxPayload : Nat) (kind : RecordType) (timestampNs : UInt64) :
    UInt64 → List Bytes → List Record × UInt64 × Option Outcome
  | offset, [] => ([], offset, none)
  | offset, payload :: payloads =>
    let offset' := offset + UInt64.ofNat payload.length
    if maxPayload < payload.length then
      ([], offset', some ⟨.error, "E_SINK_INTERNAL", 0, .error⟩)
    else
      let (records, last, outcome) := pushAll maxPayload kind timestampNs offset' payloads
      (⟨kind.toByte, timestampNs, offset, payload, 0⟩ :: records, last, outcome)

/-- The drop-newest liveness check: `none` when the heartbeat has been frozen too long. -/
def idleCheck (idleTimeout : Option Nat) (watch : Option (Nat × Nat)) (a : Arrival) :
    Option (Option (Nat × Nat)) :=
  match idleTimeout with
  | none => some watch
  | some idle =>
    match watch with
    | some (seen, since) =>
      if seen = a.heartbeat then if idle ≤ a.now - since then none else some watch
      else some (some (a.heartbeat, a.now))
    | none => some (some (a.heartbeat, a.now))

/-- What one chunk hands to the ring, and what stays staged: all frames of the chunk, or a
    fault and no frame of it.  `none` is a call that does not return, or panics. -/
def deframe (fuel : Nat) (framing : Option FramingConfig) (staging chunk : Bytes) :
    Option (Option (Bytes × List Bytes)) :=
  match framing with
  | none => some (some (staging, [chunk]))
  | some c =>
    match pushBytes c fuel staging chunk with
    | none => none
    | some ⟨staging, frames, .ok ()⟩ => some (some (staging, frames))
    | some ⟨_, _, .error (.fault _)⟩ => some none
    | some ⟨_, _, .error .panic⟩ => none

def SinkTaskConfig.recordKind (cfg : SinkTaskConfig) : RecordType :=
  if cfg.framing.isSome then .message else .data

/-- The read loop: the records pushed, the offset behind them, and the outcome. -/
def taskLoop (fuel : Nat) (cfg : SinkTaskConfig) (last : ReadEnd) :
    TaskVars → List Arrival → Option (List Record × UInt64 × Outcome)
  | s, [] => some ([], s.offset, last.outcome)
  | s, a :: arrivals =>
    match deframe fuel cfg.framing s.staging a.bytes with
    | none => none
    | some none => some ([], s.offset, ⟨.error, "E_SINK_FRAME_FAULT", 0, .error⟩)
    | some (some (staging, payloads)) =>
      match pushAll cfg.maxPayload cfg.recordKind a.timestampNs s.offset payloads with
      | (records, offset, some outcome) => some (records, offset, outcome)
      | (records, offset, none) =>
        match idleCheck cfg.idleTimeout s.idleWatch a with
        | none => some (records, offset, ⟨.error, "E_SINK_STALLED", 0, .stalled⟩)
        | some idleWatch =>
          match taskLoop fuel cfg last ⟨staging, offset, idleWatch⟩ arrivals with
          | none => none
          | some (more, offset, outcome) => some (records ++ more, offset, outcome)

/-- The terminal record: only an ERROR carries its code. -/
def Outcome.terminal (o : Outcome) (timestampNs offset : UInt64) : Record where
  kind := o.kind.toByte
  timestampNs
  streamOffset := offset
  payload := if o.kind = .error then o.code.toUTF8.data.toList.take maxTerminalPayloadBytes else []
  aux := o.aux

/-- `run_sink_task`: the records it commits, the terminal one last, and its final state. -/
def runSinkTask (fuel : Nat) (cfg : SinkTaskConfig) (arrivals : List Arrival) (last : ReadEnd)
    (endNs : UInt64) : Option (List Record × TaskState) :=
  match taskLoop fuel cfg last { offset := cfg.baseOffset } arrivals with
  | none => none
  | some (records, offset, outcome) =>
    some (records ++ [outcome.terminal endNs offset], outcome.state)

def TaskCommits (cfg : SinkTaskConfig) (arrivals : List Arrival) (last : ReadEnd) (endNs : UInt64)
    (out : List Record × TaskState) : Prop :=
  ∃ fuel, runSinkTask fuel cfg arrivals last endNs = some out

/-! ## What does not depend on the cutting -/

def Record.untimed (r : Record) : Record := { r with timestampNs := 0 }

def streamOf (arrivals : List Arrival) : Bytes := (arrivals.map Arrival.bytes).flatten

@[simp] theorem streamOf_cons (a : Arrival) (arrivals : List Arrival) :
    streamOf (a :: arrivals) = a.bytes ++ streamOf arrivals := rfl

def Alive (idleTimeout : Option Nat) : Option (Nat × Nat) → List Arrival → Prop
  | _, [] => True
  | watch, a :: arrivals =>
    ∃ watch', idleCheck idleTimeout watch a = some watch' ∧ Alive idleTimeout watch' arrivals

/-- In whatever chunks the stream arrives, and whenever the task looks at its clock, it commits
    these records, timestamps apart, and ends in this state. -/
def Yields (cfg : SinkTaskConfig) (stream : Bytes) (last : ReadEnd) (records : List Record)
    (state : TaskState) : Prop :=
  ∀ (arrivals : List Arrival) (endNs : UInt64), streamOf arrivals = stream →
    Alive cfg.idleTimeout none arrivals →
    ∃ out, TaskCommits cfg arrivals last endNs out ∧ out.1.map Record.untimed = records ∧
      out.2 = state

theorem pushAll_append (maxPayload : Nat) (kind : RecordType) (timestampNs offset : UInt64)
    (ps qs : List Bytes) :
    pushAll maxPayload kind timestampNs offset (ps ++ qs) =
      match pushAll maxPayload kind timestampNs offset ps with
      | (records, offset, some outcome) => (records, offset, some outcome)
      | (records, offset, none) =>
        let (more, offset, outcome) := pushAll maxPayload kind timestampNs offset qs
        (records ++ more, offset, outcome) := by
  induction ps generalizing offset with
  | nil => rfl
  | cons p ps ih =>
    simp only [cons_append, pushAll]
    split
    · rfl
    · grind

theorem pushAll_untimed (maxPayload : Nat) (kind : RecordType) (timestampNs offset : UInt64)
    (ps : List Bytes) : pushAll maxPayload kind 0 offset ps =
      ((pushAll maxPayload kind timestampNs offset ps).1.map Record.untimed,
        (pushAll maxPayload kind timestampNs offset ps).2) := by
  induction ps generalizing offset with
  | nil => rfl
  | cons p ps ih =>
    simp only [pushAll]
    split
    · rfl
    · rw [ih]
      rfl

theorem pushAll_fits (maxPayload : Nat) (kind : RecordType) (timestampNs offset : UInt64)
    {ps : List Bytes} (hfits : ∀ p ∈ ps, p.length ≤ maxPayload) :
    ∃ records offset', pushAll maxPayload kind timestampNs offset ps =
      (records, offset', none) := by
  induction ps generalizing offset with
  | nil => exact ⟨[], offset, rfl⟩
  | cons p ps ih =>
    obtain ⟨records, offset', hrest⟩ := ih (offset + UInt64.ofNat p.length)
      fun q hq => hfits q (mem_cons_of_mem p hq)
    have hp := hfits p mem_cons_self
    exact ⟨_, offset', by rw [pushAll, if_neg (by omega), hrest]⟩

/-- What the task commits for `frames`, timestamps apart, when it then ends with `outcome`. -/
def expected (cfg : SinkTaskConfig) (outcome : Outcome) (offset : UInt64) (frames : List Bytes) :
    List Record × UInt64 × Outcome :=
  match pushAll cfg.maxPayload .message 0 offset frames with
  | (records, offset, some outcome) => (records, offset, outcome)
  | (records, offset, none) => (records, offset, outcome)

theorem expected_append (cfg : SinkTaskConfig) (outcome : Outcome) (offset : UInt64)
    (ps qs : List Bytes) :
    expected cfg outcome offset (ps ++ qs) =
      match pushAll cfg.maxPayload .message 0 offset ps with
      | (records, offset, some outcome) => (records, offset, outcome)
      | (records, offset, none) =>
        let (more, offset, outcome) := expected cfg outcome offset qs
        (records ++ more, offset, outcome) := by
  unfold expected
  rw [pushAll_append]
  generalize pushAll cfg.maxPayload .message 0 offset ps = res
  obtain ⟨records, offset, _ | _⟩ := res
  · grind
  · rfl

/-! ## Fuel -/

theorem deframe_mono {n m : Nat} {framing : Option FramingConfig} {staging chunk : Bytes}
    {r : Option (Bytes × List Bytes)} (h : deframe n framing staging chunk = some r)
    (hle : n ≤ m) : deframe m framing staging chunk = some r := by
  cases framing with
  | none => exact h
  | some c =>
    simp only [deframe] at h ⊢
    cases hpush : pushBytes c n staging chunk with
    | none =>
      rw [hpush] at h
      cases h
    | some p =>
      rw [pushBytes, pushLoops_mono hpush hle]
      rwa [hpush] at h

variable {arrivals : List Arrival}

theorem taskLoop_mono {n m : Nat} {cfg : SinkTaskConfig} {last : ReadEnd} {s : TaskVars}
    {r : List Record × UInt64 × Outcome}
    (h : taskLoop n cfg last s arrivals = some r) (hle : n ≤ m) :
    taskLoop m cfg last s arrivals = some r := by
  induction arrivals generalizing s r with
  | nil => exact h
  | cons a arrivals ih =>
    rw [taskLoop] at h ⊢
    split at h
    · cases h
    · next hdeframe => grind [deframe_mono]
    · next hdeframe =>
      rw [deframe_mono hdeframe hle]
      simp only
      split at h
      · exact h
      · grind

/-! ## Chunks that arrive -/

/-- Chunks that arrive with the consumer's heartbeat going on. -/
def arriving : Nat → List Bytes → List Arrival
  | _, [] => []
  | beat, chunk :: chunks => ⟨chunk, 0, beat, 0⟩ :: arriving (beat + 1) chunks

/-- The heartbeat last seen is an older one. -/
def Beats (beat : Nat) (watch : Option (Nat × Nat)) : Prop := ∀ w ∈ watch, w.1 < beat

theorem beats_none (beat : Nat) : Beats beat none := fun _ hw => by cases hw

theorem idleCheck_arriving (idle : Option Nat) {watch : Option (Nat × Nat)} {beat : Nat}
    (h : Beats beat watch) (chunk : Bytes) :
    ∃ watch', idleCheck idle watch ⟨chunk, 0, beat, 0⟩ = some watch' ∧ Beats (beat + 1) watch' := by
  match idle, watch with
  | none, watch => exact ⟨watch, rfl, fun w hw => (h w hw).trans (Nat.lt_succ_self beat)⟩
  | some _, none =>
    exact ⟨some (beat, 0), rfl, fun w hw => by cases hw; exact Nat.lt_succ_self beat⟩
  | some _, some (seen, since) =>
    have hold : seen < beat := h (seen, since) rfl
    exact ⟨some (beat, 0), by simp only [idleCheck, if_neg hold.ne],
      fun w hw => by cases hw; exact Nat.lt_succ_self beat⟩

theorem alive_arriving (idle : Option Nat) {watch : Option (Nat × Nat)} {beat : Nat}
    (h : Beats beat watch) (chunks : List Bytes) : Alive idle watch (arriving beat chunks) := by
  induction chunks generalizing watch beat with
  | nil => trivial
  | cons chunk chunks ih =>
    obtain ⟨watch', hidle, hbeats⟩ := idleCheck_arriving idle h chunk
    exact ⟨watch', hidle, ih hbeats⟩

theorem streamOf_arriving (beat : Nat) (chunks : List Bytes) :
    streamOf (arriving beat chunks) = chunks.flatten := by
  induction chunks generalizing beat with
  | nil => rfl
  | cons chunk chunks ih => rw [arriving, streamOf_cons, ih, flatten_cons]

/-! ## The output of a stream -/

section

variable {c : FramingConfig} {cfg : SinkTaskConfig} {last : ReadEnd}

/-- How the task ends, by the result of the deframer's last push. -/
def ReadEnd.after (last : ReadEnd) : Except Halt Unit → Outcome
  | .ok () => last.outcome
  | .error _ => ⟨.error, "E_SINK_FRAME_FAULT", 0, .error⟩

variable (last) in
/-- The task on a stream whose only faulty header, if any, is its first: it commits the frames of
    the stream and then ends, with the fault or as the read loop does. -/
theorem taskLoop_expected (hv : c.Valid) (hcfg : cfg.framing = some c) {staging : Bytes}
    (offset : UInt64) {watch : Option (Nat × Nat)} (hstaging : c.Incomplete staging)
    (hwrap : c.NoWrap (staging ++ streamOf arrivals))
    (hfirst : c.FaultFirst (staging ++ streamOf arrivals))
    (halive : Alive cfg.idleTimeout watch arrivals) :
    ∃ frames rest result fuel records,
      Splits c.IsFrame (staging ++ streamOf arrivals) frames rest ∧ Ends c rest result ∧
      taskLoop fuel cfg last ⟨staging, offset, watch⟩ arrivals =
        some (records, (expected cfg (last.after result) offset frames).2) ∧
      records.map Record.untimed = (expected cfg (last.after result) offset frames).1 := by
  have hkind : cfg.recordKind = .message := by simp [SinkTaskConfig.recordKind, hcfg]
  induction arrivals generalizing staging offset watch with
  | nil =>
    exact ⟨[], staging, .ok (), 0, [], ⟨by simp [streamOf], by simp⟩, hstaging, rfl, rfl⟩
  | cons a arrivals ih =>
    obtain ⟨watch', hidle, halive'⟩ := halive
    rw [streamOf_cons, ← append_assoc] at hwrap hfirst ⊢
    obtain ⟨frames, rest, result, staging', hsplit, hends, hkept, n, hpush⟩ :=
      pushBytes_returns hv hstaging hwrap.of_append
    -- The rest of the stream, from what is staged now.
    have hmore := hsplit.append (streamOf arrivals)
    match result, hends with
    | .error (.fault message), hfault =>
      obtain rfl := hfirst.of_append frames rest hsplit hfault
      refine ⟨[], rest ++ streamOf arrivals, .error (.fault message), n, [], hmore, hfault.append,
        ?_, rfl⟩
      simp only [taskLoop, hcfg, deframe, hpush]
      rfl
    | .ok (), hinc =>
      obtain rfl := hkept rfl
      have hdeframe : deframe n (some c) staging a.bytes = some (some (staging', frames)) := by
        rw [deframe, hpush]
      generalize hpushed : pushAll cfg.maxPayload .message a.timestampNs offset frames = pushed
      have hzero := pushAll_untimed cfg.maxPayload .message a.timestampNs offset frames
      rw [hpushed] at hzero
      obtain ⟨records, offset', outcome⟩ := pushed
      obtain ⟨frames', rest', result, m, records', hsplit', hends', hloop, hrecords⟩ :=
        ih offset' hinc (hwrap.of_splits hmore) (hfirst.of_splits hmore) halive'
      refine ⟨frames ++ frames', rest', result, max n m, ?_⟩
      rw [expected_append, hzero]
      have hdeframe' := deframe_mono hdeframe (le_max_left n m)
      have hloop' := taskLoop_mono hloop (le_max_right n m)
      cases outcome with
      | some outcome =>
        refine ⟨records, hmore.trans hsplit', hends', ?_, rfl⟩
        rw [taskLoop, hcfg, hdeframe']
        simp only [hkind, hpushed]
      | none =>
        refine ⟨records ++ records', hmore.trans hsplit', hends', ?_, ?_⟩
        · rw [taskLoop, hcfg, hdeframe']
          simp only [hkind, hpushed, hidle, hloop']
        · rw [map_append, hrecords]

theorem Ends.after_eq {rest : Bytes} {result result' : Except Halt Unit} (h : Ends c rest result)
    (h' : Ends c rest result') : last.after result = last.after result' := by
  match result, h with
  | .error (.fault _), hfault =>
    obtain ⟨message, rfl⟩ := h'.eq_fault hfault
    rfl
  | .ok (), hinc =>
    match result', h' with
    | .ok (), _ => rfl
    | .error (.fault _), hfault => exact absurd (hinc hfault.1).1 hfault.2

theorem exists_yields (hv : c.Valid) (hcfg : cfg.framing = some c) {stream : Bytes}
    (hwrap : c.NoWrap stream) (hfirst : c.FaultFirst stream) :
    ∃ records state, Yields cfg stream last records state := by
  -- The frames of the stream are the ones that come out when it arrives in one chunk.
  have hlive : Alive cfg.idleTimeout none (arriving 0 [stream]) :=
    alive_arriving _ (beats_none 0) _
  obtain ⟨frames, rest, result, fuel, -, hsplit, hends, -⟩ :=
    taskLoop_expected last hv hcfg cfg.baseOffset (incomplete_nil hv)
      (by simpa [streamOf_arriving] using hwrap) (by simpa [streamOf_arriving] using hfirst) hlive
  rw [streamOf_arriving, flatten_singleton] at hsplit
  generalize hout : expected cfg (last.after result) cfg.baseOffset frames = out
  refine ⟨out.1 ++ [out.2.2.terminal 0 out.2.1], out.2.2.state,
    fun arrivals endNs hstream halive => ?_⟩
  subst hstream
  obtain ⟨frames', rest', result', n, records, hsplit', hends', hloop, hrecords⟩ :=
    taskLoop_expected last hv hcfg cfg.baseOffset (incomplete_nil hv) hwrap hfirst halive
  obtain ⟨rfl, rfl⟩ := hends.unique hends' hsplit hsplit'
  rw [← hends.after_eq hends', hout] at hloop hrecords
  refine ⟨(records ++ [out.2.2.terminal endNs out.2.1], out.2.2.state),
    ⟨n, by rw [runSinkTask, hloop]⟩, ?_, rfl⟩
  rw [map_append, hrecords]
  rfl

/-! ## Chunks on which it depends

The other direction needs the task to look at a header with and without whole frames before it
in its chunk, and at a wrapped header with and without a staged piece of it. -/

/-- The loop ends on these chunks, after these records and with this terminal one, timestamps
    apart. -/
def Loops (cfg : SinkTaskConfig) (last : ReadEnd) (s : TaskVars) (beat : Nat)
    (chunks : List Bytes) (records : List Record) : Prop :=
  ∃ fuel r, taskLoop fuel cfg last s (arriving beat chunks) = some r ∧
    (r.1 ++ [r.2.2.terminal 0 r.2.1]).map Record.untimed = records

variable {records : List Record}

theorem Yields.loops {stream : Bytes} {state : TaskState} (h : Yields cfg stream last records state)
    (chunks : List Bytes) (hchunks : chunks.flatten = stream) :
    Loops cfg last ⟨[], cfg.baseOffset, none⟩ 0 chunks records := by
  obtain ⟨out, ⟨fuel, hout⟩, hrecords, -⟩ := h (arriving 0 chunks) 0
    ((streamOf_arriving 0 chunks).trans hchunks) (alive_arriving _ (beats_none 0) chunks)
  unfold runSinkTask at hout
  split at hout
  · cases hout
  · next r hloop =>
    cases hout
    exact ⟨fuel, _, hloop, hrecords⟩

section

variable {staging staging' bytes : Bytes} {offset : UInt64} {watch : Option (Nat × Nat)}
  {beat : Nat} {frames chunks : List Bytes}

/-- A chunk of frames that fit the ring: they are committed in front of what comes of the
    other chunks. -/
theorem Loops.chunk (hcfg : cfg.framing = some c)
    (h : Loops cfg last ⟨staging, offset, watch⟩ beat (bytes :: chunks) records)
    (hbeats : Beats beat watch) (hret : PushReturns c staging bytes ⟨staging', frames, .ok ()⟩)
    (hfits : ∀ frame ∈ frames, frame.length ≤ cfg.maxPayload) :
    ∃ watch' more, Beats (beat + 1) watch' ∧
      Loops cfg last ⟨staging', (pushAll cfg.maxPayload .message 0 offset frames).2.1, watch'⟩
        (beat + 1) chunks more ∧
      records = (pushAll cfg.maxPayload .message 0 offset frames).1 ++ more := by
  obtain ⟨n, r, hloop, rfl⟩ := h
  obtain ⟨m, hpush⟩ := hret
  obtain ⟨watch', hidle, hbeats'⟩ := idleCheck_arriving cfg.idleTimeout hbeats bytes
  have huntimed := pushAll_untimed cfg.maxPayload .message 0 offset frames
  obtain ⟨committed, offset', hpushed⟩ := pushAll_fits cfg.maxPayload .message 0 offset hfits
  have hkind : cfg.recordKind = .message := by simp [SinkTaskConfig.recordKind, hcfg]
  have hloop' := taskLoop_mono hloop (le_max_left n m)
  have hpush' := pushLoops_mono hpush (le_max_right n m)
  rw [arriving, taskLoop, hcfg, deframe, pushBytes, hpush'] at hloop'
  simp only [hkind, hpushed, hidle] at hloop' huntimed ⊢
  split at hloop'
  · cases hloop'
  · next more hmore =>
    cases hloop'
    refine ⟨watch', _, hbeats', ⟨_, _, hmore, rfl⟩, ?_⟩
    rw [append_assoc, map_append, ← (Prod.mk.inj huntimed).1]

/-- A chunk that faults: whatever frames it holds, only the terminal record is committed. -/
theorem Loops.fault (hcfg : cfg.framing = some c)
    (h : Loops cfg last ⟨staging, offset, watch⟩ beat (bytes :: chunks) records) {message : String}
    (hret : PushReturns c staging bytes ⟨staging', frames, .error (.fault message)⟩) :
    records = [(last.after (.error (.fault message))).terminal 0 offset] := by
  obtain ⟨n, r, hloop, rfl⟩ := h
  obtain ⟨m, hpush⟩ := hret
  have hloop' := taskLoop_mono hloop (le_max_left n m)
  have hpush' := pushLoops_mono hpush (le_max_right n m)
  rw [arriving, taskLoop, hcfg, deframe, pushBytes, hpush'] at hloop'
  cases hloop'
  rfl

/-- Frames that arrive together come out together. -/
theorem pushBytes_frames (hv : c.Valid) (hmax : c.maxFrameBytes < usizeModulus)
    (hframes : ∀ frame ∈ frames, c.IsFrame frame) :
    PushReturns c [] frames.flatten ⟨[], frames, .ok ()⟩ := by
  have hsplit : Splits c.IsFrame frames.flatten frames [] := ⟨by simp, hframes⟩
  have hnil := incomplete_nil hv
  have hwrap : c.NoWrap frames.flatten := by
    intro frames' rest hsplit' hlen
    by_contra hbeyond
    exact hnil.not_faulty hsplit hsplit' ⟨hlen, fun hbounds => by have := hbounds.2; omega⟩
  obtain ⟨frames', rest, result, staging', hsplit', hends, hkept, hret⟩ :=
    pushBytes_returns hv hnil hwrap
  match result, hends with
  | .error (.fault _), hfault => exact absurd hfault (hnil.not_faulty hsplit hsplit')
  | .ok (), hinc =>
    obtain ⟨rfl, rfl⟩ := hinc.ends.unique hnil.ends hsplit' hsplit
    rwa [hkept rfl] at hret

/-! ### A header that wraps -/

variable {rest header : Bytes} {total : Nat}

theorem pushBytes_short (hlen : bytes.length < c.headerBytes) :
    PushReturns c [] bytes ⟨bytes, [], .ok ()⟩ := by
  refine ⟨1, ?_⟩
  rw [pushBytes, pushLoops, loop_completeStaged_nil]
  simp only [loop_cutWhole_short c.headerLen 0 [] [] hlen, nil_append]

/-- A header of which one byte is staged is completed in the first loop, and the whole staging
    becomes the frame, however short the frame is said to be. -/
theorem pushBytes_completed (hlen : header.length = c.headerBytes) (hone : 1 < c.headerBytes)
    (hok : c.headerLen header = .ok total) (htotal : total < c.headerBytes) :
    PushReturns c (header.take 1) (header.drop 1) ⟨[], [header], .ok ()⟩ := by
  have htake : (header.take 1).length = 1 := by rw [length_take]; omega
  have hne : header.take 1 ≠ [] := fun hnil => by rw [hnil] at htake; cases htake
  have hstage := PushState.stage_split header [] hone.le
  rw [take_of_length_le hlen.le, drop_of_length_le hlen.le] at hstage
  have hcomplete : completeStaged c.headerLen c.headerBytes ⟨header.take 1, header.drop 1, []⟩ =
      .inl ⟨header, [], []⟩ := by
    simp only [completeStaged, hstage]
    rw [if_neg hne, if_pos (by omega), if_neg (by omega)]
  have hemit : completeStaged c.headerLen c.headerBytes ⟨header, [], []⟩ =
      .inl ⟨[], [], [header]⟩ := by
    have hheader : header ≠ [] := fun hnil => by rw [hnil, length_nil] at hlen; omega
    simp only [completeStaged, hok, PushState.stage, take_nil, drop_nil, append_nil, nil_append]
    rw [if_neg hheader, if_neg (by omega), if_neg (by omega)]
  refine ⟨3, ?_⟩
  rw [pushBytes, pushLoops,
    loop_next hcomplete (loop_next hemit (loop_completeStaged_nil _ _ 0 _ _))]
  have hnone : ([] : Bytes).length < c.headerBytes := by rw [length_nil]; omega
  simp only [loop_cutWhole_short c.headerLen 2 [] [header] hnone, append_nil]

/-- The same header with nothing staged: the second loop puts out a piece of it. -/
theorem pushBytes_piece {p : Pushed} (hlen : c.headerBytes ≤ rest.length)
    (hok : c.headerLen rest = .ok total) (htotal : total < c.headerBytes)
    (hret : PushReturns c [] rest p) : ∃ more, p.out = rest.take total :: more := by
  obtain ⟨fuel, hret⟩ := hret
  cases fuel with
  | zero => cases hret
  | succ fuel =>
    rw [pushBytes, pushLoops, loop_completeStaged_nil] at hret
    have hcut : cutWhole c.headerLen c.headerBytes ⟨[], rest, []⟩ =
        .inl ⟨[], rest.drop total, [rest.take total]⟩ := by
      simp only [cutWhole, hok, nil_append]
      rw [if_neg (by omega), if_neg (by omega)]
    have hkeeps :
        ∀ r, loop (cutWhole c.headerLen c.headerBytes) (fuel + 1) ⟨[], rest, []⟩ = some r →
        ∃ more, r.1.out = rest.take total :: more := by
      intro r hloop
      rw [loop, hcut] at hloop
      refine loop_keeps (I := fun s => ∃ more, s.out = rest.take total :: more)
        (J := fun r => ∃ more, r.1.out = rest.take total :: more) ?_ ?_ ⟨[], rfl⟩ hloop
      · grind [cutWhole]
      · grind [cutWhole]
    split at hret
    · cases hret
    · next hloop => grind
    · next hloop => grind

/-- The first record that comes of a wrapped header which is in one chunk is no message with the
    whole header. -/
theorem Loops.head_ne (hcfg : cfg.framing = some c) (hfits : c.headerBytes ≤ cfg.maxPayload)
    (h : Loops cfg last ⟨[], offset, watch⟩ beat [rest] records)
    (hlen : c.headerBytes ≤ rest.length)
    (hok : c.headerLen rest = .ok total) (htotal : total < c.headerBytes) (more : List Record) :
    records ≠ ⟨RecordType.message.toByte, 0, offset, rest.take c.headerBytes, 0⟩ :: more := by
  obtain ⟨n, r, hloop, rfl⟩ := h
  have hkind : cfg.recordKind = .message := by simp [SinkTaskConfig.recordKind, hcfg]
  rw [arriving, taskLoop, hcfg, deframe] at hloop
  cases hpush : pushBytes c n [] rest with
  | none =>
    rw [hpush] at hloop
    cases hloop
  | some p =>
    obtain ⟨pieces, hout⟩ := pushBytes_piece hlen hok htotal ⟨n, hpush⟩
    obtain ⟨staging, out, result⟩ := p
    subst hout
    match result with
    | .error .panic =>
      rw [hpush] at hloop
      cases hloop
    | .error (.fault message) =>
      rw [hpush] at hloop
      cases hloop
      intro heq
      cases heq
    | .ok () =>
      have hpiece : ¬ cfg.maxPayload < (rest.take total).length := by rw [length_take]; omega
      have hhead :
          ∃ tail, r.1 = ⟨RecordType.message.toByte, 0, offset, rest.take total, 0⟩ :: tail := by
        simp only [hpush, hkind, pushAll, if_neg hpiece] at hloop
        generalize pushAll cfg.maxPayload .message 0 _ pieces = pushed at hloop
        obtain ⟨tail, offset', _ | outcome⟩ := pushed
        · simp only [arriving] at hloop
          split at hloop <;> cases hloop <;> exact ⟨_, rfl⟩
        · cases hloop
          exact ⟨_, rfl⟩
      obtain ⟨tail, hhead⟩ := hhead
      intro heq
      rw [hhead] at heq
      have hsame : rest.take total = rest.take c.headerBytes :=
        congrArg Record.payload (cons.inj heq).1
      have hlens := congrArg List.length hsame
      rw [length_take, length_take] at hlens
      omega

end

section

variable {stream : Bytes} {state : TaskState}

theorem noWrap_of_yields (hv : c.Valid) (hcfg : cfg.framing = some c)
    (hfits : c.maxFrameBytes ≤ cfg.maxPayload) (hmax : c.maxFrameBytes < usizeModulus)
    (h : Yields cfg stream last records state) : c.NoWrap stream := by
  intro frames rest hsplit hlen
  by_contra hwrap
  rw [not_lt] at hwrap
  have htake : (rest.take c.headerBytes).length = c.headerBytes := by
    rw [length_take, min_eq_left hlen]
  obtain ⟨total, htotal, hok⟩ := frameLen_wrapped hv htake hwrap
  have hone := one_lt_headerBytes hv hwrap
  have hheader := hv.header_le_max
  have hframes := pushBytes_frames hv hmax hsplit.all
  have hfit : ∀ frame ∈ frames, frame.length ≤ cfg.maxPayload := fun frame hframe =>
    (hsplit.all frame hframe).bounds.2.trans hfits
  -- The header with nothing staged, and the header in two chunks.
  obtain ⟨watch, more, -, hwhole, hrecords⟩ :=
    (h.loops [frames.flatten, rest] (by simpa using hsplit.eq.symm)).chunk hcfg
      (beats_none 0) hframes hfit
  obtain ⟨watch', more', hbeats, hpieces, hrecords'⟩ :=
    (h.loops [frames.flatten, (rest.take c.headerBytes).take 1,
      (rest.take c.headerBytes).drop 1, rest.drop c.headerBytes] (by
        rw [hsplit.eq]
        simp only [flatten_cons, flatten_nil, append_nil]
        rw [← append_assoc (take 1 _), take_append_drop, take_append_drop])).chunk hcfg
      (beats_none 0) hframes hfit
  obtain ⟨watch', more'', hbeats, hpieces, rfl⟩ := hpieces.chunk hcfg hbeats
    (pushBytes_short (by rw [length_take]; omega)) (by simp)
  obtain ⟨-, tail, -, -, rfl⟩ := hpieces.chunk hcfg hbeats
    (pushBytes_completed htake hone (by rwa [headerLen, take_take, min_self]) htotal)
    (by simp only [mem_singleton, forall_eq]; omega)
  rw [hrecords] at hrecords'
  refine hwhole.head_ne hcfg (by omega) hlen hok htotal tail ?_
  rw [append_cancel_left hrecords']
  have hfit' : ¬ cfg.maxPayload < (rest.take c.headerBytes).length := by omega
  simp only [pushAll, if_neg hfit']
  rfl

theorem faultFirst_of_yields (hv : c.Valid) (hcfg : cfg.framing = some c)
    (hfits : c.maxFrameBytes ≤ cfg.maxPayload) (hmax : c.maxFrameBytes < usizeModulus)
    (hwrap : c.NoWrap stream) (h : Yields cfg stream last records state) : c.FaultFirst stream := by
  intro frames rest hsplit hfault
  -- The whole stream in one chunk loses the frames; they are committed if they arrive first.
  have hwhole : c.NoWrap ([] ++ stream) := hwrap
  obtain ⟨frames', rest', result, staging', hsplit', hends, -, hret⟩ :=
    pushBytes_returns hv (incomplete_nil hv) hwhole
  obtain ⟨-, rfl⟩ := hends.unique hfault.ends hsplit' hsplit
  obtain ⟨message, rfl⟩ := hends.eq_fault hfault
  have hlost := (h.loops [stream] (by simp)).fault hcfg hret
  obtain ⟨watch, more, -, -, hrecords⟩ :=
    (h.loops [frames.flatten, rest'] (by simpa using hsplit.eq.symm)).chunk hcfg
      (beats_none 0) (pushBytes_frames hv hmax hsplit.all) fun frame hframe =>
        (hsplit.all frame hframe).bounds.2.trans hfits
  rw [hlost] at hrecords
  cases frames with
  | nil => rfl
  | cons frame frames =>
    have hfit : ¬ cfg.maxPayload < frame.length :=
      not_lt.mpr ((hsplit.all frame mem_cons_self).bounds.2.trans hfits)
    simp only [pushAll, if_neg hfit] at hrecords
    cases hrecords

end

end

/-- What the task commits for a framed stream, timestamps apart, and the state in which it ends
    are the same for every way in which the stream arrives in chunks iff no header at a frame
    boundary of it denotes a total beyond `usize` and none behind a whole frame is faulty.  The
    framing is validated, its length field lies within `usize`, and a frame fits the ring, as
    `resolve_sink_options` demands. -/
theorem framed_output_chunking_iff {cfg : SinkTaskConfig} {c : FramingConfig}
    (hcfg : cfg.framing = some c) (hvalid : c.validate = .ok ())
    (hoff : c.lengthOffset + c.lengthWidth < usizeModulus)
    (hfits : c.maxFrameBytes ≤ cfg.maxPayload) (hmax : c.maxFrameBytes < usizeModulus)
    (stream : Bytes) (last : ReadEnd) :
    (∃ records state, Yields cfg stream last records state) ↔
      c.NoWrap stream ∧ c.FaultFirst stream := by
  have hv := valid_of_validate hvalid hoff
  constructor
  · rintro ⟨records, state, hyields⟩
    have hwrap := noWrap_of_yields hv hcfg hfits hmax hyields
    exact ⟨hwrap, faultFirst_of_yields hv hcfg hfits hmax hwrap hyields⟩
  · rintro ⟨hwrap, hfirst⟩
    exact exists_yields hv hcfg hwrap hfirst

def byteSink : SinkTaskConfig := ⟨some byteFraming, none, 0, 992⟩

/-- Whatever the chunks, the task commits the same for a stream that begins with a faulty header;
    for a frame of one byte in front of one it does not. -/
theorem framed_output_chunking_iff_two_streams :
    (∃ records state, Yields byteSink [0, 7, 8] .finished records state) ∧
      ¬ ∃ records state, Yields byteSink [1, 0] .finished records state := by
  have hiff := framed_output_chunking_iff (show byteSink.framing = some byteFraming from rfl)
    (by decide) (by decide) (by decide) (by decide)
  refine ⟨(hiff [0, 7, 8] .finished).mpr ⟨byteFraming_noWrap _, ?_⟩, fun h => ?_⟩
  · -- No frame is in front of the first header.
    intro frames rest hsplit _
    cases frames with
    | nil => rfl
    | cons frame frames =>
      have hfault : byteFraming.Faulty [0, 7, 8] := ⟨by decide, by decide⟩
      have hpre : frame <+: [0, 7, 8] := ⟨frames.flatten ++ rest, by rw [hsplit.eq]; simp⟩
      exact absurd hpre (hfault.not_isPrefix (hsplit.all frame mem_cons_self))
  · have hsplit : Splits byteFraming.IsFrame [1, 0] [[1]] [0] := by
      refine ⟨rfl, ?_⟩
      simp only [mem_singleton, forall_eq]
      exact ⟨by decide, by decide⟩
    exact absurd (((hiff [1, 0] .finished).mp h).2 _ _ hsplit ⟨by decide, by decide⟩) (by simp)

/-- A frame of one byte followed by a header that claims no length at all: in two chunks
    the frame is committed, in one chunk it is not, and the terminal offset differs. -/
theorem fault_hides_frames :
    TaskCommits byteSink [⟨[1], 10, 0, 0⟩, ⟨[0], 11, 0, 0⟩] .finished 20
        ([⟨RecordType.message.toByte, 10, 0, [1], 0⟩,
          (⟨.error, "E_SINK_FRAME_FAULT", 0, .error⟩ : Outcome).terminal 20 1], .error) ∧
      TaskCommits byteSink [⟨[1, 0], 10, 0, 0⟩] .finished 20
        ([(⟨.error, "E_SINK_FRAME_FAULT", 0, .error⟩ : Outcome).terminal 20 0], .error) :=
  ⟨⟨2, rfl⟩, ⟨2, rfl⟩⟩

end WebTransportBun.Sink
