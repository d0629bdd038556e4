/-
  WebTransportBun.Facade.WasmShutdown

  `WasmEndpoint` in `packages/webtransport/src/backend-wasm.ts`: the pump, the guards of its
  operations, and how it is closed.

  All of it is synchronous.  Only four pieces of code that are not the endpoint's run while it
  is at work: `udp.send`, an event's callback, `onError`, and whoever called it in the first
  place.  Each may call any operation of the endpoint.  The pump is never entered twice, so
  that an operation called from inside of it is over at once, and the stack of calls is never
  deeper than a caller, a pump and one of the first three.  `WasmTransportManager.close` is a
  caller too: it calls `beginClose`, releases what it retains, and calls `finishClose`.

  Of the wasm module we keep which functions are called and which packets a call makes
  available to `wt_poll_transmits`.  The waiters of `waitForProgress` resume as microtasks,
  when no call is on the stack, and are left out.
-/

import Mathlib.Data.List.Infix
import WebTransportBun.Library.Memory
import WebTransportBun.Library.Run
import WebTransportBun.Library.Text

namespace WebTransportBun.Facade.WasmShutdown

open Library List Option

/-! ## The records of `wt_poll_transmits` -/

/-- A packet and where it goes, the text of a socket address. -/
structure Transmit where
  destination : String
  packet : List UInt8
  destination_fits : destination.toUTF8.data.toList.length < 256
  destination_plain : destination.toList.head? ≠ some byteOrderMark
  packet_fits : packet.length < 2 ^ 31
  deriving DecidableEq

abbrev Datagram := String × List UInt8

def Transmit.datagram (t : Transmit) : Datagram := (t.destination, t.packet)

/-- `[dest_len:u8][dest utf8][pkt_len:u32-le][pkt]`. -/
def record (t : Transmit) : List UInt8 :=
  let destination := t.destination.toUTF8.data.toList
  UInt8.ofNat destination.length :: (destination ++ (leBytes 4 t.packet.length ++ t.packet))

def records (ts : List Transmit) : List UInt8 := ts.flatMap record

/-- One round of the loop in `pumpOnce`: the next datagram, and what is left. -/
def nextRecord : List UInt8 → Option (Datagram × List UInt8)
  | [] => none
  | destLen :: out =>
    let dest := textDecode (out.take destLen.toNat)
    let out := out.drop destLen.toNat
    if out.length < 4 then none
    else
      -- the shifts give this number below 2 ^ 31
      let len := leValue (out.take 4)
      let out := out.drop 4
      some ((dest, out.take len), out.drop len)

theorem nextRecord_record (t : Transmit) (rest : List UInt8) :
    nextRecord (record t ++ rest) = some (t.datagram, rest) := by
  obtain ⟨destination, packet, hfits, hplain, hpacket⟩ := t
  have hlen : (UInt8.ofNat destination.toUTF8.data.toList.length).toNat =
      destination.toUTF8.data.toList.length := by
    rw [UInt8.toNat_ofNat', Nat.mod_eq_of_lt hfits]
  have hvalue : leValue (leBytes 4 packet.length) = packet.length :=
    leValue_leBytes (lt_trans hpacket (by decide))
  have hfour : (leBytes 4 packet.length).length = 4 := length_leBytes 4 _
  simp only [record, cons_append, nextRecord, hlen, append_assoc, take_left,
    drop_left]
  rw [(textDecode_toUTF8_eq_iff destination).mpr hplain,
    take_left' hfour, drop_left' hfour, hvalue, take_left, drop_left]
  rfl

theorem records_eq_nil {ts : List Transmit} (h : records ts = []) : ts = [] := by
  cases ts with
  | nil => rfl
  | cons t ts => cases h

/-! ## The endpoint -/

/-- The functions of the wasm module, called with the endpoint's `eid`. -/
inductive WtFunction
  | recvPacket | connect | sendDatagram | takeLastError | maxDatagramSize | openStream
  | openSession | closeSession | drainSession | connHas0Rtt | connPeer | connStats | updateTls
  | tlsSnapshot | connAccepted0Rtt | enable0Rtt | dumpClientTicket | importClientTicket
  | streamWrite | streamPause | streamResume | streamFinish | streamReset | streamStop
  | releaseHostReservation | governorSnapshot | closeConn | pollTransmits | pollEvent
  | nextTimeoutMs | handleTimeout | closeAll | closeEndpoint
  deriving DecidableEq, Repr

inductive Entry
  /-- A call, with the packets that it made available. -/
  | call (f : WtFunction) (made : List Transmit)
  /-- A datagram handed to `udp.send`. -/
  | handed (datagram : Datagram)
  deriving DecidableEq

def handed (log : List Entry) : List Datagram :=
  log.filterMap fun
    | .handed datagram => some datagram
    | .call .. => none

/-- What is left to do when the pump returns. -/
inductive After
  | nothing
  /-- `close`, which has called `beginClose` -/
  | close
  /-- `finishClose`, which has called `beginClose` -/
  | finish
  deriving DecidableEq, Repr

inductive Stage
  /-- Before a round of `pumpOnce`. -/
  | poll
  /-- Between two records; `out` is not yet read. -/
  | sending (out : List UInt8)
  | inSend (out : List UInt8)
  /-- Before `wt_poll_event`. -/
  | events
  | inEvent
  | inError
  /-- At `reschedule`. -/
  | tail
  deriving DecidableEq, Repr

inductive Control
  | idle
  | pump (stage : Stage) (after : After)
  deriving DecidableEq, Repr

def Control.hostRuns : Control → Bool
  | .idle | .pump (.inSend _) _ | .pump .inEvent _ | .pump .inError _ => true
  | .pump .poll _ | .pump (.sending _) _ | .pump .events _ | .pump .tail _ => false

def Control.inEvent : Control → Bool
  | .pump .inEvent _ => true
  | .idle | .pump .poll _ | .pump (.sending _) _ | .pump (.inSend _) _ | .pump .events _
  | .pump .inError _ | .pump .tail _ => false

/-- What was polled and is not yet handed over. -/
def Control.out : Control → List UInt8
  | .pump (.sending out) _ | .pump (.inSend out) _ => out
  | .idle | .pump .poll _ | .pump .events _ | .pump .inEvent _ | .pump .inError _
  | .pump .tail _ => []

/-- An operation with a `closed` guard.  Functions that an older module may lack come with
    whether this one has them. -/
inductive Api
  | onPacket | onWritable | pump | connect | sendDatagram | maxDatagramSize | openStream
  | openSession | closeSession | drainSession (present : Bool) | has0Rtt
  | connPeer (present : Bool) | connStats (present : Bool) | updateTls (present : Bool)
  | tlsSnapshot (present : Bool) | accepted0Rtt | enable0Rtt | dumpClientTicket
  | importClientTicket | streamWrite | streamPause | streamResume | streamFinish | streamReset
  | streamStop | releaseHostReservation (positive : Bool) | takeLastError | governorSnapshot
  | closeConn
  deriving DecidableEq, Repr

/-- What the operation calls; `ok` is whether its first call succeeded. -/
def Api.calls (ok : Bool) : Api → List WtFunction
  | .onPacket => [.recvPacket]
  | .onWritable | .pump => []
  | .connect => [.connect]
  | .sendDatagram => if ok then [.sendDatagram] else [.sendDatagram, .takeLastError]
  | .maxDatagramSize => [.maxDatagramSize]
  | .openStream => [.openStream]
  | .openSession => [.openSession]
  | .closeSession => [.closeSession]
  | .drainSession present => if present then [.drainSession] else []
  | .has0Rtt => [.connHas0Rtt]
  | .connPeer present => if present then [.connPeer] else []
  | .connStats present => if present then [.connStats] else []
  | .updateTls present => if present then [.updateTls] else []
  | .tlsSnapshot present => if present then [.tlsSnapshot] else []
  | .accepted0Rtt => [.connAccepted0Rtt]
  | .enable0Rtt => [.enable0Rtt]
  | .dumpClientTicket => [.dumpClientTicket]
  | .importClientTicket => [.importClientTicket]
  | .streamWrite => if ok then [.streamWrite] else [.streamWrite, .takeLastError]
  | .streamPause => [.streamPause]
  | .streamResume => [.streamResume]
  | .streamFinish => [.streamFinish]
  | .streamReset => [.streamReset]
  | .streamStop => [.streamStop]
  | .releaseHostReservation positive => if positive then [.releaseHostReservation] else []
  | .takeLastError => [.takeLastError]
  | .governorSnapshot => [.governorSnapshot]
  | .closeConn => [.closeConn]

def Api.pumps (ok : Bool) : Api → Bool
  | .onPacket | .onWritable | .pump | .connect | .sendDatagram | .openStream | .openSession
  | .closeSession | .streamWrite | .streamResume | .streamFinish | .streamReset | .streamStop
  | .closeConn => true
  | .drainSession present => present
  | .releaseHostReservation positive => positive && ok
  | .maxDatagramSize | .has0Rtt | .connPeer _ | .connStats _ | .updateTls _ | .tlsSnapshot _
  | .accepted0Rtt | .enable0Rtt | .dumpClientTicket | .importClientTicket | .streamPause
  | .takeLastError | .governorSnapshot => false

structure State where
  closed : Bool
  closing : Bool
  pumpAgain : Bool
  /-- Whether a timer is set. -/
  scheduled : Bool
  /-- Where the endpoint stands; `pumping` is that it is not idle. -/
  control : Control
  /-- The packets that the module has available. -/
  outbox : List Transmit
  log : List Entry

inductive Op
  | api (f : Api) (ok : Bool) (made : List Transmit)
  | timeout (made : List Transmit)
  | beginClose (made : List Transmit)
  | finishClose (made : List Transmit)
  | close (made : List Transmit)
  /-- The pump up to its next call of other code or of the module: whether there is an event
      and whether there is a timeout, should it ask. -/
  | run (made : List Transmit) (event timeout : Bool)
  /-- The code that the pump called returns or throws. -/
  | ret
  | throw

namespace State

def init : State := ⟨false, false, false, false, .idle, [], []⟩

def wt (s : State) (f : WtFunction) (made : List Transmit) : State :=
  { s with outbox := s.outbox ++ made, log := s.log ++ [.call f made] }

/-- Calls one after the other; the packets come with the first. -/
def wtAll (s : State) : List WtFunction → List Transmit → State
  | [], _ => s
  | f :: fs, made => (s.wt f made).wtAll fs []

def pump (s : State) (after : After) : State :=
  if s.closed then s
  else
    match s.control with
    | .pump .. => { s with pumpAgain := true }
    | .idle => { s with control := .pump .poll after }

def api (s : State) (f : Api) (ok : Bool) (made : List Transmit) : State :=
  if s.closed then s
  else if f.pumps ok then (s.wtAll (f.calls ok) made).pump .nothing
  else s.wtAll (f.calls ok) made

def timeout (s : State) (made : List Transmit) : State :=
  if s.closed then { s with scheduled := false }
  else ({ s with scheduled := false }.wt .handleTimeout made).pump .nothing

def beginClose (s : State) (made : List Transmit) (after : After) : State :=
  if s.closed || s.closing then s
  else ({ s with closing := true }.wt .closeAll made).pump after

/-- `finishClose` after its `beginClose`. -/
def free (s : State) : State :=
  { s with
    closed := true
    scheduled := false
    outbox := []
    log := s.log ++ [.call .closeEndpoint []] }

def finishClose (s : State) (made : List Transmit) : State :=
  if s.closed then s
  else if s.closing then s.free
  else
    match s.control with
    | .idle => s.beginClose made .finish
    -- a pump inside a pump returns at once
    | .pump .. => (s.beginClose made .nothing).free

def close (s : State) (made : List Transmit) : State :=
  if s.closed || s.closing then s.finishClose []
  else
    match s.control with
    | .idle => s.beginClose made .close
    | .pump .. => (s.beginClose made .nothing).finishClose []

def pumpDone (s : State) (after : After) : State :=
  let s := { s with control := .idle }
  match after with
  | .nothing => s
  | .close => s.finishClose []
  -- no second look at `closed`
  | .finish => s.free

/-- The end of a round: again, or back to the caller. -/
def roundDone (s : State) (after : After) : State :=
  if s.pumpAgain && !s.closed then { s with control := .pump .poll after } else s.pumpDone after

def reschedule (s : State) (made : List Transmit) (timeout : Bool) : State :=
  if s.closed then { s with scheduled := false }
  else { s with scheduled := timeout }.wt .nextTimeoutMs made

def run (s : State) (made : List Transmit) (event timeout : Bool) : Option State :=
  match s.control with
  | .pump .poll after =>
    let s := { s with pumpAgain := false }
    if s.closed then some (s.roundDone after)
    else
      let s := s.wt .pollTransmits made
      some { s with outbox := [], control := .pump (.sending (records s.outbox)) after }
  | .pump (.sending out) after =>
    match nextRecord out with
    | some (datagram, rest) =>
      some { s with
        control := .pump (.inSend rest) after
        log := s.log ++ [.handed datagram] }
    | none => some { s with control := .pump .events after }
  | .pump .events after =>
    some { s.wt .pollEvent made with
      control := .pump (if event then .inEvent else .tail) after }
  | .pump .tail after => some ((s.reschedule made timeout).roundDone after)
  | .idle | .pump (.inSend _) _ | .pump .inEvent _ | .pump .inError _ => none

def ret (s : State) : Option State :=
  match s.control with
  | .pump (.inSend out) after => some { s with control := .pump (.sending out) after }
  | .pump .inEvent after | .pump .inError after => some { s with control := .pump .events after }
  | .idle | .pump .poll _ | .pump (.sending _) _ | .pump .events _ | .pump .tail _ => none

/-- A callback's error goes to `onError`; other errors go through the pump to the caller. -/
def throw (s : State) : Option State :=
  match s.control with
  | .pump .inEvent after => some { s with control := .pump .inError after }
  | .pump (.inSend _) _ | .pump .inError _ => some { s with control := .idle }
  | .idle | .pump .poll _ | .pump (.sending _) _ | .pump .events _ | .pump .tail _ => none

/-- What other code can do if it is running. -/
def byHost (s t : State) : Option State := if s.control.hostRuns then some t else none

def exec (s : State) : Op → Option State
  | .api f ok made => s.byHost (s.api f ok made)
  | .timeout made => if s.scheduled ∧ s.control = .idle then some (s.timeout made) else none
  | .beginClose made => s.byHost (s.beginClose made .nothing)
  | .finishClose made => s.byHost (s.finishClose made)
  | .close made => s.byHost (s.close made)
  | .run made event timeout => s.run made event timeout
  | .ret => s.ret
  | .throw => s.throw

def Step (s : State) (op : Op) (t : State) : Prop := s.exec op = some t

/-- The condition on the steps: the endpoint is not finished inside its own pump, and once it
    is closing nothing that is thrown leaves the pump. -/
def Calm (s : State) : Op → Prop
  | .finishClose _ | .close _ => s.control = .idle
  | .throw => s.closing = true → s.control.inEvent = true
  | .api .. | .timeout _ | .beginClose _ | .run .. | .ret => True

instance (s : State) : (op : Op) → Decidable (s.Calm op)
  | .finishClose _ | .close _ => inferInstanceAs (Decidable (s.control = .idle))
  | .throw => inferInstanceAs (Decidable (s.closing = true → s.control.inEvent = true))
  | .api .. | .timeout _ | .beginClose _ | .run .. | .ret => inferInstanceAs (Decidable True)

end State

/-! ## Logs -/

/-- Before the endpoint is freed, its connections are closed and the packets of that are
    handed to `udp.send`; afterwards the module is not called. -/
def Safe (log : List Entry) : Prop :=
  ∀ before made after, log = before ++ .call .closeEndpoint made :: after →
    (∃ ps, .call .closeAll ps ∈ before) ∧
    (∀ ps, .call .closeAll ps ∈ before → ps.map Transmit.datagram <:+: handed before) ∧
    ∀ f made, .call f made ∉ after

def Freed (log : List Entry) : Prop := ∃ made, .call .closeEndpoint made ∈ log

theorem handed_append (log log' : List Entry) : handed (log ++ log') = handed log ++ handed log' :=
  filterMap_append

theorem split_snoc {log before after : List Entry} {e x : Entry}
    (h : log ++ [e] = before ++ x :: after) : before = log ∧ x = e ∧ after = [] ∨
      ∃ after', after = after' ++ [e] ∧ log = before ++ x :: after' := by
  rcases eq_nil_or_concat' after with rfl | ⟨after', y, rfl⟩
  · obtain ⟨rfl, hx⟩ := append_inj' h rfl
    exact .inl ⟨rfl, (singleton_inj.mp hx).symm, rfl⟩
  · grind [append_inj']

section

variable {log : List Entry} {f : WtFunction} {made : List Transmit}

theorem not_freed_of_split {before after : List Entry} (hfreed : ¬ Freed log)
    (h : log = before ++ .call .closeEndpoint made :: after) : False :=
  hfreed ⟨made, by rw [h]; exact mem_append_right _ mem_cons_self⟩

theorem Safe.call (h : ¬ Freed log) (hf : f ≠ .closeEndpoint) : Safe (log ++ [.call f made]) := by
  intro before made' after hlog
  rcases split_snoc hlog with ⟨-, hx, -⟩ | ⟨after', -, hlog⟩
  · cases hx
    exact absurd rfl hf
  · exact (not_freed_of_split h hlog).elim

theorem Safe.handed (h : Safe log) (datagram : Datagram) : Safe (log ++ [.handed datagram]) := by
  intro before made after hlog
  rcases split_snoc hlog with ⟨-, hx, -⟩ | ⟨after', rfl, hbefore⟩
  · cases hx
  · obtain ⟨hclosed, hflushed, hquiet⟩ := h before made after' hbefore
    refine ⟨hclosed, hflushed, fun f made hmem => ?_⟩
    rcases mem_append.mp hmem with hmem | hmem
    · exact hquiet f made hmem
    · cases mem_singleton.mp hmem

theorem Safe.free (h : ¬ Freed log) (hclosed : ∃ ps, .call .closeAll ps ∈ log)
    (hflushed : ∀ ps, .call .closeAll ps ∈ log →
      ps.map Transmit.datagram <:+: WasmShutdown.handed log) :
    Safe (log ++ [.call .closeEndpoint made]) := by
  intro before made' after hlog
  rcases split_snoc hlog with ⟨rfl, -, rfl⟩ | ⟨after', -, hlog⟩
  · refine ⟨hclosed, hflushed, fun f made hmem => ?_⟩
    cases hmem
  · exact (not_freed_of_split h hlog).elim

theorem not_freed_call (h : ¬ Freed log) (hf : f ≠ .closeEndpoint) :
    ¬ Freed (log ++ [.call f made]) := by
  rintro ⟨made', hmem⟩
  rcases mem_append.mp hmem with hmem | hmem
  · exact h ⟨made', hmem⟩
  · cases mem_singleton.mp hmem
    exact hf rfl

end

namespace State

/-! ## Invariant -/

variable {s t : State} {ts made : List Transmit} {f : WtFunction} {after : After} {op : Op}

def Again (s : State) : Prop :=
  s.control ≠ .idle ∧ s.pumpAgain = true ∨ ∃ after, s.control = .pump .poll after

/-- The packets were handed over or are in hand (`ts`), or the pump will poll for them. -/
def Owed (s : State) (ts ps : List Transmit) : Prop :=
  ps.map Transmit.datagram <:+: handed s.log ++ ts.map Transmit.datagram ∨
    ps.map Transmit.datagram <:+:
      handed s.log ++ ts.map Transmit.datagram ++ s.outbox.map Transmit.datagram ∧ s.Again

/-- What holds between any two steps; `ts` are the packets in the pump's hand. -/
structure Inv (s : State) (ts : List Transmit) : Prop where
  hand : s.control.out = records ts
  freed : Freed s.log → s.closed = true
  quiet : s.closed = true → s.control = .idle
  closing : s.closing = true ↔ ∃ ps, .call .closeAll ps ∈ s.log
  after : ∀ stage after, s.control = .pump stage after → after ≠ .nothing → s.closing = true
  owed : ∀ ps, .call .closeAll ps ∈ s.log → s.Owed ts ps
  safe : Safe s.log

theorem inv_init : init.Inv [] := by
  refine ⟨rfl, ?_, ?_, ?_, ?_, ?_, ?_⟩
  · rintro ⟨made, hmem⟩
    cases hmem
  · intro h
    cases h
  · constructor
    · intro h
      cases h
    · rintro ⟨ps, hmem⟩
      cases hmem
  · intro stage after h
    cases h
  · intro ps hmem
    cases hmem
  · intro before made after h
    cases before <;> cases h

theorem Inv.not_freed (h : s.Inv ts) (hclosed : s.closed = false) : ¬ Freed s.log := by
  intro hfreed
  rw [h.freed hfreed] at hclosed
  cases hclosed

variable {ps : List Transmit}

theorem mem_call_iff {log : List Entry} {g : WtFunction} (hf : g ≠ f) :
    .call g ps ∈ log ++ [.call f made] ↔ .call g ps ∈ log := by
  rw [mem_append, mem_singleton]
  constructor
  · rintro (hmem | heq)
    · exact hmem
    · cases heq
      exact absurd rfl hf
  · exact .inl

theorem Owed.wt (h : s.Owed ts ps) (f : WtFunction) (made : List Transmit) :
    (s.wt f made).Owed ts ps := by
  have hhanded : handed (s.wt f made).log = handed s.log := by
    rw [State.wt, handed_append]
    exact append_nil _
  unfold Owed
  rw [hhanded]
  rcases h with h | ⟨h, hagain⟩
  · exact .inl h
  · refine .inr ⟨h.trans ?_, hagain⟩
    rw [State.wt, map_append, ← append_assoc]
    exact (prefix_append _ _).isInfix

theorem Inv.wt (h : s.Inv ts) (hclosed : s.closed = false) (hf : f ≠ .closeEndpoint)
    (hf' : f ≠ .closeAll) (made : List Transmit) : (s.wt f made).Inv ts := by
  refine ⟨h.hand, fun hfreed => ?_, h.quiet, ?_, h.after, fun ps hmem => ?_, ?_⟩
  · exact absurd hfreed (not_freed_call (h.not_freed hclosed) hf)
  · rw [State.wt]
    simp only [mem_call_iff hf'.symm]
    exact h.closing
  · exact (h.owed ps ((mem_call_iff hf'.symm).mp hmem)).wt f made
  · exact Safe.call (h.not_freed hclosed) hf

theorem Inv.wtAll {fs : List WtFunction} (h : s.Inv ts) (hclosed : s.closed = false)
    (hfs : ∀ f ∈ fs, f ≠ .closeEndpoint ∧ f ≠ .closeAll) (made : List Transmit) :
    (s.wtAll fs made).Inv ts := by
  induction fs generalizing s made with
  | nil => exact h
  | cons f fs ih =>
    obtain ⟨hf, hfs⟩ := forall_mem_cons.mp hfs
    exact ih (h.wt hclosed hf.1 hf.2 made) hclosed hfs []

theorem calls_plain (f : Api) (ok : Bool) :
    ∀ g ∈ f.calls ok, g ≠ .closeEndpoint ∧ g ≠ .closeAll := by
  cases f <;> simp only [Api.calls] <;> (try split) <;> decide

section

variable (h : s.Inv ts)

include h

theorem Inv.goto {control : Control} (hout : control.out = s.control.out)
    (hidle : s.control = .idle → control = .idle ∨ s.closed = false)
    (hafter : ∀ stage after, control = .pump stage after → after ≠ .nothing → s.closing = true)
    (hagain : s.Again → { s with control }.Again) : { s with control }.Inv ts := by
  refine ⟨hout.trans h.hand, h.freed, fun hclosed => ?_, h.closing, hafter, fun ps hmem => ?_,
    h.safe⟩
  · rcases hidle (h.quiet hclosed) with hcontrol | hopen
    · exact hcontrol
    · cases hopen.symm.trans hclosed
  · rcases h.owed ps hmem with hpart | ⟨hpart, howed⟩
    · exact .inl hpart
    · exact .inr ⟨hpart, hagain howed⟩

theorem Inv.pump (hafter : after ≠ .nothing → s.closing = true) :
    (s.pump after).Inv ts := by
  unfold State.pump
  split
  · exact h
  · next hopen =>
    split
    · next stage after' hcontrol =>
      refine { h with owed := fun ps hmem => ?_ }
      rcases h.owed ps hmem with hpart | ⟨hpart, -⟩
      · exact .inl hpart
      · refine .inr ⟨hpart, .inl ⟨?_, rfl⟩⟩
        rw [hcontrol]
        exact nofun
    · next hcontrol =>
      refine h.goto (by rw [hcontrol]; rfl) (fun _ => .inr ?_) ?_ ?_
      · exact Bool.not_eq_true _ ▸ hopen
      · grind
      · exact fun _ => .inr ⟨after, rfl⟩

theorem Inv.api (f : Api) (ok : Bool) (made : List Transmit) :
    (s.api f ok made).Inv ts := by
  unfold State.api
  split
  · exact h
  · next hopen =>
    have hall := h.wtAll (Bool.not_eq_true _ ▸ hopen) (calls_plain f ok) made
    split
    · exact hall.pump fun hne => absurd rfl hne
    · exact hall

theorem Inv.schedule (scheduled : Bool) : { s with scheduled }.Inv ts :=
  { h with }

theorem Inv.timeout (made : List Transmit) : (s.timeout made).Inv ts := by
  unfold State.timeout
  split
  · exact h.schedule false
  · next hopen =>
    have hcall := (h.schedule false).wt (Bool.not_eq_true _ ▸ hopen)
      (f := .handleTimeout) (by decide) (by decide) made
    exact hcall.pump fun hne => absurd rfl hne

end

/-! ## Closing -/

theorem pump_keeps (s : State) (after : After) :
    (s.pump after).closed = s.closed ∧ (s.pump after).closing = s.closing ∧
      (s.pump after).outbox = s.outbox ∧ (s.pump after).log = s.log ∧
      (s.pump after).control.out = s.control.out := by
  unfold pump
  split
  · exact ⟨rfl, rfl, rfl, rfl, rfl⟩
  · split
    · exact ⟨rfl, rfl, rfl, rfl, rfl⟩
    · next hcontrol =>
      refine ⟨rfl, rfl, rfl, rfl, ?_⟩
      rw [hcontrol]
      rfl

theorem again_pump (hopen : s.closed = false) (after : After) : (s.pump after).Again := by
  unfold pump
  split
  · next hclosed => cases hopen.symm.trans hclosed
  · split
    · next hcontrol =>
      refine .inl ⟨?_, rfl⟩
      rw [hcontrol]
      exact nofun
    · exact .inr ⟨after, rfl⟩

section

variable (h : s.Inv ts)

include h

/-- `wt_close_all` and the pump after it. -/
theorem Inv.closeAll (hopen : s.closed = false) (hclosing : s.closing = false)
    (made : List Transmit) (after : After) :
    (({ s with closing := true }.wt .closeAll made).pump after).Inv ts := by
  obtain ⟨hclosed', hclosing', houtbox, hlog, hout⟩ :=
    pump_keeps ({ s with closing := true }.wt .closeAll made) after
  have hnone : ∀ ps, .call .closeAll ps ∉ s.log := by
    intro ps hmem
    rw [h.closing.mpr ⟨ps, hmem⟩] at hclosing
    cases hclosing
  refine ⟨hout.trans h.hand, fun hfreed => ?_, fun hclosed => ?_, ?_, fun _ _ _ _ => hclosing',
    fun ps hmem => ?_, ?_⟩
  · rw [hlog] at hfreed
    exact absurd hfreed (not_freed_call (h.not_freed hopen) (by decide))
  · rw [hclosed'] at hclosed
    cases hopen.symm.trans hclosed
  · rw [hclosing', hlog]
    exact iff_of_true rfl ⟨made, mem_append_right _ (mem_singleton_self _)⟩
  · rw [hlog] at hmem
    rcases mem_append.mp hmem with hmem | hmem
    · exact absurd hmem (hnone ps)
    · cases mem_singleton.mp hmem
      refine .inr ⟨?_, again_pump (by exact hopen) after⟩
      rw [houtbox, State.wt, map_append, ← append_assoc]
      exact (suffix_append _ _).isInfix
  · rw [hlog]
    exact Safe.call (h.not_freed hopen) (by decide)

theorem Inv.beginClose (made : List Transmit) (after : After) :
    (s.beginClose made after).Inv ts := by
  unfold State.beginClose
  split
  · exact h
  · next hnot =>
    rw [Bool.or_eq_true, not_or, Bool.not_eq_true, Bool.not_eq_true] at hnot
    exact h.closeAll hnot.1 hnot.2 made after

theorem Inv.hand_nil (hout : s.control.out = []) : ts = [] :=
  records_eq_nil (h.hand.symm.trans hout)

section

variable (hidle : s.control = .idle)

include hidle

theorem Inv.flushed (hmem : .call .closeAll ps ∈ s.log) :
    ps.map Transmit.datagram <:+: handed s.log := by
  cases h.hand_nil (by rw [hidle]; rfl)
  rcases h.owed ps hmem with hpart | ⟨-, hagain⟩
  · rwa [map_nil, append_nil] at hpart
  · rcases hagain with ⟨hbusy, -⟩ | ⟨after, hpoll⟩
    · exact absurd hidle hbusy
    · cases hidle.symm.trans hpoll

theorem Inv.free (hopen : s.closed = false)
    (hclosing : s.closing = true) : s.free.Inv ts := by
  have hlog : ∀ ps, .call .closeAll ps ∈ s.free.log ↔ .call .closeAll ps ∈ s.log :=
    fun ps => mem_call_iff (by decide)
  refine ⟨h.hand, fun _ => rfl, fun _ => hidle, ?_, h.after, fun ps hmem => ?_, ?_⟩
  · simp only [hlog]
    exact h.closing
  · have hflushed := h.flushed hidle ((hlog ps).mp hmem)
    refine .inl (hflushed.trans ?_)
    rw [State.free, handed_append, append_assoc]
    exact (prefix_append _ _).isInfix
  · exact Safe.free (h.not_freed hopen) (h.closing.mp hclosing) fun ps => h.flushed hidle

theorem Inv.finishClose (made : List Transmit) :
    (s.finishClose made).Inv ts := by
  unfold State.finishClose
  split
  · exact h
  · next hopen =>
    split
    · next hclosing => exact h.free hidle (Bool.not_eq_true _ ▸ hopen) hclosing
    · rw [hidle]
      exact h.beginClose made .finish

theorem Inv.close (made : List Transmit) :
    (s.close made).Inv ts := by
  unfold State.close
  split
  · exact h.finishClose hidle []
  · rw [hidle]
    exact h.beginClose made .close

end

/-! ## The pump -/

theorem Inv.pumpDone (hout : s.control.out = []) (hagain : ¬ s.Again)
    (hopen : s.closed = false) (hafter : after ≠ .nothing → s.closing = true) :
    (s.pumpDone after).Inv ts := by
  have hidle : { s with control := .idle }.Inv ts := by
    exact h.goto hout.symm (fun _ => .inl rfl) nofun fun h => absurd h hagain
  cases after with
  | nothing => exact hidle
  | close => exact hidle.finishClose rfl []
  | finish => exact hidle.free rfl hopen (hafter (by decide))

theorem Inv.roundDone (hcontrol : s.control = .pump .tail after)
    (hopen : s.closed = false) : (s.roundDone after).Inv ts := by
  have hafter := h.after .tail after hcontrol
  unfold State.roundDone
  split
  · refine h.goto (by rw [hcontrol]; rfl) (fun _ => .inr hopen) ?_ (fun _ => .inr ⟨after, rfl⟩)
    intro stage after' heq
    cases heq
    exact hafter
  · next hlast =>
    refine h.pumpDone (by rw [hcontrol]; rfl) ?_ hopen hafter
    rintro (⟨-, hagain⟩ | ⟨after', hpoll⟩)
    · rw [hagain, hopen] at hlast
      exact hlast rfl
    · cases hcontrol.symm.trans hpoll

theorem Inv.reschedule (hopen : s.closed = false) (made : List Transmit)
    (timeout : Bool) : (s.reschedule made timeout).Inv ts := by
  unfold State.reschedule
  rw [if_neg (by rw [hopen]; decide)]
  exact (h.schedule timeout).wt hopen (by decide) (by decide) made

end

theorem Inv.polled (h : s.Inv []) (hopen : s.closed = false) (hafter : after ≠ .nothing →
      s.closing = true) (pumpAgain : Bool) :
    { s with
      outbox := []
      pumpAgain
      control := .pump (.sending (records s.outbox)) after }.Inv s.outbox := by
  refine ⟨rfl, h.freed, fun hclosed => ?_, h.closing, ?_, fun ps hmem => .inl ?_, h.safe⟩
  · cases hopen.symm.trans hclosed
  · grind
  · rcases h.owed ps hmem with hpart | ⟨hpart, -⟩
    · rw [map_nil, append_nil] at hpart
      exact hpart.trans (prefix_append _ _).isInfix
    · rwa [map_nil, append_nil] at hpart

/-- The next packet is handed over. -/
theorem Inv.handed {p : Transmit} (h : s.Inv (p :: ts))
    (hcontrol : s.control = .pump (.sending (records (p :: ts))) after) :
    { s with
      control := .pump (.inSend (records ts)) after
      log := s.log ++ [Entry.handed p.datagram] }.Inv ts := by
  have hmem_iff : ∀ f made, Entry.call f made ∈ s.log ++ [Entry.handed p.datagram] ↔
      Entry.call f made ∈ s.log := by
    intro f made
    simp
  refine ⟨rfl, ?_, fun hclosed => ?_, ?_, ?_, fun ps hmem => ?_, h.safe.handed _⟩
  · rintro ⟨made, hmem⟩
    exact h.freed ⟨made, (hmem_iff _ _).mp hmem⟩
  · cases hcontrol.symm.trans (h.quiet hclosed)
  · simp only [hmem_iff]
    exact h.closing
  · intro stage after' heq
    cases heq
    exact h.after _ _ hcontrol
  · have hsame : WasmShutdown.handed (s.log ++ [.handed p.datagram]) ++
        ts.map Transmit.datagram =
          WasmShutdown.handed s.log ++ (p :: ts).map Transmit.datagram := by
      rw [handed_append, append_assoc]
      rfl
    unfold Owed
    rw [hsame]
    rcases h.owed ps ((hmem_iff _ _).mp hmem) with hpart | ⟨hpart, hagain⟩
    · exact .inl hpart
    · refine .inr ⟨hpart, .inl ⟨fun heq => ?_, ?_⟩⟩
      · cases heq
      · rcases hagain with ⟨-, hagain⟩ | ⟨after', hpoll⟩
        · exact hagain
        · cases hcontrol.symm.trans hpoll

theorem Inv.move {stage stage' : Stage} (h : s.Inv ts) (hcontrol : s.control = .pump stage after)
    (hpoll : stage ≠ .poll) (hout : (Control.pump stage' after).out = s.control.out) :
    { s with control := .pump stage' after }.Inv ts := by
  refine h.goto hout (fun hidle => ?_) ?_ ?_
  · cases hcontrol.symm.trans hidle
  · intro stage after' heq
    cases heq
    exact h.after _ _ hcontrol
  · rintro (⟨-, hagain⟩ | ⟨after', hcontrol'⟩)
    · exact .inl ⟨fun heq => (by cases heq), hagain⟩
    · cases hcontrol.symm.trans hcontrol'
      exact absurd rfl hpoll

section

variable (h : s.Inv ts)

include h

theorem Inv.run {event timeout : Bool}
    (hrun : s.run made event timeout = some t) : ∃ ts', t.Inv ts' := by
  have hopen : s.control ≠ .idle → s.closed = false := by
    intro hbusy
    by_contra hclosed
    exact hbusy (h.quiet (Bool.not_eq_false _ ▸ hclosed))
  unfold State.run at hrun
  split at hrun
  · next after hcontrol =>
    have hopen := hopen (by rw [hcontrol]; exact fun heq => (by cases heq))
    cases h.hand_nil (by rw [hcontrol]; rfl)
    rw [if_neg (by rw [hopen]; decide)] at hrun
    cases hrun
    exact ⟨_, (h.wt hopen (by decide) (by decide) made).polled hopen
      (h.after _ _ hcontrol) false⟩
  · next out after hcontrol =>
    have hout : out = records ts := by
      have hhand := h.hand
      rwa [hcontrol] at hhand
    subst hout
    cases ts with
    | nil =>
      cases hrun
      exact ⟨[], h.move hcontrol (fun heq => (by cases heq)) (by rw [hcontrol]; rfl)⟩
    | cons p ts =>
      rw [records, flatMap_cons, nextRecord_record] at hrun
      cases hrun
      exact ⟨ts, h.handed hcontrol⟩
  · next after hcontrol =>
    have hopen := hopen (by rw [hcontrol]; exact fun heq => (by cases heq))
    have hcall := h.wt hopen (f := .pollEvent) (by decide) (by decide) made
    cases hrun
    refine ⟨ts, hcall.move hcontrol (fun heq => (by cases heq)) ?_⟩
    show _ = s.control.out
    rw [hcontrol]
    cases event <;> rfl
  · next after hcontrol =>
    have hopen := hopen (by rw [hcontrol]; exact fun heq => (by cases heq))
    have hcall := h.reschedule hopen made timeout
    cases hrun
    refine ⟨ts, hcall.roundDone ?_ ?_⟩
    · unfold State.reschedule
      split <;> exact hcontrol
    · unfold State.reschedule
      split <;> exact hopen
  all_goals cases hrun

theorem Inv.ret (hret : s.ret = some t) : t.Inv ts := by
  unfold State.ret at hret
  split at hret
  case h_1 out after hcontrol =>
      cases hret
      exact h.move hcontrol (fun heq => (by cases heq)) (by rw [hcontrol]; rfl)
  case h_2 after hcontrol =>
      cases hret
      exact h.move hcontrol (fun heq => (by cases heq)) (by rw [hcontrol]; rfl)
  case h_3 after hcontrol =>
      cases hret
      exact h.move hcontrol (fun heq => (by cases heq)) (by rw [hcontrol]; rfl)
  all_goals cases hret

/-- An error that leaves the pump before the endpoint is closing loses packets, but none that
    is owed. -/
theorem Inv.abort (hclosing : s.closing = false) :
    { s with control := .idle }.Inv [] := by
  refine ⟨rfl, h.freed, fun _ => rfl, h.closing, ?_, fun ps hmem => ?_, h.safe⟩
  · intro stage after heq
    cases heq
  · rw [h.closing.mpr ⟨ps, hmem⟩] at hclosing
    cases hclosing

theorem Inv.throw (hcalm : s.Calm .throw) (hthrow : s.throw = some t) :
    ∃ ts', t.Inv ts' := by
  unfold State.throw at hthrow
  split at hthrow
  case h_1 after hcontrol =>
      cases hthrow
      exact ⟨ts, h.move hcontrol (fun heq => (by cases heq)) (by rw [hcontrol]; rfl)⟩
  case h_2 out after hcontrol =>
      cases hthrow
      refine ⟨[], h.abort (Bool.not_eq_true _ ▸ fun hclosing => ?_)⟩
      have hevent := hcalm hclosing
      rw [hcontrol] at hevent
      cases hevent
  case h_3 after hcontrol =>
      cases hthrow
      refine ⟨[], h.abort (Bool.not_eq_true _ ▸ fun hclosing => ?_)⟩
      have hevent := hcalm hclosing
      rw [hcontrol] at hevent
      cases hevent
  all_goals cases hthrow

end

theorem eq_of_byHost {t' : State} (h : s.byHost t' = some t) : t' = t :=
  some.inj (ite_none_right_eq_some.mp h).2

theorem inv_step (h : ∃ ts, s.Inv ts) (hcalm : s.Calm op) (hstep : Step s op t) :
    ∃ ts, t.Inv ts := by
  obtain ⟨ts, h⟩ := h
  cases op with
  | api f ok made => exact ⟨ts, eq_of_byHost hstep ▸ h.api f ok made⟩
  | timeout made =>
    obtain ⟨_, ht⟩ := ite_none_right_eq_some.mp hstep
    exact ⟨ts, some.inj ht ▸ h.timeout made⟩
  | beginClose made => exact ⟨ts, eq_of_byHost hstep ▸ h.beginClose made .nothing⟩
  | finishClose made => exact ⟨ts, eq_of_byHost hstep ▸ h.finishClose hcalm made⟩
  | close made => exact ⟨ts, eq_of_byHost hstep ▸ h.close hcalm made⟩
  | run made event timeout => exact h.run hstep
  | ret => exact ⟨ts, h.ret hstep⟩
  | throw => exact h.throw hcalm hstep

end State

open State

/-- If the endpoint is not finished inside its own pump, and nothing thrown leaves the pump
    once it is closing, then the packets of `wt_close_all` are handed to `udp.send` before
    `wt_close_endpoint` is called, and no function of the module is called after it. -/
theorem shutdown_safe {ops : List Op} {s : State} (hrun : Run (restrict Calm Step) init ops s) :
    Safe s.log := by
  obtain ⟨ts, h⟩ := hrun.invariant (P := fun s => ∃ ts, s.Inv ts)
    (fun _ _ _ h hstep => inv_step h hstep.1 hstep.2) ⟨[], inv_init⟩
  exact h.safe

def goodbye : Transmit where
  destination := "[::1]:443"
  packet := [1, 2]
  destination_fits := by decide +kernel
  destination_plain := by decide
  packet_fits := by decide

def plainClose : List Op :=
  [.close [goodbye], .run [] false false, .run [] false false, .ret, .run [] false false,
    .run [] false false, .run [] false false]

theorem shutdown_safe_close :
    ∃ s, Run (restrict Calm Step) init plainClose s ∧ Safe s.log ∧
      s.log = [.call .closeAll [goodbye], .call .pollTransmits [], .handed goodbye.datagram,
        .call .pollEvent [], .call .nextTimeoutMs [], .call .closeEndpoint []] := by
  refine Run.exists_of_execAll (·.log = _) (fun _ _ _ => restrict_of_guarded) (by decide +kernel)
    fun s hrun hlog => ⟨shutdown_safe hrun, hlog⟩

def closeInCallback : List Op :=
  [.api .connect true [], .run [] false false, .run [] false false, .run [] true false,
    .close [goodbye], .ret, .run [] false false]

/-- The packet is not sent before the endpoint is freed, and the pump goes on to poll the
    freed endpoint for its next event. -/
theorem close_in_callback_unsafe :
    ∃ s, Run Step init closeInCallback s ∧ ¬ Safe s.log ∧
      s.log = [.call .connect [], .call .pollTransmits [], .call .pollEvent [],
        .call .closeAll [goodbye], .call .closeEndpoint [], .call .pollEvent []] := by
  refine Run.exists_of_execAll (·.log = _) (fun _ _ _ h => h) (by decide +kernel)
    fun s _ hlog => ⟨fun hsafe => ?_, hlog⟩
  rw [hlog] at hsafe
  obtain ⟨-, -, hquiet⟩ := hsafe [.call .connect [], .call .pollTransmits [],
    .call .pollEvent [], .call .closeAll [goodbye]] [] [.call .pollEvent []] rfl
  exact hquiet .pollEvent [] (mem_singleton_self _)

end WebTransportBun.Facade.WasmShutdown
