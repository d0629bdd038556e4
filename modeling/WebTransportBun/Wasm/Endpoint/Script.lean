/-
  WebTransportBun.Wasm.Endpoint.Script

  A quinn-proto that answers from a script, so that runs of the endpoint can be
  evaluated.  A call takes the head of the script if that is an answer to it, and is
  told that there is nothing (no event, no stream, no data) otherwise.
-/

import WebTransportBun.Wasm.Endpoint.Quinn

namespace WebTransportBun.Wasm

/-- One prepared answer, with the stream or connection it is about. -/
inductive Answer
  | incoming (e : DatagramEvent)
  | connection (h : Nat)
  | event (h : Nat) (e : QuicEvent)
  | opened (id : Nat)
  | accepted (dir : Dir) (id : Nat)
  | data (id : Nat) (bytes : Bytes)
  | finished (id : Nat)
  | reset (id code : Nat)
  | closed (id : Nat)
  | datagram (bytes : Bytes)
  deriving DecidableEq, Repr

namespace Answer

def readable : Answer → Option Nat
  | data id _ | finished id | reset id _ => some id
  | _ => none

def chunk (maxLength : Nat) : Answer → Chunk maxLength
  | data _ bytes => if h : bytes.length ≤ maxLength then .data ⟨bytes, h⟩ else .error
  | finished _ => .finished
  | reset _ code => .reset code
  | _ => .error

end Answer

/-- Take the head of the script if `f` makes an answer of it. -/
def takeAnswer {R : Type} (f : Answer → Option R) : List Answer → Option R × List Answer
  | [] => (none, [])
  | a :: rest => if (f a).isSome then (f a, rest) else (none, a :: rest)

/-- The answers of a script; the clock stands at 0. -/
def followScript : (c : QuicCall) → List Answer → c.Reply × List Answer
  | .now, l => ((0 : Nat), l)
  | .order keys, l => (⟨keys, List.Perm.refl _⟩, l)
  | .connect live _, l => takeAnswer (fun
      | .connection h => if hfresh : h ∉ live then some ⟨h, hfresh⟩ else none
      | _ => none) l
  | .handle isServer _ _ _, l => takeAnswer (fun
      | .incoming e => if hnew : e = .newConnection → isServer = true then some ⟨e, hnew⟩ else none
      | _ => none) l
  | .refuse, l => (([], ⟨.v4 0, 0⟩), l)
  | .accept live _, l =>
    let taken := takeAnswer (fun
      | .connection h => if hfresh : h ∉ live then some ⟨h, hfresh⟩ else none
      | _ => none) l
    (taken.1.elim (.error none) .ok, taken.2)
  | .poll h conn, l => takeAnswer (fun
      | .event h' e =>
        if hnew : h' = h ∧ (e = .connected → conn.connected = false) then some ⟨e, hnew.2⟩
        else none
      | _ => none) l
  | .openStream _ conn _, l => takeAnswer (fun
      | .opened id => if hfresh : id ∉ conn.streams then some ⟨id, hfresh⟩ else none
      | _ => none) l
  | .acceptStream _ conn dir, l => takeAnswer (fun
      | .accepted dir' id =>
        if hfresh : dir' = dir ∧ id ∉ conn.streams ∧
            (conn.side = .client → conn.connected = true) then some ⟨id, hfresh.2⟩
        else none
      | _ => none) l
  | .write _ _ data, l => (.ok data.length, l)
  | .read _ sid, l => if l.head? = some (.closed sid) then (.closedStream, l.tail) else (.ok, l)
  | .nextChunk _ sid maxLength, l =>
    let taken := takeAnswer (fun a => if a.readable = some sid then some (a.chunk maxLength)
      else none) l
    (taken.1.getD .error, taken.2)
  | .recvDatagram _, l => takeAnswer (fun
      | .datagram bytes => some bytes
      | _ => none) l
  | .sendDatagram _ _, l => (.ok (), l)
  | .maxDatagramSize _, l => (some 1200, l)
  | .pollTransmit _ _, l => (none, l)
  | .pollTimeout _, l => (none, l)
  | .handleEvent _, l | .finish _ _, l | .reset _ _ _, l | .stop _ _ _, l | .finalize _ _, l
  | .close _ _ _ _, l | .handleTimeout _ _, l | .drop _, l => ((), l)

/-- The endpoint's surroundings with a scripted quinn-proto; nothing is Huffman-coded. -/
def scripted : Env (List Answer) where
  quinn := followScript
  huffman := some
  fuel := 32

end WebTransportBun.Wasm
