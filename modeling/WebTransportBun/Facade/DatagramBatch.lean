/-
  WebTransportBun.Facade.DatagramBatch

  The chunk loop of `packages/webtransport/src/datagram-batch.ts` over the native batch send
  (`crates/native/src/datagram_batch.rs`, `session.rs`).

  What the registry, the transport and the clock answer is a function of the attempts made so
  far, so that every script of outcomes is one of them.
-/

import Mathlib.Data.List.Basic

namespace WebTransportBun.Facade.DatagramBatch

open List

def datagramBatchMax : Nat := 256

abbrev Datagram := List UInt8

structure DatagramBatchResult where
  sent : Nat
  code : Option String

def splitAtCap (len : Nat) : Nat × Option String :=
  if datagramBatchMax < len then (datagramBatchMax, some "E_BATCH_TOO_LARGE") else (len, none)

/-- A datagram that was handed to the transport, and the code if that failed. -/
abbrev Attempt := Datagram × Option String

structure Script where
  /-- Whether the registry has the session. -/
  registered : List Attempt → Bool
  /-- The code with which a send fails that may wait for so many milliseconds. -/
  sendDatagramOnState : List Attempt → Datagram → Nat → Option String
  /-- The whole milliseconds since the call began. -/
  now : List Attempt → Nat
  backpressureTimeoutMs : Nat

structure Session where
  attempts : List Attempt := []
  datagramSendsAsync : Nat := 0

variable (script : Script)

/-- The transport accepted these, in this order. -/
def accepted (datagrams : List Datagram) : List Attempt := datagrams.map (·, none)

/-- The result says what became of the datagrams, and nothing else was attempted. -/
inductive Exact (before : List Attempt) (datagrams : List Datagram) (after : List Attempt) :
    DatagramBatchResult → Prop
  | all (hafter : after = before ++ accepted datagrams) :
      Exact before datagrams after ⟨datagrams.length, none⟩
  /-- The datagram behind those accepted failed in its attempt. -/
  | failed {xs ys : List Datagram} {datagram : Datagram} {code : String}
      (hdatagrams : datagrams = xs ++ datagram :: ys)
      (hafter : after = before ++ accepted xs ++ [(datagram, some code)]) :
      Exact before datagrams after ⟨xs.length, some code⟩
  /-- The session was gone when its turn came. -/
  | closed {xs ys : List Datagram} {datagram : Datagram}
      (hdatagrams : datagrams = xs ++ datagram :: ys) (hafter : after = before ++ accepted xs)
      (hgone : ¬ script.registered after) :
      Exact before datagrams after ⟨xs.length, some "E_SESSION_CLOSED"⟩

section

variable {script} {before after : List Attempt} {xs ys : List Datagram} {n start : Nat}
  {s t : Session} {result : DatagramBatchResult}

theorem accepted_append : accepted (xs ++ ys) = accepted xs ++ accepted ys := map_append

theorem Exact.within {code : String}
    (h : Exact script (before ++ accepted xs) ys after ⟨n, some code⟩) (zs : List Datagram) :
    Exact script before (xs ++ (ys ++ zs)) after ⟨xs.length + n, some code⟩ := by
  cases h with
  | failed hys hafter =>
    rw [append_assoc before, ← accepted_append] at hafter
    rw [← length_append]
    exact .failed (by rw [hys, append_assoc, append_assoc, cons_append]) hafter
  | closed hys hafter hgone =>
    rw [append_assoc before, ← accepted_append] at hafter
    rw [← length_append]
    exact .closed (by rw [hys, append_assoc, append_assoc, cons_append]) hafter hgone

end

end WebTransportBun.Facade.DatagramBatch
