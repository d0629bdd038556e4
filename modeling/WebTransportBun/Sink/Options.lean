/-
  Sink.Options

  `validateStreamSinkOptions` and `normalizeRingBytes` of `sink.ts`.  Options are whatever
  JavaScript value a caller passes; a number is a rational number, or `NaN` or an infinity.

  The check says nothing about the size of a frame relative to the ring.
-/

import Mathlib.Data.Rat.Floor
import WebTransportBun.Library.Checks
import WebTransportBun.Sink.Deframer
import WebTransportBun.Sink.Ring

namespace WebTransportBun.Sink

open Library Nat

/-- A JavaScript value, as far as the checks tell values apart. -/
inductive Js
  | undefined
  | null
  | boolean (b : Bool)
  | number (x : ℚ)
  /-- `NaN` and the infinities. -/
  | notFinite
  | string (s : String)
  /-- An object for which `isPlainOptionsObject` holds. -/
  | object (fields : List (String × Js))
  /-- Arrays, functions, class instances and everything else. -/
  | other

namespace Js

/-- The property of an object; an absent one is `undefined`. -/
def get : Js → String → Js
  | object fields, key => (fields.lookup key).getD undefined
  | _, _ => undefined

def isUndefined : Js → Bool
  | undefined => true
  | _ => false

def isObject : Js → Bool
  | object _ => true
  | _ => false

def isString (s : String) : Js → Bool
  | string t => t = s
  | _ => false

def isBoolean : Js → Bool
  | boolean _ => true
  | _ => false

def isFalse : Js → Bool
  | boolean b => !b
  | _ => false

/-- `typeof v === "number" && Number.isInteger(v) && v >= min && v <= max`. -/
def isIntegerIn (min max : Nat) : Js → Bool
  | number x => x.den = 1 ∧ (min : ℤ) ≤ x.num ∧ x.num ≤ (max : ℤ)
  | _ => false

def isOneOf (values : List Nat) : Js → Bool
  | number x => values.any fun n => x = (n : ℚ)
  | _ => false

def toNat : Js → Nat
  | number x => x.num.toNat
  | _ => 0

end Js

/-! ## The checks -/

def bad (msg : String) : String := "E_SINK_BAD_OPTIONS: " ++ msg

def maxSinkTimeoutMs : Nat := 0x7fffffff

def isPositiveNumber : Js → Bool
  | .number x => 0 < x
  | _ => false

def integerMs (o : Js) (key : String) (min : Nat) : Except String Unit :=
  refuse (¬ ((o.get key).isUndefined ∨ (o.get key).isIntegerIn min maxSinkTimeoutMs))
    (bad s!"{key} must be an integer {min}..{maxSinkTimeoutMs}")

def framingInteger (f : Js) (key : String) : Except String Unit :=
  refuse (¬ (f.get key).isIntegerIn 0 0xffffffff)
    (bad s!"framing.{key} must be an integer 0..4294967295")

section

variable (text : Js → String)

/-- `validateStreamSinkOptions` for a framing that is given; `text` is `String(v)`. -/
def validateFraming (framing : Js) : Except String Unit := do
  refuse (¬ framing.isObject) (bad "framing must be an object")
  framingInteger framing "headerBytes"
  framingInteger framing "lengthOffset"
  framingInteger framing "maxFrameBytes"
  refuse (¬ (framing.get "lengthWidth").isOneOf [1, 2, 4, 8])
    (bad "framing.lengthWidth must be 1, 2, 4, or 8")
  let endianness := framing.get "endianness"
  refuse (¬ (endianness.isUndefined ∨ endianness.isString "le" ∨ endianness.isString "be"))
    (bad s!"framing.endianness must be \"le\" or \"be\", got {text endianness}")
  let includes := framing.get "lengthIncludesHeader"
  refuse (¬ (includes.isUndefined ∨ includes.isBoolean))
    (bad "framing.lengthIncludesHeader must be a boolean")

/-- `validateStreamSinkOptions` for options that are given. -/
def validateGiven (o : Js) : Except String Unit := do
  refuse (¬ o.isObject) (bad "options must be an object")
  let ringBytes := o.get "ringBytes"
  refuse (¬ (ringBytes.isUndefined ∨ isPositiveNumber ringBytes))
    (bad "ringBytes must be a positive number")
  let overflow := o.get "overflow"
  refuse (¬ (overflow.isUndefined ∨ overflow.isString "block" ∨ overflow.isString "drop-newest"))
    (bad s!"overflow must be \"block\" or \"drop-newest\", got {text overflow}")
  let clock := o.get "clock"
  refuse (¬ (clock.isUndefined ∨ clock.isString "monotonic" ∨ clock.isString "wall"))
    (bad s!"clock must be \"monotonic\" or \"wall\", got {text clock}")
  -- A zero stall deadline has no meaning; a zero idle deadline is "off".
  integerMs o "backpressureTimeoutMs" 1
  integerMs o "idleTimeoutMs" 0
  -- Only an absent framing means "no framing".
  if (o.get "framing").isUndefined then .ok () else validateFraming text (o.get "framing")

def validateStreamSinkOptions (opts : Js) : Except String Unit :=
  if opts.isUndefined then .ok () else validateGiven text opts

end

/-! ## What an option means -/

def timeoutMs (opts : Js) (key : String) (default : Nat) : Nat :=
  match opts.get key with
  | .number x => x.num.toNat
  | _ => default

/-- The framing that `FrameCutter` is constructed with. -/
def readFraming (f : Js) : FramingConfig where
  headerBytes := (f.get "headerBytes").toNat
  lengthOffset := (f.get "lengthOffset").toNat
  lengthWidth := (f.get "lengthWidth").toNat
  littleEndian := ¬ (f.get "endianness").isString "be"
  lengthIncludesHeader := ¬ (f.get "lengthIncludesHeader").isFalse
  maxFrameBytes := (f.get "maxFrameBytes").toNat

theorem Js.get_of_isUndefined {v : Js} (h : v.isUndefined = true) (key : String) :
    v.get key = .undefined := by
  cases v with
  | undefined => rfl
  | _ => cases h

theorem timeoutMs_of_integerMs {o : Js} {key : String} {min default : Nat} {u : Unit}
    (h : integerMs o key min = .ok u) (hdefault : min ≤ default) :
    min ≤ timeoutMs o key default := by
  have hcheck := not_not.mp (not_of_refuse h)
  unfold timeoutMs
  split
  · next x hx =>
    rw [hx] at hcheck
    rcases hcheck with hcheck | hcheck
    · cases hcheck
    · obtain ⟨-, hmin, -⟩ := of_decide_eq_true hcheck
      omega
  · exact hdefault

theorem backpressureTimeoutMs_pos {text : Js → String} {opts : Js} {default : Nat}
    (h : validateStreamSinkOptions text opts = .ok ()) (hdefault : 1 ≤ default) :
    1 ≤ timeoutMs opts "backpressureTimeoutMs" default := by
  unfold validateStreamSinkOptions at h
  split at h
  · next hundefined => grind [timeoutMs, Js.get_of_isUndefined]
  · obtain ⟨_, -, h⟩ := bind_eq_ok h
    obtain ⟨_, -, h⟩ := bind_eq_ok h
    obtain ⟨_, -, h⟩ := bind_eq_ok h
    obtain ⟨_, -, h⟩ := bind_eq_ok h
    obtain ⟨_, htimeout, -⟩ := bind_eq_ok h
    exact timeoutMs_of_integerMs htimeout hdefault

/-! ## The ring size -/

def defaultRingBytes : Nat := 4 * 1024 * 1024
def minRingBytes : Nat := 64 * 1024
def maxRingBytes : Nat := 2 ^ 30

/-- A wanted size, clamped and rounded up to a power of two. -/
def roundRingBytes (wanted : ℚ) : Nat :=
  2 ^ clog 2 (min maxRingBytes (max minRingBytes wanted.ceil.toNat))

def normalizeRingBytes : Js → Except String Nat
  | .undefined => .ok (roundRingBytes defaultRingBytes)
  | .null => .ok (roundRingBytes defaultRingBytes)
  | .number wanted =>
    if wanted ≤ 0 then .error (bad "ringBytes must be a positive number")
    else .ok (roundRingBytes wanted)
  | _ => .error (bad "ringBytes must be a positive number")

theorem roundRingBytes_capacity (wanted : ℚ) :
    (roundRingBytes wanted).isPowerOfTwo ∧ minDataCapacity ≤ roundRingBytes wanted ∧
      roundRingBytes wanted ≤ maxDataCapacity := by
  unfold roundRingBytes
  generalize hclamped : min maxRingBytes (max minRingBytes wanted.ceil.toNat) = clamped
  have hlow : minRingBytes ≤ clamped := by
    rw [← hclamped]
    exact le_min (by decide) (le_max_left _ _)
  have hhigh : clamped ≤ 2 ^ 30 := by
    rw [← hclamped]
    exact min_le_left _ _
  refine ⟨⟨_, rfl⟩, ?_, ?_⟩
  · grind [le_pow_clog, minDataCapacity, minRingBytes]
  · exact Nat.pow_le_pow_right (by decide) (Nat.clog_le_of_le_pow hhigh)

theorem capacity_of_normalizeRingBytes {requested : Js} {ringBytes : Nat}
    (h : normalizeRingBytes requested = .ok ringBytes) :
    ringBytes.isPowerOfTwo ∧ minDataCapacity ≤ ringBytes ∧ ringBytes ≤ maxDataCapacity := by
  unfold normalizeRingBytes at h
  split at h
  · cases h
    exact roundRingBytes_capacity _
  · cases h
    exact roundRingBytes_capacity _
  · split at h
    · cases h
    · cases h
      exact roundRingBytes_capacity _
  · cases h

end WebTransportBun.Sink
