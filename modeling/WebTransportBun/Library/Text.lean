/-
  Library.Text

  The UTF-8 decoder of the web platform's `TextDecoder` in its default mode: a machine
  that takes one byte at a time, writes U+FFFD where a byte does not fit, and drops a
  byte order mark from the front of its output.

  Then where a string may be cut: a byte that does not continue a character stands behind
  whole characters (`exists_isPrefix_of_lead`), and the other way round.  At the end,
  trimming and reading of numbers as Rust's standard library has them.

  The encoding of a character brings the machine back between characters with exactly
  that character written (`run_utf8EncodeChar`), so a string comes back whole, except for
  a byte order mark at its front (`textDecode_toUTF8`).
-/

import Mathlib.Algebra.Ring.Nat
import Mathlib.Data.List.Basic
import Mathlib.Data.List.GetD

namespace Library

open List Nat

namespace Utf8

/-- Between two bytes: how many continuation bytes are owed, the bits read so far, and
    the range of the next byte. -/
structure State where
  needed : Nat
  codePoint : Nat
  lower : Nat
  upper : Nat
  deriving DecidableEq, Repr

/-- Between characters. -/
def initial : State := ⟨0, 0, 0x80, 0xBF⟩

/-- What stands for bytes that are no character. -/
def replacement : Char := Char.ofNat 0xFFFD

/-- The first byte of a character.  The ranges rule out overlong forms, surrogates and
    numbers above U+10FFFF at the second byte. -/
def lead (b : UInt8) : List Char × State :=
  let n := b.toNat
  if n ≤ 0x7F then ([Char.ofNat n], initial)
  else if 0xC2 ≤ n ∧ n ≤ 0xDF then ([], ⟨1, n % 32, 0x80, 0xBF⟩)
  else if 0xE0 ≤ n ∧ n ≤ 0xEF then
    ([], ⟨2, n % 16, if n = 0xE0 then 0xA0 else 0x80, if n = 0xED then 0x9F else 0xBF⟩)
  else if 0xF0 ≤ n ∧ n ≤ 0xF4 then
    ([], ⟨3, n % 8, if n = 0xF0 then 0x90 else 0x80, if n = 0xF4 then 0x8F else 0xBF⟩)
  else ([replacement], initial)

/-- One byte.  A byte that does not continue the character is read again as a first one. -/
def step (s : State) (b : UInt8) : List Char × State :=
  if s.needed = 0 then lead b
  else if b.toNat < s.lower ∨ s.upper < b.toNat then
    (replacement :: (lead b).1, (lead b).2)
  else
    let codePoint := s.codePoint * 64 + b.toNat % 64
    if s.needed = 1 then ([Char.ofNat codePoint], initial)
    else ([], ⟨s.needed - 1, codePoint, 0x80, 0xBF⟩)

/-- The characters written for the rest of the bytes; a character cut off at the end is
    replaced. -/
def run : State → List UInt8 → List Char
  | s, [] => if s.needed = 0 then [] else [replacement]
  | s, b :: rest => (step s b).1 ++ run (step s b).2 rest

end Utf8

def byteOrderMark : Char := Char.ofNat 0xFEFF

def dropByteOrderMark : List Char → List Char
  | [] => []
  | c :: rest => if c = byteOrderMark then rest else c :: rest

def textDecode (bytes : List UInt8) : String :=
  String.ofList (dropByteOrderMark (Utf8.run Utf8.initial bytes))

namespace Utf8

/-! ## One character -/

theorem toNat_byte {n : Nat} (h : n < 256) : (UInt8.ofNat n).toNat = n := by
  exact mod_eq_of_lt h

theorem run_lead {b : UInt8} {s : State} (h : lead b = ([], s)) (rest : List UInt8) :
    run initial (b :: rest) = run s rest := by
  have hstep : step initial b = ([], s) := h
  rw [run, hstep, nil_append]

theorem run_next {needed codePoint lower upper n : Nat} (hlower : lower ≤ n) (hupper : n ≤ upper)
    (hbyte : n < 256) (rest : List UInt8) :
    run ⟨needed + 2, codePoint, lower, upper⟩ (UInt8.ofNat n :: rest) =
      run ⟨needed + 1, codePoint * 64 + n % 64, 0x80, 0xBF⟩ rest := by
  have hstep : step ⟨needed + 2, codePoint, lower, upper⟩ (UInt8.ofNat n) =
      ([], ⟨needed + 1, codePoint * 64 + n % 64, 0x80, 0xBF⟩) := by
    simp only [step, toNat_byte hbyte]
    rw [if_neg (by omega), if_neg (by omega)]
    rfl
  rw [run, hstep, nil_append]

theorem run_last {codePoint lower upper n : Nat} (hlower : lower ≤ n) (hupper : n ≤ upper)
    (hbyte : n < 256) (rest : List UInt8) :
    run ⟨1, codePoint, lower, upper⟩ (UInt8.ofNat n :: rest) =
      Char.ofNat (codePoint * 64 + n % 64) :: run initial rest := by
  have hstep : step ⟨1, codePoint, lower, upper⟩ (UInt8.ofNat n) =
      ([Char.ofNat (codePoint * 64 + n % 64)], initial) := by
    simp only [step, toNat_byte hbyte]
    rw [if_neg (by omega), if_neg (by omega), if_pos trivial]
  rw [run, hstep, singleton_append]

variable {v : Nat}

theorem lead_two (hlow : 0x7F < v) (hhigh : v ≤ 0x7FF) :
    lead (UInt8.ofNat (v / 64 % 32 + 192)) = ([], ⟨1, v / 64, 0x80, 0xBF⟩) := by
  rw [lead, toNat_byte (by omega), if_neg (by omega), if_pos (by omega)]
  congr 2
  omega

theorem lead_three (hhigh : v ≤ 0xFFFF) :
    lead (UInt8.ofNat (v / 4096 % 16 + 224)) =
      ([], ⟨2, v / 4096, if v / 4096 = 0 then 0xA0 else 0x80,
        if v / 4096 = 13 then 0x9F else 0xBF⟩) := by
  rw [lead, toNat_byte (by omega), if_neg (by omega), if_neg (by omega), if_pos (by omega)]
  congr 2
  · omega
  · exact if_congr (by omega) rfl rfl
  · exact if_congr (by omega) rfl rfl

theorem lead_four (hhigh : v < 0x110000) :
    lead (UInt8.ofNat (v / 262144 % 8 + 240)) =
      ([], ⟨3, v / 262144, if v / 262144 = 0 then 0x90 else 0x80,
        if v / 262144 = 4 then 0x8F else 0xBF⟩) := by
  rw [lead, toNat_byte (by omega), if_neg (by omega), if_neg (by omega), if_neg (by omega),
    if_pos (by omega)]
  congr 2
  · omega
  · exact if_congr (by omega) rfl rfl
  · exact if_congr (by omega) rfl rfl

/-- The encoding of a character is read as that character. -/
theorem run_utf8EncodeChar (c : Char) (rest : List UInt8) :
    run initial (String.utf8EncodeChar c ++ rest) = c :: run initial rest := by
  have hback : Char.ofNat c.val.toNat = c := Char.ofNat_toNat c
  have hvalid : c.val.toNat < 0xD800 ∨ 0xDFFF < c.val.toNat ∧ c.val.toNat < 0x110000 := c.valid
  simp only [String.utf8EncodeChar]
  generalize c.val.toNat = v at hback hvalid
  rw [← hback]
  split
  · -- One byte.
    next hone =>
    have hlead : lead (UInt8.ofNat v) = ([Char.ofNat v], initial) := by
      rw [lead, toNat_byte (by omega), if_pos hone]
    have hstep : step initial (UInt8.ofNat v) = ([Char.ofNat v], initial) := hlead
    rw [singleton_append, run, hstep, singleton_append]
  split
  · -- Two bytes.
    next hone htwo =>
    rw [cons_append, run_lead (lead_two (by omega) htwo), singleton_append,
      run_last (by omega) (by omega) (by omega)]
    congr 2
    omega
  split
  · -- Three bytes; the second one is what keeps overlong forms and surrogates out.
    next htwo hthree =>
    rw [cons_append, run_lead (lead_three hthree), cons_append,
      run_next (by split <;> omega) (by split <;> omega) (by omega), singleton_append,
      run_last (by omega) (by omega) (by omega)]
    congr 2
    omega
  · -- Four bytes; the second one bounds the number.
    next hthree =>
    rw [cons_append, run_lead (lead_four (by omega)), cons_append,
      run_next (by split <;> omega) (by split <;> omega) (by omega), cons_append,
      run_next (by omega) (by omega) (by omega), singleton_append,
      run_last (by omega) (by omega) (by omega)]
    congr 2
    omega

theorem run_flatMap (cs : List Char) : run initial (cs.flatMap String.utf8EncodeChar) = cs := by
  induction cs with
  | nil => rfl
  | cons c cs ih => rw [flatMap_cons, run_utf8EncodeChar, ih]

end Utf8

theorem toUTF8_toList (s : String) :
    s.toUTF8.data.toList = s.toList.flatMap String.utf8EncodeChar := by
  conv => lhs; rw [← String.ofList_toList (s := s)]
  rw [String.toUTF8_eq_toByteArray, String.toByteArray_ofList, List.utf8Encode,
    data_toByteArray]

theorem textDecode_toUTF8 (s : String) :
    textDecode s.toUTF8.data.toList = String.ofList (dropByteOrderMark s.toList) := by
  rw [textDecode, toUTF8_toList, Utf8.run_flatMap]

theorem textDecode_toUTF8_eq_iff (s : String) :
    textDecode s.toUTF8.data.toList = s ↔ s.toList.head? ≠ some byteOrderMark := by
  rw [textDecode_toUTF8]
  constructor
  · intro hsame hmark
    have hchars : dropByteOrderMark s.toList = s.toList := by
      rw [← String.toList_ofList (l := dropByteOrderMark s.toList), hsame]
    obtain ⟨rest, hs⟩ := head?_eq_some_iff.mp hmark
    rw [hs, dropByteOrderMark] at hchars
    exact cons_ne_self _ _ hchars.symm
  · intro hmark
    have hchars : dropByteOrderMark s.toList = s.toList := by
      cases hs : s.toList with
      | nil => rfl
      | cons c rest =>
        rw [hs] at hmark
        exact if_neg fun hc => hmark (congrArg some hc)
    rw [hchars, String.ofList_toList]

/-! ## Character boundaries -/

namespace Utf8

/-- A byte `10xxxxxx`: one that does not begin a character. -/
def IsContinuation (b : UInt8) : Prop := b &&& 0xC0 = 0x80

instance : DecidablePred IsContinuation := fun b => inferInstanceAs (Decidable (b &&& 0xC0 = 0x80))

theorem isContinuation_low (n : Nat) : IsContinuation (UInt8.ofNat (n % 64 + 128)) := by
  have hall : ∀ x : Fin 64, IsContinuation (UInt8.ofNat (x.val + 128)) := by decide
  exact hall ⟨n % 64, mod_lt n (by decide)⟩

theorem not_isContinuation_lead {n : Nat} (h : n ≤ 0x7F ∨ 0xC0 ≤ n ∧ n ≤ 0xFF) :
    ¬ IsContinuation (UInt8.ofNat n) := by
  have hascii : ∀ x : Fin 128, ¬ IsContinuation (UInt8.ofNat x.val) := by decide
  have hlong : ∀ x : Fin 64, ¬ IsContinuation (UInt8.ofNat (x.val + 0xC0)) := by decide
  rcases h with h | ⟨hlow, hhigh⟩
  · exact hascii ⟨n, by omega⟩
  · have hn := hlong ⟨n - 0xC0, by omega⟩
    rwa [Nat.sub_add_cancel hlow] at hn

theorem utf8EncodeChar_eq_cons (c : Char) :
    ∃ b tail, String.utf8EncodeChar c = b :: tail ∧ ¬ IsContinuation b ∧
      ∀ t ∈ tail, IsContinuation t := by
  simp only [String.utf8EncodeChar]
  generalize c.val.toNat = v
  have htail (l : List Nat) : ∀ t ∈ l.map (fun n => UInt8.ofNat (n % 64 + 128)),
      IsContinuation t := by
    intro t ht
    obtain ⟨n, -, rfl⟩ := mem_map.mp ht
    exact isContinuation_low n
  split
  · exact ⟨_, [], rfl, not_isContinuation_lead (by omega), htail []⟩
  split
  · exact ⟨_, _, rfl, not_isContinuation_lead (by omega), htail [v]⟩
  split
  · exact ⟨_, _, rfl, not_isContinuation_lead (by omega), htail [v / 64, v]⟩
  · exact ⟨_, _, rfl, not_isContinuation_lead (by omega), htail [v / 4096, v / 64, v]⟩

theorem not_isContinuation_of_isPrefix {cs front : List Char} (h : front <+: cs)
    (hlt : (front.flatMap String.utf8EncodeChar).length <
      (cs.flatMap String.utf8EncodeChar).length) :
    ¬ IsContinuation ((cs.flatMap String.utf8EncodeChar).getD
      (front.flatMap String.utf8EncodeChar).length 0) := by
  obtain ⟨rest, rfl⟩ := h
  cases rest with
  | nil => simp at hlt
  | cons c rest =>
    obtain ⟨b, tail, hc, hb, -⟩ := utf8EncodeChar_eq_cons c
    rw [flatMap_append, flatMap_cons, hc, getD_append_right _ _ _ _ le_rfl,
      Nat.sub_self]
    exact hb

/-- In front of a first byte stand whole characters. -/
theorem exists_isPrefix_of_lead {cs : List Char} {p : Nat}
    (hlt : p < (cs.flatMap String.utf8EncodeChar).length)
    (hp : ¬ IsContinuation ((cs.flatMap String.utf8EncodeChar).getD p 0)) :
    ∃ front, front <+: cs ∧ (front.flatMap String.utf8EncodeChar).length = p := by
  induction cs generalizing p with
  | nil => simp at hlt
  | cons c cs ih =>
    obtain ⟨b, tail, hc, -, htail⟩ := utf8EncodeChar_eq_cons c
    rw [flatMap_cons, hc] at hlt hp
    rcases Nat.eq_zero_or_pos p with rfl | hpos
    · exact ⟨[], nil_prefix, rfl⟩
    rcases lt_or_ge p (b :: tail).length with hin | hout
    · -- inside the first character there are continuation bytes only
      exfalso
      obtain ⟨q, rfl⟩ : ∃ q, p = q + 1 := Nat.exists_eq_add_of_le' hpos
      have hq : q < tail.length := by
        rw [length_cons] at hin
        omega
      rw [getD_append _ _ _ _ hin, getD_cons_succ, getD_eq_getElem _ _ hq] at hp
      exact hp (htail _ (getElem_mem hq))
    · rw [getD_append_right _ _ _ _ hout] at hp
      rw [length_append] at hlt
      obtain ⟨front, hfront, hlen⟩ := ih (by omega) hp
      refine ⟨c :: front, cons_prefix_cons.mpr ⟨rfl, hfront⟩, ?_⟩
      rw [flatMap_cons, length_append, hc]
      omega

theorem eq_of_isPrefix_of_length_le {front more : List Char} (h : front <+: more)
    (hle : (more.flatMap String.utf8EncodeChar).length ≤
      (front.flatMap String.utf8EncodeChar).length) : front = more := by
  obtain ⟨rest, rfl⟩ := h
  cases rest with
  | nil => exact (append_nil front).symm
  | cons c rest =>
    obtain ⟨b, tail, hc, -, -⟩ := utf8EncodeChar_eq_cons c
    rw [flatMap_append, flatMap_cons, hc] at hle
    simp only [length_append, length_cons] at hle
    omega

end Utf8

/-! ## Trimming and numbers -/

def isWhitespace (c : Char) : Bool :=
  (0x09 ≤ c.toNat && c.toNat ≤ 0x0D) || (0x2000 ≤ c.toNat && c.toNat ≤ 0x200A) ||
    [0x20, 0x85, 0xA0, 0x1680, 0x2028, 0x2029, 0x202F, 0x205F, 0x3000].contains c.toNat

section

variable (chars : List Char)

def trim : List Char :=
  ((chars.dropWhile isWhitespace).reverse.dropWhile isWhitespace).reverse

/-- Decimal digits, at least one. -/
def digits : Option Nat :=
  if chars.isEmpty then none
  else if chars.all Char.isDigit then
    some (chars.foldl (fun n c => 10 * n + (c.toNat - '0'.toNat)) 0)
  else none

/-- `str::parse::<u64>`: a plus sign may stand in front. -/
def parseU64 : Option Nat :=
  let n := match chars with
    | '+' :: rest => digits rest
    | _ => digits chars
  n.filter (· < 2 ^ 64)

end

end Library
