/-
  WebTransportBun.Wasm.Qpack.Awaited

  What the two instruction loops wait for.  Where a loop stops in front of an instruction,
  either some bytes behind it make the loop go on, or none ever will.  The helpers answer
  `None` both for bytes that are missing and for bytes that are wrong, so the loops wait on
  three kinds of malformed input for ever: an integer that is too long, a value whose length
  is no `usize`, and a value that does not decode (`waits_for_ever_iff`).  A name that does
  not decode is reported.

  Huffman coding is the parameter `huffman`; what is used of it is that there are coded
  strings of every length.
-/

import WebTransportBun.Wasm.Qpack.Chunking

namespace WebTransportBun.Wasm.Qpack

open Library List Option Nat

/-! ## Integers that are cut off and integers that are too long -/

/-- The loop over the continuation bytes gives up, whatever follows. -/
def overlongLoop : Bytes → Nat → Nat → Bool
  | [], _, _ => false
  | b :: rest, value, m =>
    let value := value + (b.toNat &&& 0x7f) <<< m % 2 ^ 64
    if 2 ^ 64 ≤ value then true
    else if b &&& 0x80 = 0 then false
    else if 64 ≤ m + 7 then true
    else overlongLoop rest value (m + 7)

/-- An integer with more groups or a larger sum than a `u64` has. -/
def overlongInt (buf : Bytes) (n : Nat) : Bool :=
  match buf with
  | [] => false
  | b :: rest =>
    let max := 2 ^ n - 1
    if (b.toNat &&& max) < max then false else overlongLoop rest max 0

variable {value m i : Nat} {buf : Bytes}

theorem qpackIntDecodeLoop_overlong
    (h : overlongLoop buf value m = true) (more : Bytes) :
    qpackIntDecodeLoop (buf ++ more) value m i = none := by
  induction buf generalizing value m i with
  | nil => cases h
  | cons b buf ih => grind [overlongLoop, qpackIntDecodeLoop]

variable {n : Nat}

theorem qpackIntDecode_overlong (h : overlongInt buf n = true)
    (more : Bytes) : qpackIntDecode (buf ++ more) n = none := by
  cases buf with
  | nil => cases h
  | cons b buf =>
    simp only [overlongInt] at h
    simp only [cons_append, qpackIntDecode]
    split at h
    · cases h
    · next hfirst => rw [if_neg hfirst]; exact qpackIntDecodeLoop_overlong h more

/-- Where the continuation bytes are cut off, the loop is on its way: with the next shift,
    and with a value that the groups so far bound. -/
theorem qpackIntDecodeLoop_open {start : Nat}
    (h : qpackIntDecodeLoop buf value m i = none) (hfits : overlongLoop buf value m = false)
    (hvalue : value < 2 ^ 64) (hm : m < 64) (hstart : value < start + 2 ^ m) :
    ∃ value' m', value' < 2 ^ 64 ∧ m' < 64 ∧ m' = m + 7 * buf.length ∧ value' < start + 2 ^ m' ∧
      ∀ more, qpackIntDecodeLoop (buf ++ more) value m i =
        qpackIntDecodeLoop more value' m' (i + buf.length) := by
  induction buf generalizing value m i with
  | nil => exact ⟨value, m, hvalue, hm, rfl, hstart, fun more => rfl⟩
  | cons b buf ih =>
    rw [overlongLoop] at hfits
    rw [qpackIntDecodeLoop] at h
    split at hfits
    · cases hfits
    next hsum =>
    rw [if_neg hsum] at h
    split at hfits
    · next hlast => rw [if_pos hlast] at h; cases h
    next hcont =>
    rw [if_neg hcont] at h
    split at hfits
    · cases hfits
    next hroom =>
    rw [if_neg hroom] at h
    -- a group adds at most 127 times its weight
    have hgroup : (b.toNat &&& 0x7f) <<< m % 2 ^ 64 ≤ 127 * 2 ^ m := by
      have hand : b.toNat &&& 0x7f ≤ 127 := and_le_right
      calc (b.toNat &&& 0x7f) <<< m % 2 ^ 64 ≤ (b.toNat &&& 0x7f) <<< m := mod_le ..
        _ = (b.toNat &&& 0x7f) * 2 ^ m := shiftLeft_eq ..
        _ ≤ 127 * 2 ^ m := mul_le_mul_right _ hand
    have hweight : 2 ^ (m + 7) = 128 * 2 ^ m := by rw [Nat.pow_add, mul_comm]
    obtain ⟨value', m', hvalue', hm', hshift, hbound, hmore⟩ :=
      ih h hfits (by omega) (by omega) (by omega)
    refine ⟨value', m', hvalue', hm', by rw [length_cons]; omega, hbound, fun more => ?_⟩
    rw [cons_append, qpackIntDecodeLoop, if_neg hsum, if_neg hcont, if_neg hroom, hmore,
      length_cons, add_assoc, add_comm 1]

theorem qpackIntDecodeLoop_zero (hvalue : value < 2 ^ 64) :
    qpackIntDecodeLoop [0] value m i = some (value, i + 1) := by
  have hzero : ((0 : UInt8).toNat &&& 0x7f) <<< m % 2 ^ 64 = 0 := by simp
  rw [qpackIntDecodeLoop, hzero, add_zero, if_neg (by omega), if_pos (by decide)]

theorem qpackIntDecodeLoop_one (hvalue : value + 2 ^ m < 2 ^ 64) :
    qpackIntDecodeLoop [1] value m i = some (value + 2 ^ m, i + 1) := by
  have hone : ((1 : UInt8).toNat &&& 0x7f) <<< m % 2 ^ 64 = 2 ^ m := by
    rw [show (1 : UInt8).toNat &&& 0x7f = 1 from rfl, shiftLeft_eq, one_mul,
      mod_eq_of_lt (by omega)]
  rw [qpackIntDecodeLoop, hone, if_neg (by omega), if_pos (by decide)]

theorem qpackIntDecodeLoop_le {v n : Nat}
    (h : qpackIntDecodeLoop buf value m i = some (v, n)) : value ≤ v := by
  induction buf generalizing value m i with
  | nil => cases h
  | cons b buf ih =>
    rw [qpackIntDecodeLoop] at h
    split at h
    · cases h
    split at h
    · cases h
      exact Nat.le_add_right ..
    split at h
    · cases h
    · exact (Nat.le_add_right ..).trans (ih h)

/-- A cut-off integer that is not too long is closed by a zero byte, with the least of the
    values it can still take. -/
theorem qpackIntDecode_close (hn : 0 < n) (hn' : n ≤ 8)
    (h : qpackIntDecode buf n = none) (hfits : overlongInt buf n = false) :
    ∃ v, qpackIntDecode (buf ++ [0]) n = some (v, buf.length + 1) ∧
      ∀ more v' k, qpackIntDecode (buf ++ more) n = some (v', k) → buf ≠ [] → v ≤ v' := by
  have hpos : 2 ≤ 2 ^ n := by
    calc 2 = 2 ^ 1 := rfl
      _ ≤ 2 ^ n := Nat.pow_le_pow_right (by decide) hn
  have hmax : 2 ^ n ≤ 2 ^ 8 := Nat.pow_le_pow_right (by decide) hn'
  cases buf with
  | nil =>
    refine ⟨0, ?_, fun _ _ _ _ hne => absurd rfl hne⟩
    have hzero : (0 : UInt8).toNat &&& 2 ^ n - 1 = 0 := zero_and _
    simp only [nil_append, qpackIntDecode, hzero]
    rw [if_pos (by omega)]
    rfl
  | cons b buf =>
    simp only [overlongInt] at hfits
    simp only [qpackIntDecode] at h
    split at hfits
    · next hfirst => rw [if_pos hfirst] at h; cases h
    next hfirst =>
    rw [if_neg hfirst] at h
    obtain ⟨v, m, hv, hm, -, -, hmore⟩ :=
      qpackIntDecodeLoop_open h hfits (by omega) (by decide) (lt_succ_self _)
    refine ⟨v, ?_, fun more v' k hdecode _ => ?_⟩
    · simp only [cons_append, qpackIntDecode]
      rw [if_neg hfirst, hmore, qpackIntDecodeLoop_zero hv, length_cons, add_comm 1]
    · simp only [cons_append, qpackIntDecode] at hdecode
      rw [if_neg hfirst, hmore] at hdecode
      exact qpackIntDecodeLoop_le hdecode

/-- A cut-off name length that a zero byte would close just below the end of `usize` is
    closed beyond it by a one. -/
theorem qpackIntDecode_close_large {v : Nat} (h : qpackIntDecode buf 5 = none)
    (hfits : overlongInt buf 5 = false)
    (hclose : qpackIntDecode (buf ++ [0]) 5 = some (v, buf.length + 1))
    (hmax : v ≤ usizeMax) (hsum : usizeMax < buf.length + 1 + v) :
    ∃ v', qpackIntDecode (buf ++ [1]) 5 = some (v', buf.length + 1) ∧ usizeMax < v' := by
  unfold usizeMax at hmax hsum ⊢
  cases buf with
  | nil =>
    have hzero : 0 = v := congrArg Prod.fst (some.inj hclose)
    rw [length_nil] at hsum
    omega
  | cons b buf =>
    simp only [overlongInt] at hfits
    simp only [qpackIntDecode] at h
    split at hfits
    · next hfirst => rw [if_pos hfirst] at h; cases h
    next hfirst =>
    rw [if_neg hfirst] at h
    obtain ⟨v₀, m, hv, hm, hshift, hbound, hmore⟩ :=
      qpackIntDecodeLoop_open h hfits (by decide) (by decide) (Nat.lt_succ_self _)
    simp only [cons_append, qpackIntDecode] at hclose ⊢
    rw [if_neg hfirst, hmore, qpackIntDecodeLoop_zero hv] at hclose
    obtain rfl : v₀ = v := congrArg Prod.fst (some.inj hclose)
    -- ten groups at most, so the value is close to the end of `usize` by itself
    have hweight : 2 ^ 32 ≤ 2 ^ m := by
      apply Nat.pow_le_pow_right (by decide)
      by_contra hlt
      have : 2 ^ m ≤ 2 ^ 31 := Nat.pow_le_pow_right (by decide) (by omega)
      rw [length_cons] at hsum
      omega
    have hroom : 2 ^ m ≤ 2 ^ 63 := Nat.pow_le_pow_right (by decide) (by omega)
    rw [if_neg hfirst, hmore, qpackIntDecodeLoop_one (by omega)]
    exact ⟨_, by rw [length_cons, add_comm 1], by omega⟩

/-! ## Strings that can still be completed -/

section

variable {huffman : Bytes → Option Bytes} {buf : Bytes}

/-- What is used of the Huffman code: for every length there are so many bytes that decode to
    a text. -/
def CodesEveryLength (huffman : Bytes → Option Bytes) : Prop :=
  ∀ len, ∃ (raw : Bytes) (s : String), raw.length = len ∧ decodeQpackBytes huffman raw true = some s

theorem exists_decodable (hcode : CodesEveryLength huffman) (len : Nat) (isHuffman : Bool) :
    ∃ (raw : Bytes) (s : String), raw.length = len ∧
      decodeQpackBytes huffman raw isHuffman = some s := by
  cases isHuffman with
  | true => exact hcode len
  | false =>
    exact ⟨strBytes (letters len), letters len, length_strBytes_letters len, fromUtf8_strBytes _⟩

variable (huffman buf) in
/-- No string begins with `buf`: its length is too long an integer or no `usize`, or no bytes
    of that length that agree with those already there decode.  The zero byte stands for the
    rest of a length that is cut off. -/
def StuckString : Prop :=
  overlongInt buf 7 = true ∨
    ∃ first len n, (buf ++ [0]).head? = some first ∧ qpackIntDecode (buf ++ [0]) 7 = some (len, n) ∧
      (usizeMax < len ∨
        ∀ raw : Bytes, raw.length = len → raw <+: buf.drop n ∨ buf.drop n <+: raw →
          decodeQpackBytes huffman raw (first &&& 0x80 ≠ 0) = none)

theorem StuckString.readQpackString_eq_none (hcode : CodesEveryLength huffman)
    (h : StuckString huffman buf) (more : Bytes) :
    readQpackString huffman (buf ++ more) = none := by
  rw [eq_none_iff_forall_ne_some]
  rintro ⟨s, rest⟩ hread
  obtain ⟨first, len, n, hhead, hint, hmax, hlen, hdecode, -⟩ := readQpackString_eq_some.mp hread
  rcases h with hover | ⟨first', len', n', hhead', hint', hwrong⟩
  · rw [qpackIntDecode_overlong hover] at hint
    cases hint
  cases hbuf : qpackIntDecode buf 7 with
  | some r =>
    -- the length is there, so both buffers have the same one
    rw [qpackIntDecode_append hbuf] at hint hint'
    cases hint
    cases hint'
    have hn := (qpackIntDecode_within hbuf).2
    have hpos := (qpackIntDecode_within hbuf).1
    obtain ⟨b, tail, rfl⟩ := exists_cons_of_length_pos (l := buf) (by omega)
    obtain rfl : b = first := some.inj hhead
    obtain rfl : b = first' := some.inj hhead'
    rcases hwrong with hlarge | hbad
    · omega
    · grind
  | none =>
    cases hover : overlongInt buf 7 with
    | true =>
      rw [qpackIntDecode_overlong hover] at hint
      cases hint
    | false =>
      obtain ⟨v, hclose, hleast⟩ := qpackIntDecode_close (by decide) (by decide) hbuf hover
      rw [hclose] at hint'
      cases hint'
      rcases hwrong with hlarge | hbad
      · -- a length that is cut off only grows
        by_cases hne : buf = []
        · subst hne
          have hzero : 0 = len' := congrArg Prod.fst (some.inj hclose)
          omega
        · have := hleast _ _ _ hint hne
          omega
      · obtain ⟨raw, text, hraw, htext⟩ := exists_decodable hcode len' (first' &&& 0x80 ≠ 0)
        have hdrop : buf.drop (buf.length + 1) = [] := drop_eq_nil_of_le (by omega)
        rw [hbad raw hraw (.inr (hdrop ▸ nil_prefix))] at htext
        cases htext

/-- A string that is neither there nor stuck is completed by some bytes. -/
theorem exists_readQpackString (hnone : readQpackString huffman buf = none)
    (h : ¬ StuckString huffman buf) :
    ∃ more s, readQpackString huffman (buf ++ more) = some (s, []) := by
  obtain ⟨hover, hrest⟩ := not_or.mp h
  have hover : overlongInt buf 7 = false := by simpa using hover
  -- the length, closed by a zero byte when it is cut off
  obtain ⟨len, n, hclose, hn⟩ : ∃ len n, qpackIntDecode (buf ++ [0]) 7 = some (len, n) ∧
      (qpackIntDecode buf 7 = some (len, n) ∨ n = buf.length + 1) := by
    cases hbuf : qpackIntDecode buf 7 with
    | some r => exact ⟨r.1, r.2, qpackIntDecode_append hbuf [0], .inl rfl⟩
    | none =>
      obtain ⟨v, hclose, -⟩ := qpackIntDecode_close (by decide) (by decide) hbuf hover
      exact ⟨v, _, hclose, .inr rfl⟩
  obtain ⟨first, hfirst⟩ : ∃ first, (buf ++ [0]).head? = some first := by
    cases buf with
    | nil => exact ⟨0, rfl⟩
    | cons b tail => exact ⟨b, rfl⟩
  have hfits : ¬ usizeMax < len := fun hlarge =>
    hrest ⟨first, len, n, hfirst, hclose, .inl hlarge⟩
  obtain ⟨raw, hraw, hagree, text, htext⟩ : ∃ raw : Bytes, raw.length = len ∧
      (raw <+: buf.drop n ∨ buf.drop n <+: raw) ∧
      ∃ text, decodeQpackBytes huffman raw (first &&& 0x80 ≠ 0) = some text := by
    by_contra hnone
    refine hrest ⟨first, len, n, hfirst, hclose, .inr fun raw hraw hagree => ?_⟩
    rw [eq_none_iff_forall_ne_some]
    exact fun text htext => hnone ⟨raw, hraw, hagree, text, htext⟩
  rcases hn with hbuf | rfl
  · have hle := qpackIntDecode_within hbuf
    obtain ⟨b, tail, rfl⟩ := exists_cons_of_length_pos (l := buf) (by omega)
    obtain rfl : b = first := some.inj hfirst
    rcases hagree with hpre | hpre
    · -- all of it is there, against `hnone`
      have hthere := readQpackString_eq_some.mpr ⟨b, len, n, rfl, hbuf, not_lt.mp hfits,
        hraw ▸ hpre.length_le, by rw [← hraw, ← prefix_iff_eq_take.mp hpre]; exact htext, rfl⟩
      rw [hnone] at hthere
      cases hthere
    · obtain ⟨more, hmore⟩ := hpre
      have hdrop : ((b :: tail) ++ more).drop n = raw := by
        rw [drop_append_of_le_length hle.2, hmore]
      refine ⟨more, text, readQpackString_eq_some.mpr
        ⟨b, len, n, rfl, qpackIntDecode_append hbuf more, by omega, ?_, ?_, ?_⟩⟩
      · rw [hdrop, hraw]
      · rw [hdrop, ← hraw, take_length]
        exact htext
      · rw [hdrop, ← hraw, drop_length]
  · have hdrop : (buf ++ ([0] ++ raw)).drop (buf.length + 1) = raw := by
      rw [← append_assoc]
      exact drop_left' (by rw [length_append]; rfl)
    refine ⟨[0] ++ raw, text, readQpackString_eq_some.mpr
      ⟨first, len, buf.length + 1, ?_, ?_, by omega, ?_, ?_, ?_⟩⟩
    · rw [← append_assoc, head?_append, hfirst]
      rfl
    · rw [← append_assoc]
      exact qpackIntDecode_append hclose raw
    · rw [hdrop, hraw]
    · rw [hdrop, ← hraw, take_length]
      exact htext
    · rw [hdrop, ← hraw, drop_length]

/-! ## Instructions that can still be completed -/

variable {d : QpackDecoder} {first : UInt8}

/-- The bytes are one whole instruction, or they are reported. -/
def Moves {S : Type} (verdict : Verdict S FeedStop) (len : Nat) : Prop :=
  (∃ s, verdict = .take len s) ∨ ∃ s e, verdict = .fail s (.error e)

theorem Moves.invalid {S : Type} {s : S} {len : Nat} : Moves (.fail s (.error .invalid)) len :=
  .inr ⟨s, _, rfl⟩

theorem Moves.ne_wait {S : Type} {verdict : Verdict S FeedStop} {len : Nat}
    (h : Moves verdict len) : verdict ≠ .wait := by
  rcases h with ⟨s, rfl⟩ | ⟨s, e, rfl⟩ <;> exact nofun

theorem applyInsert_moves {name value : String} {k : Nat} :
    Moves (applyInsert d name value k) k := by
  unfold applyInsert
  split
  · exact .inl ⟨_, rfl⟩
  · exact .inr ⟨_, _, rfl⟩

variable (huffman buf) in
/-- No bytes make `feed_encoder_stream` get past this beginning of an instruction. -/
def StuckInstruction : Prop :=
  ∃ first, buf.head? = some first ∧
    if first &&& 0x80 ≠ 0 then
      overlongInt buf 6 = true ∨
        ∃ idx n, qpackIntDecode buf 6 = some (idx, n) ∧ StuckString huffman (buf.drop n)
    else if first &&& 0x40 ≠ 0 then
      overlongInt buf 5 = true ∨
        ∃ nlen n1, qpackIntDecode buf 5 = some (nlen, n1) ∧ n1 + nlen ≤ buf.length ∧
          StuckString huffman (buf.drop (n1 + nlen))
    else overlongInt buf 5 = true

section

variable (hwait : insertWithNameReference huffman d first buf = .wait)

include hwait

/-- With the name found, the value decides. -/
theorem insertWithNameReference_value {idx n : Nat} (hint : qpackIntDecode buf 6 = some (idx, n)) :
    readQpackString huffman (buf.drop n) = none ∧
    (∀ more, readQpackString huffman (buf.drop n ++ more) = none →
      insertWithNameReference huffman d first (buf ++ more) = .wait) ∧
    ∀ more s, readQpackString huffman (buf.drop n ++ more) = some (s, []) →
      Moves (insertWithNameReference huffman d first (buf ++ more)) (buf ++ more).length := by
  have hn := (qpackIntDecode_within hint).2
  simp only [insertWithNameReference, hint] at hwait
  simp only [insertWithNameReference, qpackIntDecode_append hint,
    drop_append_of_le_length hn]
  split at hwait
  · cases hwait
  refine ⟨?_, fun more hnone => by rw [hnone], fun more s hsome => ?_⟩
  · cases hvalue : readQpackString huffman (buf.drop n) with
    | none => rfl
    | some r =>
      rw [hvalue] at hwait
      exact absurd hwait applyInsert_moves.ne_wait
  · rw [hsome]
    exact applyInsert_moves

theorem insertWithNameReference_moves (hover : ¬ overlongInt buf 6 = true)
    (hvalue : ∀ idx n, qpackIntDecode buf 6 = some (idx, n) → ¬ StuckString huffman (buf.drop n)) :
    ∃ more, Moves (insertWithNameReference huffman d first (buf ++ more)) (buf ++ more).length := by
  cases hint : qpackIntDecode buf 6 with
  | some r =>
    obtain ⟨hnone, -, hmoves⟩ := insertWithNameReference_value hwait hint
    obtain ⟨more, s, hread⟩ := exists_readQpackString hnone (hvalue r.1 r.2 hint)
    exact ⟨more, hmoves more s hread⟩
  | none =>
    -- a zero byte closes the index, another one is the empty value
    obtain ⟨idx, hclose, -⟩ := qpackIntDecode_close (by decide) (by decide) hint
      (by simpa using hover)
    refine ⟨[0] ++ [0], ?_⟩
    rw [← append_assoc, insertWithNameReference, qpackIntDecode_append hclose]
    dsimp only
    rw [drop_left' (by rw [length_append]; rfl)]
    split
    · exact .invalid
    · exact applyInsert_moves

theorem insertWithNameReference_stuck (hcode : CodesEveryLength huffman)
    (hstuck : overlongInt buf 6 = true ∨
      ∃ idx n, qpackIntDecode buf 6 = some (idx, n) ∧ StuckString huffman (buf.drop n))
    (more : Bytes) : insertWithNameReference huffman d first (buf ++ more) = .wait := by
  rcases hstuck with hover | ⟨idx, n, hint, hstuck⟩
  · rw [insertWithNameReference, qpackIntDecode_overlong hover]
  · exact (insertWithNameReference_value hwait hint).2.1 more
      (hstuck.readQpackString_eq_none hcode more)

end

theorem insertWithLiteralName_decided {nlen n1 : Nat}
    (hint : qpackIntDecode buf 5 = some (nlen, n1)) (hdrop : buf.drop (n1 + nlen) = [0])
    (hsum : ¬ usizeMax < n1 + nlen) :
    Moves (insertWithLiteralName huffman d first buf) buf.length := by
  have hlen : buf.length - (n1 + nlen) = 1 := by
    rw [← length_drop, hdrop]
    rfl
  rw [insertWithLiteralName, hint]
  dsimp only
  rw [if_neg (show ¬ buf.length < n1 + nlen by omega), hdrop]
  split
  · exact .invalid
  split
  · exact .invalid
  · exact applyInsert_moves

section

variable (hwait : insertWithLiteralName huffman d first buf = .wait)

include hwait

/-- With the name there, the value decides. -/
theorem insertWithLiteralName_value {nlen n1 : Nat}
    (hint : qpackIntDecode buf 5 = some (nlen, n1)) (hname : n1 + nlen ≤ buf.length) :
    readQpackString huffman (buf.drop (n1 + nlen)) = none ∧
    (∀ more, readQpackString huffman (buf.drop (n1 + nlen) ++ more) = none →
      insertWithLiteralName huffman d first (buf ++ more) = .wait) ∧
    ∀ more s, readQpackString huffman (buf.drop (n1 + nlen) ++ more) = some (s, []) →
      Moves (insertWithLiteralName huffman d first (buf ++ more)) (buf ++ more).length := by
  have hsame : ∀ more, ((buf ++ more).drop n1).take nlen = (buf.drop n1).take nlen := by grind
  have hthere : ∀ more, ¬ (buf ++ more).length < n1 + nlen := by grind
  simp only [insertWithLiteralName, hint, if_neg (not_lt.mpr hname)] at hwait
  simp only [insertWithLiteralName, qpackIntDecode_append hint, hsame, if_neg (hthere _),
    drop_append_of_le_length hname]
  split at hwait
  · cases hwait
  next hmax =>
  split at hwait
  · cases hwait
  next hsum =>
  simp only [if_neg hmax, if_neg hsum]
  split at hwait
  · cases hwait
  refine ⟨?_, fun more hnone => by rw [hnone], fun more s hsome => ?_⟩
  · cases hvalue : readQpackString huffman (buf.drop (n1 + nlen)) with
    | none => rfl
    | some r =>
      rw [hvalue] at hwait
      exact absurd hwait applyInsert_moves.ne_wait
  · rw [hsome]
    exact applyInsert_moves

theorem insertWithLiteralName_moves (hover : ¬ overlongInt buf 5 = true)
    (hvalue : ∀ nlen n1, qpackIntDecode buf 5 = some (nlen, n1) → n1 + nlen ≤ buf.length →
      ¬ StuckString huffman (buf.drop (n1 + nlen))) :
    ∃ more, Moves (insertWithLiteralName huffman d first (buf ++ more)) (buf ++ more).length := by
  cases hint : qpackIntDecode buf 5 with
  | some r =>
    obtain ⟨nlen, n1⟩ := r
    by_cases hname : n1 + nlen ≤ buf.length
    · obtain ⟨hnone, -, hmoves⟩ := insertWithLiteralName_value hwait hint hname
      obtain ⟨more, s, hread⟩ := exists_readQpackString hnone (hvalue nlen n1 hint hname)
      exact ⟨more, hmoves more s hread⟩
    · -- any bytes complete the name
      refine ⟨replicate (n1 + nlen - buf.length) 0 ++ [0], ?_⟩
      rw [← append_assoc]
      refine insertWithLiteralName_decided
        (qpackIntDecode_append (qpackIntDecode_append hint _) _) (drop_left' ?_) ?_
      · rw [length_append, length_replicate]
        omega
      · grind [insertWithLiteralName]
  | none =>
    have hover : overlongInt buf 5 = false := by simpa using hover
    obtain ⟨nlen, hclose, -⟩ := qpackIntDecode_close (by decide) (by decide) hint hover
    by_cases hmax : usizeMax < nlen
    · refine ⟨[0], ?_⟩
      simp only [insertWithLiteralName, hclose, if_pos hmax]
      exact .invalid
    by_cases hsum : usizeMax < buf.length + 1 + nlen
    · -- a zero byte would lead into the overflow; a larger length is reported
      obtain ⟨large, hlarge, hmax'⟩ := qpackIntDecode_close_large hint hover hclose
        (not_lt.mp hmax) hsum
      refine ⟨[1], ?_⟩
      simp only [insertWithLiteralName, hlarge, if_pos hmax']
      exact .invalid
    · refine ⟨[0] ++ replicate nlen 0 ++ [0], ?_⟩
      rw [← append_assoc, ← append_assoc]
      refine insertWithLiteralName_decided
        (qpackIntDecode_append (qpackIntDecode_append hclose _) _) (drop_left' ?_) hsum
      rw [length_append, length_append, length_replicate]
      rfl

theorem insertWithLiteralName_stuck (hcode : CodesEveryLength huffman)
    (hstuck : overlongInt buf 5 = true ∨
      ∃ nlen n1, qpackIntDecode buf 5 = some (nlen, n1) ∧ n1 + nlen ≤ buf.length ∧
        StuckString huffman (buf.drop (n1 + nlen)))
    (more : Bytes) : insertWithLiteralName huffman d first (buf ++ more) = .wait := by
  rcases hstuck with hover | ⟨nlen, n1, hint, hname, hstuck⟩
  · rw [insertWithLiteralName, qpackIntDecode_overlong hover]
  · exact (insertWithLiteralName_value hwait hint hname).2.1 more
      (hstuck.readQpackString_eq_none hcode more)

end

/-! ### Instructions that are one integer -/

section Integer

variable {S : Type} {n : Nat} {instruction : Bytes → Verdict S FeedStop}

/-- The instruction waits without its integer, and is decided with it. -/
structure OneInteger (n : Nat) (instruction : Bytes → Verdict S FeedStop) (buf : Bytes) : Prop where
  waits : ∀ more, qpackIntDecode (buf ++ more) n = none → instruction (buf ++ more) = .wait
  moves :
    ∀ more v k, qpackIntDecode (buf ++ more) n = some (v, k) → Moves (instruction (buf ++ more)) k

theorem OneInteger.stuck (h : OneInteger n instruction buf) (hover : overlongInt buf n = true)
    (more : Bytes) : instruction (buf ++ more) = .wait :=
  h.waits more (qpackIntDecode_overlong hover more)

theorem OneInteger.exists_moves (h : OneInteger n instruction buf) (hn : 0 < n) (hn' : n ≤ 8)
    (hwait : instruction buf = .wait) (hover : ¬ overlongInt buf n = true) :
    ∃ more, Moves (instruction (buf ++ more)) (buf ++ more).length := by
  cases hint : qpackIntDecode buf n with
  | some r =>
    have hmoves := h.moves [] r.1 r.2 (by rw [append_nil, hint])
    rw [append_nil] at hmoves
    exact absurd hwait hmoves.ne_wait
  | none =>
    obtain ⟨v, hclose, -⟩ := qpackIntDecode_close hn hn' hint (by simpa using hover)
    have hlen : buf.length + 1 = (buf ++ [0]).length := by rw [length_append]; rfl
    exact ⟨[0], hlen ▸ h.moves [0] v _ hclose⟩

end Integer

theorem oneInteger_setTableCapacity : OneInteger 5 (setTableCapacity d) buf where
  waits more hnone := by rw [setTableCapacity, hnone]
  moves more v k hsome := by
    rw [setTableCapacity, hsome]
    dsimp only
    split
    · exact .invalid
    split
    · exact .inl ⟨_, rfl⟩
    · exact .inr ⟨_, _, rfl⟩

theorem oneInteger_duplicateEntry : OneInteger 5 (duplicateEntry d) buf where
  waits more hnone := by rw [duplicateEntry, hnone]
  moves more v k hsome := by
    rw [duplicateEntry, hsome]
    dsimp only
    split
    · exact .invalid
    · exact applyInsert_moves

/-! ### Both streams -/

theorem StuckInstruction.cons {tail : Bytes} (h : StuckInstruction huffman (first :: tail)) :
    if first &&& 0x80 ≠ 0 then
      overlongInt (first :: tail) 6 = true ∨
        ∃ idx n, qpackIntDecode (first :: tail) 6 = some (idx, n) ∧
          StuckString huffman ((first :: tail).drop n)
    else if first &&& 0x40 ≠ 0 then
      overlongInt (first :: tail) 5 = true ∨
        ∃ nlen n1, qpackIntDecode (first :: tail) 5 = some (nlen, n1) ∧
          n1 + nlen ≤ (first :: tail).length ∧
          StuckString huffman ((first :: tail).drop (n1 + nlen))
    else overlongInt (first :: tail) 5 = true := by
  obtain ⟨b, hb, h⟩ := h
  obtain rfl : first = b := some.inj hb
  exact h

/-- Behind a stuck instruction the loop waits for ever. -/
theorem StuckInstruction.waits (hcode : CodesEveryLength huffman)
    (hwait : encoderInstruction huffman d buf = .wait) (h : StuckInstruction huffman buf)
    (more : Bytes) : encoderInstruction huffman d (buf ++ more) = .wait := by
  cases buf with
  | nil =>
    obtain ⟨first, hfirst, -⟩ := h
    cases hfirst
  | cons first tail =>
    have h := h.cons
    simp only [encoderInstruction, cons_append] at hwait ⊢
    split at h
    · next hform =>
      rw [if_pos hform] at hwait ⊢
      exact insertWithNameReference_stuck hwait hcode h more
    next hform =>
    rw [if_neg hform] at hwait ⊢
    split at h
    · next hform =>
      rw [if_pos hform] at hwait ⊢
      exact insertWithLiteralName_stuck hwait hcode h more
    next hform =>
    rw [if_neg hform]
    split
    · exact oneInteger_setTableCapacity.stuck h more
    · exact oneInteger_duplicateEntry.stuck h more

/-- Any other instruction is completed, or reported, with some bytes behind it. -/
theorem exists_moves_of_not_stuck (hne : buf ≠ [])
    (hwait : encoderInstruction huffman d buf = .wait) (h : ¬ StuckInstruction huffman buf) :
    ∃ more, Moves (encoderInstruction huffman d (buf ++ more)) (buf ++ more).length := by
  obtain ⟨first, tail, rfl⟩ := exists_cons_of_ne_nil hne
  have hopen := fun hform => h ⟨first, rfl, hform⟩
  simp only [encoderInstruction, cons_append] at hwait ⊢
  split at hopen
  · next hform =>
    obtain ⟨hover, hvalue⟩ := not_or.mp hopen
    simp only [if_pos hform] at hwait ⊢
    exact insertWithNameReference_moves hwait hover fun idx n hint hstuck =>
      hvalue ⟨idx, n, hint, hstuck⟩
  next hform =>
  simp only [if_neg hform] at hwait ⊢
  split at hopen
  · next hform =>
    obtain ⟨hover, hvalue⟩ := not_or.mp hopen
    simp only [if_pos hform] at hwait ⊢
    exact insertWithLiteralName_moves hwait hover fun nlen n1 hint hname hstuck =>
      hvalue ⟨nlen, n1, hint, hname, hstuck⟩
  next hform =>
  simp only [if_neg hform] at hwait ⊢
  split at hwait
  · next hform =>
    simp only [if_pos hform]
    exact oneInteger_setTableCapacity.exists_moves (by decide) (by decide) hwait hopen
  · next hform =>
    simp only [if_neg hform]
    exact oneInteger_duplicateEntry.exists_moves (by decide) (by decide) hwait hopen

variable (buf) in
/-- The same for `feed_decoder_stream`. -/
def StuckFeedback : Prop :=
  ∃ first, buf.head? = some first ∧ overlongInt buf (if first &&& 0x80 ≠ 0 then 7 else 6) = true

theorem oneInteger_decoderInstruction {fb : DecoderFeedback} {tail : Bytes} :
    OneInteger (if first &&& 0x80 ≠ 0 then 7 else 6) (decoderInstruction fb) (first :: tail) where
  waits more hnone := by
    simp only [decoderInstruction, cons_append] at hnone ⊢
    split at hnone
    · next hform => rw [if_pos hform, hnone]
    · next hform => rw [if_neg hform, hnone, ite_self]
  moves more v k hsome := by
    simp only [decoderInstruction, cons_append] at hsome ⊢
    split at hsome
    · next hform =>
      rw [if_pos hform, hsome]
      exact .inl ⟨_, rfl⟩
    · next hform =>
      rw [if_neg hform, hsome]
      split <;> exact .inl ⟨_, rfl⟩

/-! ## What the calls leave over -/

/-- What `feed_encoder_stream` leaves unconsumed is the beginning of one instruction. -/
theorem feedEncoderStream_rest {d' : QpackDecoder} {data : Bytes}
    (h : feedEncoderStream huffman d data = (d', .ok n)) (hn : n < data.length) :
    data.drop n ≠ [] ∧ encoderInstruction huffman d' (data.drop n) = .wait := by
  have hne : data.drop n ≠ [] := by
    intro hnil
    have := drop_eq_nil_iff.mp hnil
    omega
  refine ⟨hne, ?_⟩
  rw [feedEncoderStream_eq] at h
  cases hdrain : drainAll (encoderInstruction huffman) d data with
  | mk d'' outcome =>
    rw [hdrain] at h
    cases outcome with
    | error e => cases h
    | ok rest =>
      cases h
      have hsuffix := (settled_encoderInstruction huffman).drainAll_suffix hdrain
      rw [← suffix_iff_eq_drop.mp hsuffix] at hne ⊢
      exact (settled_encoderInstruction huffman).wait_of_drainAll hne
        ((settled_encoderInstruction huffman).drainAll_rest hdrain)

theorem feedEncoderStream_wait (hwait : encoderInstruction huffman d buf = .wait) :
    feedEncoderStream huffman d buf = (d, .ok 0) := by
  rw [feedEncoderStream_eq, drainAll_wait hwait, Except.map, Nat.sub_self]

/-- A call gets past what it is given: it consumes some bytes or returns an error. -/
def GetsPast (outcome : Except FeedStop Nat) : Prop :=
  (∃ n, outcome = .ok n ∧ 0 < n) ∨ ∃ e, outcome = .error (.error e)

theorem feedEncoderStream_moves (hne : buf ≠ [])
    (h : Moves (encoderInstruction huffman d buf) buf.length) :
    GetsPast (feedEncoderStream huffman d buf).2 := by
  rw [feedEncoderStream_eq]
  rcases h with ⟨d', h⟩ | ⟨d', e, h⟩
  · rw [(settled_encoderInstruction huffman).drainAll_take h, drop_length]
    exact .inl ⟨_, rfl, length_pos_iff.mpr hne⟩
  · rw [drainAll_fail hne h]
    exact .inr ⟨e, rfl⟩

/-- What `feed_decoder_stream` leaves unconsumed is the beginning of one instruction, for the
    next call too, which begins with empty feedback. -/
theorem feedDecoderStream_rest {data : Bytes} {fb : DecoderFeedback}
    (h : feedDecoderStream data = .ok (n, fb)) (hn : n < data.length) :
    data.drop n ≠ [] ∧ decoderInstruction {} (data.drop n) = .wait := by
  obtain ⟨fb', rest, hdrain, -⟩ := drainAll_join {} {} data
  rw [feedDecoderStream_eq hdrain] at h
  cases h
  have hsuffix := settled_decoderInstruction.drainAll_suffix hdrain
  rw [← suffix_iff_eq_drop.mp hsuffix]
  have hne : rest ≠ [] := by grind
  have hwait := settled_decoderInstruction.wait_of_drainAll hne
    (settled_decoderInstruction.drainAll_rest hdrain)
  refine ⟨hne, ?_⟩
  rcases decoderInstruction_join fb {} rest with ⟨hempty, -⟩ | ⟨k, s, -, htake⟩
  · exact hempty
  · rw [DecoderFeedback.join_empty, hwait] at htake
    cases htake

theorem feedDecoderStream_moves (hne : buf ≠ [])
    (h : Moves (decoderInstruction {} buf) buf.length) :
    ∃ n fb, feedDecoderStream buf = .ok (n, fb) ∧ 0 < n := by
  rcases h with ⟨fb, h⟩ | ⟨fb, e, h⟩
  · have hdrain : drainAll decoderInstruction {} buf = (fb, .ok []) := by
      rw [settled_decoderInstruction.drainAll_take h, drop_length, drainAll_nil]
    exact ⟨_, fb, feedDecoderStream_eq hdrain, length_pos_iff.mpr hne⟩
  · obtain ⟨fb', rest, hdrain, -⟩ := drainAll_join {} {} buf
    rw [drainAll_fail hne h] at hdrain
    cases hdrain

end

/-- The two loops wait for bytes that can still come, except in front of a stuck
    instruction: behind it no bytes make `feed_encoder_stream` consume or report it, and none
    make `feed_decoder_stream` consume it. -/
theorem waits_for_ever_iff (huffman : Bytes → Option Bytes) (hcode : CodesEveryLength huffman)
    (d : QpackDecoder) (data : Bytes) :
    (∀ d' n, feedEncoderStream huffman d data = (d', .ok n) → n < data.length →
      ((∃ more, GetsPast (feedEncoderStream huffman d' (data.drop n ++ more)).2) ↔
        ¬ StuckInstruction huffman (data.drop n))) ∧
    (∀ n fb, feedDecoderStream data = .ok (n, fb) → n < data.length →
      ((∃ more m fb', feedDecoderStream (data.drop n ++ more) = .ok (m, fb') ∧ 0 < m) ↔
        ¬ StuckFeedback (data.drop n))) := by
  constructor
  · intro d' n hfeed hn
    obtain ⟨hne, hwait⟩ := feedEncoderStream_rest hfeed hn
    constructor
    · rintro ⟨more, hpast⟩ hstuck
      rw [feedEncoderStream_wait (hstuck.waits hcode hwait more)] at hpast
      rcases hpast with ⟨m, h, hpos⟩ | ⟨e, h⟩
      · cases h
        omega
      · cases h
    · intro hopen
      obtain ⟨more, hmoves⟩ := exists_moves_of_not_stuck hne hwait hopen
      exact ⟨more, feedEncoderStream_moves (append_ne_nil_of_left_ne_nil hne more) hmoves⟩
  · intro n fb hfeed hn
    obtain ⟨hne, hwait⟩ := feedDecoderStream_rest hfeed hn
    obtain ⟨first, tail, hbuf⟩ := exists_cons_of_ne_nil hne
    rw [hbuf] at hwait ⊢
    constructor
    · rintro ⟨more, m, fb', hfeed', hpos⟩ ⟨b, hb, hover⟩
      obtain rfl : first = b := some.inj hb
      have hstuck : decoderInstruction {} ((first :: tail) ++ more) = .wait :=
        oneInteger_decoderInstruction.stuck hover more
      rw [feedDecoderStream_eq (drainAll_wait hstuck)] at hfeed'
      cases hfeed'
      omega
    · intro hopen
      obtain ⟨more, hmoves⟩ := oneInteger_decoderInstruction.exists_moves (by split <;> decide)
        (by split <;> decide) hwait fun hover => hopen ⟨first, rfl, hover⟩
      exact ⟨more, feedDecoderStream_moves (cons_ne_nil _ _) hmoves⟩

theorem codesEveryLength_empty : CodesEveryLength fun _ => some [] := fun len =>
  ⟨replicate len 0, "", length_replicate, rfl⟩

/-- Capacity 100 is in force, and of a literal `a` and its value only the name has come. -/
theorem waits_for_ever_iff_name :
    ∃ d', feedEncoderStream (fun _ => some []) (.new {}) [0x3f, 0x45, 0x41, 0x61] = (d', .ok 2) ∧
      ∃ more, GetsPast (feedEncoderStream (fun _ => some []) d' ([0x41, 0x61] ++ more)).2 := by
  have hreturns : (feedEncoderStream (fun _ => some []) (.new {}) [0x3f, 0x45, 0x41, 0x61]).2 =
      .ok 2 := by decide +kernel
  refine ⟨_, Prod.ext rfl hreturns, ?_⟩
  refine ((waits_for_ever_iff _ codesEveryLength_empty (.new {}) [0x3f, 0x45, 0x41, 0x61]).1 _ 2
    (Prod.ext rfl hreturns) (by decide)).mpr ?_
  rintro ⟨first, hfirst, hstuck⟩
  obtain rfl : 0x41 = first := some.inj hfirst
  rcases hstuck with hover | ⟨nlen, n1, hint, -, hover | ⟨first, len, n, hhead, hlen, hwrong⟩⟩
  · revert hover
    decide
  · obtain ⟨rfl, rfl⟩ : 1 = nlen ∧ 1 = n1 := Prod.mk.inj (some.inj hint)
    revert hover
    decide
  · obtain ⟨rfl, rfl⟩ : 1 = nlen ∧ 1 = n1 := Prod.mk.inj (some.inj hint)
    obtain ⟨rfl, rfl⟩ : 0 = len ∧ 1 = n := Prod.mk.inj (some.inj hlen)
    rcases hwrong with hlarge | hbad
    · exact not_lt_zero _ hlarge
    · obtain rfl : 0 = first := some.inj hhead
      cases hbad [] rfl (.inl nil_prefix)

/-- A value of one byte that is no text, and an integer of eleven bytes: whatever follows,
    the calls return `Ok(0)`. -/
theorem malformed_awaited :
    ∃ d', feedEncoderStream (fun _ => some []) (.new {}) [0x3f, 0x45, 0x41, 0x61, 0x01, 0xff] =
        (d', .ok 2) ∧
      (∀ more, feedEncoderStream (fun _ => some []) d' ([0x41, 0x61, 0x01, 0xff] ++ more) =
        (d', .ok 0)) ∧
      ∀ more, feedDecoderStream (List.replicate 11 0xff ++ more) = .ok (0, {}) := by
  have hreturns : (feedEncoderStream (fun _ => some []) (.new {})
      [0x3f, 0x45, 0x41, 0x61, 0x01, 0xff]).2 = .ok 2 := by decide +kernel
  refine ⟨_, Prod.ext rfl hreturns, fun more => ?_, fun more => ?_⟩
  · have hwait := (feedEncoderStream_rest (Prod.ext rfl hreturns) (by decide)).2
    refine feedEncoderStream_wait (StuckInstruction.waits codesEveryLength_empty hwait ?_ more)
    refine ⟨0x41, rfl, ?_⟩
    refine .inr ⟨1, 1, rfl, by decide, .inr ⟨0x01, 1, 1, rfl, rfl, .inr fun raw hraw hagree => ?_⟩⟩
    obtain ⟨b, rfl⟩ := length_eq_one_iff.mp hraw
    obtain rfl : b = 0xff := by
      rcases hagree with h | h
      · exact (cons_prefix_cons.mp h).1
      · exact (cons_prefix_cons.mp h).1.symm
    decide +kernel
  · have hstuck : decoderInstruction {} (replicate 11 0xff ++ more) = .wait :=
      oneInteger_decoderInstruction.stuck (by decide) more
    rw [feedDecoderStream_eq (drainAll_wait hstuck), Nat.sub_self]

end WebTransportBun.Wasm.Qpack
