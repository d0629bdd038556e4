/-
  WebTransportBun.Wasm.Qpack.Replica

  What the receiving side makes of QPACK bytes that our own encoder wrote.

  - The encoder stream is a sequence of `EncoderInstr`; `feed_encoder_stream` reads it
    back (`reads_encoderInstr`) and makes the same table updates the encoder made, since
    a table update that succeeds under an acknowledgement floor is the same without one.
  - The decoder stream is a sequence of `DecoderInstr`, read back by
    `feed_decoder_stream` (`reads_decoderInstr`).
  - A field section decodes to the headers it was built from, when the decoder's table
    still has the entries it names (`decodeFieldSection_indexed`) or when it is all
    literals (`decodeFieldSection_literal`).
-/

import WebTransportBun.Wasm.Qpack.Codec

namespace WebTransportBun.Wasm.Qpack

open Library List Option Nat QpackEncoder

theorem length_qpackIntTail (fuel v : Nat) : (qpackIntTail fuel v).length ≤ fuel := by
  induction fuel generalizing v with
  | zero => simp [qpackIntTail]
  | succ fuel ih =>
    rw [qpackIntTail]
    split
    · have := ih (v >>> 7)
      rw [length_cons]
      omega
    · simp

theorem length_qpackInt (pattern : UInt8) (n value : Nat) :
    (qpackInt pattern n value).length ≤ 11 := by
  unfold qpackInt
  simp only
  split
  · simp
  · have := length_qpackIntTail 10 (value - (2 ^ n - 1))
    rw [length_cons]
    omega

theorem qpackInt_ne_nil (pattern : UInt8) (n value : Nat) : qpackInt pattern n value ≠ [] := by
  obtain ⟨x, tail, -, hcons⟩ := qpackInt_eq_cons pattern n value
  rw [hcons]
  exact cons_ne_nil _ _

/-! ## Encoder stream -/

inductive EncoderInstr
  | setCapacity (capacity : Nat)
  | insert (name value : String)
  deriving DecidableEq, Repr

namespace EncoderInstr

def encode : EncoderInstr → Bytes
  | setCapacity capacity => qpackInt 0x20 5 capacity
  | insert name value => literalInsert name value

/-- The table update of an instruction, on the receiving side. -/
def onTable (t : DynamicTable) : EncoderInstr → Except QpackError Unit × DynamicTable
  | setCapacity capacity => t.setCapacity capacity
  | insert name value => t.insert name value

/-- Lengths fit a `usize`, and a name leaves room for its length in front of it. -/
def Fits : EncoderInstr → Prop
  | setCapacity capacity => capacity ≤ usizeMax
  | insert name value => (strBytes name).length + 11 ≤ usizeMax ∧ (strBytes value).length ≤ usizeMax

def admits (d : QpackDecoder) (i : EncoderInstr) : Prop :=
  i.Fits ∧ (i.onTable d.table).1 = .ok ()

def apply (d : QpackDecoder) (i : EncoderInstr) : QpackDecoder :=
  { d with table := (i.onTable d.table).2 }

end EncoderInstr

section

variable (huffman : Bytes → Option Bytes) {d : QpackDecoder}

variable {x : Nat}

theorem encoderInstruction_literal (hx : x < 2 ^ 5) (buf : Bytes) :
    encoderInstruction huffman d ((0x40 ||| UInt8.ofNat x) :: buf) =
      insertWithLiteralName huffman d (0x40 ||| UInt8.ofNat x)
        ((0x40 ||| UInt8.ofNat x) :: buf) := by
  have hbits : ∀ y : Fin (2 ^ 5), (0x40 ||| UInt8.ofNat y) &&& 0x80 = 0 ∧
      (0x40 ||| UInt8.ofNat y) &&& 0x40 ≠ 0 := by decide
  obtain ⟨h80, h40⟩ := hbits ⟨x, hx⟩
  rw [encoderInstruction, if_neg (by simp [h80]), if_pos h40]

theorem encoderInstruction_setCapacity (hx : x < 2 ^ 5) (buf : Bytes) :
    encoderInstruction huffman d ((0x20 ||| UInt8.ofNat x) :: buf) =
      setTableCapacity d ((0x20 ||| UInt8.ofNat x) :: buf) := by
  have hbits : ∀ y : Fin (2 ^ 5), (0x20 ||| UInt8.ofNat y) &&& 0x80 = 0 ∧
      (0x20 ||| UInt8.ofNat y) &&& 0x40 = 0 ∧ (0x20 ||| UInt8.ofNat y) &&& 0x20 ≠ 0 := by decide
  obtain ⟨h80, h40, h20⟩ := hbits ⟨x, hx⟩
  rw [encoderInstruction, if_neg (by simp [h80]), if_neg (by simp [h40]), if_pos h20]

/-- A whole literal insert is applied to the table. -/
theorem encoderInstruction_insert {name value : String} (rest : Bytes)
    (hadm : EncoderInstr.admits d (.insert name value)) :
    encoderInstruction huffman d (literalInsert name value ++ rest) =
      .take (literalInsert name value).length
        (EncoderInstr.apply d (.insert name value)) := by
  obtain ⟨⟨hname, hvalue⟩, hok⟩ := hadm
  have hlenint := length_qpackInt 0x40 5 (strBytes name).length
  have hlen64 : (strBytes name).length < 2 ^ 64 := by
    unfold usizeMax at hname
    omega
  obtain ⟨x, tail, hx, hcons⟩ := qpackInt_eq_cons 0x40 5 (strBytes name).length
  have hflag : ∀ y : Fin (2 ^ 5), (0x40 ||| UInt8.ofNat y) &&& 0x20 = 0 := by decide
  -- The buffer, cut at the three places where the parser cuts it.
  have hbuf : literalInsert name value ++ rest =
      qpackInt 0x40 5 (strBytes name).length ++ (strBytes name ++ (qpackString value ++ rest)) := by
    simp [literalInsert]
  have hhead : ∃ buf', literalInsert name value ++ rest =
      (0x40 ||| UInt8.ofNat x) :: buf' := by
    rw [hbuf, hcons]
    exact ⟨_, rfl⟩
  have hint := qpackIntDecode_qpackInt 0x40 (n := 5) (by decide) rfl hlen64
    (strBytes name ++ (qpackString value ++ rest))
  rw [← hbuf] at hint
  have hdrop1 : (literalInsert name value ++ rest).drop
      (qpackInt 0x40 5 (strBytes name).length).length =
      strBytes name ++ (qpackString value ++ rest) := by
    rw [hbuf, drop_left]
  have hdrop2 : (literalInsert name value ++ rest).drop
      ((qpackInt 0x40 5 (strBytes name).length).length + (strBytes name).length) =
      qpackString value ++ rest := by
    rw [← drop_drop, hdrop1, drop_left]
  have hlen : (literalInsert name value ++ rest).length =
      (literalInsert name value).length + rest.length := length_append
  have hlong : (qpackInt 0x40 5 (strBytes name).length).length + (strBytes name).length ≤
      (literalInsert name value).length := by
    simp only [literalInsert, length_append]
    omega
  obtain ⟨buf', hbuf'⟩ := hhead
  rw [hbuf', encoderInstruction_literal huffman hx, ← hbuf']
  simp only [insertWithLiteralName, hint]
  rw [if_neg (by omega), if_neg (by omega), if_neg (by omega), hdrop1, hdrop2,
    take_left' rfl, readQpackString_qpackString huffman hvalue]
  simp only [decodeQpackBytes, hflag ⟨x, hx⟩, ne_eq, not_true_eq_false, decide_false,
    Bool.false_eq_true, if_false, fromUtf8_strBytes, hlen, Nat.add_sub_cancel]
  simp only [EncoderInstr.onTable] at hok
  simp only [applyInsert, EncoderInstr.apply, EncoderInstr.onTable]
  generalize d.table.insert name value = res at hok
  obtain ⟨r, t⟩ := res
  subst hok
  rfl

/-- A literal insert that is cut off is left in the buffer. -/
theorem encoderInstruction_insert_cut {name value : String} {p : Bytes}
    (hadm : EncoderInstr.admits d (.insert name value)) (hne : p ≠ [])
    (hp : Cut p (literalInsert name value)) :
    encoderInstruction huffman d p = .wait := by
  obtain ⟨⟨hname, hvalue⟩, -⟩ := hadm
  have hlenint := length_qpackInt 0x40 5 (strBytes name).length
  have hlen64 : (strBytes name).length < 2 ^ 64 := by
    unfold usizeMax at hname
    omega
  obtain ⟨x, tail, hx, hcons⟩ := qpackInt_eq_cons 0x40 5 (strBytes name).length
  have hflag : ∀ y : Fin (2 ^ 5), (0x40 ||| UInt8.ofNat y) &&& 0x20 = 0 := by decide
  obtain ⟨p', rfl⟩ : ∃ p', p = (0x40 ||| UInt8.ofNat x) :: p' := by
    obtain ⟨b, p', rfl⟩ := exists_cons_of_ne_nil hne
    have hpre := hp.1
    rw [literalInsert, hcons] at hpre
    exact ⟨p', by rw [(cons_prefix_cons.mp hpre).1]⟩
  rw [encoderInstruction_literal huffman hx]
  generalize hp' : (0x40 ||| UInt8.ofNat x) :: p' = p at hp hne
  simp only [insertWithLiteralName]
  -- The cut is in the length, in the name, or in the value.
  rcases cut_append hp with hp | ⟨q, rfl, hq⟩
  · rcases cut_append hp with hp | ⟨q, rfl, hq⟩
    · rw [qpackIntDecode_cut (by decide) rfl hp]
    · have hshort := hq.length_lt
      rw [qpackIntDecode_qpackInt _ (by decide) rfl hlen64]
      simp only [length_append]
      rw [if_neg (by omega), if_neg (by omega), if_pos (by omega)]
  · rw [append_assoc, qpackIntDecode_qpackInt _ (by decide) rfl hlen64]
    simp only [length_append]
    rw [if_neg (by omega), if_neg (by omega), ← drop_drop,
      drop_left, drop_left, readQpackString_cut huffman hvalue hq]
    simp [decodeQpackBytes, hflag ⟨x, hx⟩]

/-- A whole capacity update is applied to the table. -/
theorem encoderInstruction_capacity {capacity : Nat} (rest : Bytes)
    (hadm : EncoderInstr.admits d (.setCapacity capacity)) :
    encoderInstruction huffman d (qpackInt 0x20 5 capacity ++ rest) =
      .take (qpackInt 0x20 5 capacity).length (EncoderInstr.apply d (.setCapacity capacity)) := by
  obtain ⟨hcap, hok⟩ := hadm
  simp only [EncoderInstr.Fits, EncoderInstr.onTable] at hcap hok
  have hlen64 : capacity < 2 ^ 64 := by
    unfold usizeMax at hcap
    omega
  have hint := qpackIntDecode_qpackInt 0x20 (n := 5) (by decide) rfl hlen64 rest
  obtain ⟨x, tail, hx, hcons⟩ := qpackInt_eq_cons 0x20 5 capacity
  have hdispatch : encoderInstruction huffman d (qpackInt 0x20 5 capacity ++ rest) =
      setTableCapacity d (qpackInt 0x20 5 capacity ++ rest) := by
    rw [hcons]
    exact encoderInstruction_setCapacity huffman hx _
  rw [hdispatch]
  simp only [setTableCapacity, hint, EncoderInstr.apply, EncoderInstr.onTable]
  rw [if_neg (by omega)]
  generalize d.table.setCapacity capacity = res at hok
  obtain ⟨r, t⟩ := res
  subst hok
  rfl

theorem encoderInstruction_capacity_cut {capacity : Nat} {p : Bytes}
    (hne : p ≠ []) (hp : Cut p (qpackInt 0x20 5 capacity)) :
    encoderInstruction huffman d p = .wait := by
  obtain ⟨x, tail, hx, hcons⟩ := qpackInt_eq_cons 0x20 5 capacity
  have hdecode : qpackIntDecode p 5 = none := qpackIntDecode_cut (by decide) rfl hp
  obtain ⟨p', rfl⟩ : ∃ p', p = (0x20 ||| UInt8.ofNat x) :: p' := by
    obtain ⟨b, p', rfl⟩ := exists_cons_of_ne_nil hne
    have hpre := hp.1
    rw [hcons] at hpre
    exact ⟨p', by rw [(cons_prefix_cons.mp hpre).1]⟩
  rw [encoderInstruction_setCapacity huffman hx, setTableCapacity, hdecode]

theorem reads_encoderInstr :
    Reads (encoderInstruction huffman) EncoderInstr.encode EncoderInstr.admits
      EncoderInstr.apply where
  take s i rest hadm := by
    cases i with
    | setCapacity capacity => exact encoderInstruction_capacity huffman rest hadm
    | insert name value => exact encoderInstruction_insert huffman rest hadm
  wait s i p hadm hne hp := by
    cases i with
    | setCapacity capacity => exact encoderInstruction_capacity_cut huffman hne hp
    | insert name value => exact encoderInstruction_insert_cut huffman hadm hne hp
  nonempty i := by
    cases i with
    | setCapacity capacity => exact qpackInt_ne_nil _ _ _
    | insert name value =>
      simp [EncoderInstr.encode, literalInsert, qpackInt_ne_nil]

end

/-! ## Decoder stream -/

inductive DecoderInstr
  | insertCountIncrement (delta : Nat)
  | sectionAcknowledgement (streamId : Nat)
  deriving DecidableEq, Repr

namespace DecoderInstr

def encode : DecoderInstr → Bytes
  | insertCountIncrement delta => encodeInsertCountIncrement delta
  | sectionAcknowledgement streamId => encodeSectionAcknowledgement streamId

/-- The operand is a `u64`. -/
def Fits : DecoderInstr → Prop
  | insertCountIncrement delta => delta < 2 ^ 64
  | sectionAcknowledgement streamId => streamId < 2 ^ 64

def apply (s : DecoderFeedback) : DecoderInstr → DecoderFeedback
  | insertCountIncrement delta => { s with ici := s.ici + delta }
  | sectionAcknowledgement streamId => { s with sectionAcks := s.sectionAcks ++ [streamId] }

end DecoderInstr

theorem decoderInstruction_ack {s : DecoderFeedback} (hx : x < 2 ^ 7) (buf : Bytes) :
    decoderInstruction s ((0x80 ||| UInt8.ofNat x) :: buf) =
      match qpackIntDecode ((0x80 ||| UInt8.ofNat x) :: buf) 7 with
      | none => .wait
      | some (sid, n) => .take n { s with sectionAcks := s.sectionAcks ++ [sid] } := by
  have hbits : ∀ y : Fin (2 ^ 7), (0x80 ||| UInt8.ofNat y) &&& 0x80 ≠ 0 := by decide
  refine (if_pos (hbits ⟨x, hx⟩)).trans ?_
  cases qpackIntDecode ((0x80 ||| UInt8.ofNat x) :: buf) 7 <;> rfl

theorem decoderInstruction_ici {s : DecoderFeedback} (hx : x < 2 ^ 6) (buf : Bytes) :
    decoderInstruction s ((0x00 ||| UInt8.ofNat x) :: buf) =
      match qpackIntDecode ((0x00 ||| UInt8.ofNat x) :: buf) 6 with
      | none => .wait
      | some (delta, n) => .take n { s with ici := s.ici + delta } := by
  have hbits : ∀ y : Fin (2 ^ 6), (0x00 ||| UInt8.ofNat y) &&& 0x80 = 0 ∧
      (0x00 ||| UInt8.ofNat y) &&& 0x40 = 0 := by decide
  obtain ⟨h80, h40⟩ := hbits ⟨x, hx⟩
  rw [decoderInstruction, if_neg (by rw [h80]; simp)]
  refine (if_neg (by rw [h40]; simp)).trans ?_
  cases qpackIntDecode ((0x00 ||| UInt8.ofNat x) :: buf) 6 <;> rfl

/-- `feed_decoder_stream` reads what our decoder writes. -/
theorem reads_decoderInstr :
    Reads decoderInstruction DecoderInstr.encode (fun _ i => i.Fits) DecoderInstr.apply where
  take s i rest hadm := by
    cases i with
    | insertCountIncrement delta =>
      obtain ⟨x, tail, hx, hcons⟩ := qpackInt_eq_cons 0x00 6 delta
      have hint := qpackIntDecode_qpackInt 0x00 (n := 6) (by decide) rfl hadm rest
      simp only [DecoderInstr.encode, encodeInsertCountIncrement, DecoderInstr.apply]
      rw [hcons, cons_append] at hint ⊢
      rw [decoderInstruction_ici hx, hint]
    | sectionAcknowledgement streamId =>
      obtain ⟨x, tail, hx, hcons⟩ := qpackInt_eq_cons 0x80 7 streamId
      have hint := qpackIntDecode_qpackInt 0x80 (n := 7) (by decide) rfl hadm rest
      simp only [DecoderInstr.encode, encodeSectionAcknowledgement, DecoderInstr.apply]
      rw [hcons, cons_append] at hint ⊢
      rw [decoderInstruction_ack hx, hint]
  wait s i p hadm hne hp := by
    obtain ⟨b, p, rfl⟩ := exists_cons_of_ne_nil hne
    cases i with
    | insertCountIncrement delta =>
      obtain ⟨x, tail, hx, hcons⟩ := qpackInt_eq_cons 0x00 6 delta
      have hnone := qpackIntDecode_cut (by decide) rfl hp
      have hpre := hp.1
      rw [DecoderInstr.encode, encodeInsertCountIncrement, hcons] at hpre
      obtain ⟨rfl, -⟩ := cons_prefix_cons.mp hpre
      rw [decoderInstruction_ici hx, hnone]
    | sectionAcknowledgement streamId =>
      obtain ⟨x, tail, hx, hcons⟩ := qpackInt_eq_cons 0x80 7 streamId
      have hnone := qpackIntDecode_cut (by decide) rfl hp
      have hpre := hp.1
      rw [DecoderInstr.encode, encodeSectionAcknowledgement, hcons] at hpre
      obtain ⟨rfl, -⟩ := cons_prefix_cons.mp hpre
      rw [decoderInstruction_ack hx, hnone]
  nonempty i := by
    cases i <;> exact qpackInt_ne_nil _ _ _

/-! ## Field sections -/

/-- The Required Insert Count is recovered from its residue when it is within a table's
    worth of entries of the decoder's count; above the count, it must also be in the
    decoder's current window of residues. -/
theorem decodeRequiredInsertCount_encoded {ric maxCapacity total : Nat} (hric : 0 < ric)
    (hcap : 0 < maxCapacity / 32) (hlow : total < ric + maxCapacity / 32)
    (hhigh : ric ≤ total + maxCapacity / 32) (hwrap : ric ≤ total ∨
      ric / (2 * (maxCapacity / 32)) = (total + maxCapacity / 32) / (2 * (maxCapacity / 32)))
    (hbound : total + 4 * (maxCapacity / 32) < 2 ^ 64) :
    decodeRequiredInsertCount (ric % (2 * (maxCapacity / 32)) + 1) maxCapacity total = .ok ric := by
  unfold decodeRequiredInsertCount
  generalize maxCapacity / 32 = me at *
  have hfull : 0 < 2 * me := by omega
  have hdivmod := div_add_mod' ric (2 * me)
  have hle : ric / (2 * me) ≤ (total + me) / (2 * me) := Nat.div_le_div_right hhigh
  have hge : (total + me) / (2 * me) ≤ ric / (2 * me) + 1 := by
    rw [← add_div_right ric hfull]
    exact Nat.div_le_div_right (by omega)
  rw [if_neg (succ_ne_zero _), if_neg (pos_iff_ne_zero.mp hcap)]
  rcases eq_or_lt_of_le hle with hsame | hnext
  · -- The residue and the decoder's maximum are in the same window.
    have hsum : ric / (2 * me) * (2 * me) + (ric % (2 * me) + 1) - 1 = ric := by omega
    rw [← hsame, if_neg (by omega), hsum, if_neg (by omega), if_neg (by omega)]
  · -- The decoder's maximum is one window ahead, so the count cannot exceed what it has.
    have hwin : (total + me) / (2 * me) = ric / (2 * me) + 1 := by omega
    have hmul : (ric / (2 * me) + 1) * (2 * me) = ric / (2 * me) * (2 * me) + 2 * me :=
      succ_mul _ _
    have hahead : total + me < ric + 2 * me := by omega
    have hsum : ric / (2 * me) * (2 * me) + 2 * me + (ric % (2 * me) + 1) - 1 = ric + 2 * me := by
      omega
    rw [hwin, hmul, if_neg (by omega), hsum, if_pos hahead, if_pos (by omega), if_neg (by omega),
      Nat.add_sub_cancel, if_neg (by omega)]

section

variable (huffman : Bytes → Option Bytes) {d : QpackDecoder} {base : Nat}

theorem readFieldLine_indexed {rel : Nat} {e : DynEntry}
    (hrel : rel < 2 ^ 64) (he : d.table.getRelative rel base = some e) (rest : Bytes) :
    readFieldLine huffman d.lineReader base (qpackInt 0x80 6 rel ++ rest) =
      some ((e.name, e.value), rest) := by
  obtain ⟨x, tail, hx, hcons⟩ := qpackInt_eq_cons 0x80 6 rel
  have hbits : ∀ y : Fin (2 ^ 6), (0x80 ||| UInt8.ofNat y) &&& 0x80 ≠ 0 ∧
      (0x80 ||| UInt8.ofNat y) &&& 0x40 = 0 := by decide
  obtain ⟨h80, h40⟩ := hbits ⟨x, hx⟩
  have hint := qpackIntDecode_qpackInt 0x80 (n := 6) (by decide) rfl hrel rest
  have hhead : (qpackInt 0x80 6 rel ++ rest).head? = some (0x80 ||| UInt8.ofNat x) := by
    rw [hcons]
    rfl
  simp only
    [readFieldLine, QpackDecoder.lineReader, hhead, hint, bind_eq_bind, bind_some, drop_left]
  rw [if_pos h80, if_neg (by rw [h40]; simp), he]
  rfl

theorem readFieldLine_literal {h : HeaderField}
    (hname : (strBytes h.1).length ≤ usizeMax) (hvalue : (strBytes h.2).length ≤ usizeMax)
    (rest : Bytes) :
    readFieldLine huffman d.lineReader base (qpackLiteral h ++ rest) = some (h, rest) := by
  have hlen64 : (strBytes h.1).length < 2 ^ 64 := by
    unfold usizeMax at hname
    omega
  obtain ⟨x, tail, hx, hcons⟩ := qpackInt_eq_cons 0x20 3 (strBytes h.1).length
  have hbits : ∀ y : Fin (2 ^ 3), (0x20 ||| UInt8.ofNat y) &&& 0x80 = 0 ∧
      (0x20 ||| UInt8.ofNat y) &&& 0x40 = 0 ∧ (0x20 ||| UInt8.ofNat y) &&& 0x20 ≠ 0 ∧
      (0x20 ||| UInt8.ofNat y) &&& 0x08 = 0 := by decide
  obtain ⟨h80, h40, h20, h08⟩ := hbits ⟨x, hx⟩
  have hbuf : qpackLiteral h ++ rest =
      qpackInt 0x20 3 (strBytes h.1).length ++ (strBytes h.1 ++ (qpackString h.2 ++ rest)) := by
    simp [qpackLiteral]
  have hint := qpackIntDecode_qpackInt 0x20 (n := 3) (by decide) rfl hlen64
    (strBytes h.1 ++ (qpackString h.2 ++ rest))
  have hhead : (qpackLiteral h ++ rest).head? = some (0x20 ||| UInt8.ofNat x) := by
    rw [hbuf, hcons]
    rfl
  simp only [readFieldLine, QpackDecoder.lineReader, hhead, bind_eq_bind, bind_some]
  rw [if_neg (by rw [h80]; simp), if_neg (by rw [h40]; simp), if_pos h20, hbuf, hint]
  simp only [bind_some, drop_left,
    readQpackString_qpackString huffman hvalue, decodeQpackBytes, h08]
  simp [hname]

variable {fuel : Nat}

theorem readFieldLines_cons {line rest : Bytes}
    {field : HeaderField} {fields : List HeaderField} (hne : line ≠ [])
    (hline : readFieldLine huffman d.lineReader base (line ++ rest) = some (field, rest))
    (hrest : readFieldLines huffman d.lineReader base fuel rest = some fields) :
    readFieldLines huffman d.lineReader base (fuel + 1) (line ++ rest) =
      some (field :: fields) := by
  have hbuf : line ++ rest ≠ [] := by simp [hne]
  rw [readFieldLines.eq_3 _ _ _ _ _ hbuf, hline]
  simp [hrest]

variable {headers : List HeaderField} {lines : Bytes}

theorem readFieldLines_indexed {indexes : List Nat} (hbase : base < 2 ^ 64)
    (henc : encodeIndexedLines base indexes = some lines)
    (hent : List.Forall₂ (fun abs (h : HeaderField) => d.table.getAbsolute abs = some ⟨h.1, h.2⟩)
      indexes headers) (hfuel : lines.length ≤ fuel) :
    readFieldLines huffman d.lineReader base fuel lines = some headers := by
  induction hent generalizing lines fuel with
  | nil =>
    simp only [encodeIndexedLines, Option.some.injEq] at henc
    subst henc
    cases fuel <;> rfl
  | cons habs hrest ih =>
    next abs h indexes headers =>
    simp only [encodeIndexedLines, encodeDynamicIndexed] at henc
    split at henc
    · simp at henc
    · next hle =>
      simp only [bind_eq_bind, bind_some, bind_eq_some_iff,
        Option.pure_def, Option.some.injEq] at henc
      obtain ⟨more, hmore, rfl⟩ := henc
      have hpos := List.length_pos_iff.mpr (qpackInt_ne_nil 0x80 6 (base - abs))
      rw [length_append] at hfuel
      obtain ⟨fuel, rfl⟩ := Nat.exists_eq_add_of_lt (show 0 < fuel by omega)
      have hrel : d.table.getRelative (base - abs) base = some ⟨h.1, h.2⟩ := by
        rw [DynamicTable.getRelative, if_neg (by omega), show base - (base - abs) = abs by omega]
        exact habs
      exact readFieldLines_cons huffman (qpackInt_ne_nil _ _ _)
        (readFieldLine_indexed huffman (by omega) hrel more) (ih hmore (by omega))

theorem readFieldLines_literal (d : QpackDecoder) (base : Nat)
    (hfits : ∀ h ∈ headers, (strBytes h.1).length ≤ usizeMax ∧ (strBytes h.2).length ≤ usizeMax)
    (hfuel : (headers.map qpackLiteral).flatten.length ≤ fuel) :
    readFieldLines huffman d.lineReader base fuel (headers.map qpackLiteral).flatten =
      some headers := by
  induction headers generalizing fuel with
  | nil => cases fuel <;> rfl
  | cons h hs ih =>
    have hne : qpackLiteral h ≠ [] := by simp [qpackLiteral, qpackInt_ne_nil]
    have hpos := length_pos_iff.mpr hne
    simp only [map_cons, flatten_cons, length_append] at hfuel ⊢
    obtain ⟨fuel, rfl⟩ := Nat.exists_eq_add_of_lt (show 0 < fuel by omega)
    have hh := hfits h mem_cons_self
    exact readFieldLines_cons huffman hne (readFieldLine_literal huffman hh.1 hh.2 _)
      (ih (fun g hg => hfits g (mem_cons_of_mem _ hg)) (by omega))

/-- The decoder is in range of a section's Required Insert Count: within a table's worth of
    entries, and not waiting for it across the end of its window of residues. -/
structure InRange (t : DynamicTable) (ric : Nat) : Prop where
  low : t.insertCount < ric + t.maxCapacity / 32
  high : ric ≤ t.insertCount + t.maxCapacity / 32
  wrap : ric ≤ t.insertCount ∨ ric / (2 * (t.maxCapacity / 32)) =
    (t.insertCount + t.maxCapacity / 32) / (2 * (t.maxCapacity / 32))
  bound : t.insertCount + 4 * (t.maxCapacity / 32) < 2 ^ 64

variable {ric : Nat} {front : Bytes}

theorem encodeSectionPrefix_eq {maxCapacity : Nat} (hric : 0 < ric)
    (h : encodeSectionPrefix ric ric maxCapacity = some front) : 0 < maxCapacity / 32 ∧
      front = qpackInt 0x00 8 (ric % (2 * (maxCapacity / 32)) + 1) ++ qpackInt 0x00 7 0 := by
  simp only [encodeSectionPrefix, encodeRequiredInsertCount, bind_eq_bind,
    bind_eq_some_iff] at h
  obtain ⟨enc, henc, hfront⟩ := h
  rw [if_neg (by omega)] at henc
  split at henc
  · cases henc
  · next hcap => grind

/-- A section behind such a front: blocked when it names inserts the decoder does not have yet,
    otherwise what its lines decode to. -/
theorem decodeFieldSection_front (hric : 0 < ric)
    (hfront : encodeSectionPrefix ric ric d.table.maxCapacity = some front)
    (hrange : InRange d.table ric) :
    decodeFieldSection huffman (front ++ lines) d =
      if d.table.insertCount < ric then .error .blocked
      else ((readFieldLines huffman d.lineReader ric lines.length lines).map (·, ric)).elim
        (.error .invalid) .ok := by
  obtain ⟨hcap, rfl⟩ := encodeSectionPrefix_eq hric hfront
  have hbound := hrange.bound
  have hres : ric % (2 * (d.table.maxCapacity / 32)) + 1 < 2 ^ 64 := by
    have := mod_lt ric (show 0 < 2 * (d.table.maxCapacity / 32) by omega)
    omega
  have hint := qpackIntDecode_qpackInt 0x00 (n := 8) (by decide) rfl hres
    (qpackInt 0x00 7 0 ++ lines)
  rw [← append_assoc] at hint
  have hpos := length_pos_iff.mpr (qpackInt_ne_nil 0x00 8
    (ric % (2 * (d.table.maxCapacity / 32)) + 1))
  have hbase : qpackInt 0x00 7 0 = [0x00] := rfl
  unfold decodeFieldSection
  rw [if_neg (by simp only [length_append, hbase, length_singleton]; omega), hint]
  simp only
  rw [decodeRequiredInsertCount_encoded hric hcap hrange.low hrange.high hrange.wrap hbound]
  simp only
  split
  · rfl
  · rw [append_assoc, hbase]
    have hdelta : qpackIntDecode (0x00 :: lines) 7 = some (0, 1) := rfl
    have hsign : decodeBase ric 0 false = some ric := by
      rw [decodeBase, if_neg (by decide), if_neg (by omega), add_zero]
    cases hbody : readFieldLines huffman d.lineReader ric lines.length lines with
    | none => simp [readSectionBody, hdelta, hsign, hbody]
    | some headers => simp [readSectionBody, hdelta, hsign, hbody]

theorem decodeFieldSection_blocked
    (hric : 0 < ric) (hfront : encodeSectionPrefix ric ric d.table.maxCapacity = some front)
    (hrange : InRange d.table ric) (hwait : d.table.insertCount < ric) :
    decodeFieldSection huffman (front ++ lines) d = .error .blocked := by
  rw [decodeFieldSection_front huffman hric hfront hrange, if_pos hwait]

/-- A section decodes to the headers it was built from, once the decoder has its inserts
    and as long as it still has the entries. -/
theorem decodeFieldSection_indexed {indexes : List Nat} (hric : 0 < ric)
    (hfront : encodeSectionPrefix ric ric d.table.maxCapacity = some front)
    (hlines : encodeIndexedLines ric indexes = some lines)
    (hrange : InRange d.table ric) (hhave : ric ≤ d.table.insertCount)
    (hent : List.Forall₂ (fun abs (h : HeaderField) => d.table.getAbsolute abs = some ⟨h.1, h.2⟩)
      indexes headers) :
    decodeFieldSection huffman (front ++ lines) d = .ok (headers, ric) := by
  have hbound := hrange.bound
  rw [decodeFieldSection_front huffman hric hfront hrange, if_neg (by omega),
    readFieldLines_indexed huffman (by omega) hlines hent (le_refl lines.length)]
  rfl

theorem decodeFieldSection_literal (hfits : ∀ h ∈ headers,
      (strBytes h.1).length ≤ usizeMax ∧ (strBytes h.2).length ≤ usizeMax) :
    decodeFieldSection huffman (literalSection headers) d = .ok (headers, 0) := by
  have hbody := readFieldLines_literal huffman d 0 hfits le_rfl
  have hric : qpackIntDecode (literalSection headers) 8 = some (0, 1) := rfl
  have hdelta : qpackIntDecode ((literalSection headers).drop 1) 7 = some (0, 1) := rfl
  unfold decodeFieldSection
  rw [if_neg (by simp [literalSection]), hric]
  simp only [decodeRequiredInsertCount, readSectionBody, hdelta]
  simp only [literalSection]
  generalize (headers.map qpackLiteral).flatten = lines at hbody
  simp [decodeBase, hbody]

end

end WebTransportBun.Wasm.Qpack
