/-
  WebTransportBun.Wasm.Qpack.Chunking

  The instruction streams of QPACK, cut into chunks anywhere: `feed_encoder_stream` and
  `feed_decoder_stream` are called with what the call before left unconsumed and the next
  chunk behind it, as `parse_qpack_encoder` and `parse_qpack_decoder` do.

  Both loops are settled parsers.  An integer or a string that is complete reads the same
  whatever follows it, and what an instruction refuses it refuses before it looks further;
  so a chunked stream has the effect of the whole one (`streams_chunking`).
-/

import WebTransportBun.Wasm.Qpack.Codec

namespace WebTransportBun.Wasm.Qpack

open Library List DecoderFeedback

/-! ## Integers and strings in a longer buffer -/

variable {buf : Bytes}

theorem qpackIntDecodeLoop_append {value m i : Nat} {r : Nat × Nat}
    (h : qpackIntDecodeLoop buf value m i = some r) (more : Bytes) :
    qpackIntDecodeLoop (buf ++ more) value m i = some r := by
  induction buf generalizing value m i with
  | nil => cases h
  | cons b buf ih => grind [qpackIntDecodeLoop]

theorem qpackIntDecodeLoop_within {value m i v n : Nat}
    (h : qpackIntDecodeLoop buf value m i = some (v, n)) : i < n ∧ n ≤ i + buf.length := by
  induction buf generalizing value m i with
  | nil => cases h
  | cons b buf ih => grind [qpackIntDecodeLoop, length_cons]

theorem qpackIntDecode_append {n : Nat} {r : Nat × Nat}
    (h : qpackIntDecode buf n = some r) (more : Bytes) :
    qpackIntDecode (buf ++ more) n = some r := by
  cases buf with
  | nil => cases h
  | cons b buf =>
    simp only [qpackIntDecode] at h
    simp only [cons_append, qpackIntDecode]
    split at h
    · next hfirst => rw [if_pos hfirst]; exact h
    · next hfirst => rw [if_neg hfirst]; exact qpackIntDecodeLoop_append h more

theorem qpackIntDecode_within {n v k : Nat} (h : qpackIntDecode buf n = some (v, k)) :
    0 < k ∧ k ≤ buf.length := by
  cases buf with
  | nil => cases h
  | cons b buf =>
    simp only [qpackIntDecode] at h
    rw [length_cons]
    split at h
    · cases h
      omega
    · have hloop := qpackIntDecodeLoop_within h
      omega

section

variable {huffman : Bytes → Option Bytes} {rest : Bytes} {s : String}

/-- How a string is read: its length, then so many bytes, which decode. -/
theorem readQpackString_eq_some :
    readQpackString huffman buf = some (s, rest) ↔
      ∃ first len n, buf.head? = some first ∧ qpackIntDecode buf 7 = some (len, n) ∧
        len ≤ usizeMax ∧ len ≤ (buf.drop n).length ∧
        decodeQpackBytes huffman ((buf.drop n).take len) (first &&& 0x80 ≠ 0) = some s ∧
        rest = (buf.drop n).drop len := by
  constructor
  · intro h
    cases hhead : buf.head? with
    | none => simp [readQpackString, hhead] at h
    | some first =>
      cases hint : qpackIntDecode buf 7 with
      | none => simp [readQpackString, hint] at h
      | some r =>
        obtain ⟨len, n⟩ := r
        simp only [readQpackString, hhead, hint, Option.bind_eq_bind, Option.bind_some,
          Option.bind_eq_some_iff] at h
        obtain ⟨_, hmax, _, hlen, text, hdecode, hpure⟩ := h
        cases hpure
        exact ⟨first, len, n, rfl, rfl, (Option.guard_eq_some' _).mp hmax,
          (Option.guard_eq_some' _).mp hlen, hdecode, rfl⟩
  · rintro ⟨first, len, n, hhead, hint, hmax, hlen, hdecode, rfl⟩
    rw [readQpackString, hhead, hint]
    simp only [Option.bind_eq_bind, Option.bind_some, guard, if_pos hmax, if_pos hlen, hdecode]
    rfl

section

variable (h : readQpackString huffman buf = some (s, rest))

include h

theorem readQpackString_append (more : Bytes) :
    readQpackString huffman (buf ++ more) = some (s, rest ++ more) := by
  obtain ⟨first, len, n, hhead, hint, hmax, hlen, hdecode, rfl⟩ := readQpackString_eq_some.mp h
  have hn := (qpackIntDecode_within hint).2
  refine readQpackString_eq_some.mpr
    ⟨first, len, n, ?_, qpackIntDecode_append hint more, hmax, ?_, ?_, ?_⟩
  · rw [head?_append, hhead]
    rfl
  · rw [drop_append_of_le_length hn, length_append]
    omega
  · rw [drop_append_of_le_length hn, take_append_of_le_length hlen]
    exact hdecode
  · rw [drop_append_of_le_length hn, drop_append_of_le_length hlen]

theorem readQpackString_within : rest.length < buf.length := by
  obtain ⟨first, len, n, hhead, hint, hmax, hlen, hdecode, rfl⟩ := readQpackString_eq_some.mp h
  have hn := qpackIntDecode_within hint
  rw [length_drop, length_drop]
  omega

end

/-! ## Instructions in a longer buffer -/

variable {d d' : QpackDecoder} {first : UInt8} {buf : Bytes} {n : Nat}

theorem applyInsert_take {name value : String} {k : Nat}
    (h : applyInsert d name value k = .take n d') : n = k := by
  unfold applyInsert at h
  split at h
  · cases h
    rfl
  · cases h

section

variable (more : Bytes)

theorem insertWithNameReference_stands :
    insertWithNameReference huffman d first buf = .wait ∨
      insertWithNameReference huffman d first (buf ++ more) =
        insertWithNameReference huffman d first buf := by
  cases hint : qpackIntDecode buf 6 with
  | none => left; simp only [insertWithNameReference, hint]
  | some r =>
    obtain ⟨idx, n⟩ := r
    have hn := (qpackIntDecode_within hint).2
    simp only [insertWithNameReference, hint, qpackIntDecode_append hint]
    -- the name is looked up before the value is read
    generalize (if first &&& 0x40 ≠ 0 then (qpackStatic idx).map Prod.fst
      else (fromNewest d idx).map DynEntry.name) = name
    cases name with
    | none => exact .inr rfl
    | some name =>
      cases hvalue : readQpackString huffman (buf.drop n) with
      | none => exact .inl rfl
      | some r =>
        right
        simp only [drop_append_of_le_length hn, readQpackString_append hvalue,
          length_append, Nat.add_sub_add_right]

theorem insertWithLiteralName_stands :
    insertWithLiteralName huffman d first buf = .wait ∨
      insertWithLiteralName huffman d first (buf ++ more) =
        insertWithLiteralName huffman d first buf := by
  cases hint : qpackIntDecode buf 5 with
  | none => left; simp only [insertWithLiteralName, hint]
  | some r =>
    obtain ⟨nlen, n1⟩ := r
    simp only [insertWithLiteralName, hint, qpackIntDecode_append hint]
    by_cases hmax : usizeMax < nlen
    · right; rw [if_pos hmax, if_pos hmax]
    by_cases hsum : usizeMax < n1 + nlen
    · right; rw [if_neg hmax, if_neg hmax, if_pos hsum, if_pos hsum]
    by_cases hshort : buf.length < n1 + nlen
    · left; rw [if_neg hmax, if_neg hsum, if_pos hshort]
    -- the name is there, so it is the same one in the longer buffer
    have hn : n1 ≤ buf.length := by omega
    have hname : ((buf ++ more).drop n1).take nlen = (buf.drop n1).take nlen := by
      rw [drop_append_of_le_length hn,
        take_append_of_le_length (by rw [length_drop]; omega)]
    have hlong : ¬ (buf ++ more).length < n1 + nlen := by
      rw [length_append]
      omega
    simp only [if_neg hmax, if_neg hsum, if_neg hshort, if_neg hlong, hname]
    generalize decodeQpackBytes huffman ((buf.drop n1).take nlen) (first &&& 0x20 ≠ 0) = name
    cases name with
    | none => exact .inr rfl
    | some name =>
      cases hvalue : readQpackString huffman (buf.drop (n1 + nlen)) with
      | none => exact .inl rfl
      | some r =>
        right
        simp only [drop_append_of_le_length (not_lt.mp hshort),
          readQpackString_append hvalue, length_append, Nat.add_sub_add_right]

theorem setTableCapacity_stands : setTableCapacity d buf = .wait ∨
      setTableCapacity d (buf ++ more) = setTableCapacity d buf := by
  cases hint : qpackIntDecode buf 5 with
  | none => left; simp only [setTableCapacity, hint]
  | some r => right; simp only [setTableCapacity, hint, qpackIntDecode_append hint]

theorem duplicateEntry_stands :
    duplicateEntry d buf = .wait ∨ duplicateEntry d (buf ++ more) = duplicateEntry d buf := by
  cases hint : qpackIntDecode buf 5 with
  | none => left; simp only [duplicateEntry, hint]
  | some r => right; simp only [duplicateEntry, hint, qpackIntDecode_append hint]

end

theorem insertWithNameReference_within
    (h : insertWithNameReference huffman d first buf = .take n d') : 0 < n ∧ n ≤ buf.length := by
  unfold insertWithNameReference at h
  split at h
  · cases h
  · next idx k hint =>
    dsimp only at h
    split at h
    · cases h
    · split at h
      · cases h
      · next value rest hvalue =>
        have hrest := readQpackString_within hvalue
        rw [length_drop] at hrest
        have := applyInsert_take h
        omega

theorem insertWithLiteralName_within
    (h : insertWithLiteralName huffman d first buf = .take n d') : 0 < n ∧ n ≤ buf.length := by
  unfold insertWithLiteralName at h
  split at h
  · cases h
  · next nlen n1 hint =>
    split at h
    · cases h
    split at h
    · cases h
    split at h
    · cases h
    split at h
    · cases h
    split at h
    · cases h
    · next value rest hvalue =>
      have hrest := readQpackString_within hvalue
      rw [length_drop] at hrest
      have := applyInsert_take h
      omega

theorem setTableCapacity_within (h : setTableCapacity d buf = .take n d') :
    0 < n ∧ n ≤ buf.length := by
  unfold setTableCapacity at h
  split at h
  · cases h
  · next hint =>
    split at h
    · cases h
    · split at h
      · cases h
        exact qpackIntDecode_within hint
      · cases h

theorem duplicateEntry_within (h : duplicateEntry d buf = .take n d') : 0 < n ∧ n ≤ buf.length := by
  unfold duplicateEntry at h
  split at h
  · cases h
  · next hint =>
    split at h
    · cases h
    · rw [applyInsert_take h]
      exact qpackIntDecode_within hint

variable (huffman) in
theorem settled_encoderInstruction : Settled (encoderInstruction huffman) where
  stands d buf more := by
    cases buf with
    | nil => exact .inl rfl
    | cons first buf =>
      simp only [encoderInstruction, cons_append]
      split
      · exact insertWithNameReference_stands more
      split
      · exact insertWithLiteralName_stands more
      split
      · exact setTableCapacity_stands more
      · exact duplicateEntry_stands more
  within d buf n d' h := by
    cases buf with
    | nil => cases h
    | cons first buf =>
      simp only [encoderInstruction] at h
      split at h
      · exact insertWithNameReference_within h
      split at h
      · exact insertWithLiteralName_within h
      split at h
      · exact setTableCapacity_within h
      · exact duplicateEntry_within h

theorem settled_decoderInstruction : Settled decoderInstruction where
  stands fb buf more := by
    cases buf with
    | nil => exact .inl rfl
    | cons first buf => grind [decoderInstruction, qpackIntDecode_append]
  within fb buf n fb' h := by
    cases buf with
    | nil => cases h
    | cons first buf =>
      simp only [decoderInstruction] at h
      split at h
      · split at h
        · cases h
        · next hint => cases h; exact qpackIntDecode_within hint
      split at h
      all_goals
        split at h
        · cases h
        · next hint => cases h; exact qpackIntDecode_within hint

end

/-! ## Chunks -/

/-- The encoder stream in chunks: every call gets what the one before left unconsumed and
    the next chunk.  The last component is what is left over at the end. -/
def feedEncoderChunks (huffman : Bytes → Option Bytes) :
    QpackDecoder → Bytes → List Bytes → QpackDecoder × Except FeedStop Bytes
  | d, rx, [] => (d, .ok rx)
  | d, rx, chunk :: chunks =>
    match feedEncoderStream huffman d (rx ++ chunk) with
    | (d, .ok n) => feedEncoderChunks huffman d ((rx ++ chunk).drop n) chunks
    | (d, .error e) => (d, .error e)

/-- The increment that `feed_decoder_stream` returns: a saturating `u64` sum. -/
def DecoderFeedback.iciTotal (fb : DecoderFeedback) : Nat := min fb.ici (2 ^ 64 - 1)

/-- The decoder stream in chunks: what is left over, the sum of the returned increments and
    the acknowledged streams. -/
def feedDecoderChunks : Bytes → List Bytes → Except FeedStop (Bytes × Nat × List Nat)
  | rx, [] => .ok (rx, 0, [])
  | rx, chunk :: chunks => do
    let (n, fb) ← feedDecoderStream (rx ++ chunk)
    let (rest, ici, acks) ← feedDecoderChunks ((rx ++ chunk).drop n) chunks
    return (rest, fb.iciTotal + ici, fb.sectionAcks ++ acks)

variable {huffman : Bytes → Option Bytes} {d : QpackDecoder}

theorem feedEncoderStream_eq (d : QpackDecoder) (data : Bytes) :
    feedEncoderStream huffman d data =
      ((drainAll (encoderInstruction huffman) d data).1,
        (drainAll (encoderInstruction huffman) d data).2.map fun rest =>
          data.length - rest.length) := by
  unfold feedEncoderStream drainAll
  split
  · next h => rw [h]; rfl
  · next h => rw [h]; rfl

theorem feedEncoderChunks_eq (d : QpackDecoder) (rx : Bytes) (chunks : List Bytes) :
    feedEncoderChunks huffman d rx chunks =
      drainChunks (encoderInstruction huffman) d rx chunks := by
  induction chunks generalizing d rx with
  | nil => rfl
  | cons chunk chunks ih =>
    rw [feedEncoderChunks, drainChunks, feedEncoderStream_eq]
    cases hdrain : drainAll (encoderInstruction huffman) d (rx ++ chunk) with
    | mk d' outcome =>
      cases outcome with
      | error e => rfl
      | ok rest =>
        have hrest := (settled_encoderInstruction huffman).drainAll_suffix hdrain
        simp only [Except.map, ← suffix_iff_eq_drop.mp hrest, ih]

/-! ### Feedback adds up -/

/-- What two calls have said, one after the other. -/
def DecoderFeedback.join (a b : DecoderFeedback) : DecoderFeedback :=
  { ici := a.ici + b.ici, sectionAcks := a.sectionAcks ++ b.sectionAcks }

theorem DecoderFeedback.join_empty (a : DecoderFeedback) : a.join {} = a := by
  simp only [join, add_zero, append_nil]

theorem DecoderFeedback.eq_empty_of_join_eq {a b : DecoderFeedback} (h : a.join b = a) :
    b = {} := by
  obtain ⟨ici, acks⟩ := b
  obtain ⟨hici, hacks⟩ := mk.inj h
  obtain rfl : ici = 0 := by
    dsimp only at hici
    omega
  obtain rfl : acks = [] := append_right_eq_self.mp hacks
  rfl

/-- An instruction adds to the feedback and does not look at it. -/
theorem decoderInstruction_join (a s : DecoderFeedback) (buf : Bytes) :
    (decoderInstruction s buf = .wait ∧ decoderInstruction (a.join s) buf = .wait) ∨
      ∃ n s', decoderInstruction s buf = .take n s' ∧
        decoderInstruction (a.join s) buf = .take n (a.join s') := by
  cases buf with
  | nil => exact .inl ⟨rfl, rfl⟩
  | cons first buf =>
    simp only [decoderInstruction]
    split
    · cases qpackIntDecode (first :: buf) 7 with
      | none => exact .inl ⟨rfl, rfl⟩
      | some r =>
        refine .inr ⟨r.2, _, rfl, ?_⟩
        simp only [join, append_assoc]
    split
    · cases qpackIntDecode (first :: buf) 6 with
      | none => exact .inl ⟨rfl, rfl⟩
      | some r => exact .inr ⟨r.2, _, rfl, rfl⟩
    · cases qpackIntDecode (first :: buf) 6 with
      | none => exact .inl ⟨rfl, rfl⟩
      | some r =>
        refine .inr ⟨r.2, _, rfl, ?_⟩
        simp only [join, add_assoc]

/-- So does a whole call, which never fails. -/
theorem drainAll_join (a s : DecoderFeedback) (buf : Bytes) :
    ∃ s' rest, drainAll decoderInstruction s buf = (s', .ok rest) ∧
      drainAll decoderInstruction (a.join s) buf = (a.join s', .ok rest) := by
  generalize hlen : buf.length = len
  induction len using Nat.strongRecOn generalizing s buf with
  | ind len ih =>
    rcases decoderInstruction_join a s buf with ⟨hwait, hwait'⟩ | ⟨n, s', htake, htake'⟩
    · exact ⟨s, buf, drainAll_wait hwait, drainAll_wait hwait'⟩
    · obtain ⟨hpos, hle⟩ := settled_decoderInstruction.within _ _ _ _ htake
      obtain ⟨t, rest, h, h'⟩ :=
        ih (buf.drop n).length (by rw [length_drop]; omega) s' (buf.drop n) rfl
      exact ⟨t, rest, (settled_decoderInstruction.drainAll_take htake).trans h,
        (settled_decoderInstruction.drainAll_take htake').trans h'⟩

theorem feedDecoderStream_eq {data rest : Bytes} {fb : DecoderFeedback}
    (h : drainAll decoderInstruction {} data = (fb, .ok rest)) :
    feedDecoderStream data = .ok (data.length - rest.length, fb) := by
  unfold drainAll at h
  rw [feedDecoderStream, h]

/-- The calls on the chunks say together what one call on the whole stream says. -/
theorem feedDecoderChunks_eq {rx : Bytes}
    (hrx : drainAll decoderInstruction {} rx = ({}, .ok rx)) (chunks : List Bytes) :
    ∃ fb rest, drainAll decoderInstruction {} (rx ++ chunks.flatten) = (fb, .ok rest) ∧
      (fb.ici < 2 ^ 64 → feedDecoderChunks rx chunks = .ok (rest, fb.ici, fb.sectionAcks)) := by
  induction chunks generalizing rx with
  | nil =>
    refine ⟨{}, rx, ?_, fun _ => rfl⟩
    rw [flatten_nil, append_nil]
    exact hrx
  | cons chunk chunks ih =>
    obtain ⟨fb, rest, hfirst, -⟩ := drainAll_join {} {} (rx ++ chunk)
    -- what the first call leaves over holds nothing complete, whatever was said before
    have hrest : drainAll decoderInstruction {} rest = ({}, .ok rest) := by
      have hagain := settled_decoderInstruction.drainAll_rest hfirst
      obtain ⟨s', rest', hempty, hjoin⟩ := drainAll_join fb {} rest
      rw [join_empty, hagain, Prod.mk.injEq] at hjoin
      obtain ⟨hsame, hok⟩ := hjoin
      cases hok
      rw [hempty, eq_empty_of_join_eq hsame.symm]
    obtain ⟨more, last, hmore, hchunks⟩ := ih hrest
    have hwhole : drainAll decoderInstruction {} (rx ++ (chunk :: chunks).flatten) =
        (fb.join more, .ok last) := by
      rw [flatten_cons, ← append_assoc, settled_decoderInstruction.drainAll_append,
        hfirst]
      obtain ⟨s', rest', hempty, hjoin⟩ := drainAll_join fb {} (rest ++ chunks.flatten)
      rw [hmore] at hempty
      cases hempty
      rwa [join_empty] at hjoin
    refine ⟨fb.join more, last, hwhole, fun hici => ?_⟩
    have hsum : fb.ici + more.ici < 2 ^ 64 := hici
    have hsuffix := settled_decoderInstruction.drainAll_suffix hfirst
    rw [feedDecoderChunks, feedDecoderStream_eq hfirst]
    simp only [bind, Except.bind, ← suffix_iff_eq_drop.mp hsuffix,
      hchunks (by omega), iciTotal,
      min_eq_left (show fb.ici ≤ 2 ^ 64 - 1 by omega)]
    rfl

/-- Feeding a stream in chunks does what feeding it whole does.  The encoder stream leads to
    the same decoder, with its table, to the same error or to the same unconsumed rest; the
    decoder stream, as long as its increments sum up to a `u64`, to the same increment and
    the same acknowledgements. -/
theorem streams_chunking (huffman : Bytes → Option Bytes) (d : QpackDecoder) (chunks : List Bytes) :
    feedEncoderChunks huffman d [] chunks =
        ((feedEncoderStream huffman d chunks.flatten).1,
          (feedEncoderStream huffman d chunks.flatten).2.map fun n => chunks.flatten.drop n) ∧
      ∃ n fb, feedDecoderStream chunks.flatten = .ok (n, fb) ∧
        (fb.ici < 2 ^ 64 →
          feedDecoderChunks [] chunks =
            .ok (chunks.flatten.drop n, fb.iciTotal, fb.sectionAcks)) := by
  constructor
  · rw [feedEncoderChunks_eq,
      (settled_encoderInstruction huffman).drainChunks_eq (drainAll_nil _ _), nil_append,
      feedEncoderStream_eq]
    cases hdrain : drainAll (encoderInstruction huffman) d chunks.flatten with
    | mk d' outcome =>
      cases outcome with
      | error e => rfl
      | ok rest =>
        have hrest := (settled_encoderInstruction huffman).drainAll_suffix hdrain
        simp only [Except.map, ← suffix_iff_eq_drop.mp hrest]
  · obtain ⟨fb, rest, hwhole, hchunks⟩ := feedDecoderChunks_eq (drainAll_nil _ _) chunks
    rw [nil_append] at hwhole
    have hrest := settled_decoderInstruction.drainAll_suffix hwhole
    refine ⟨_, fb, feedDecoderStream_eq hwhole, fun hici => ?_⟩
    rw [hchunks hici, ← suffix_iff_eq_drop.mp hrest, iciTotal,
      min_eq_left (by omega)]

end WebTransportBun.Wasm.Qpack
