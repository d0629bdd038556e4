/-
  Sink.Commit

  What the reader parses at a block, and what a producer call has left to do.  `Plan`
  follows the remaining actions of a call: every store goes to a cursor that is free,
  and at a publication the blocks up to the new tail are in place.  `commit_plan` is
  the one lemma about `commit`; it covers the three geometry rules.
-/

import WebTransportBun.Sink.Geometry

namespace WebTransportBun.Sink

open Library List Shared RecordType

/-! ## Parsing a block -/

theorem slice_part {m : Nat → UInt8} {pos len offset width : Nat} (h : offset + width ≤ len) :
    slice m (pos + offset) width = ((slice m pos len).drop offset).take width := by
  apply ext_getElem
  · simp only [length_slice, length_take, length_drop]
    omega
  · intro i _ _
    simp [slice, add_assoc]

section

variable {sh : Shared} {pos : Nat} {b : Block}

section

variable (h : b.Holds sh.bytes pos)

include h

theorem Block.Holds.getUint32 (offset : Nat)
    (hoffset : offset + 4 ≤ recordHeaderBytes) (hin : pos + recordHeaderBytes ≤ sh.dataLen) :
    sh.getUint32 (pos + offset) = some (field b.header offset 4) := by
  rw [Shared.getUint32, if_pos (by omega), slice_part hoffset, h.header, field]

theorem Block.Holds.getBigUint64 (offset : Nat)
    (hoffset : offset + 8 ≤ recordHeaderBytes) (hin : pos + recordHeaderBytes ≤ sh.dataLen) :
    sh.getBigUint64 (pos + offset) = some (field b.header offset 8) := by
  rw [Shared.getBigUint64, if_pos (by omega), slice_part hoffset, h.header, field]

theorem Block.Holds.getByte
    (hin : pos + recordHeaderBytes ≤ sh.dataLen) : some (sh.getByte (pos + 4)) = b.header[4]? := by
  simp only [recordHeaderBytes] at hin
  rw [Shared.getByte, if_pos (by omega), ← h.header]
  simp [slice, recordHeaderBytes]

theorem Block.Holds.parseAt_wrap (hc : b.content = none)
    (hlen : b.len < cursorModulus) (hin : pos + recordHeaderBytes ≤ sh.dataLen) :
    sh.parseAt pos = some (.wrap b.len) := by
  have hheader : b.header = headerBytes b.len wrap.toByte 0 0 0 0 := by
    rw [Block.header, hc]
  have hrecLen := h.getUint32 0 (by decide) hin
  rw [hheader, add_zero, field_recLen _ _ _ _ hlen] at hrecLen
  have hkind := h.getByte hin
  rw [hheader] at hkind
  rw [parseAt, hrecLen]
  simp [Option.some.inj hkind]

variable {r : Record}

/-- The reader parses a record block as its length and exactly its record. -/
theorem Block.Holds.parseAt_record
    (hc : b.content = some r) (hlen : b.len < cursorModulus) (hin : pos + b.len ≤ sh.dataLen) :
    sh.parseAt pos = some (.record b.len r) := by
  have hinside := h.inside r hc
  have hregion : pos + recordHeaderBytes ≤ sh.dataLen := by omega
  have hheader : b.header =
      headerBytes b.len r.kind r.timestampNs r.streamOffset r.payload.length r.aux := by
    rw [Block.header, hc]
  have hrecLen := h.getUint32 0 (by decide) hregion
  have hpayloadLen := h.getUint32 24 (by decide) hregion
  have haux := h.getUint32 28 (by decide) hregion
  have hstamp := h.getBigUint64 8 (by decide) hregion
  have hoffset := h.getBigUint64 16 (by decide) hregion
  have hkind := h.getByte hregion
  rw [hheader, add_zero, field_recLen _ _ _ _ hlen] at hrecLen
  rw [hheader, field_payloadLen _ _ _ _ (by omega)] at hpayloadLen
  rw [hheader, field_aux] at haux
  rw [hheader, field_timestampNs] at hstamp
  rw [hheader, field_streamOffset] at hoffset
  rw [hheader] at hkind
  have hraw : sh.subarray (pos + recordHeaderBytes) r.payload.length = r.payload := by
    rw [subarray, min_eq_left (by omega), Nat.add_sub_cancel_left]
    exact h.payload r hc
  rw [parseAt, hrecLen]
  simp [Option.some.inj hkind, h.kind r hc, hpayloadLen, haux, hstamp, hoffset, hraw]

end

end

/-! ## Stores of a block -/

theorem holds_recordWrites (m : Nat → UInt8) (pos len : Nat)
    (hlen : recordHeaderBytes + r.payload.length ≤ len) (hkind : r.kind ≠ wrap.toByte) :
    Block.Holds (storeAll m (recordWrites pos len r)) pos ⟨len, some r⟩ where
  header := by
    rw [recordWrites, storeAll_append, slice_storeAll]
    · have := slice_placeAt m pos
        (headerBytes len r.kind r.timestampNs r.streamOffset r.payload.length r.aux)
      rwa [length_headerBytes] at this
    · intro w hw
      have := mem_placeAt hw
      omega
  payload r' hr := by
    cases hr
    exact slice_placeAt _ _ _
  inside r' hr := by cases hr; exact hlen
  kind r' hr := by cases hr; exact hkind

theorem holds_wrapWrites (m : Nat → UInt8) (pos len : Nat) :
    Block.Holds (storeAll m (wrapWrites pos len)) pos ⟨len, none⟩ where
  header := by
    have := slice_placeAt m pos (headerBytes len wrap.toByte 0 0 0 0)
    rwa [length_headerBytes] at this
  payload _ hr := by cases hr
  inside _ hr := by cases hr
  kind _ hr := by cases hr

theorem mem_recordWrites {pos len : Nat} {w : Nat × UInt8}
    (h : w ∈ recordWrites pos len r) :
    pos ≤ w.1 ∧ w.1 < pos + recordHeaderBytes + r.payload.length := by
  rcases mem_append.mp h with hheader | hpayload
  · have := mem_placeAt hheader
    rw [length_headerBytes] at this
    omega
  · have := mem_placeAt hpayload
    omega

theorem mem_wrapWrites {pos len : Nat} {w : Nat × UInt8} (h : w ∈ wrapWrites pos len) :
    pos ≤ w.1 ∧ w.1 < pos + recordHeaderBytes := by
  have := mem_placeAt h
  rwa [length_headerBytes] at this

/-! ## Plans -/

/-- `Free c H T a`: position `a` belongs to a cursor from `T` on that is less than a turn
    ahead of `H`. -/
def Free (c H T a : Nat) : Prop := ∃ x, T ≤ x ∧ x < H + c ∧ a = x % c

/-- `Plan c H T bytes acts F`: with the reader's cursor at `H` and the published tail at
    `T`, the actions `acts` store to free positions only, publish laid blocks and leave
    the tail at `F`. -/
inductive Plan (c H : Nat) : Nat → (Nat → UInt8) → List Action → Nat → Prop
  | nil (T : Nat) (bytes : Nat → UInt8) : Plan c H T bytes [] T
  | write {T F addr : Nat} {byte : UInt8} {bytes : Nat → UInt8} {acts : List Action}
      (free : Free c H T addr) (rest : Plan c H T (store bytes addr byte) acts F) :
      Plan c H T bytes (.write addr byte :: acts) F
  | noteHighWater {T F newTail : Nat} {bytes : Nat → UInt8} {acts : List Action}
      (rest : Plan c H T bytes acts F) : Plan c H T bytes (.noteHighWater newTail :: acts) F
  | publish {T U F newTail : Nat} {bytes : Nat → UInt8} {acts : List Action} {r : Record}
      {bs : List Block} (laid : Laid c bytes T bs U) (content : records bs = [r])
      (room : U ≤ H + c) (start : U % c + recordHeaderBytes ≤ c)
      (word : newTail = U % cursorModulus) (rest : Plan c H U bytes acts F) :
      Plan c H T bytes (.publish newTail r :: acts) F

variable {c H T F : Nat} {bytes : Nat → UInt8} {acts : List Action}

theorem Plan.mono {H' : Nat} (h : Plan c H T bytes acts F) (hle : H ≤ H') :
    Plan c H' T bytes acts F := by
  induction h with
  | nil => exact .nil _ _
  | write free _ ih =>
    obtain ⟨x, hlow, hhigh, rfl⟩ := free
    exact .write ⟨x, hlow, by omega, rfl⟩ ih
  | noteHighWater _ ih => exact .noteHighWater ih
  | publish laid content room start word _ ih =>
    exact .publish laid content (by omega) start word ih

theorem Plan.writes {ws : List (Nat × UInt8)} (hfree : ∀ w ∈ ws, Free c H T w.1)
    (hrest : Plan c H T (storeAll bytes ws) acts F) :
    Plan c H T bytes (ws.map (fun w => .write w.1 w.2) ++ acts) F := by
  induction ws generalizing bytes with
  | nil => exact hrest
  | cons w ws ih =>
    refine .write (hfree w mem_cons_self) ?_
    exact ih (fun v hv => hfree v (mem_cons_of_mem _ hv)) hrest

theorem free_of_same_turn {a : Nat} (hlow : T % c ≤ a) (hhigh : a < c)
    (hroom : T + (a - T % c) < H + c) : Free c H T a := by
  refine ⟨T + (a - T % c), by omega, hroom, ?_⟩
  rw [add_mod_of_lt (by omega)]
  omega

theorem free_of_next_turn {a : Nat} (hpos : T % c < c) (ha : a < c)
    (hroom : T + (c - T % c) + a < H + c) : Free c H T a := by
  refine ⟨T + (c - T % c) + a, by omega, hroom, ?_⟩
  have hzero : (T + (c - T % c)) % c = 0 := add_mod_of_eq (by omega)
  rw [add_mod_of_lt (by omega), hzero, zero_add]

/-! ## Commits -/

/-- What the stores of a commit achieve, whatever was in the region before. -/
structure Placed (c H T cost : Nat) (ws : List (Nat × UInt8)) (r : Record) (bs : List Block) :
    Prop where
  laid : ∀ bytes, Laid c (storeAll bytes ws) T bs (T + cost)
  content : records bs = [r]
  free : ∀ w ∈ ws, Free c H T w.1
  start : (T + cost) % c + recordHeaderBytes ≤ c

section

variable {cap : DataCapacity} {recLen : Nat} {r : Record}

theorem placed_record {len : Nat} (hpayload : recordHeaderBytes + r.payload.length ≤ len)
    (hkind : r.kind ≠ wrap.toByte) (hin : T % c + len ≤ c) (hcost : T + len ≤ H + c)
    (hstart : (T + len) % c + recordHeaderBytes ≤ c) :
    Placed c H T len (recordWrites (T % c) len r) r [⟨len, some r⟩] where
  laid bytes :=
    .cons (by simp only; omega) hin (holds_recordWrites bytes _ _ hpayload hkind) (.nil _)
  content := rfl
  free w hw := by
    have := mem_recordWrites hw
    exact free_of_same_turn (by omega) (by omega) (by omega)
  start := hstart

/-- A WRAP block up to the end of the region and the record at its beginning. -/
theorem placed_wrap (hle : H ≤ T) (hT : T % c + recordHeaderBytes ≤ c)
    (hpayload : recordHeaderBytes + r.payload.length ≤ recLen)
    (hkind : r.kind ≠ wrap.toByte) (hrec : recLen + recordHeaderBytes ≤ c)
    (hcost : T + (c - T % c + recLen) ≤ H + c) : Placed c H T (c - T % c + recLen)
      (wrapWrites (T % c) (c - T % c) ++ recordWrites 0 recLen r) r
      [⟨c - T % c, none⟩, ⟨recLen, some r⟩] where
  laid bytes := by
    have hzero : (T + (c - T % c)) % c = 0 := add_mod_of_eq (by omega)
    rw [← add_assoc, storeAll_append]
    refine .cons (by simp only; omega) (by simp only; omega) ?_
      (.cons (by simp only; omega) (by simp only [hzero]; omega) ?_ (.nil _))
    · -- The record ends before the WRAP header begins: both fit into one turn.
      refine (holds_wrapWrites bytes _ _).congr (by simp only; omega) fun x hlow hhigh => ?_
      refine (storeAll_of_forall_ne _ fun w hw => ?_).symm
      have := mem_recordWrites hw
      omega
    · simp only [hzero]
      exact holds_recordWrites _ _ _ hpayload hkind
  content := rfl
  free w hw := by
    rcases mem_append.mp hw with hwrap | hrecord
    · have := mem_wrapWrites hwrap
      exact free_of_same_turn (by omega) (by omega) (by omega)
    · have := mem_recordWrites hrecord
      exact free_of_next_turn (by simp only [recordHeaderBytes] at hT; omega) (by omega) (by omega)
  start := by
    have hzero : (T + (c - T % c)) % c = 0 := add_mod_of_eq (by omega)
    simp only [recordHeaderBytes] at hrec ⊢
    rw [← add_assoc, add_mod_of_lt (by omega)]
    omega

theorem DataCapacity.costAt_eq (cap : DataCapacity) (T recLen : Nat) :
    cap.costAt (T % cursorModulus) recLen =
      if recLen + recordHeaderBytes ≤ cap.value - T % cap.value then recLen
      else if recLen ≤ cap.value - T % cap.value then cap.value - T % cap.value
      else cap.value - T % cap.value + recLen := by
  simp only [DataCapacity.costAt, cap.position_eq, cap.mod_cursorModulus_mod]

/-- `cost_at` and `commit` agree: the stores fill exactly the admitted cost. -/
theorem commitWrites_placed (hle : H ≤ T) (hT : T % cap.value + recordHeaderBytes ≤ cap.value)
    (hpayload : recordHeaderBytes + r.payload.length ≤ recLen)
    (hkind : r.kind ≠ wrap.toByte) (hrec : recLen + recordHeaderBytes ≤ cap.value)
    (hcost : T + cap.costAt (T % cursorModulus) recLen ≤ H + cap.value) :
    ∃ bs, Placed cap.value H T (cap.costAt (T % cursorModulus) recLen)
      (cap.commitWrites (T % cursorModulus) recLen r) r bs := by
  rw [cap.costAt_eq] at hcost ⊢
  simp only [DataCapacity.commitWrites, cap.position_eq, cap.mod_cursorModulus_mod]
  by_cases hfit : recLen + recordHeaderBytes ≤ cap.value - T % cap.value
  · simp only [if_pos hfit] at hcost ⊢
    refine ⟨_, placed_record hpayload hkind (by omega) hcost ?_⟩
    simp only [recordHeaderBytes] at hfit ⊢
    rw [add_mod_of_lt (by omega)]
    omega
  · by_cases hpad : recLen ≤ cap.value - T % cap.value
    · simp only [if_neg hfit, if_pos hpad] at hcost ⊢
      refine ⟨_, placed_record (by omega) hkind (by omega) hcost ?_⟩
      rw [add_mod_of_eq (by omega)]
      omega
    · simp only [if_neg hfit, if_neg hpad] at hcost ⊢
      exact ⟨_, placed_wrap hle hT hpayload hkind hrec hcost⟩

/-- The actions of a commit whose cost was admitted. -/
theorem commit_plan {rest : List Action} (hle : H ≤ T)
    (hT : T % cap.value + recordHeaderBytes ≤ cap.value)
    (hpayload : recordHeaderBytes + r.payload.length ≤ recLen)
    (hkind : r.kind ≠ wrap.toByte) (hrec : recLen + recordHeaderBytes ≤ cap.value)
    (hcost : T + cap.costAt (T % cursorModulus) recLen ≤ H + cap.value)
    (hrest : (T + cap.costAt (T % cursorModulus) recLen) % cap.value + recordHeaderBytes ≤
        cap.value →
      ∀ bytes, Plan cap.value H (T + cap.costAt (T % cursorModulus) recLen) bytes rest F) :
    Plan cap.value H T bytes
      (cap.commit (T % cursorModulus) recLen (cap.costAt (T % cursorModulus) recLen) r ++ rest)
      F := by
  obtain ⟨bs, hplaced⟩ := commitWrites_placed hle hT hpayload hkind hrec hcost
  rw [DataCapacity.commit, append_assoc]
  refine Plan.writes hplaced.free (.noteHighWater ?_)
  exact .publish (hplaced.laid bytes) hplaced.content hcost hplaced.start
    (Nat.mod_add_mod _ _ _) (hrest hplaced.start _)

end

end WebTransportBun.Sink
