/-
  WebTransportBun.Wasm.Qpack.Mirror

  A decoder that has applied everything its encoder wrote.  The two tables agree in
  everything but, possibly, the maximum capacity: each end takes its own from its own
  settings.  `Mirrors` says so, together with the two things about the maxima that matter:
  the decoder admits the capacity the encoder announces, and both count in the same
  `MaxEntries`.  An encode call then moves encoder and decoder alike, and the section it
  emits decodes at once to its headers (`encodeOrLiteral_emits`), unless the call itself has
  evicted an entry the section names: `Retains` is that condition on a call.
-/

import WebTransportBun.Wasm.Qpack.Reorder

namespace WebTransportBun.Wasm.Qpack

open Library EncoderInstr DynamicTable

/-! ## Tables that differ in their maximum only -/

namespace DynamicTable

/-- The table under another advertised maximum. -/
def withMax (t : DynamicTable) (m : Nat) : DynamicTable := { t with maxCapacity := m }

section

variable (t : DynamicTable)

section

variable (m : Nat)

@[simp] theorem withMax_maxCapacity :
    (t.withMax m).maxCapacity = m := rfl

@[simp] theorem withMax_insertCount :
    (t.withMax m).insertCount = t.insertCount := rfl

@[simp] theorem withMax_entries :
    (t.withMax m).entries = t.entries := rfl

@[simp] theorem withMax_capacity :
    (t.withMax m).capacity = t.capacity := rfl

end

@[simp] theorem getAbsolute_withMax (m abs : Nat) :
    (t.withMax m).getAbsolute abs = t.getAbsolute abs := rfl

end

/-- Evictions do not look at the maximum. -/
theorem evictLoop_withMax (additional fuel : Nat) (ackFloor : Option Nat) (t : DynamicTable)
    (m : Nat) : evictLoop additional ackFloor fuel (t.withMax m) =
      ((evictLoop additional ackFloor fuel t).1,
        (evictLoop additional ackFloor fuel t).2.withMax m) := by
  induction fuel generalizing t with
  | zero => rfl
  | succ fuel ih =>
    cases hentries : t.entries with
    | nil => rw [evictLoop_nil hentries, evictLoop_nil (t := t.withMax m) hentries]
    | cons e rest =>
      by_cases hfull : additional = usizeMax ∨ t.capacity < saturatingAdd t.size additional
      · by_cases hfree : t.floorProtects ackFloor
        · rw [evictLoop_protected hentries hfull hfree,
            evictLoop_protected (t := t.withMax m) hentries hfull hfree]
        · rw [evictLoop_evict hentries hfull hfree,
            evictLoop_evict (t := t.withMax m) hentries hfull hfree]
          exact ih { t with entries := rest, size := t.size - entrySize e.name e.value }
      · rw [evictLoop_fits hentries hfull, evictLoop_fits (t := t.withMax m) hentries hfull]

theorem evictToFit_withMax (t : DynamicTable) (additional : Nat) (ackFloor : Option Nat)
    (m : Nat) : (t.withMax m).evictToFit additional ackFloor =
      ((t.evictToFit additional ackFloor).1, (t.evictToFit additional ackFloor).2.withMax m) := by
  have hloop := evictLoop_withMax additional t.entries.length ackFloor t m
  unfold evictToFit
  rw [withMax_entries, hloop]
  generalize evictLoop additional ackFloor t.entries.length t = res
  obtain ⟨r, t'⟩ := res
  cases r with
  | error e => rfl
  | ok u =>
    by_cases hfull : additional ≠ usizeMax ∧ t'.capacity < saturatingAdd t'.size additional
    · simp only [if_pos hfull]
      exact if_pos hfull
    · simp only [if_neg hfull]
      exact if_neg hfull

theorem insert_withMax (t : DynamicTable) (name value : String) (m : Nat) :
    (t.withMax m).insert name value =
      ((t.insert name value).1, (t.insert name value).2.withMax m) := by
  unfold insert insertWithAckFloor
  simp only [withMax_capacity, evictToFit_withMax]
  split
  · rfl
  · generalize t.evictToFit (entrySize name value) none = res
    obtain ⟨r, t'⟩ := res
    cases r <;> rfl

theorem setCapacity_withMax {t : DynamicTable} {capacity m : Nat} (hm : t.maxCapacity ≤ m)
    (hok : (t.setCapacity capacity).1 = .ok ()) :
    (t.withMax m).setCapacity capacity = (.ok (), (t.setCapacity capacity).2.withMax m) := by
  unfold setCapacity setCapacityWithAckFloor at hok ⊢
  split at hok
  · cases hok
  · next hle =>
    rw [if_neg (by simp only [withMax_maxCapacity]; omega), if_neg hle, ← hok]
    exact evictToFit_withMax { t with capacity } 0 none m

end DynamicTable

theorem apply_withMax {d d' : QpackDecoder} {m : Nat} {i : EncoderInstr}
    (htable : d'.table = d.table.withMax m) (hm : d.table.maxCapacity ≤ m)
    (hadm : admits d i) : admits d' i ∧
      (apply d' i).table = (apply d i).table.withMax m := by
  obtain ⟨hfits, hok⟩ := hadm
  have hon : onTable d'.table i =
      (.ok (), (onTable d.table i).2.withMax m) := by
    rw [htable]
    cases i with
    | setCapacity capacity => exact setCapacity_withMax hm hok
    | insert name value => grind [insert_withMax, onTable]
  exact ⟨⟨hfits, by rw [hon]⟩, by rw [apply, hon, apply]⟩

variable {log : List DynEntry}

theorem foldl_apply_withMax {is : List EncoderInstr} {d d' : QpackDecoder} {m : Nat}
    (hc : d.table.Consistent log) (htable : d'.table = d.table.withMax m)
    (hm : d.table.maxCapacity ≤ m) (hadm : AdmitsAll admits apply d is) :
    AdmitsAll admits apply d' is ∧
      (is.foldl apply d').table = (is.foldl apply d).table.withMax m := by
  induction is generalizing d d' log with
  | nil => exact ⟨trivial, htable⟩
  | cons i is ih =>
    obtain ⟨hone, -, hmax⟩ := apply_consistent hc hadm.1
    obtain ⟨hadm', htable'⟩ := apply_withMax htable hm hadm.1
    obtain ⟨hrest, hfold⟩ := ih hone htable' (hmax.trans_le hm) hadm.2
    exact ⟨⟨hadm', hrest⟩, hfold⟩

/-! ## Mirrors -/

/-- The decoder's table `d` is the encoder's table `e` under the decoder's own maximum. -/
structure Mirrors (d e : DynamicTable) : Prop where
  table : d = e.withMax d.maxCapacity
  capacity_le : e.maxCapacity ≤ d.maxCapacity
  maxEntries : e.maxCapacity / 32 = d.maxCapacity / 32

namespace Mirrors

theorem new {E D : Nat} (hle : E ≤ D) (hent : E / 32 = D / 32) :
    Mirrors (DynamicTable.new D) (DynamicTable.new E) :=
  ⟨rfl, hle, hent⟩

theorem follow {d : QpackDecoder} {e e' : QpackEncoder} {log log' : List DynEntry}
    {instrs : List EncoderInstr} (hm : Mirrors d.table e.table) (hc : e.table.Consistent log)
    (hext : Extends e log instrs e' log') :
    AdmitsAll admits apply d instrs ∧
      Mirrors (instrs.foldl apply d).table e'.table := by
  obtain ⟨hadm, hfold⟩ := hext.follow { d with table := e.table } rfl
  obtain ⟨hadm', htable⟩ := foldl_apply_withMax hc hm.table
    hm.capacity_le hadm
  rw [hfold] at htable
  refine ⟨hadm', ?_⟩
  rw [htable]
  exact ⟨rfl, hext.maxCapacity.trans_le hm.capacity_le, by
    rw [hext.maxCapacity, hm.maxEntries, withMax_maxCapacity]⟩

/-- A section made from the encoder's table as it is decodes at once to its headers. -/
theorem decode_indexed (huffman : Bytes → Option Bytes) {d : QpackDecoder} {e : DynamicTable}
    {indexes : List Nat} {headers : List HeaderField} {front lines : Bytes}
    (hm : Mirrors d.table e) (hc : e.Consistent log) (hpos : 0 < e.insertCount)
    (hbound : e.insertCount < 2 ^ 63) (hplaced : Placed log indexes headers)
    (hlive : ∀ abs ∈ indexes, e.evicted < abs)
    (hfront : encodeSectionPrefix e.insertCount e.insertCount e.maxCapacity = some front)
    (hlines : encodeIndexedLines e.insertCount indexes = some lines) :
    decodeFieldSection huffman (front ++ lines) d = .ok (headers, e.insertCount) := by
  obtain ⟨hcap, -⟩ := encodeSectionPrefix_eq hpos hfront
  have hcount : d.table.insertCount = e.insertCount := by
    rw [hm.table, withMax_insertCount]
  -- The wire form of the count depends on the maximum through `MaxEntries` only.
  have hfront' : encodeSectionPrefix e.insertCount e.insertCount d.table.maxCapacity =
      some front := by
    rw [← hfront]
    simp only [encodeSectionPrefix, encodeRequiredInsertCount, hm.maxEntries]
  have hrange : InRange d.table e.insertCount := by
    have hme := hm.maxEntries
    have hlt := hc.maxCapacity_lt
    rw [usizeMax] at hlt
    refine ⟨by omega, by omega, .inl (by omega), by omega⟩
  refine decodeFieldSection_indexed huffman hpos hfront' hlines hrange hcount.ge ?_
  -- Every entry the section names is still there.
  rw [hm.table]
  clear hlines
  induction hplaced with
  | nil => exact .nil
  | cons hhead _ ih =>
    obtain ⟨-, hget⟩ := hhead
    rw [List.forall_mem_cons] at hlive
    refine .cons ?_ (ih hlive.2)
    rw [getAbsolute_withMax, hc.window.getAbsolute hlive.1, hget]

end Mirrors

/-! ## Calls -/

/-- The call leaves the entries of its own section in the table, and the insert count far
    below `2 ^ 64`. -/
def Retains (e : QpackEncoder) (call : Call) : Prop :=
  match placeHeaders e call.headers with
  | .ok (indexes, e', _) =>
    (∀ abs ∈ indexes, e'.table.evicted < abs) ∧ e'.table.insertCount < 2 ^ 63
  | .error _ => True

instance (e : QpackEncoder) (call : Call) : Decidable (Retains e call) := by
  unfold Retains
  split <;> infer_instance

/-- The frame carries a section that any decoder with table `t` decodes to `headers`. -/
def Carries (huffman : Bytes → Option Bytes) (t : DynamicTable) (encoded : EncodedHeaders)
    (headers : List HeaderField) : Prop :=
  ∃ payload, headersPayload encoded.headersFrame = some payload ∧
    ∀ d : QpackDecoder, d.table = t →
      decodeFieldSection huffman payload d = .ok (headers, encoded.ric)

theorem carries_literal (huffman : Bytes → Option Bytes) (t : DynamicTable) {call : Call}
    (hfits : ∀ h ∈ call.headers, HeaderFits h) :
    Carries huffman t (encodeLiteralHeaders call.headers) call.headers :=
  ⟨literalSection call.headers, Call.payload_literal hfits, fun _ _ =>
    decodeFieldSection_literal huffman fun h hh =>
      ⟨Nat.le_of_add_right_le (hfits h hh).1, (hfits h hh).2⟩⟩

/-- What an encode call emits: instructions that every decoder related to the encoder
    follows to the encoder's new table, and a section that it then decodes at once. -/
def Emits (huffman : Bytes → Option Bytes) (follows : DynamicTable → DynamicTable → Prop)
    (e e' : QpackEncoder) (call : Call) (encoded : EncodedHeaders) : Prop :=
  ∃ instrs log', encoded.encoderStream = encodeAll encode instrs ∧
    e'.table.Consistent log' ∧ ∀ d : QpackDecoder, follows d.table e.table →
      AdmitsAll admits apply d instrs ∧
      follows (instrs.foldl apply d).table e'.table ∧
      Carries huffman (instrs.foldl apply d).table encoded call.headers

/-- What an encode call emits: instructions that every decoder mirroring the encoder follows to the
    encoder's new table, and a section that it then decodes at once. -/
theorem encodeOrLiteral_emits (huffman : Bytes → Option Bytes) {e e' : QpackEncoder}
    {call : Call} {encoded : EncodedHeaders} (hc : e.table.Consistent log)
    (hlen : ∀ s ∈ call.strings, (strBytes s).length ≤ usizeMax) (hretains : Retains e call)
    (hres : encodeOrLiteral e call.headers = (encoded, e')) :
    Emits huffman Mirrors e e' call encoded := by
  have hfits := Call.headers_fit hlen
  rcases encodeOrLiteral_cases hc hfits hres with ⟨rfl, rfl⟩ |
    ⟨indexes, bytes, instrs, log', front, lines, hplace, rfl, hext, hplaced, hfront, hlines⟩
  · exact ⟨[], log, rfl, hc, fun d hm => ⟨trivial, hm, carries_literal huffman _ hfits⟩⟩
  · obtain ⟨-, hpos, hpayload⟩ := Call.payload_indexed hext hplaced hfront hlines
    rw [Retains, hplace] at hretains
    obtain ⟨hlive, hbound⟩ := hretains
    refine ⟨instrs, log', rfl, hext.consistent, fun d hm => ?_⟩
    obtain ⟨hadm, hm'⟩ := hm.follow hc hext
    exact ⟨hadm, hm', front ++ lines, hpayload, fun d' hd' =>
      (hd' ▸ hm').decode_indexed huffman hext.consistent hpos hbound hplaced hlive hfront hlines⟩

end WebTransportBun.Wasm.Qpack
