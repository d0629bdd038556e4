/-
  WebTransportBun.Wasm.Qpack.Encode

  What an encode call does to the encoder's table, and that a decoder which applies the
  bytes it put on the encoder stream ends up with the same table.

  `Extends e log instrs e' log'` is the one statement about a stretch of encoder work: the
  log of inserts grows from `log` to `log'`, evictions stay at or below the Known Received
  Count, and any decoder whose table equals the encoder's follows `instrs` to the
  encoder's new table.  It composes (`Extends.trans`), so each encoder operation is one
  small lemma and `placeHeaders_ok` chains them along the header list.
-/

import WebTransportBun.Wasm.Qpack.Replica

namespace WebTransportBun.Wasm.Qpack

open Library List DynamicTable EncoderInstr

/-- A well-sized window on `log`. -/
structure DynamicTable.Consistent (t : DynamicTable) (log : List DynEntry) : Prop where
  window : t.Window log
  sized : t.Sized
  maxCapacity_lt : t.maxCapacity < usizeMax

def EncoderInstr.entry : EncoderInstr → Option DynEntry
  | .setCapacity _ => none
  | .insert name value => some ⟨name, value⟩

/-- The inserts among the instructions, in order. -/
def logOf (instrs : List EncoderInstr) : List DynEntry := instrs.filterMap entry

/-- A stretch of encoder work that writes `instrs`. -/
structure Extends (e : QpackEncoder) (log : List DynEntry) (instrs : List EncoderInstr)
    (e' : QpackEncoder) (log' : List DynEntry) : Prop where
  krc : e'.knownReceivedCount = e.knownReceivedCount
  maxCapacity : e'.table.maxCapacity = e.table.maxCapacity
  consistent : e'.table.Consistent log'
  log_eq : log' = log ++ logOf instrs
  evicted_le : e.table.evicted ≤ e'.table.evicted
  floor : e'.table.evicted ≤ max e.table.evicted e.knownReceivedCount
  follow : ∀ d : QpackDecoder, d.table = e.table →
    AdmitsAll admits apply d instrs ∧
      instrs.foldl apply d = { d with table := e'.table }

namespace Extends

variable {e e₁ e₂ : QpackEncoder} {log log₁ log₂ : List DynEntry} {is₁ is₂ : List EncoderInstr}

theorem grows (h : Extends e log is₁ e₁ log₁) : log <+: log₁ := by
  rw [h.log_eq]
  exact prefix_append _ _

theorem refl (h : e.table.Consistent log) : Extends e log [] e log where
  krc := rfl
  maxCapacity := rfl
  consistent := h
  log_eq := (append_nil log).symm
  evicted_le := le_rfl
  floor := le_max_left _ _
  follow d hd := ⟨trivial, by rw [foldl_nil, ← hd]⟩

theorem trans (h₁ : Extends e log is₁ e₁ log₁) (h₂ : Extends e₁ log₁ is₂ e₂ log₂) :
    Extends e log (is₁ ++ is₂) e₂ log₂ where
  krc := h₂.krc.trans h₁.krc
  maxCapacity := h₂.maxCapacity.trans h₁.maxCapacity
  consistent := h₂.consistent
  log_eq := by rw [h₂.log_eq, h₁.log_eq, append_assoc, logOf, logOf, logOf, filterMap_append]
  evicted_le := h₁.evicted_le.trans h₂.evicted_le
  floor := by
    have hf₁ := h₁.floor
    have hf₂ := h₂.floor
    rw [h₁.krc] at hf₂
    omega
  follow d hd := by
    obtain ⟨hadm₁, hfold₁⟩ := h₁.follow d hd
    obtain ⟨hadm₂, hfold₂⟩ := h₂.follow { d with table := e₁.table } rfl
    rw [← hfold₁] at hadm₂ hfold₂
    refine ⟨admitsAll_append.mpr ⟨hadm₁, hadm₂⟩, ?_⟩
    rw [foldl_append, hfold₂, hfold₁]

end Extends

/-! ## Single instructions -/

/-- Header strings whose lengths the decoder's `usize` arithmetic takes. -/
def HeaderFits (h : HeaderField) : Prop :=
  (strBytes h.1).length + 11 ≤ usizeMax ∧ (strBytes h.2).length ≤ usizeMax

variable {e' : QpackEncoder} {h : HeaderField} {bytes : Bytes}
  {e : QpackEncoder} {log : List DynEntry}

theorem insertLiteralInstruction_extends (hc : e.table.Consistent log) (hfits : HeaderFits h)
    (hins : e.insertLiteralInstruction h.1 h.2 = .ok (bytes, e')) :
    bytes = encode (.insert h.1 h.2) ∧
      Extends e log [.insert h.1 h.2] e' (log ++ [⟨h.1, h.2⟩]) := by
  simp only [QpackEncoder.insertLiteralInstruction] at hins
  split at hins
  · cases hins
  · next table htable =>
    cases hins
    have hspec := insertWithAckFloor_ok htable
    have hdec := insert_of_insertWithAckFloor_ok htable
    refine ⟨rfl, rfl, hspec.maxCapacity, ⟨hc.window.insert hspec, ?_, ?_⟩,
      rfl, hspec.evicted_le, hspec.floor _ rfl hc.window.length_le, ?_⟩
    · exact hc.sized.insert hc.maxCapacity_lt htable
    · rw [hspec.maxCapacity]
      exact hc.maxCapacity_lt
    · intro d hd
      have hon : onTable d.table (.insert h.1 h.2) = (.ok (), table) := by
        rw [hd]
        exact hdec
      refine ⟨⟨⟨hfits, by rw [hon]⟩, trivial⟩, ?_⟩
      simp only [foldl_cons, foldl_nil, apply, hon]

theorem setCapacityInstruction_extends {capacity : Nat} (hc : e.table.Consistent log)
    (hset : e.setCapacityInstruction capacity = .ok (bytes, e')) :
    bytes = encode (.setCapacity capacity) ∧
      Extends e log [.setCapacity capacity] e' log := by
  simp only [QpackEncoder.setCapacityInstruction] at hset
  split at hset
  · cases hset
  · next table htable =>
    cases hset
    obtain ⟨hle, hevict⟩ := setCapacityWithAckFloor_ok htable
    have hdec := setCapacity_of_setCapacityWithAckFloor_ok htable
    have hlt := hc.maxCapacity_lt
    have hev := evictToFit_evicts { e.table with capacity } 0
      (some e.knownReceivedCount)
    rw [hevict] at hev
    -- The table with the new capacity is a window on the same log.
    have hwin : DynamicTable.Window { e.table with capacity } log :=
      ⟨hc.window.insertCount, hc.window.suffix⟩
    obtain ⟨hsize, hroom⟩ := evictToFit_size (t := { e.table with capacity })
      hc.sized.size (by simp only; omega) (by decide) hevict
    refine ⟨rfl, rfl, hev.maxCapacity, ⟨hwin.evict hev, ⟨hsize, hroom, ?_⟩, ?_⟩,
      (append_nil log).symm, hev.evicted_le, hev.floor _ rfl hwin.length_le, ?_⟩
    · rw [hev.capacity, hev.maxCapacity]
      exact hle
    · rw [hev.maxCapacity]
      exact hlt
    · intro d hd
      have hon : onTable d.table (.setCapacity capacity) = (.ok (), table) := by
        rw [hd]
        exact hdec
      refine ⟨⟨⟨by simp only [EncoderInstr.Fits]; omega, by rw [hon]⟩, trivial⟩, ?_⟩
      simp only [foldl_cons, foldl_nil, apply, hon]

/-! ## Encode calls -/

def Placed (log : List DynEntry) : List Nat → List HeaderField → Prop :=
  List.Forall₂ fun abs h => 0 < abs ∧ log[abs - 1]? = some ⟨h.1, h.2⟩

variable {indexes : List Nat} {headers : List HeaderField}

theorem Placed.mono {log log' : List DynEntry}
    (h : Placed log indexes headers) (hgrow : log <+: log') : Placed log' indexes headers := by
  obtain ⟨more, rfl⟩ := hgrow
  refine List.Forall₂.imp ?_ h
  rintro abs hd ⟨hpos, hget⟩
  have hlt : abs - 1 < log.length := (List.getElem?_eq_some_iff.mp hget).1
  exact ⟨hpos, by rw [getElem?_append_left hlt, hget]⟩

theorem Placed.le_length
    (h : Placed log indexes headers) : ∀ abs ∈ indexes, 0 < abs ∧ abs ≤ log.length := by
  induction h with
  | nil => simp
  | cons hhead _ ih =>
    obtain ⟨hpos, hget⟩ := hhead
    have hlt := (List.getElem?_eq_some_iff.mp hget).1
    refine forall_mem_cons.mpr ⟨⟨hpos, by omega⟩, ih⟩

section

variable (hc : e.table.Consistent log)

include hc

theorem findAbsolute_placed {abs : Nat} (hfind : e.findAbsolute h.1 h.2 = some abs) :
    0 < abs ∧ log[abs - 1]? = some ⟨h.1, h.2⟩ := by
  have hmatch := find?_some hfind
  have hget : e.table.getAbsolute abs = some ⟨h.1, h.2⟩ := by simpa using hmatch
  have hmem := mem_of_find?_eq_some hfind
  have hpos : 0 < abs := by
    rw [mem_range'_1] at hmem
    omega
  have hlive : e.table.evicted < abs := by grind [evicted, getAbsolute, oldestAbsolute]
  exact ⟨hpos, by rw [← hc.window.getAbsolute hlive, hget]⟩

theorem ensureDynamicEntry_ok {abs : Nat} (hfits : HeaderFits h)
    (hok : ensureDynamicEntry e h = .ok (abs, e', bytes)) :
    ∃ instrs log', bytes = encodeAll encode instrs ∧ Extends e log instrs e' log' ∧
      0 < abs ∧ log'[abs - 1]? = some ⟨h.1, h.2⟩ := by
  simp only [ensureDynamicEntry] at hok
  split at hok
  · next abs' hfind =>
    cases hok
    exact ⟨[], log, rfl, .refl hc, findAbsolute_placed hc hfind⟩
  · obtain ⟨⟨bytes', e₁⟩, hins, hok⟩ := bind_eq_ok hok
    cases hok
    obtain ⟨rfl, hext⟩ := insertLiteralInstruction_extends hc hfits hins
    have hcount := hext.consistent.window.insertCount
    rw [length_append, length_singleton] at hcount
    refine ⟨[.insert h.1 h.2], _, by simp, hext, ?_, ?_⟩
    · rw [hcount]
      exact Nat.succ_pos _
    · rw [hcount, Nat.add_sub_cancel, getElem?_concat_length]

theorem ensureDynamicEntries_ok (hfits : ∀ h ∈ headers, HeaderFits h)
    (hok : ensureDynamicEntries e headers = .ok (indexes, e', bytes)) :
    ∃ instrs log', bytes = encodeAll encode instrs ∧ Extends e log instrs e' log' ∧
      Placed log' indexes headers := by
  induction headers generalizing e log indexes bytes with
  | nil =>
    cases hok
    exact ⟨[], log, rfl, .refl hc, .nil⟩
  | cons h hs ih =>
    obtain ⟨⟨abs, e₁, bytes₁⟩, hfirst, hok⟩ := bind_eq_ok hok
    obtain ⟨⟨indexes₂, e₂, bytes₂⟩, hrest, hok⟩ := bind_eq_ok hok
    cases hok
    obtain ⟨is₁, log₁, rfl, hext₁, hpos, hget⟩ :=
      ensureDynamicEntry_ok hc (hfits h mem_cons_self) hfirst
    obtain ⟨is₂, log₂, rfl, hext₂, hplaced⟩ :=
      ih hext₁.consistent (fun g hg => hfits g (mem_cons_of_mem _ hg)) hrest
    have hhere : Placed log₁ [abs] [h] := .cons ⟨hpos, hget⟩ .nil
    obtain ⟨hkept, -⟩ := forall₂_cons.mp (hhere.mono hext₂.grows)
    exact ⟨is₁ ++ is₂, log₂, by simp, hext₁.trans hext₂, .cons hkept hplaced⟩

/-- The scratch part of an encode call writes instructions that bring a decoder to the new
    table, and names for each header an entry of the log. -/
theorem placeHeaders_ok (hfits : ∀ h ∈ headers, HeaderFits h)
    (hok : placeHeaders e headers = .ok (indexes, e', bytes)) :
    ∃ instrs log', bytes = encodeAll encode instrs ∧ Extends e log instrs e' log' ∧
      Placed log' indexes headers := by
  have hsetup : ∀ {setup e₁}, announceCapacity e = .ok (setup, e₁) →
      ∃ instrs, setup = encodeAll encode instrs ∧ Extends e log instrs e₁ log := by
    intro setup e₁ h
    simp only [announceCapacity] at h
    split at h
    · obtain ⟨rfl, hext⟩ := setCapacityInstruction_extends hc h
      exact ⟨_, by simp, hext⟩
    · cases h
      exact ⟨[], rfl, .refl hc⟩
  obtain ⟨⟨setup, e₁⟩, hann, hok⟩ := bind_eq_ok hok
  obtain ⟨⟨indexes₂, e₂, bytes₂⟩, hrest, hok⟩ := bind_eq_ok hok
  cases hok
  obtain ⟨is₁, rfl, hext₁⟩ := hsetup hann
  obtain ⟨is₂, log₂, rfl, hext₂, hplaced⟩ :=
    ensureDynamicEntries_ok hext₁.consistent hfits hrest
  exact ⟨is₁ ++ is₂, log₂, by simp, hext₁.trans hext₂, hplaced⟩

/-- An encode call as the endpoint makes it either falls back to literals and leaves the
    encoder alone, or names entries that its instructions put in place. -/
theorem encodeOrLiteral_cases {encoded : EncodedHeaders}
    (hfits : ∀ h ∈ headers, HeaderFits h) (hres : encodeOrLiteral e headers = (encoded, e')) :
    (encoded = encodeLiteralHeaders headers ∧ e' = e) ∨ ∃ indexes bytes instrs log' front lines,
        placeHeaders e headers = .ok (indexes, e', bytes) ∧
        encoded = { headersFrame := frameWrap frameHeaders (front ++ lines)
                    encoderStream := encodeAll encode instrs
                    ric := e'.table.insertCount } ∧
        Extends e log instrs e' log' ∧ Placed log' indexes headers ∧
        encodeSectionPrefix e'.table.insertCount e'.table.insertCount e'.table.maxCapacity =
          some front ∧ encodeIndexedLines e'.table.insertCount indexes = some lines := by
  simp only [encodeOrLiteral, encodeHeadersWith, bind, Except.bind, pure, Except.pure] at hres
  split at hres
  · next res hok => grind [placeHeaders_ok]
  · cases hres
    exact .inl ⟨rfl, rfl⟩

end

end WebTransportBun.Wasm.Qpack
