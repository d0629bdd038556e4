/-
  WebTransportBun.Wasm.Qpack.Sections

  What a field section depends on.  The lines of a section are read from its bytes alone
  (`sectionLines`), and the table is then asked for the absolute indexes they name; so two
  decoders that answer those lookups alike decode the section alike.

  `decode_field_section` compares the Required Insert Count with the number of inserts, but
  not the indexes with the Required Insert Count: a base beyond it, or a post-base index,
  reaches inserts the section has not declared, and then its headers depend on them
  (`section_independent_iff`).
-/

import WebTransportBun.Wasm.Qpack.TableHistory
import WebTransportBun.Wasm.Qpack.Codec

namespace WebTransportBun.Wasm.Qpack

open Library List Option DynamicTable

/-! ## Lines without a table -/

/-- A field line as its bytes give it: complete, or with a dynamic entry to be looked up for
    all of it or for its name. -/
inductive FieldLine
  | complete (field : HeaderField)
  | entry (abs : Nat)
  | named (abs : Nat) (value : String)
  deriving DecidableEq, Repr

/-- The index that `get_relative` looks up. -/
def relativeIndex (relative base : Nat) : Option Nat :=
  if base < relative then none else some (base - relative)

/-- The index that `get_post_base` looks up. -/
def postBaseIndex (post base : Nat) : Option Nat :=
  if 2 ^ 64 ≤ base + post + 1 then none else some (base + post + 1)

namespace FieldLine

def reference : FieldLine → Option Nat
  | complete _ => none
  | entry abs => some abs
  | named abs _ => some abs

def resolve (t : DynamicTable) : FieldLine → Option HeaderField
  | complete field => some field
  | entry abs => (t.getAbsolute abs).map fun e => (e.name, e.value)
  | named abs value => (t.getAbsolute abs).map fun e => (e.name, value)

/-- The reader that leaves the look-ups for later. -/
def reader : LineReader Nat FieldLine where
  relative := relativeIndex
  postBase := postBaseIndex
  field := complete
  entry := entry
  named := named

end FieldLine

section

variable (huffman : Bytes → Option Bytes)

def sectionLines (buf : Bytes) (ric : Nat) : Option (List FieldLine) := do
  let (_, nRic) ← qpackIntDecode buf 8
  readSectionBody huffman FieldLine.reader ric (buf.drop nRic)

/-- The absolute indexes that the lines of a section look up. -/
def sectionReferences (buf : Bytes) (ric : Nat) : List Nat :=
  ((sectionLines huffman buf ric).getD []).filterMap FieldLine.reference

end

/-- The Required Insert Count that a decoder reads from a section. -/
def sectionRic (buf : Bytes) (d : QpackDecoder) : Except QpackError Nat :=
  match qpackIntDecode buf 8 with
  | none => .error .invalid
  | some (encodedRic, _) =>
    decodeRequiredInsertCount encodedRic d.table.maxCapacity d.table.insertCount

section

variable {huffman : Bytes → Option Bytes} {d : QpackDecoder} {base : Nat} {buf : Bytes}

theorem getRelative_eq {t : DynamicTable} {relative : Nat} :
    t.getRelative relative base = (relativeIndex relative base).bind t.getAbsolute := by
  unfold getRelative relativeIndex
  split <;> rfl

theorem getPostBase_eq {t : DynamicTable} {post : Nat} :
    t.getPostBase post base = (postBaseIndex post base).bind t.getAbsolute := by
  unfold getPostBase postBaseIndex
  split <;> rfl

theorem readFieldLine_resolve :
    readFieldLine huffman d.lineReader base buf =
      (readFieldLine huffman FieldLine.reader base buf).bind fun p =>
        (p.1.resolve d.table).map fun field => (field, p.2) := by
  cases hhead : buf.head? with
  | none => simp [readFieldLine, hhead]
  | some first =>
    simp only [readFieldLine, hhead, bind_eq_bind, bind_some, QpackDecoder.lineReader,
      FieldLine.reader, getRelative_eq, getPostBase_eq]
    split
    · cases qpackIntDecode buf 6 with
      | none => rfl
      | some r =>
        dsimp only [bind_some]
        split
        · cases qpackStatic r.1 <;> rfl
        · cases relativeIndex r.1 base with
          | none => rfl
          | some abs => cases habs : d.table.getAbsolute abs <;> simp [FieldLine.resolve, habs]
    split
    · cases qpackIntDecode buf 4 with
      | none => rfl
      | some r =>
        dsimp only [bind_some]
        split
        · cases qpackStatic r.1 <;> cases readQpackString huffman (buf.drop r.2) <;> rfl
        · cases relativeIndex r.1 base with
          | none => rfl
          | some abs =>
            cases habs : d.table.getAbsolute abs <;>
              cases readQpackString huffman (buf.drop r.2) <;>
              simp [FieldLine.resolve, habs]
    split
    · simp [FieldLine.resolve, bind_assoc]
    split
    · cases qpackIntDecode buf 4 with
      | none => rfl
      | some r =>
        dsimp only [bind_some]
        cases postBaseIndex r.1 base with
        | none => rfl
        | some abs => cases habs : d.table.getAbsolute abs <;> simp [FieldLine.resolve, habs]
    · cases qpackIntDecode buf 3 with
      | none => rfl
      | some r =>
        dsimp only [bind_some]
        cases postBaseIndex r.1 base with
        | none => rfl
        | some abs =>
          cases habs : d.table.getAbsolute abs <;>
            cases readQpackString huffman (buf.drop r.2) <;>
            simp [FieldLine.resolve, habs]

theorem readFieldLines_resolve {fuel : Nat} :
    readFieldLines huffman d.lineReader base fuel buf =
      (readFieldLines huffman FieldLine.reader base fuel buf).bind fun lines =>
        lines.mapM fun line => line.resolve d.table := by
  induction fuel generalizing buf with
  | zero => cases buf <;> rfl
  | succ fuel ih =>
    cases buf with
    | nil => rfl
    | cons b buf =>
      simp only [readFieldLines, readFieldLine_resolve, ih]
      cases readFieldLine huffman FieldLine.reader base (b :: buf) with
      | none => rfl
      | some p =>
        cases hline : p.1.resolve d.table <;>
          cases hrest : readFieldLines huffman FieldLine.reader base fuel p.2 <;>
          simp [hline, hrest]

/-- When a section is accepted. -/
theorem decodeFieldSection_eq_ok {headers : List HeaderField} {ric : Nat} :
    decodeFieldSection huffman buf d = .ok (headers, ric) ↔
      2 ≤ buf.length ∧ sectionRic buf d = .ok ric ∧ ric ≤ d.table.insertCount ∧
        ∃ lines, sectionLines huffman buf ric = some lines ∧
          lines.mapM (fun line => line.resolve d.table) = some headers := by
  unfold decodeFieldSection sectionRic sectionLines
  by_cases hlen : buf.length < 2
  · rw [if_pos hlen]
    exact iff_of_false (nofun) fun h => by omega
  rw [if_neg hlen]
  cases qpackIntDecode buf 8 with
  | none => exact iff_of_false (nofun) fun h => by cases h.2.1
  | some r =>
    dsimp only
    cases decodeRequiredInsertCount r.1 d.table.maxCapacity d.table.insertCount with
    | error e => exact iff_of_false (nofun) fun h => by cases h.2.1
    | ok ric' =>
      dsimp only
      by_cases hblocked : d.table.insertCount < ric'
      · grind
      · rw [if_neg hblocked]
        simp only [readSectionBody, readFieldLines_resolve, bind_eq_bind,
          ← bind_assoc]
        constructor
        · intro h
          split at h
          · cases h
          · next headers' hbody =>
            cases h
            obtain ⟨lines, hlines, hresolve⟩ := bind_eq_some_iff.mp hbody
            exact ⟨by omega, rfl, by omega, lines, hlines, hresolve⟩
        · grind

/-! ## Two decoders -/

theorem mapM_eq_some_iff_map {α β : Type} {f : α → Option β} {l : List α} {r : List β} :
    l.mapM f = some r ↔ l.map f = r.map some := by
  induction l generalizing r with
  | nil => cases r <;> simp
  | cons a l ih =>
    cases ha : f a with
    | none => cases r <;> simp [ha]
    | some b =>
      cases r with
      | nil => simp [bind_eq_some_iff]
      | cons c r => simp [bind_eq_some_iff, ← ih]

variable {t t' : DynamicTable} {log log' : List DynEntry} {line : FieldLine}
  {lines : List FieldLine} {headers : List HeaderField} {ric : Nat}

theorem exists_resolve_of_mem (h : lines.map (FieldLine.resolve t) = headers.map some)
    (hline : line ∈ lines) : ∃ field, line.resolve t = some field := by
  have hmem : line.resolve t ∈ headers.map some := h ▸ mem_map_of_mem hline
  obtain ⟨field, -, hfield⟩ := mem_map.mp hmem
  exact ⟨field, hfield.symm⟩

theorem resolve_of_reference {abs : Nat} (hline : line.reference = some abs) :
    line.resolve t = none ↔ t.getAbsolute abs = none := by
  cases line with
  | complete field => cases hline
  | entry | named => cases hline; exact map_eq_none_iff

theorem resolve_name {abs : Nat} {e : DynEntry} (hline : line.reference = some abs)
    (he : t.getAbsolute abs = some e) : (line.resolve t).map Prod.fst = some e.name := by
  cases line with
  | complete field => cases hline
  | entry | named => cases hline; simp [FieldLine.resolve, he]

theorem resolve_congr
    (h : ∀ abs, line.reference = some abs → t.getAbsolute abs = t'.getAbsolute abs) :
    line.resolve t = line.resolve t' := by
  cases line with
  | complete field => rfl
  | entry abs | named abs => simp only [FieldLine.resolve, h abs rfl]

namespace DynamicTable

variable {abs : Nat} {e : DynEntry}

theorem Window.getAbsolute_some (hw : t.Window log) (h : t.getAbsolute abs = some e) :
    log.length - t.entries.length < abs ∧ log[abs - 1]? = some e := by
  rw [hw.getAbsolute_eq] at h
  split at h
  · next hlive => exact ⟨hlive, h⟩
  · cases h

theorem getAbsolute_eq_of_take (hw : t.Window log) (hw' : t'.Window log')
    (htake : log'.take ric = log.take ric) (habs : abs ≤ ric)
    (h : t.getAbsolute abs ≠ none) (h' : t'.getAbsolute abs ≠ none) :
    t.getAbsolute abs = t'.getAbsolute abs := by
  obtain ⟨e, he⟩ := ne_none_iff_exists'.mp h
  obtain ⟨e', he'⟩ := ne_none_iff_exists'.mp h'
  obtain ⟨hlive, hlog⟩ := hw.getAbsolute_some he
  obtain ⟨-, hlog'⟩ := hw'.getAbsolute_some he'
  have hsame : log'[abs - 1]? = log[abs - 1]? := by
    rw [← getElem?_take_of_lt (show abs - 1 < ric by omega), htake,
      getElem?_take_of_lt (by omega)]
  rw [he, he', ← hlog, ← hlog', hsame]

def replace (t : DynamicTable) (log : List DynEntry) (abs : Nat) (e : DynEntry) : DynamicTable :=
  { t with entries := (log.set (abs - 1) e).drop (log.length - t.entries.length) }

theorem Window.replace (hw : t.Window log) :
    (t.replace log abs e).Window (log.set (abs - 1) e) where
  insertCount := by rw [length_set]; exact hw.insertCount
  suffix := drop_suffix _ _

theorem Window.getAbsolute_replace {a : Nat} (hw : t.Window log) :
    (t.replace log abs e).getAbsolute a =
      if log.length - t.entries.length < a then (log.set (abs - 1) e)[a - 1]? else none := by
  have hle := hw.suffix.length_le
  have hlen : (t.replace log abs e).entries.length = t.entries.length := by
    rw [DynamicTable.replace, length_drop, length_set]
    omega
  rw [hw.replace.getAbsolute_eq, hlen, length_set]

end DynamicTable

/-- A section that was accepted decodes to the same headers in every decoder that shares the
    declared inserts and still has what the section refers to, exactly if the section refers
    to declared inserts only. -/
theorem section_independent_iff (hw : d.table.Window log)
    (hok : decodeFieldSection huffman buf d = .ok (headers, ric)) :
    (∀ d' log', d'.table.Window log' → log'.take ric = log.take ric →
        d'.table.maxCapacity = d.table.maxCapacity →
        (∀ abs ∈ sectionReferences huffman buf ric, d'.table.getAbsolute abs ≠ none) →
        sectionRic buf d' = .ok ric →
        decodeFieldSection huffman buf d' = .ok (headers, ric)) ↔
      ∀ abs ∈ sectionReferences huffman buf ric, abs ≤ ric := by
  obtain ⟨hlen, hric, hcount, lines, hlines, hheaders⟩ := decodeFieldSection_eq_ok.mp hok
  rw [mapM_eq_some_iff_map] at hheaders
  have hrefs : ∀ abs, abs ∈ sectionReferences huffman buf ric ↔
      ∃ line ∈ lines, line.reference = some abs := by
    intro abs
    rw [sectionReferences, hlines, getD_some, mem_filterMap]
  have hthere : ∀ line ∈ lines, ∀ abs, line.reference = some abs →
      d.table.getAbsolute abs ≠ none := by
    intro line hline abs habs hnone
    obtain ⟨field, hfield⟩ := exists_resolve_of_mem hheaders hline
    rw [(resolve_of_reference habs).mpr hnone] at hfield
    cases hfield
  constructor
  · intro hall abs hmem
    by_contra hbeyond
    obtain ⟨line, hline, habs⟩ := (hrefs abs).mp hmem
    obtain ⟨e, he⟩ := ne_none_iff_exists'.mp (hthere line hline abs habs)
    obtain ⟨hlive, hlog⟩ := hw.getAbsolute_some he
    have hlt : abs - 1 < log.length := (List.getElem?_eq_some_iff.mp hlog).1
    -- the same table, but for the name of the undeclared entry
    let d' : QpackDecoder :=
      { d with table := d.table.replace log abs { e with name := e.name ++ "x" } }
    have hd' := hall d' _ hw.replace (take_set_of_le (by omega)) rfl ?_ hric
    · obtain ⟨-, -, -, lines', hlines', hheaders'⟩ := decodeFieldSection_eq_ok.mp hd'
      rw [hlines] at hlines'
      cases hlines'
      rw [mapM_eq_some_iff_map, ← hheaders] at hheaders'
      have hsame := congrArg (Option.map Prod.fst) (map_inj_left.mp hheaders' line hline)
      have he' : d'.table.getAbsolute abs = some { e with name := e.name ++ "x" } := by
        rw [hw.getAbsolute_replace, if_pos hlive, getElem?_set_self hlt]
      rw [resolve_name habs he', resolve_name habs he] at hsame
      have hlonger := congrArg String.length (Option.some.inj hsame)
      rw [String.length_append] at hlonger
      exact absurd hlonger (ne_of_gt (Nat.lt_succ_self _))
    · intro a ha
      obtain ⟨line, hline, ha⟩ := (hrefs a).mp ha
      obtain ⟨e, he⟩ := ne_none_iff_exists'.mp (hthere line hline a ha)
      obtain ⟨hlive, hlog⟩ := hw.getAbsolute_some he
      have hlt : a - 1 < log.length := (List.getElem?_eq_some_iff.mp hlog).1
      rw [hw.getAbsolute_replace, if_pos hlive, ne_eq, List.getElem?_eq_none_iff, List.length_set]
      omega
  · intro hdeclared d' log' hw' htake hmax hkept hric'
    refine decodeFieldSection_eq_ok.mpr ⟨hlen, hric', ?_, lines, hlines, ?_⟩
    · have hlength := congrArg length htake
      rw [length_take, length_take, ← hw.insertCount, ← hw'.insertCount] at hlength
      omega
    · rw [mapM_eq_some_iff_map, ← hheaders]
      refine map_congr_left fun line hline => resolve_congr fun abs habs => ?_
      have hmem := (hrefs abs).mpr ⟨line, hline, habs⟩
      exact (getAbsolute_eq_of_take hw hw' htake (hdeclared abs hmem)
        (hthere line hline abs habs) (hkept abs hmem)).symm

end

def fedDecoder (stream : Bytes) : QpackDecoder :=
  (feedEncoderStream (fun _ => none) (.new {}) stream).1

/-- One insert, declared and referred to. -/
theorem section_independent_iff_declared :
    decodeFieldSection (fun _ => none) [0x02, 0x00, 0x80]
        (fedDecoder [0x3f, 0x45, 0x41, 0x61, 0x01, 0x31]) = .ok ([("a", "1")], 1) ∧
      ∀ d' log', d'.table.Window log' → log'.take 1 = [⟨"a", "1"⟩] →
        d'.table.maxCapacity = 4096 →
        (∀ abs ∈ sectionReferences (fun _ => none) [0x02, 0x00, 0x80] 1,
          d'.table.getAbsolute abs ≠ none) →
        sectionRic [0x02, 0x00, 0x80] d' = .ok 1 →
        decodeFieldSection (fun _ => none) [0x02, 0x00, 0x80] d' = .ok ([("a", "1")], 1) := by
  have hw : (fedDecoder [0x3f, 0x45, 0x41, 0x61, 0x01, 0x31]).table.Window [⟨"a", "1"⟩] :=
    ⟨by decide +kernel, [], by decide +kernel⟩
  have hok : decodeFieldSection (fun _ => none) [0x02, 0x00, 0x80]
      (fedDecoder [0x3f, 0x45, 0x41, 0x61, 0x01, 0x31]) = .ok ([("a", "1")], 1) := by
    decide +kernel
  have hall := (section_independent_iff hw hok).mpr (by decide +kernel)
  exact ⟨hok, hall⟩

/-- A section that declares nothing and reads the first insert by a post-base index. -/
theorem undeclared_insert_read :
    sectionReferences (fun _ => none) [0x00, 0x00, 0x10] 0 = [1] ∧
      decodeFieldSection (fun _ => none) [0x00, 0x00, 0x10]
        (fedDecoder [0x3f, 0x45, 0x41, 0x61, 0x01, 0x31]) = .ok ([("a", "1")], 0) ∧
      decodeFieldSection (fun _ => none) [0x00, 0x00, 0x10]
        (fedDecoder [0x3f, 0x45, 0x41, 0x61, 0x01, 0x32]) = .ok ([("a", "2")], 0) := by
  decide +kernel

end WebTransportBun.Wasm.Qpack
