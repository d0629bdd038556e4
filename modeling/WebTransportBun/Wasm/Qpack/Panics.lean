/-
  WebTransportBun.Wasm.Qpack.Panics

  Where `feed_encoder_stream` can take the program down.  `Checked` has the functions of
  the encoder stream once more, with every addition and subtraction of a `usize` (and of
  a `u64` that is not a checked one) and every slice as an operation that may panic; `none`
  is the panic.

  All of them are in range but one: the end of the name in an Insert With Literal Name
  instruction is `n1 + nlen_us`, added in front of the length check.  A length within eleven
  of `usize::MAX` overflows there (and where overflow wraps, the slice that follows starts
  behind its end).  `panic_free_iff` says that this is the only way.
-/

import WebTransportBun.Library.Bounds
import WebTransportBun.Wasm.Qpack.Chunking
import WebTransportBun.Wasm.Qpack.TableHistory

namespace WebTransportBun.Wasm.Qpack

open Library List Nat DynamicTable

namespace Checked

/-- The loop of `qpack_int_decode`, with `i += 1` and `m += 7`. -/
def qpackIntDecodeLoop : Bytes → Nat → Nat → Nat → Option (Option (Nat × Nat))
  | [], _, _, _ => some none
  | b :: rest, value, m, i =>
    let value := value + (b.toNat &&& 0x7f) <<< m % 2 ^ 64
    if 2 ^ 64 ≤ value then some none
    else do
      let i ← addIn usizeMax i 1
      if b &&& 0x80 = 0 then return some (value, i)
      else do
        let m ← addIn (2 ^ 32 - 1) m 7
        if 64 ≤ m then return none else qpackIntDecodeLoop rest value m i

def qpackIntDecode (buf : Bytes) (n : Nat) : Option (Option (Nat × Nat)) :=
  match buf with
  | [] => some none
  | b :: rest =>
    let max := 2 ^ n - 1
    let first := b.toNat &&& max
    if first < max then some (some (first, 1)) else qpackIntDecodeLoop rest max 0 1

/-- `oldest_absolute`.  The sum is at most the insert count again. -/
def oldestAbsolute (t : DynamicTable) : Option (Option Nat) :=
  if t.entries.isEmpty then some none
  else do
    let gone ← subIn t.insertCount t.entries.length
    return some (gone + 1)

/-- The loop of `evict_to_fit`, without a floor as the decoder calls it. -/
def evictLoop (additional : Nat) : Nat → DynamicTable → Option DynamicTable
  | 0, t => some t
  | fuel + 1, t =>
    match t.entries with
    | [] => some t
    | e :: rest =>
      if additional = usizeMax ∨ t.capacity < saturatingAdd t.size additional then do
        let _ ← oldestAbsolute t
        evictLoop additional fuel
          { t with entries := rest, size := t.size - entrySize e.name e.value }
      else some t

section

variable (t : DynamicTable)

def evictToFit (additional : Nat) :
    Option (Except QpackError Unit × DynamicTable) := do
  let t ← evictLoop additional t.entries.length t
  if additional ≠ usizeMax ∧ t.capacity < saturatingAdd t.size additional then
    return (.error .invalid, t)
  else return (.ok (), t)

def setCapacity (capacity : Nat) :
    Option (Except QpackError Unit × DynamicTable) :=
  if t.maxCapacity < capacity then some (.error .invalid, t)
  else evictToFit { t with capacity } 0

def insert (name value : String) :
    Option (Except QpackError Unit × DynamicTable) :=
  let sz := entrySize name value
  if t.capacity < sz then some (.error .invalid, t)
  else do
    match ← evictToFit t sz with
    | (.error e, t) => return (.error e, t)
    | (.ok (), t) =>
      return (.ok (), { t with
        entries := t.entries ++ [⟨name, value⟩]
        size := saturatingAdd t.size sz
        insertCount := t.insertCount + 1 })

def getAbsolute (abs : Nat) : Option (Option DynEntry) :=
  if abs = 0 then some none
  else do
    match ← oldestAbsolute t with
    | none => return none
    | some oldest =>
      if abs < oldest ∨ t.insertCount < abs then return none
      else do
        let idx ← subIn abs oldest
        return t.entries[idx]?

end

/-- The entry `idx` inserts back from the newest one (`checked_sub`, then `get_absolute`). -/
def fromNewest (d : QpackDecoder) (idx : Nat) : Option (Option DynEntry) :=
  if d.table.insertCount < idx then some none
  else getAbsolute d.table (d.table.insertCount - idx)

/-- The name an instruction refers to, from the static or the dynamic table. -/
def referredName (d : QpackDecoder) (first : UInt8) (idx : Nat) : Option (Option String) :=
  if first &&& 0x40 ≠ 0 then some ((qpackStatic idx).map Prod.fst)
  else (fromNewest d idx).map (Option.map DynEntry.name)

section

variable (huffman : Bytes → Option Bytes)

def readQpackString (buf : Bytes) : Option (Option (String × Bytes)) :=
  match buf.head? with
  | none => some none
  | some first => do
    match ← qpackIntDecode buf 7 with
    | none => return none
    | some (len, n) =>
      let buf ← rangeFrom buf n
      if usizeMax < len then return none
      else if buf.length < len then return none
      else do
        let rest ← rangeFrom buf len
        return (decodeQpackBytes huffman (buf.take len) (first &&& 0x80 ≠ 0)).map (·, rest)

section

variable (d : QpackDecoder)

/-- The insert of an instruction, then the bytes it took: what precedes the value and
    `buf.len() - before - rest.len()`, by a checked addition. -/
def applyInsert (name value : String) (buf rest : Bytes) (before : Nat) :
    Option (Verdict QpackDecoder FeedStop) := do
  match ← insert d.table name value with
  | (.error e, table) => return .fail { d with table } (.error e)
  | (.ok (), table) =>
    let behind ← subIn buf.length before
    let valueLen ← subIn behind rest.length
    if usizeMax < before + valueLen then return .fail { d with table } (.error .invalid)
    else return .take (before + valueLen) { d with table }

def insertWithNameReference (first : UInt8) (buf : Bytes) :
    Option (Verdict QpackDecoder FeedStop) := do
  match ← qpackIntDecode buf 6 with
  | none => return .wait
  | some (idx, n) =>
    -- `buf.get(n..)`: no panic, and the loop ends where it is not there
    if buf.length < n then return .wait
    else do
      match ← referredName d first idx with
      | none => return .fail d (.error .invalid)
      | some name =>
        match ← readQpackString huffman (buf.drop n) with
        | none => return .wait
        | some (value, rest) => applyInsert d name value buf rest n

/-- Insert With Literal Name; `n1 + nlen_us` is added four times, the first of them in the
    length check. -/
def insertWithLiteralName (first : UInt8) (buf : Bytes) :
    Option (Verdict QpackDecoder FeedStop) := do
  match ← qpackIntDecode buf 5 with
  | none => return .wait
  | some (nlen, n1) =>
    if usizeMax < nlen then return .fail d (.error .invalid)
    else do
      let afterName ← addIn usizeMax n1 nlen
      if buf.length < afterName then return .wait
      else do
        let raw ← rangeOf buf n1 afterName
        let rest ← rangeFrom buf afterName
        match decodeQpackBytes huffman raw (first &&& 0x20 ≠ 0) with
        | none => return .fail d (.error .invalid)
        | some name =>
          match ← readQpackString huffman rest with
          | none => return .wait
          | some (value, rest) => applyInsert d name value buf rest afterName

def setTableCapacity (buf : Bytes) : Option (Verdict QpackDecoder FeedStop) := do
  match ← qpackIntDecode buf 5 with
  | none => return .wait
  | some (cap, n) =>
    if usizeMax < cap then return .fail d (.error .invalid)
    else do
      match ← setCapacity d.table cap with
      | (.ok (), table) => return .take n { d with table }
      | (.error e, table) => return .fail { d with table } (.error e)

def duplicateEntry (buf : Bytes) : Option (Verdict QpackDecoder FeedStop) := do
  match ← qpackIntDecode buf 5 with
  | none => return .wait
  | some (idx, n) =>
    match ← fromNewest d idx with
    | none => return .fail d (.error .invalid)
    | some e =>
      match ← insert d.table e.name e.value with
      | (.error err, table) => return .fail { d with table } (.error err)
      | (.ok (), table) => return .take n { d with table }

def encoderInstruction (buf : Bytes) : Option (Verdict QpackDecoder FeedStop) :=
  match buf with
  | [] => some .wait
  | first :: _ =>
    if first &&& 0x80 ≠ 0 then insertWithNameReference huffman d first buf
    else if first &&& 0x40 ≠ 0 then insertWithLiteralName huffman d first buf
    else if first &&& 0x20 ≠ 0 then setTableCapacity d buf
    else duplicateEntry d buf

end

/-- The loop from `offset` on: `&data[offset..]` in front of every round and
    `offset += consumed` behind it. -/
def feedLoop (data : Bytes) : Nat → QpackDecoder → Nat →
    Option (QpackDecoder × Except QpackError Nat)
  | 0, d, offset => some (d, .ok offset)
  | fuel + 1, d, offset =>
    if offset < data.length then do
      let buf ← rangeFrom data offset
      match ← encoderInstruction huffman d buf with
      | .wait => return (d, .ok offset)
      | .fail d (.error e) => return (d, .error e)
      | .fail _ .panic => none
      | .take consumed d => do
        let offset ← addIn usizeMax offset consumed
        feedLoop data fuel d offset
    else some (d, .ok offset)

def feedEncoderStream (d : QpackDecoder) (data : Bytes) :
    Option (QpackDecoder × Except QpackError Nat) :=
  feedLoop huffman data data.length d 0

end

/-! ## Everything else is in range -/

theorem qpackIntDecodeLoop_eq {buf : Bytes} {value m i : Nat} (hi : i + buf.length ≤ usizeMax)
    (hm : m < 64) :
    qpackIntDecodeLoop buf value m i = some (Qpack.qpackIntDecodeLoop buf value m i) := by
  induction buf generalizing value m i with
  | nil => rfl
  | cons b buf ih => grind [qpackIntDecodeLoop, Qpack.qpackIntDecodeLoop, addIn_of_le]

theorem qpackIntDecode_eq {buf : Bytes} (hlen : buf.length ≤ usizeMax) (n : Nat) :
    qpackIntDecode buf n = some (Qpack.qpackIntDecode buf n) := by
  cases buf with
  | nil => rfl
  | cons b buf =>
    rw [length_cons] at hlen
    simp only [qpackIntDecode, Qpack.qpackIntDecode]
    split
    · rfl
    · exact qpackIntDecodeLoop_eq (by omega) (by decide)

section

variable {t : DynamicTable} (hlen : t.entries.length ≤ t.insertCount)
include hlen

theorem oldestAbsolute_eq : oldestAbsolute t = some t.oldestAbsolute := by
  rw [oldestAbsolute, DynamicTable.oldestAbsolute, subIn_of_le hlen]
  split <;> rfl

omit hlen in
/-- Without a floor nothing stops the evictions. -/
theorem evictLoop_eq (additional fuel : Nat) {t : DynamicTable}
    (hlen : t.entries.length ≤ t.insertCount) : DynamicTable.evictLoop additional none fuel t =
      (.ok (), (DynamicTable.evictLoop additional none fuel t).2) ∧
    evictLoop additional fuel t = some (DynamicTable.evictLoop additional none fuel t).2 := by
  induction fuel generalizing t with
  | zero => exact ⟨rfl, rfl⟩
  | succ fuel ih =>
    cases hentries : t.entries with
    | nil =>
      rw [evictLoop_nil hentries, evictLoop, hentries]
      exact ⟨rfl, rfl⟩
    | cons e rest =>
      rw [evictLoop, hentries]
      dsimp only
      by_cases hfull : additional = usizeMax ∨ t.capacity < saturatingAdd t.size additional
      · rw [if_pos hfull, oldestAbsolute_eq hlen,
          evictLoop_evict hentries hfull (by simp [floorProtects])]
        apply ih
        rw [hentries, length_cons] at hlen
        exact le_of_succ_le hlen
      · rw [if_neg hfull, evictLoop_fits hentries hfull]
        exact ⟨rfl, rfl⟩

theorem evictToFit_eq (additional : Nat) :
    evictToFit t additional = some (t.evictToFit additional none) := by
  obtain ⟨hok, heq⟩ := evictLoop_eq additional t.entries.length hlen
  rw [evictToFit, heq, DynamicTable.evictToFit, hok]
  dsimp only [Option.bind_eq_bind, Option.bind_some]
  split <;> rfl

theorem insert_eq (name value : String) : insert t name value = some (t.insert name value) := by
  simp only [insert, DynamicTable.insert, DynamicTable.insertWithAckFloor, evictToFit_eq hlen]
  split
  · rfl
  · obtain ⟨outcome, t'⟩ := t.evictToFit (DynamicTable.entrySize name value) none
    cases outcome <;> rfl

theorem getAbsolute_eq (abs : Nat) : getAbsolute t abs = some (t.getAbsolute abs) := by
  simp only [getAbsolute, DynamicTable.getAbsolute, oldestAbsolute_eq hlen, Option.bind_eq_bind,
    Option.bind_some]
  split
  · rfl
  · cases t.oldestAbsolute with
    | none => rfl
    | some oldest =>
      dsimp only
      split
      · rfl
      · next hrange => rw [subIn_of_le (by omega)]; rfl

omit hlen in
theorem setCapacity_eq (hlen : t.entries.length ≤ t.insertCount) (capacity : Nat) :
    setCapacity t capacity = some (t.setCapacity capacity) := by
  simp only [setCapacity, DynamicTable.setCapacity, DynamicTable.setCapacityWithAckFloor]
  split
  · rfl
  · exact evictToFit_eq (t := { t with capacity }) hlen 0

end

variable {huffman : Bytes → Option Bytes} {d : QpackDecoder} {first : UInt8} {buf rest : Bytes}

theorem readQpackString_eq (hlen : buf.length ≤ usizeMax) :
    readQpackString huffman buf = some (Qpack.readQpackString huffman buf) := by
  rw [readQpackString, Qpack.readQpackString, qpackIntDecode_eq hlen]
  cases buf.head? with
  | none => rfl
  | some first =>
    cases hint : Qpack.qpackIntDecode buf 7 with
    | none => rfl
    | some r =>
      obtain ⟨len, n⟩ := r
      simp only [rangeFrom_of_le (qpackIntDecode_within hint).2, Option.bind_eq_bind,
        Option.bind_some, guard]
      by_cases hmax : len ≤ usizeMax
      · by_cases hfits : len ≤ (buf.drop n).length
        · rw [if_neg (not_lt.mpr hmax), if_neg (not_lt.mpr hfits), if_pos hmax,
            if_pos hfits, rangeFrom_of_le hfits]
          cases decodeQpackBytes huffman ((buf.drop n).take len) (first &&& 0x80 ≠ 0) <;> rfl
        · grind
      · rw [if_pos (not_le.mp hmax), if_neg hmax]
        rfl

section

variable (hd : d.table.entries.length ≤ d.table.insertCount)
include hd

theorem fromNewest_eq (idx : Nat) : fromNewest d idx = some (Qpack.fromNewest d idx) := by
  rw [fromNewest, Qpack.fromNewest]
  split
  · rfl
  · exact getAbsolute_eq hd _

theorem referredName_eq (idx : Nat) : referredName d first idx =
    some (if first &&& 0x40 ≠ 0 then (qpackStatic idx).map Prod.fst
      else (Qpack.fromNewest d idx).map DynEntry.name) := by
  rw [referredName, fromNewest_eq hd]
  split <;> rfl

section

variable (hlen : buf.length ≤ usizeMax)

include hlen

theorem applyInsert_eq {name value : String} {before : Nat}
    (hrest : before + rest.length ≤ buf.length) : applyInsert d name value buf rest before =
      some (Qpack.applyInsert d name value (buf.length - rest.length)) := by
  simp only [applyInsert, Qpack.applyInsert, insert_eq hd]
  obtain ⟨outcome, table⟩ := d.table.insert name value
  cases outcome with
  | error e => rfl
  | ok u => grind [subIn_of_le]

theorem insertWithNameReference_eq :
    insertWithNameReference huffman d first buf =
      some (Qpack.insertWithNameReference huffman d first buf) := by
  simp only [insertWithNameReference, Qpack.insertWithNameReference, qpackIntDecode_eq hlen,
    Option.bind_eq_bind, referredName_eq hd]
  cases hint : Qpack.qpackIntDecode buf 6 with
  | none => rfl
  | some r =>
    obtain ⟨idx, n⟩ := r
    have hn := (qpackIntDecode_within hint).2
    have hdrop : (buf.drop n).length ≤ usizeMax := by rw [length_drop]; omega
    simp only [if_neg (not_lt.mpr hn), readQpackString_eq hdrop, Option.bind_some]
    generalize (if first &&& 0x40 ≠ 0 then (qpackStatic idx).map Prod.fst
      else (Qpack.fromNewest d idx).map DynEntry.name) = name
    cases name with
    | none => rfl
    | some name =>
      cases hvalue : Qpack.readQpackString huffman (buf.drop n) with
      | none => rfl
      | some r =>
        have hrest := readQpackString_within hvalue
        rw [length_drop] at hrest
        exact applyInsert_eq hd hlen (by omega)

theorem setTableCapacity_eq :
    setTableCapacity d buf = some (Qpack.setTableCapacity d buf) := by
  simp only [setTableCapacity, Qpack.setTableCapacity, qpackIntDecode_eq hlen,
    Option.bind_eq_bind, Option.bind_some, setCapacity_eq hd]
  cases Qpack.qpackIntDecode buf 5 with
  | none => rfl
  | some r =>
    dsimp only
    split
    · rfl
    · obtain ⟨outcome, table⟩ := d.table.setCapacity r.1
      cases outcome <;> rfl

theorem duplicateEntry_eq :
    duplicateEntry d buf = some (Qpack.duplicateEntry d buf) := by
  simp only [duplicateEntry, Qpack.duplicateEntry, qpackIntDecode_eq hlen, Option.bind_eq_bind,
    fromNewest_eq hd, insert_eq hd, Qpack.applyInsert]
  cases Qpack.qpackIntDecode buf 5 with
  | none => rfl
  | some r => grind

end

/-- What is left of a verdict when a panic takes the program down. -/
def surviving : Verdict QpackDecoder FeedStop → Option (Verdict QpackDecoder FeedStop)
  | .fail _ .panic => none
  | v => some v

/-- The end of a name is the one addition that may overflow. -/
theorem insertWithLiteralName_eq (hlen : buf.length ≤ usizeMax) :
    insertWithLiteralName huffman d first buf =
      surviving (Qpack.insertWithLiteralName huffman d first buf) := by
  simp only [insertWithLiteralName, Qpack.insertWithLiteralName, qpackIntDecode_eq hlen,
    Option.bind_eq_bind, Option.bind_some]
  cases hint : Qpack.qpackIntDecode buf 5 with
  | none => rfl
  | some r =>
    obtain ⟨nlen, n1⟩ := r
    dsimp only
    by_cases hmax : usizeMax < nlen
    · rw [if_pos hmax, if_pos hmax]; rfl
    by_cases hsum : usizeMax < n1 + nlen
    · rw [if_neg hmax, if_neg hmax, addIn_of_lt hsum, if_pos hsum]; rfl
    rw [if_neg hmax, if_neg hmax, addIn_of_le (not_lt.mp hsum), if_neg hsum]
    dsimp only [Option.bind_some]
    by_cases hshort : buf.length < n1 + nlen
    · rw [if_pos hshort, if_pos hshort]; rfl
    have hend := not_lt.mp hshort
    have hdrop : (buf.drop (n1 + nlen)).length ≤ usizeMax := by rw [length_drop]; omega
    simp only [if_neg hshort, rangeOf_of_le (Nat.le_add_right n1 nlen) hend, Option.bind_some,
      rangeFrom_of_le hend, Nat.add_sub_cancel_left, readQpackString_eq hdrop]
    cases decodeQpackBytes huffman ((buf.drop n1).take nlen) (first &&& 0x20 ≠ 0) with
    | none => rfl
    | some name =>
      cases hvalue : Qpack.readQpackString huffman (buf.drop (n1 + nlen)) with
      | none => rfl
      | some r =>
        have hrest := readQpackString_within hvalue
        rw [length_drop] at hrest
        refine (applyInsert_eq hd hlen (by omega)).trans ?_
        dsimp only
        unfold Qpack.applyInsert
        split <;> rfl

end

end Checked

/-! ## What an instruction can do -/

/-- An Insert With Literal Name instruction whose name length is a `usize` while the end of
    the name is not. -/
def OverflowingName (buf : Bytes) : Prop :=
  ∃ first nlen n1, buf.head? = some first ∧ first &&& 0x80 = 0 ∧ first &&& 0x40 ≠ 0 ∧
    qpackIntDecode buf 5 = some (nlen, n1) ∧ nlen ≤ usizeMax ∧ usizeMax < n1 + nlen

/-- The verdicts on a buffer: more bytes are needed, the instruction is refused, it is a
    call on the table that succeeds or fails, or its name overflows. -/
inductive Outcome (d : QpackDecoder) (buf : Bytes) : Verdict QpackDecoder FeedStop → Prop
  | wait : Outcome d buf .wait
  | refused (e : QpackError) : Outcome d buf (.fail d (.error e))
  | applied {c : TableCall} {table : DynamicTable} (n : Nat)
      (h : d.table.call c = (.ok (), table)) : Outcome d buf (.take n { d with table })
  | failed {c : TableCall} {table : DynamicTable} {e : QpackError}
      (h : d.table.call c = (.error e, table)) :
      Outcome d buf (.fail { d with table } (.error e))
  | overflow (h : OverflowingName buf) : Outcome d buf (.fail d .panic)

section

variable {huffman : Bytes → Option Bytes} {d : QpackDecoder} {first : UInt8} {buf rest : Bytes}

theorem outcome_applyInsert (name value : String) (n : Nat) :
    Outcome d buf (applyInsert d name value n) := by
  unfold applyInsert
  split
  · next table h => exact .applied (c := .insert ⟨name, value⟩ none) n h
  · next e table h => exact .failed (c := .insert ⟨name, value⟩ none) h

theorem outcome_insertWithNameReference :
    Outcome d buf (insertWithNameReference huffman d first buf) := by
  unfold insertWithNameReference
  split
  · exact .wait
  · dsimp only
    split
    · exact .refused _
    · split
      · exact .wait
      · exact outcome_applyInsert ..

theorem outcome_insertWithLiteralName (h80 : first &&& 0x80 = 0) (h40 : first &&& 0x40 ≠ 0)
    (hhead : buf.head? = some first) :
    Outcome d buf (insertWithLiteralName huffman d first buf) := by
  unfold insertWithLiteralName
  split
  · exact .wait
  next nlen n1 hint =>
  split
  · exact .refused _
  next hmax =>
  split
  · next hsum => exact .overflow ⟨first, nlen, n1, hhead, h80, h40, hint, by omega, hsum⟩
  split
  · exact .wait
  split
  · exact .refused _
  split
  · exact .wait
  · exact outcome_applyInsert ..

theorem outcome_setTableCapacity : Outcome d buf (setTableCapacity d buf) := by
  unfold setTableCapacity
  split
  · exact .wait
  next cap n _ =>
  split
  · exact .refused _
  split
  · next table h => exact .applied (c := .setCapacity cap none) n h
  · next e table h => exact .failed (c := .setCapacity cap none) h

theorem outcome_duplicateEntry : Outcome d buf (duplicateEntry d buf) := by
  unfold duplicateEntry
  split
  · exact .wait
  · split
    · exact .refused _
    · exact outcome_applyInsert ..

variable (huffman) in
theorem outcome_encoderInstruction (d : QpackDecoder) (buf : Bytes) :
    Outcome d buf (encoderInstruction huffman d buf) := by
  cases buf with
  | nil => exact .wait
  | cons first buf =>
    simp only [encoderInstruction]
    split
    · exact outcome_insertWithNameReference
    next h80 =>
    split
    · next h40 => exact outcome_insertWithLiteralName (not_not.mp h80) h40 rfl
    split
    · exact outcome_setTableCapacity
    · exact outcome_duplicateEntry

theorem encoderInstruction_overflow (h : OverflowingName buf) :
    encoderInstruction huffman d buf = .fail d .panic := by
  obtain ⟨first, nlen, n1, hhead, h80, h40, hint, hmax, hsum⟩ := h
  cases buf with
  | nil => cases hhead
  | cons b buf =>
    cases hhead
    simp only [encoderInstruction, h80, ne_eq, not_true_eq_false, if_false, h40,
      not_false_eq_true, if_true, insertWithLiteralName, hint, if_neg (not_lt.mpr hmax),
      if_pos hsum]

end

/-! ## Inserts of the decoder -/

/-- Between two decoders: the maximum capacity stays, at most `n` inserts are added, and the
    entries stay within the inserts. -/
structure Grows (n : Nat) (d d' : QpackDecoder) : Prop where
  maxCapacity : d'.table.maxCapacity = d.table.maxCapacity
  ge : d.table.insertCount ≤ d'.table.insertCount
  le : d'.table.insertCount ≤ d.table.insertCount + n
  within : d.table.entries.length ≤ d.table.insertCount →
    d'.table.entries.length ≤ d'.table.insertCount

theorem Grows.refl (n : Nat) (d : QpackDecoder) : Grows n d d :=
  ⟨rfl, le_rfl, le_add_right _ _, id⟩

theorem Grows.trans {n m : Nat} {d d' d'' : QpackDecoder} (h : Grows n d d') (h' : Grows m d' d'') :
    Grows (n + m) d d'' := by
  have hge := h.ge
  have hle := h.le
  have hge' := h'.ge
  have hle' := h'.le
  exact ⟨h'.maxCapacity.trans h.maxCapacity, by omega, by omega, h'.within ∘ h.within⟩

theorem Grows.mono {n m : Nat} {d d' : QpackDecoder} (h : Grows n d d') (hnm : n ≤ m) :
    Grows m d d' :=
  { h with le := h.le.trans (Nat.add_le_add_left hnm _) }

theorem grows_of_evicts {d : QpackDecoder} {t table : DynamicTable} {ackFloor : Option Nat}
    (h : t.Evicts ackFloor table) (hmax : t.maxCapacity = d.table.maxCapacity)
    (hcount : t.insertCount = d.table.insertCount) (hentries : t.entries = d.table.entries) :
    Grows 0 d { d with table } := by
  have hcount : table.insertCount = d.table.insertCount := h.insertCount.trans hcount
  refine ⟨h.maxCapacity.trans hmax, hcount.ge, hcount.le, fun hlen => ?_⟩
  have hkept := h.suffix.length_le
  rw [hentries] at hkept
  rw [hcount]
  exact hkept.trans hlen

/-- A call adds one insert or none, whether it succeeds or fails. -/
theorem grows_of_call {d : QpackDecoder} {table : DynamicTable} {c : TableCall}
    {outcome : Except QpackError Unit} (h : d.table.call c = (outcome, table)) :
    Grows 1 d { d with table } := by
  cases c with
  | insert e ackFloor =>
    have hevict := d.table.evictToFit_evicts (entrySize e.name e.value) ackFloor
    simp only [call, insertWithAckFloor] at h
    split at h
    · cases h
      exact .refl 1 d
    · split at h
      · next heq =>
        rw [heq] at hevict
        cases h
        exact (grows_of_evicts hevict rfl rfl rfl).mono (zero_le 1)
      · next heq =>
        rw [heq] at hevict
        cases h
        have hgrows := grows_of_evicts hevict rfl rfl rfl
        exact ⟨hgrows.maxCapacity, le_succ_of_le hgrows.ge, succ_le_succ hgrows.le,
          fun hlen => by simpa using hgrows.within hlen⟩
  | setCapacity capacity ackFloor =>
    have hevict := evictToFit_evicts { d.table with capacity } 0 ackFloor
    simp only [call, setCapacityWithAckFloor] at h
    split at h
    · cases h
      exact .refl 1 d
    · rw [h] at hevict
      exact (grows_of_evicts hevict rfl rfl rfl).mono (zero_le 1)

section

variable {huffman : Bytes → Option Bytes} {d d' : QpackDecoder} {buf : Bytes}

theorem grows_of_take {n : Nat} (h : encoderInstruction huffman d buf = .take n d') :
    Grows 1 d d' := by
  have houtcome := outcome_encoderInstruction huffman d buf
  rw [h] at houtcome
  cases houtcome with
  | applied _ hcall => exact grows_of_call hcall

theorem grows_drainAll : Grows buf.length d (drainAll (encoderInstruction huffman) d buf).1 := by
  refine (settled_encoderInstruction huffman).drainAll_induction
    (motive := fun d buf r => Grows buf.length d r.1) ?_ ?_ ?_ d buf
  · exact fun d buf => .refl buf.length d
  · intro d buf d' e hne hfail
    have hpos := length_pos_iff.mpr hne
    have houtcome := outcome_encoderInstruction huffman d buf
    rw [hfail] at houtcome
    cases houtcome with
    | refused | overflow => exact .refl buf.length d
    | failed hcall => exact (grows_of_call hcall).mono (by omega)
  · intro d buf n d' r hpos hle htake hrest
    rw [length_drop] at hrest
    exact ((grows_of_take htake).trans hrest).mono (by omega)

theorem grows_feedEncoderStream {r : Except FeedStop Nat}
    (h : feedEncoderStream huffman d buf = (d', r)) : Grows buf.length d d' := by
  have hgrows := @grows_drainAll huffman d buf
  rw [feedEncoderStream_eq] at h
  rw [← (Prod.mk.inj h).1]
  exact hgrows

end

/-! ## Reachable decoders -/

/-- The decoders that a session goes through: a fresh one, and what calls make of one,
    whether they succeed or fail. -/
inductive QpackDecoder.Reachable (huffman : Bytes → Option Bytes) : QpackDecoder → Prop
  | new (settings : QpackLocalSettings) : Reachable huffman (.new settings)
  | feed {d : QpackDecoder} (h : Reachable huffman d) (data : Bytes) :
      Reachable huffman (feedEncoderStream huffman d data).1
  | note {d : QpackDecoder} (h : Reachable huffman d) (delta : Nat) :
      Reachable huffman (d.noteInsertCountIncrement delta)

theorem QpackDecoder.Reachable.length_le {huffman : Bytes → Option Bytes} {d : QpackDecoder}
    (h : d.Reachable huffman) : d.table.entries.length ≤ d.table.insertCount := by
  induction h with
  | new settings => exact le_refl 0
  | feed _ data ih => exact (grows_feedEncoderStream rfl).within ih
  | note _ delta ih => exact ih

/-! ## The whole call -/

namespace Checked

variable {huffman : Bytes → Option Bytes} {d : QpackDecoder} {buf : Bytes}

theorem surviving_of_outcome {v : Verdict QpackDecoder FeedStop} (h : Outcome d buf v)
    (hname : ¬ OverflowingName buf) : surviving v = some v := by
  cases h with
  | wait => rfl
  | refused => rfl
  | applied => rfl
  | failed => rfl
  | overflow h => exact absurd h hname

theorem encoderInstruction_eq (hd : d.table.entries.length ≤ d.table.insertCount)
    (hlen : buf.length ≤ usizeMax) :
    encoderInstruction huffman d buf = surviving (Qpack.encoderInstruction huffman d buf) := by
  cases buf with
  | nil => rfl
  | cons first buf =>
    simp only [encoderInstruction, Qpack.encoderInstruction]
    split
    · next h80 =>
      rw [insertWithNameReference_eq hd hlen, surviving_of_outcome outcome_insertWithNameReference]
      rintro ⟨_, _, _, hhead, hclear, -⟩
      cases hhead
      exact h80 hclear
    split
    · exact insertWithLiteralName_eq hd hlen
    next h40 =>
    have hname : ¬ OverflowingName (first :: buf) := by
      rintro ⟨_, _, _, hhead, -, hset, -⟩
      cases hhead
      exact h40 hset
    split
    · rw [setTableCapacity_eq hd hlen, surviving_of_outcome outcome_setTableCapacity hname]
    · rw [duplicateEntry_eq hd hlen, surviving_of_outcome outcome_duplicateEntry hname]

/-- What a call returns, given what the loop comes to. -/
def returned (data : Bytes) :
    QpackDecoder × Except FeedStop Bytes → Option (QpackDecoder × Except QpackError Nat)
  | (d, .ok rest) => some (d, .ok (data.length - rest.length))
  | (d, .error (.error e)) => some (d, .error e)
  | (_, .error .panic) => none

/-- The loop with its offset is the drain of what lies behind the offset. -/
theorem feedLoop_eq {data : Bytes} (hlen : data.length ≤ usizeMax) {fuel offset : Nat}
    (hd : d.table.entries.length ≤ d.table.insertCount) (hoffset : offset ≤ data.length)
    (hfuel : data.length ≤ offset + fuel) : feedLoop huffman data fuel d offset =
      returned data (drainAll (Qpack.encoderInstruction huffman) d (data.drop offset)) := by
  induction fuel generalizing d offset with
  | zero =>
    obtain rfl : offset = data.length := by omega
    rw [drop_length, drainAll_nil, feedLoop, returned, length_nil, Nat.sub_zero]
  | succ fuel ih =>
    rw [feedLoop]
    split
    · next hlt =>
      have hne : data.drop offset ≠ [] := by
        rw [ne_eq, drop_eq_nil_iff]
        omega
      have hshort : (data.drop offset).length ≤ usizeMax := by rw [length_drop]; omega
      simp only [rangeFrom_of_le hoffset, Option.bind_eq_bind, Option.bind_some,
        encoderInstruction_eq hd hshort]
      have hwait : data.length - (data.drop offset).length = offset := by
        rw [length_drop]
        omega
      cases hverdict : Qpack.encoderInstruction huffman d (data.drop offset) with
      | wait =>
        rw [drainAll_wait hverdict, returned, hwait]
        rfl
      | fail d' e =>
        rw [drainAll_fail hne hverdict]
        cases e <;> rfl
      | take n d' =>
        -- the round is over, and the next one starts behind what it consumed
        obtain ⟨hpos, hle⟩ := (settled_encoderInstruction huffman).within _ _ _ _ hverdict
        rw [length_drop] at hle
        rw [(settled_encoderInstruction huffman).drainAll_take hverdict, drop_drop]
        simp only [surviving, Option.bind_some, addIn_of_le (show offset + n ≤ usizeMax by omega)]
        exact ih ((grows_of_take hverdict).within hd) (by omega) (by omega)
    · obtain rfl : offset = data.length := by omega
      rw [drop_length, drainAll_nil, returned, length_nil, Nat.sub_zero]

end Checked

/-- The rounds of the loop up to one of them: the decoder and the rest it finds. -/
inductive Reaches (huffman : Bytes → Option Bytes) :
    QpackDecoder → Bytes → QpackDecoder → Bytes → Prop
  | here (d : QpackDecoder) (buf : Bytes) : Reaches huffman d buf d buf
  | next {d d' d'' : QpackDecoder} {buf rest : Bytes} {n : Nat}
      (round : encoderInstruction huffman d buf = .take n d')
      (rounds : Reaches huffman d' (buf.drop n) d'' rest) : Reaches huffman d buf d'' rest

section

variable {huffman : Bytes → Option Bytes} {d : QpackDecoder} {buf data : Bytes}

/-- The loop panics where it reaches a name that overflows. -/
theorem drainAll_panic_iff : (drainAll (encoderInstruction huffman) d buf).2 = .error .panic ↔
      ∃ d' rest, Reaches huffman d buf d' rest ∧ OverflowingName rest := by
  constructor
  · refine (settled_encoderInstruction huffman).drainAll_induction
      (motive := fun d buf r => r.2 = .error .panic →
        ∃ d' rest, Reaches huffman d buf d' rest ∧ OverflowingName rest) ?_ ?_ ?_ d buf
    · rintro d buf ⟨⟩
    · rintro d buf d' e - hfail ⟨⟩
      have houtcome := outcome_encoderInstruction huffman d buf
      rw [hfail] at houtcome
      cases houtcome with
      | overflow hname => exact ⟨d, buf, .here d buf, hname⟩
    · intro d buf n d' r _ _ htake ih h
      obtain ⟨d'', rest, hreach, hname⟩ := ih h
      exact ⟨d'', rest, .next htake hreach, hname⟩
  · rintro ⟨d', rest, hreach, hname⟩
    induction hreach with
    | here d buf =>
      have hne : buf ≠ [] := by
        rintro rfl
        obtain ⟨_, _, _, hhead, -⟩ := hname
        cases hhead
      rw [drainAll_fail hne (encoderInstruction_overflow hname)]
    | next round _ ih =>
      rw [(settled_encoderInstruction huffman).drainAll_take round]
      exact ih hname

/-- On a reachable decoder and any slice, `feed_encoder_stream` returns, with an error or
    with a number of bytes of the slice, exactly when no round of its loop finds a name
    that overflows. -/
theorem panic_free_iff (hd : d.Reachable huffman) (hlen : data.length ≤ usizeMax) :
    (∃ d' outcome, Checked.feedEncoderStream huffman d data = some (d', outcome) ∧
        ∀ n, outcome = .ok n → n ≤ data.length) ↔
      ∀ d' rest, Reaches huffman d data d' rest → ¬ OverflowingName rest := by
  have hloop : Checked.feedEncoderStream huffman d data = _ :=
    Checked.feedLoop_eq hlen hd.length_le (zero_le _) (le_add_left _ _)
  rw [drop_zero] at hloop
  constructor
  · rintro ⟨d', outcome, hreturns, -⟩ e rest hreach hname
    have hpanic := drainAll_panic_iff.mpr ⟨e, rest, hreach, hname⟩
    rw [hloop] at hreturns
    cases hdrain : drainAll (encoderInstruction huffman) d data with
    | mk s stop =>
      rw [hdrain] at hreturns hpanic
      obtain rfl : stop = .error .panic := hpanic
      cases hreturns
  · intro hnever
    rw [hloop]
    cases hdrain : drainAll (encoderInstruction huffman) d data with
    | mk s stop =>
      cases stop with
      | ok rest => exact ⟨s, _, rfl, fun n hn => by cases hn; exact sub_le _ _⟩
      | error e =>
        cases e with
        | error e => exact ⟨s, _, rfl, fun n hn => by cases hn⟩
        | panic =>
          obtain ⟨e, rest, hreach, hname⟩ :=
            drainAll_panic_iff.mp (congrArg Prod.snd hdrain)
          exact absurd hname (hnever e rest hreach)

/-- A capacity, then a short name and value. -/
theorem panic_free_iff_insert :
    (Checked.feedEncoderStream (fun _ => none) (.new {})
      [0x3f, 0x45, 0x41, 0x61, 0x01, 0x31]).map (·.2) = some (.ok 6) ∧
    ∀ d' rest, Reaches (fun _ => none) (.new {}) [0x3f, 0x45, 0x41, 0x61, 0x01, 0x31] d' rest →
      ¬ OverflowingName rest := by
  have hreturns : (Checked.feedEncoderStream (fun _ => none) (.new {})
      [0x3f, 0x45, 0x41, 0x61, 0x01, 0x31]).map (·.2) = some (.ok 6) := by decide +kernel
  refine ⟨hreturns, (panic_free_iff (.new {}) (by decide)).mp ?_⟩
  obtain ⟨⟨d', outcome⟩, hsome, rfl⟩ := Option.map_eq_some_iff.mp hreturns
  exact ⟨d', _, hsome, fun n hn => by cases hn; decide⟩

/-- Six bytes on a fresh decoder: a name of `u32::MAX` bytes is announced. -/
theorem literal_name_panics :
    Checked.feedEncoderStream (fun _ => none) (.new {}) [0x5f, 0xe0, 0xff, 0xff, 0xff, 0x0f] =
      none := by
  decide

end

end WebTransportBun.Wasm.Qpack
