/-
  Library.Framing

  Incremental parsing of a byte stream that carries self-delimiting items.  A parser
  looks at the front of a buffer and answers with a `Verdict`: the item there is still
  incomplete, it is malformed, or so many bytes are consumed and the state changes.
  `drain` repeats it until the buffer is used up or the parser waits.

  `Reads` says that a parser understands an encoding: it takes every complete item and
  waits on every cut-off beginning of one.  Then any way of cutting the stream into
  chunks gives the same items in the same order (`Reads.drain_chunk`): what is parsed
  is always the items complete so far, and what stays behind is a piece of the next.

  A parser need not know an encoding for that: when its decisions stand however the buffer
  goes on (`Settled`), feeding a stream in chunks, each behind what the one before left
  over, does what feeding it whole does (`Settled.drainChunks_eq`).

  `Splits` is the same without a parser, for items known by a predicate: when no item is a
  beginning of another, a list splits into items and a rest in one way only
  (`Splits.unique`).
-/

import Mathlib.Data.List.Basic

namespace Library

open List

/-- What a parser says about the front of a buffer. -/
inductive Verdict (S E : Type*)
  | wait
  | fail (s : S) (e : E)
  | take (n : Nat) (s : S)

/-- Parse items off the front until the buffer is empty, an item is incomplete or one
    is malformed.  The second component is what is left, or the error. -/
def drain {S E B : Type*} (parse : S → List B → Verdict S E) :
    Nat → S → List B → S × Except E (List B)
  | _, s, [] => (s, .ok [])
  | 0, s, buf => (s, .ok buf)
  | fuel + 1, s, buf =>
    match parse s buf with
    | .wait => (s, .ok buf)
    | .fail s' e => (s', .error e)
    | .take n s' => drain parse fuel s' (buf.drop n)

/-- `p` is a beginning of `l`, but not all of it. -/
def Cut {B : Type*} (p l : List B) : Prop := p <+: l ∧ p ≠ l

theorem cut_append {B : Type*} {p a b : List B} (h : Cut p (a ++ b)) :
    Cut p a ∨ ∃ q, p = a ++ q ∧ Cut q b := by
  obtain ⟨hpre, hne⟩ := h
  have ha : a <+: a ++ b := prefix_append a b
  rcases Nat.lt_or_ge p.length a.length with hlen | hlen
  · left
    refine ⟨prefix_of_prefix_length_le hpre ha (Nat.le_of_lt hlen), ?_⟩
    rintro rfl
    exact absurd hlen (Nat.lt_irrefl _)
  · right
    obtain ⟨q, rfl⟩ := prefix_of_prefix_length_le ha hpre hlen
    refine ⟨q, rfl, (prefix_append_right_inj _).mp hpre, ?_⟩
    rintro rfl
    exact hne rfl

theorem Cut.length_lt {B : Type*} {p l : List B} (h : Cut p l) : p.length < l.length :=
  Nat.lt_of_le_of_ne h.1.length_le fun heq => h.2 (h.1.eq_of_length heq)

/-- The parser understands the encoding: on a state that admits the item it takes the
    item and moves to `apply`; on an item that is cut off it waits. -/
structure Reads {S E B I : Type*} (parse : S → List B → Verdict S E) (encode : I → List B)
    (admits : S → I → Prop) (apply : S → I → S) : Prop where
  take : ∀ s i rest, admits s i →
    parse s (encode i ++ rest) = .take (encode i).length (apply s i)
  wait : ∀ s i p, admits s i → p ≠ [] → Cut p (encode i) → parse s p = .wait
  nonempty : ∀ i, encode i ≠ []

section

variable {S E B I : Type*} {parse : S → List B → Verdict S E} {encode : I → List B}
variable {admits : S → I → Prop} {apply : S → I → S}

def encodeAll (encode : I → List B) (is : List I) : List B := (is.map encode).flatten

@[simp] theorem encodeAll_nil : encodeAll encode ([] : List I) = [] := rfl

@[simp] theorem encodeAll_cons (i : I) (is : List I) :
    encodeAll encode (i :: is) = encode i ++ encodeAll encode is := rfl

@[simp] theorem encodeAll_append (is js : List I) :
    encodeAll encode (is ++ js) = encodeAll encode is ++ encodeAll encode js := by
  simp [encodeAll]

/-- Every item is admitted in the state its predecessors lead to. -/
def AdmitsAll (admits : S → I → Prop) (apply : S → I → S) : S → List I → Prop
  | _, [] => True
  | s, i :: is => admits s i ∧ AdmitsAll admits apply (apply s i) is

/-- The buffer holds nothing of the items but, at most, a cut-off beginning of the first. -/
def Held (encode : I → List B) (buf : List B) (is : List I) : Prop :=
  buf = [] ∨ ∃ i rest, is = i :: rest ∧ Cut buf (encode i)

variable {is : List I} {buf : List B}

theorem Held.isBeginning (h : Held encode buf is) :
    buf <+: encodeAll encode is := by
  rcases h with rfl | ⟨i, rest, rfl, hcut⟩
  · exact nil_prefix
  · rw [encodeAll_cons]
    exact hcut.1.trans (prefix_append _ _)

theorem Held.append (h : Held encode buf is) (js : List I) :
    Held encode buf (is ++ js) := by
  rcases h with rfl | ⟨i, rest, rfl, hcut⟩
  · exact .inl rfl
  · exact .inr ⟨i, rest ++ js, rfl, hcut⟩

variable {s : S}

theorem admitsAll_append {js : List I} : AdmitsAll admits apply s (is ++ js) ↔
      AdmitsAll admits apply s is ∧ AdmitsAll admits apply (is.foldl apply s) js := by
  induction is generalizing s with
  | nil => simp [AdmitsAll]
  | cons i is ih =>
    simp only [cons_append, AdmitsAll, foldl_cons, ih, and_assoc]

/-- A beginning of an encoded sequence consists of whole items and a cut-off beginning of
    the next one. -/
theorem exists_whole_items (h : buf <+: encodeAll encode is) :
    ∃ done rest p, is = done ++ rest ∧ buf = encodeAll encode done ++ p ∧ Held encode p rest := by
  induction is generalizing buf with
  | nil =>
    rw [encodeAll_nil, prefix_nil] at h
    exact ⟨[], [], [], rfl, h, .inl rfl⟩
  | cons i is ih =>
    have hitem : encode i <+: encode i ++ encodeAll encode is := prefix_append _ _
    rcases Nat.le_total buf.length (encode i).length with hlen | hlen
    · have hpart : buf <+: encode i := prefix_of_prefix_length_le h hitem hlen
      by_cases hall : buf = encode i
      · refine ⟨[i], is, [], rfl, ?_, .inl rfl⟩
        simp [hall]
      · exact ⟨[], i :: is, buf, rfl, rfl, .inr ⟨i, is, rfl, hpart, hall⟩⟩
    · obtain ⟨buf', rfl⟩ := prefix_of_prefix_length_le hitem h hlen
      obtain ⟨done, rest, p, rfl, rfl, hp⟩ := ih ((prefix_append_right_inj _).mp h)
      refine ⟨i :: done, rest, p, rfl, ?_, hp⟩
      simp

namespace Reads

variable (hreads : Reads parse encode admits apply)
include hreads

theorem length_le_encodeAll (is : List I) : is.length ≤ (encodeAll encode is).length := by
  induction is with
  | nil => simp
  | cons i is ih =>
    have hpos : 0 < (encode i).length := length_pos_iff.mpr (hreads.nonempty i)
    rw [encodeAll_cons, length_append, length_cons]
    omega

variable {is : List I}

theorem drain_items (p : List B) (fuel : Nat)
    (hadm : AdmitsAll admits apply s is) :
    drain parse (is.length + fuel) s (encodeAll encode is ++ p) =
      drain parse fuel (is.foldl apply s) p := by
  induction is generalizing s with
  | nil => simp
  | cons i is ih =>
    have hpos := hreads.nonempty i
    have hne : encode i ++ (encodeAll encode is ++ p) ≠ [] := by simp [hpos]
    rw [encodeAll_cons, append_assoc, length_cons, Nat.succ_add,
      drain.eq_3 _ _ _ _ hne, hreads.take s i _ hadm.1]
    simp only [drop_left]
    exact ih hadm.2

variable {fuel : Nat}

theorem drain_part {p : List B}
    (hp : p = [] ∨ ∃ i, admits s i ∧ Cut p (encode i)) : drain parse fuel s p = (s, .ok p) := by
  by_cases hnil : p = []
  · subst hnil
    cases fuel <;> rfl
  · rcases hp with rfl | ⟨i, hadm, hpart⟩
    · exact absurd rfl hnil
    · cases fuel with
      | zero => cases p with
        | nil => exact absurd rfl hnil
        | cons b p => rfl
      | succ fuel => rw [drain.eq_3 _ _ _ _ hnil, hreads.wait s i p hadm hnil hpart]

/-- Any beginning of the encoded items: the complete ones are applied, in order, and a
    cut-off beginning of the next one stays in the buffer. -/
theorem drain_chunk
    (hadm : AdmitsAll admits apply s is) (hbuf : buf <+: encodeAll encode is)
    (hfuel : buf.length ≤ fuel) :
    ∃ done rest p, is = done ++ rest ∧ buf = encodeAll encode done ++ p ∧
      drain parse fuel s buf = (done.foldl apply s, .ok p) ∧ Held encode p rest := by
  obtain ⟨done, rest, p, rfl, rfl, hp⟩ := exists_whole_items hbuf
  obtain ⟨hdone, hrest⟩ := admitsAll_append.mp hadm
  refine ⟨done, rest, p, rfl, rfl, ?_, hp⟩
  obtain ⟨extra, rfl⟩ : ∃ extra, fuel = done.length + extra := by
    have hlen := hreads.length_le_encodeAll done
    rw [length_append] at hfuel
    exact Nat.exists_eq_add_of_le (by omega)
  rw [hreads.drain_items p extra hdone]
  apply hreads.drain_part
  rcases hp with hnil | ⟨i, rest', rfl, hpart⟩
  · exact .inl hnil
  · exact .inr ⟨i, hrest.1, hpart⟩

/-- A delivery of `n` bytes behind those held back: whole items are taken, and a cut-off
    beginning of the next one is held back again. -/
theorem drain_delivery {rx stream : List B}
    (hadm : AdmitsAll admits apply s is) (hall : rx ++ stream = encodeAll encode is) (n : Nat) :
    ∃ done rest p, is = done ++ rest ∧ rx ++ stream.take n = encodeAll encode done ++ p ∧
      p ++ stream.drop n = encodeAll encode rest ∧ Held encode p rest ∧
      drain parse (encodeAll encode done ++ p).length s (encodeAll encode done ++ p) =
        (done.foldl apply s, .ok p) := by
  have hsplit : (rx ++ stream.take n) ++ stream.drop n = encodeAll encode is := by
    rw [append_assoc, take_append_drop, hall]
  obtain ⟨done, rest, p, rfl, hcut, hdrain, hheld⟩ :=
    hreads.drain_chunk hadm ⟨_, hsplit⟩ (Nat.le_refl _)
  rw [hcut] at hdrain hsplit
  rw [append_assoc, encodeAll_append] at hsplit
  exact ⟨done, rest, p, rfl, hcut, append_cancel_left hsplit, hheld, hdrain⟩

end Reads

end

/-! ## Chunks -/

section

variable {S E B : Type*} {parse : S → List B → Verdict S E} {s s' : S} {buf rest : List B} {e : E}

/-- The whole of a drain: the buffer has at most as many items as bytes. -/
def drainAll (parse : S → List B → Verdict S E) (s : S) (buf : List B) : S × Except E (List B) :=
  drain parse buf.length s buf

/-- Feed a stream in chunks, each behind what the one before left over. -/
def drainChunks (parse : S → List B → Verdict S E) :
    S → List B → List (List B) → S × Except E (List B)
  | s, held, [] => (s, .ok held)
  | s, held, chunk :: chunks =>
    match drainAll parse s (held ++ chunk) with
    | (s, .ok rest) => drainChunks parse s rest chunks
    | (s, .error e) => (s, .error e)

/-- What the parser decides about a buffer stands however the buffer goes on, and an item
    takes bytes of the buffer, at least one. -/
structure Settled (parse : S → List B → Verdict S E) : Prop where
  stands : ∀ s buf more, parse s buf = .wait ∨ parse s (buf ++ more) = parse s buf
  within : ∀ s buf n s', parse s buf = .take n s' → 0 < n ∧ n ≤ buf.length

@[simp] theorem drainAll_nil (parse : S → List B → Verdict S E) (s : S) :
    drainAll parse s [] = (s, .ok []) := rfl

theorem drainAll_wait (h : parse s buf = .wait) : drainAll parse s buf = (s, .ok buf) := by
  cases buf with
  | nil => rfl
  | cons b buf =>
    rw [drainAll, length_cons, drain.eq_3 _ _ _ _ (cons_ne_nil _ _), h]

theorem drainAll_fail (hne : buf ≠ []) (h : parse s buf = .fail s' e) :
    drainAll parse s buf = (s', .error e) := by
  cases buf with
  | nil => exact absurd rfl hne
  | cons b buf =>
    rw [drainAll, length_cons, drain.eq_3 _ _ _ _ hne, h]

namespace Settled

variable (hparse : Settled parse)
include hparse

theorem decided {v : Verdict S E} (h : parse s buf = v) (hv : v ≠ .wait) (more : List B) :
    parse s (buf ++ more) = v :=
  ((hparse.stands s buf more).resolve_left (h ▸ hv)).trans h

/-- More fuel than bytes changes nothing. -/
theorem drain_fuel (hfuel : buf.length ≤ fuel) :
    drain parse fuel s buf = drainAll parse s buf := by
  unfold drainAll
  generalize hlen : buf.length = len
  rw [hlen] at hfuel
  induction len using Nat.strongRecOn generalizing fuel s buf with
  | ind len ih =>
    cases buf with
    | nil => subst hlen; cases fuel <;> rfl
    | cons b buf =>
      obtain ⟨fuel, rfl⟩ : ∃ k, fuel = k + 1 :=
        Nat.exists_eq_add_of_le' (by rw [length_cons] at hlen; omega)
      obtain ⟨len, rfl⟩ : ∃ k, len = k + 1 :=
        Nat.exists_eq_add_of_le' (by rw [length_cons] at hlen; omega)
      rw [drain.eq_3 _ _ _ _ (cons_ne_nil _ _), drain.eq_3 _ _ _ _ (cons_ne_nil _ _)]
      cases hverdict : parse s (b :: buf) with
      | wait => rfl
      | fail s' e => rfl
      | take n s' =>
        -- the item is off the buffer, so both fuels suffice for what is left
        obtain ⟨hpos, hle⟩ := hparse.within _ _ _ _ hverdict
        have hshort : ((b :: buf).drop n).length < len + 1 := by
          rw [length_drop]
          omega
        have hbig : drain parse fuel s' ((b :: buf).drop n) = _ :=
          ih _ hshort (by omega) rfl
        have hsmall : drain parse len s' ((b :: buf).drop n) = _ :=
          ih _ hshort (by omega) rfl
        exact hbig.trans hsmall.symm

theorem drainAll_take {n : Nat} (h : parse s buf = .take n s') :
    drainAll parse s buf = drainAll parse s' (buf.drop n) := by
  obtain ⟨hpos, hle⟩ := hparse.within _ _ _ _ h
  cases buf with
  | nil => rw [length_nil] at hle; omega
  | cons b buf =>
    rw [drainAll, length_cons, drain.eq_3 _ _ _ _ (cons_ne_nil _ _), h]
    apply hparse.drain_fuel
    rw [length_drop, length_cons]
    omega

/-- Induction over the rounds of a drain, with what it comes to. -/
theorem drainAll_induction {motive : S → List B → S × Except E (List B) → Prop}
    (wait : ∀ s buf, motive s buf (s, .ok buf))
    (fail : ∀ s buf s' e, buf ≠ [] → parse s buf = .fail s' e → motive s buf (s', .error e))
    (take : ∀ s buf n s' r, 0 < n → n ≤ buf.length → parse s buf = .take n s' →
      motive s' (buf.drop n) r → motive s buf r)
    (s : S) (buf : List B) : motive s buf (drainAll parse s buf) := by
  generalize hlen : buf.length = len
  induction len using Nat.strongRecOn generalizing s buf with
  | ind len ih =>
    cases hverdict : parse s buf with
    | wait =>
      rw [drainAll_wait hverdict]
      exact wait s buf
    | fail s' e =>
      by_cases hne : buf = []
      · subst hne
        exact wait s []
      · rw [drainAll_fail hne hverdict]
        exact fail s buf s' e hne hverdict
    | take n s' =>
      obtain ⟨hpos, hle⟩ := hparse.within _ _ _ _ hverdict
      rw [hparse.drainAll_take hverdict]
      exact take s buf n s' _ hpos hle hverdict
        (ih (buf.drop n).length (by rw [length_drop]; omega) s' _ rfl)

/-- A drain of a buffer that goes on: the items and the error of the buffer come first. -/
theorem drainAll_append (more : List B) :
    drainAll parse s (buf ++ more) =
      match drainAll parse s buf with
      | (s', .ok rest) => drainAll parse s' (rest ++ more)
      | (s', .error e) => (s', .error e) := by
  refine hparse.drainAll_induction (motive := fun s buf r => drainAll parse s (buf ++ more) =
    match r with
    | (s', .ok rest) => drainAll parse s' (rest ++ more)
    | (s', .error e) => (s', .error e)) ?_ ?_ ?_ s buf
  · exact fun s buf => rfl
  · intro s buf s' e hne hverdict
    exact drainAll_fail (by simp [hne]) (hparse.decided hverdict nofun more)
  · intro s buf n s' r _ hle hverdict ih
    rw [hparse.drainAll_take (hparse.decided hverdict nofun more), drop_append_of_le_length hle]
    exact ih

section

variable (h : drainAll parse s buf = (s', .ok rest))

include h

theorem drainAll_rest :
    drainAll parse s' rest = (s', .ok rest) := by
  have happend : drainAll parse s (buf ++ []) = _ := hparse.drainAll_append []
  rw [append_nil, h] at happend
  simpa using happend.symm

theorem drainAll_suffix : rest <:+ buf := by
  refine hparse.drainAll_induction (motive := fun _ buf r => r.2 = .ok rest → rest <:+ buf)
    ?_ ?_ ?_ s buf (by rw [h])
  · rintro s buf ⟨⟩
    exact suffix_rfl
  · rintro s buf s' e - - ⟨⟩
  · exact fun s buf n s' r _ _ _ ih hr => (ih hr).trans (drop_suffix n buf)

end

theorem wait_of_drainAll (hne : buf ≠ []) (h : drainAll parse s buf = (s', .ok buf)) :
    parse s buf = .wait := by
  cases hverdict : parse s buf with
  | wait => rfl
  | fail t e =>
    rw [drainAll_fail hne hverdict] at h
    cases h
  | take n t =>
    obtain ⟨hpos, hle⟩ := hparse.within _ _ _ _ hverdict
    rw [hparse.drainAll_take hverdict] at h
    have hlen := (hparse.drainAll_suffix h).length_le
    rw [length_drop] at hlen
    omega

/-- However a stream is cut into chunks, the result is that of the whole stream. -/
theorem drainChunks_eq {held : List B} (hheld : drainAll parse s held = (s, .ok held))
    (chunks : List (List B)) :
    drainChunks parse s held chunks = drainAll parse s (held ++ chunks.flatten) := by
  induction chunks generalizing s held with
  | nil => rw [flatten_nil, append_nil, hheld, drainChunks]
  | cons chunk chunks ih =>
    rw [flatten_cons, ← append_assoc, hparse.drainAll_append, drainChunks]
    cases hdrain : drainAll parse s (held ++ chunk) with
    | mk s' outcome =>
      cases outcome with
      | error e => rfl
      | ok rest => exact ih (hparse.drainAll_rest hdrain)

end Settled

end

/-! ## Splitting into items -/

section

variable {B : Type*} {item : List B → Prop} {l rest : List B} {items : List (List B)}

/-- The list is the items, one after the other, and then the rest. -/
structure Splits (item : List B → Prop) (l : List B) (items : List (List B)) (rest : List B) :
    Prop where
  eq : l = items.flatten ++ rest
  all : ∀ i ∈ items, item i

theorem Splits.nil (item : List B → Prop) (l : List B) : Splits item l [] l :=
  ⟨rfl, by simp⟩

theorem Splits.trans {items' : List (List B)} {rest' : List B} (h : Splits item l items rest)
    (h' : Splits item rest items' rest') : Splits item l (items ++ items') rest' :=
  ⟨by rw [h.eq, h'.eq, flatten_append, append_assoc],
    forall_mem_append.mpr ⟨h.all, h'.all⟩⟩

theorem Splits.append (h : Splits item l items rest) (more : List B) :
    Splits item (l ++ more) items (rest ++ more) :=
  ⟨by rw [h.eq, append_assoc], h.all⟩

/-- When no item is a beginning of another one, the items in front of a rest that does not
    begin with an item are determined. -/
theorem Splits.unique {items' : List (List B)} {rest' : List B}
    (hfree : ∀ i j, item i → item j → i <+: j → i = j) (h : Splits item l items rest)
    (h' : Splits item l items' rest') (hend : ∀ i, item i → ¬ i <+: rest)
    (hend' : ∀ i, item i → ¬ i <+: rest') : items = items' ∧ rest = rest' := by
  induction items generalizing l items' with
  | nil =>
    cases items' with
    | nil => exact ⟨rfl, by simpa [h.eq] using h'.eq⟩
    | cons j items' =>
      -- The first item of the other side is a beginning of the rest.
      have hj : j <+: rest := ⟨items'.flatten ++ rest', by simpa [h.eq] using h'.eq.symm⟩
      exact absurd hj (hend j (h'.all j mem_cons_self))
  | cons i items ih =>
    have hi := h.all i mem_cons_self
    cases items' with
    | nil =>
      have hi' : i <+: rest' := ⟨items.flatten ++ rest, by simpa [h.eq] using h'.eq⟩
      exact absurd hi' (hend' i hi)
    | cons j items' =>
      have hj := h'.all j mem_cons_self
      have hil : i <+: l := ⟨items.flatten ++ rest, by simp [h.eq]⟩
      have hjl : j <+: l := ⟨items'.flatten ++ rest', by simp [h'.eq]⟩
      obtain rfl : i = j := by
        rcases prefix_or_prefix_of_prefix hil hjl with hpre | hpre
        · exact hfree i j hi hj hpre
        · exact (hfree j i hj hi hpre).symm
      obtain ⟨tail, rfl⟩ := hil
      have hone : Splits item tail items rest :=
        ⟨by simpa using h.eq, fun k hk =>
          h.all k (mem_cons_of_mem _ hk)⟩
      have hother : Splits item tail items' rest' :=
        ⟨by simpa using h'.eq, fun k hk =>
          h'.all k (mem_cons_of_mem _ hk)⟩
      obtain ⟨rfl, rfl⟩ := ih hone hother
      exact ⟨rfl, rfl⟩

end

end Library
