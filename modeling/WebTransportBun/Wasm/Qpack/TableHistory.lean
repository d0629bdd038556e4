/-
  WebTransportBun.Wasm.Qpack.TableHistory

  The dynamic table over whole sequences of calls.  `insert_with_ack_floor` and
  `set_capacity_with_ack_floor` (the plain `insert` and `set_capacity` are the same calls
  without a floor) are the labels of a run; the history of a run is the list of the
  pairs it inserted.

  With a maximum below `usize::MAX` the saturating sums are exact (`bridge.rs` caps it at 65536),
  and the table is then the newest part of its history that evictions have left
  (`table_is_recent_history`).  A call that fails may have evicted already, or have written the
  new capacity: `failed_call_changes` says what is left as it was and when that is everything.
-/

import WebTransportBun.Wasm.Qpack.Table
import WebTransportBun.Library.Run

namespace WebTransportBun.Wasm.Qpack

open Library List Nat

inductive TableCall
  | insert (e : DynEntry) (ackFloor : Option Nat)
  | setCapacity (capacity : Nat) (ackFloor : Option Nat)
  deriving DecidableEq, Repr

namespace TableCall

def ackFloor : TableCall → Option Nat
  | insert _ ackFloor => ackFloor
  | setCapacity _ ackFloor => ackFloor

def inserted : TableCall → List DynEntry
  | insert e _ => [e]
  | setCapacity _ _ => []

end TableCall

/-- The pairs inserted by a sequence of successful calls, oldest first. -/
def history (calls : List TableCall) : List DynEntry := calls.flatMap TableCall.inserted

/-- Name length, value length and 32, without saturation. -/
def DynEntry.footprint (e : DynEntry) : Nat :=
  (strBytes e.name).length + (strBytes e.value).length + 32

def footprint (es : List DynEntry) : Nat := (es.map DynEntry.footprint).sum

@[simp] theorem footprint_nil : footprint [] = 0 := rfl

@[simp] theorem footprint_cons (e : DynEntry) (es : List DynEntry) :
    footprint (e :: es) = e.footprint + footprint es := rfl

@[simp] theorem footprint_append (es fs : List DynEntry) :
    footprint (es ++ fs) = footprint es + footprint fs := by
  simp [footprint]

namespace DynamicTable

def call (t : DynamicTable) : TableCall → Except QpackError Unit × DynamicTable
  | .insert e ackFloor => t.insertWithAckFloor e.name e.value ackFloor
  | .setCapacity capacity ackFloor => t.setCapacityWithAckFloor capacity ackFloor

variable {e : DynEntry}

theorem entrySize_eq (h : entrySize e.name e.value < usizeMax) :
    entrySize e.name e.value = e.footprint := by
  simp only [entrySize, saturatingAdd, DynEntry.footprint] at h ⊢
  omega

/-! ## What an eviction takes -/

/-- The sizes are the footprints of what is retained. -/
structure Counted (t : DynamicTable) : Prop where
  size : t.size = footprint t.entries
  plain : ∀ e ∈ t.entries, entrySize e.name e.value = e.footprint

/-- The entries that an eviction takes, each of which would overrun the capacity together
    with the additional bytes and the entries behind it. -/
structure Makes (t : DynamicTable) (additional : Nat) (t' : DynamicTable) : Prop where
  counted : t'.Counted
  gone : ∃ gone, t.entries = gone ++ t'.entries ∧
    ∀ i < gone.length, t.capacity < footprint (t.entries.drop i) + additional

variable {additional : Nat} {t : DynamicTable}

theorem evictLoop_makes (fuel : Nat) (ackFloor : Option Nat)
    (hcounted : t.Counted) (hcap : t.capacity < usizeMax) (hadd : additional < usizeMax) :
    t.Makes additional (evictLoop additional ackFloor fuel t).2 := by
  have hsame : t.Makes additional t := ⟨hcounted, [], rfl, fun i hi => absurd hi (not_lt_zero i)⟩
  induction fuel generalizing t with
  | zero => exact hsame
  | succ fuel ih =>
    cases hentries : t.entries with
    | nil => rw [evictLoop_nil hentries]; exact hsame
    | cons e rest =>
      by_cases hfull : additional = usizeMax ∨ t.capacity < saturatingAdd t.size additional
      · by_cases hfree : t.floorProtects ackFloor
        · rw [evictLoop_protected hentries hfull hfree]; exact hsame
        · rw [evictLoop_evict hentries hfull hfree]
          have hsize := hcounted.size
          have hplain := hcounted.plain e (by rw [hentries]; exact mem_cons_self ..)
          rw [hentries, footprint_cons] at hsize
          have hnext : ({ t with
              entries := rest, size := t.size - entrySize e.name e.value } :
              DynamicTable).Counted := by
            refine ⟨?_, fun x hx => hcounted.plain x ?_⟩
            · rw [hplain, hsize, Nat.add_sub_cancel_left]
            · rw [hentries]
              exact mem_cons_of_mem _ hx
          obtain ⟨hdone, gone, hgone, hneeded⟩ := ih hnext hcap
            ⟨hnext, [], rfl, fun i hi => absurd hi (not_lt_zero i)⟩
          refine ⟨hdone, e :: gone, ?_, fun i hi => ?_⟩
          · rw [hentries]
            exact congrArg (e :: ·) hgone
          · cases i with
            | zero =>
              -- the oldest entry went because everything together was too large
              simp only [saturatingAdd] at hfull
              rw [drop_zero, hentries, footprint_cons]
              omega
            | succ i =>
              rw [hentries]
              exact hneeded i (by rw [length_cons] at hi; omega)
      · rw [evictLoop_fits hentries hfull]; exact hsame

variable {ackFloor : Option Nat} {t' : DynamicTable}

/-- After an eviction that succeeds the additional bytes fit. -/
theorem evictToFit_ok
    (hcounted : t.Counted) (hcap : t.capacity < usizeMax) (hadd : additional < usizeMax)
    (h : t.evictToFit additional ackFloor = (.ok (), t')) :
    t.Makes additional t' ∧ footprint t'.entries + additional ≤ t.capacity := by
  have hmakes := evictLoop_makes t.entries.length ackFloor hcounted hcap hadd
  have hevicts := evictLoop_evicts additional t.entries.length ackFloor t
  unfold evictToFit at h
  split at h
  · cases h
  · next t₁ hloop =>
    rw [hloop] at hmakes hevicts
    have hcap₁ : t₁.capacity = t.capacity := hevicts.capacity
    split at h
    · cases h
    · next hroom =>
      cases h
      have hsize := hmakes.counted.size
      dsimp only at hsize
      refine ⟨hmakes, ?_⟩
      simp only [saturatingAdd] at hroom
      omega

/-! ## Runs of calls -/

/-- What holds of a table after a sequence of calls that all succeeded. -/
structure Recent (t : DynamicTable) (log : List DynEntry) : Prop where
  window : t.Window log
  counted : t.Counted
  size_le : t.size ≤ t.capacity
  capacity_le : t.capacity ≤ t.maxCapacity

/-- What a successful call does: entries go from the front, only where keeping them would
    overrun the capacity and none above the floor, and then the new pair goes to the back. -/
structure Trims (t : DynamicTable) (c : TableCall) (t' : DynamicTable) : Prop where
  entries : ∃ gone kept, t.entries = gone ++ kept ∧ t'.entries = kept ++ c.inserted ∧
    (∀ i < gone.length, t'.capacity < footprint (t.entries.drop i ++ c.inserted)) ∧
    ∀ floor, c.ackFloor = some floor → gone = [] ∨ t.evicted + gone.length ≤ floor
  maxCapacity : t'.maxCapacity = t.maxCapacity

theorem recent_new (maxCapacity : Nat) : (new maxCapacity).Recent [] :=
  ⟨window_new _, ⟨rfl, nofun⟩, le_refl 0, zero_le _⟩

theorem gone_le_floor {gone : List DynEntry}
    (hlen : t.entries.length ≤ t.insertCount) (hevicts : t.Evicts ackFloor t')
    (hgone : t.entries = gone ++ t'.entries) {floor : Nat} (hfloor : ackFloor = some floor) :
    gone = [] ∨ t.evicted + gone.length ≤ floor := by
  have hbound := hevicts.floor floor hfloor hlen
  have hcount := hevicts.insertCount
  have hsum := congrArg List.length hgone
  rw [length_append] at hsum
  simp only [evicted] at hbound ⊢
  rcases Nat.eq_zero_or_pos gone.length with hzero | hpos
  · exact .inl (eq_nil_of_length_eq_zero hzero)
  · right
    omega

variable {log : List DynEntry}

theorem Recent.insert (h : t.Recent log) (hmax : t.maxCapacity < usizeMax)
    (hok : t.insertWithAckFloor e.name e.value ackFloor = (.ok (), t')) :
    t'.Recent (log ++ [e]) ∧ t.Trims (.insert e ackFloor) t' := by
  obtain ⟨name, value⟩ := e
  have hins := insertWithAckFloor_ok hok
  have hcap := h.capacity_le
  simp only [insertWithAckFloor] at hok
  split at hok
  · cases hok
  next hfits =>
  split at hok
  · cases hok
  next t₁ hevict =>
  cases hok
  have hsz : entrySize name value < usizeMax := by omega
  have hplain := entrySize_eq (e := ⟨name, value⟩) hsz
  have hevicts := t.evictToFit_evicts (entrySize name value) ackFloor
  rw [hevict] at hevicts
  have hcap₁ : t₁.capacity = t.capacity := hevicts.capacity
  obtain ⟨hmakes, hroom⟩ := evictToFit_ok h.counted (by omega) hsz hevict
  obtain ⟨hcounted, gone, hgone, hneeded⟩ := hmakes
  have hsize := hcounted.size
  refine ⟨⟨h.window.insert hins, ⟨?_, ?_⟩, ?_, ?_⟩, ⟨gone, t₁.entries, hgone, rfl, ?_, ?_⟩, ?_⟩
  · grind [footprint_append, footprint_cons, footprint_nil, saturatingAdd]
  · exact forall_mem_append.mpr ⟨hcounted.plain, forall_mem_singleton.mpr hplain⟩
  · grind [saturatingAdd]
  · rw [hins.capacity, hins.maxCapacity]
    exact hcap
  · grind [TableCall.inserted, footprint_cons, footprint_append]
  · intro floor hfloor
    exact gone_le_floor h.window.length_le hevicts hgone hfloor
  · exact hins.maxCapacity

theorem Recent.setCapacity {capacity : Nat} (h : t.Recent log) (hmax : t.maxCapacity < usizeMax)
    (hok : t.setCapacityWithAckFloor capacity ackFloor = (.ok (), t')) :
    t'.Recent log ∧ t.Trims (.setCapacity capacity ackFloor) t' := by
  obtain ⟨hle, hevict⟩ := setCapacityWithAckFloor_ok hok
  have hevicts := evictToFit_evicts { t with capacity } 0 ackFloor
  rw [hevict] at hevicts
  have hcounted : ({ t with capacity } : DynamicTable).Counted := ⟨h.counted.size, h.counted.plain⟩
  obtain ⟨hmakes, hroom⟩ :=
    evictToFit_ok hcounted (lt_of_le_of_lt hle hmax) (by decide) hevict
  obtain ⟨hcounted', gone, hgone, hneeded⟩ := hmakes
  have hcap : t'.capacity = capacity := hevicts.capacity
  have hmax' : t'.maxCapacity = t.maxCapacity := hevicts.maxCapacity
  refine ⟨⟨?_, hcounted', ?_, ?_⟩, ⟨gone, t'.entries, hgone, ?_, ?_, ?_⟩, hmax'⟩
  · exact ⟨hevicts.insertCount.trans h.window.insertCount, hevicts.suffix.trans h.window.suffix⟩
  · rw [hcounted'.size, hcap]
    exact hroom
  · rw [hcap, hmax']
    exact hle
  · exact (append_nil _).symm
  · grind [TableCall.inserted]
  · intro floor hfloor
    exact gone_le_floor (t := { t with capacity }) h.window.length_le hevicts hgone hfloor

theorem Recent.call {c : TableCall}
    (h : t.Recent log) (hmax : t.maxCapacity < usizeMax) (hok : t.call c = (.ok (), t')) :
    t'.Recent (log ++ c.inserted) ∧ t.Trims c t' := by
  cases c with
  | insert e ackFloor => exact h.insert hmax hok
  | setCapacity capacity ackFloor =>
    rw [TableCall.inserted, append_nil]
    exact h.setCapacity hmax hok

theorem recent_of_run {maxCapacity : Nat} (hmax : maxCapacity < usizeMax) {calls : List TableCall}
    (hrun : Run (fun t c t' => t.call c = (.ok (), t')) (new maxCapacity) calls t) :
    t.Recent (history calls) ∧ t.maxCapacity = maxCapacity := by
  generalize hstart : new maxCapacity = start at hrun
  induction hrun with
  | nil => subst hstart; exact ⟨recent_new _, rfl⟩
  | snoc _ last ih =>
    obtain ⟨hrecent, hmaxt⟩ := ih
    obtain ⟨hnext, htrims⟩ := hrecent.call (hmaxt ▸ hmax) last
    refine ⟨?_, htrims.maxCapacity.trans hmaxt⟩
    rw [history, flatMap_append, flatMap_singleton]
    exact hnext

theorem Window.getAbsolute_eq (hw : t.Window log) (a : Nat) :
    t.getAbsolute a = if log.length - t.entries.length < a then log[a - 1]? else none := by
  have hevicted : log.length - t.entries.length = t.evicted := by rw [evicted, hw.insertCount]
  rw [hevicted]
  split
  · next hlive => exact hw.getAbsolute hlive
  · next hgone =>
    rw [DynamicTable.getAbsolute, oldestAbsolute]
    simp only [evicted] at hgone
    split
    · rfl
    split
    · rfl
    · next hold =>
      -- below the oldest retained index there is nothing
      split at hold
      · cases hold
      · cases hold
        rw [if_pos (by omega)]

/-- After any sequence of successful calls on a table whose maximum is below `usize::MAX`,
    the size is the footprint of the retained entries and within the capacity, the retained
    entries are the newest pairs of the history, a lookup answers with the pair of its index
    exactly for those, and the next successful call evicts only what would overrun the
    capacity and nothing above its floor. -/
theorem table_is_recent_history {maxCapacity : Nat} (hmax : maxCapacity < usizeMax)
    {calls : List TableCall} {t : DynamicTable}
    (hrun : Run (fun t c t' => t.call c = (.ok (), t')) (new maxCapacity) calls t) :
    t.size = footprint t.entries ∧ t.size ≤ t.capacity ∧
      t.entries.length ≤ (history calls).length ∧
      t.entries = (history calls).drop ((history calls).length - t.entries.length) ∧
      (∀ a, t.getAbsolute a =
        if (history calls).length - t.entries.length < a then (history calls)[a - 1]? else none) ∧
      ∀ c t', t.call c = (.ok (), t') → ∃ gone kept, t.entries = gone ++ kept ∧
        t'.entries = kept ++ c.inserted ∧
        (∀ i < gone.length, t'.capacity < footprint (t.entries.drop i ++ c.inserted)) ∧
        ∀ floor, c.ackFloor = some floor →
          gone = [] ∨ (history calls).length - t.entries.length + gone.length ≤ floor := by
  obtain ⟨hrecent, hmaxt⟩ := recent_of_run hmax hrun
  have hcount := hrecent.window.insertCount
  refine ⟨hrecent.counted.size, hrecent.size_le, hrecent.window.suffix.length_le,
    suffix_iff_eq_drop.mp hrecent.window.suffix, hrecent.window.getAbsolute_eq, ?_⟩
  intro c t' hok
  obtain ⟨gone, kept, hgone, hkept, hneeded, hfloor⟩ := (hrecent.call (hmaxt ▸ hmax) hok).2.entries
  refine ⟨gone, kept, hgone, hkept, hneeded, ?_⟩
  rwa [evicted, hcount] at hfloor

theorem table_is_recent_history_evicting :
    ∃ t, Run (fun t c t' => t.call c = (.ok (), t')) (new 96)
        [.setCapacity 96 none, .insert ⟨"a", "1"⟩ none, .insert ⟨"b", "2"⟩ none,
          .insert ⟨"c", "3"⟩ (some 1)] t ∧
      t.size = 68 ∧ t.getAbsolute 1 = none ∧ t.getAbsolute 3 = some ⟨"c", "3"⟩ := by
  obtain ⟨t, hrun, hlen⟩ : ∃ t, Run (fun t c t' => t.call c = (.ok (), t')) (new 96)
      [.setCapacity 96 none, .insert ⟨"a", "1"⟩ none, .insert ⟨"b", "2"⟩ none,
        .insert ⟨"c", "3"⟩ (some 1)] t ∧ t.entries.length = 2 :=
    ⟨_, ((((Run.nil _).snoc rfl).snoc rfl).snoc rfl).snoc rfl, by decide⟩
  obtain ⟨hsize, -, -, hentries, hlookup, -⟩ := table_is_recent_history (by decide) hrun
  refine ⟨t, hrun, ?_, ?_, ?_⟩
  · rw [hsize, hentries, hlen]
    decide
  · rw [hlookup, hlen]
    decide
  · rw [hlookup, hlen]
    decide

/-! ## Calls that fail -/

/-- A call that is refused before anything is written: an entry above the capacity or a
    capacity above the maximum, or the first eviction of a call that writes no new capacity
    is impossible. -/
def RefusedAtOnce (t : DynamicTable) : TableCall → Prop
  | .insert e ackFloor =>
    t.capacity < entrySize e.name e.value ∨ t.floorProtects ackFloor ∨ t.entries = []
  | .setCapacity capacity ackFloor =>
    t.maxCapacity < capacity ∨
      t.capacity = capacity ∧ (t.floorProtects ackFloor ∨ t.entries = [])

/-- An eviction fails with nothing evicted, or with the oldest entry gone. -/
theorem evictToFit_error
    {err : QpackError} (h : t.evictToFit additional ackFloor = (.error err, t')) :
    if t.floorProtects ackFloor ∨ t.entries = [] then t' = t
    else t'.entries.length < t.entries.length := by
  cases hentries : t.entries with
  | nil => grind [evictToFit, evictLoop]
  | cons e rest =>
    unfold evictToFit at h
    rw [hentries, length_cons] at h
    by_cases hfull : additional = usizeMax ∨ t.capacity < saturatingAdd t.size additional
    · by_cases hfree : t.floorProtects ackFloor
      · grind [evictLoop_protected]
      · -- one entry is gone, and evictions never bring one back
        rw [evictLoop_evict hentries hfull hfree] at h
        have hevicts := evictLoop_evicts additional rest.length ackFloor
          { t with entries := rest, size := t.size - entrySize e.name e.value }
        have hle := hevicts.suffix.length_le
        split at h
        · next hloop => grind
        · next hloop => grind
    · -- what fits at once does not fail
      rw [evictLoop_fits hentries hfull] at h
      rw [not_or] at hfull
      simp only [hfull.2, and_false] at h
      cases h

theorem Evicts.frame (h : t.Evicts ackFloor t') : ∃ gone, t.entries = gone ++ t'.entries ∧
      ∀ floor, ackFloor = some floor → t.entries.length ≤ t.insertCount →
        gone = [] ∨ t.evicted + gone.length ≤ floor := by
  obtain ⟨gone, hgone⟩ := h.suffix
  exact ⟨gone, hgone.symm, fun floor hfloor hlen => gone_le_floor hlen h hgone.symm hfloor⟩

/-- A call that fails keeps the maximum and the insert count, takes entries from the front
    only and none above its floor, and an insert keeps the capacity.  Everything is as
    before exactly when the call was refused at once. -/
theorem failed_call_changes {t t' : DynamicTable} {c : TableCall} {err : QpackError}
    (h : t.call c = (.error err, t')) :
    t'.maxCapacity = t.maxCapacity ∧ t'.insertCount = t.insertCount ∧
      (∀ e ackFloor, c = .insert e ackFloor → t'.capacity = t.capacity) ∧
      (∃ gone, t.entries = gone ++ t'.entries ∧
        ∀ floor, c.ackFloor = some floor → t.entries.length ≤ t.insertCount →
          gone = [] ∨ t.evicted + gone.length ≤ floor) ∧
      (t' = t ↔ t.RefusedAtOnce c) := by
  cases c with
  | insert e ackFloor =>
    simp only [call, insertWithAckFloor] at h
    split at h
    · next hlarge =>
      cases h
      exact ⟨rfl, rfl, fun _ _ _ => rfl, ⟨[], rfl, fun _ _ _ => .inl rfl⟩,
        iff_of_true rfl (.inl hlarge)⟩
    · next hfits =>
      split at h
      · next t₁ hevict =>
        cases h
        have hevicts := t.evictToFit_evicts (entrySize e.name e.value) ackFloor
        rw [hevict] at hevicts
        refine ⟨hevicts.maxCapacity, hevicts.insertCount, fun _ _ _ => hevicts.capacity,
          hevicts.frame, ?_⟩
        have herror := evictToFit_error hevict
        split at herror
        · next hnone => exact iff_of_true herror (.inr hnone)
        · next hsome =>
          refine iff_of_false ?_ (not_or.mpr ⟨hfits, hsome⟩)
          rintro rfl
          exact lt_irrefl _ herror
      · cases h
  | setCapacity capacity ackFloor =>
    simp only [call, setCapacityWithAckFloor] at h
    split at h
    · next hlarge =>
      cases h
      exact ⟨rfl, rfl, by simp, ⟨[], rfl, fun _ _ _ => .inl rfl⟩,
        iff_of_true rfl (.inl hlarge)⟩
    · next hfits =>
      -- the new capacity is in place before the first eviction is tried
      have hevicts := evictToFit_evicts { t with capacity } 0 ackFloor
      rw [h] at hevicts
      refine ⟨hevicts.maxCapacity, hevicts.insertCount, by simp,
        hevicts.frame, ?_⟩
      have herror := evictToFit_error h
      split at herror
      · next hnone =>
        subst herror
        constructor
        · intro heq
          exact .inr ⟨congrArg DynamicTable.capacity heq.symm, hnone⟩
        · rintro (hlarge | ⟨rfl, -⟩)
          · exact absurd hlarge hfits
          · rfl
      · next hsome =>
        refine iff_of_false ?_ (not_or.mpr ⟨hfits, fun hrefused => hsome hrefused.2⟩)
        rintro rfl
        exact lt_irrefl _ herror

/-- One acknowledged and one unacknowledged entry in a full table. -/
def mixedTable : DynamicTable :=
  { maxCapacity := 96, capacity := 68, size := 68, insertCount := 2
    entries := [⟨"a", "1"⟩, ⟨"b", "2"⟩] }

theorem failed_call_changes_mixed :
    ∃ t', mixedTable.call (.insert ⟨"c", "34"⟩ (some 0)) = (.error .invalid, t') ∧
      t' = mixedTable := by
  refine ⟨_, rfl, ?_⟩
  exact (failed_call_changes (c := .insert ⟨"c", "34"⟩ (some 0)) rfl).2.2.2.2.mpr
    (.inr (.inl (by decide)))

/-- An insert that needs the room of both evicts the first, then fails on the second. -/
theorem failed_insert_evicts :
    (mixedTable.call (.insert ⟨"c", "34"⟩ (some 1))).1 = .error .invalid ∧
      (mixedTable.call (.insert ⟨"c", "34"⟩ (some 1))).2.entries = [⟨"b", "2"⟩] ∧
      (mixedTable.call (.setCapacity 0 (some 0))).1 = .error .invalid ∧
      (mixedTable.call (.setCapacity 0 (some 0))).2.capacity = 0 := by
  decide

end DynamicTable

end WebTransportBun.Wasm.Qpack
