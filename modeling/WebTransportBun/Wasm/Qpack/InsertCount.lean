/-
  WebTransportBun.Wasm.Qpack.InsertCount

  The Required Insert Count on the wire: `encode_required_insert_count` sends it modulo
  `2 * MaxEntries`, `decode_required_insert_count` recovers it from the decoder's own
  insert count `T`, which is at most `MaxEntries` away.

  RFC 9204 reconstructs the one number with that residue in `(T - MaxEntries,
  T + MaxEntries]`.  The code first reads the residue as an offset from `maxWrapped`, the
  last multiple of `2 * MaxEntries` up to `T + MaxEntries`, and takes one period back when
  that overshoots.  It takes the period back only for an overshoot of at most `MaxEntries`,
  and it does not check that the offset is a residue at all.
  `decodeRequiredInsertCount_eq_ok` says exactly what it accepts;
  `requiredInsertCount_codec` says which counts it recovers and which garbage it lets in.
-/

import WebTransportBun.Wasm.Qpack.Replica

namespace WebTransportBun.Wasm.Qpack

section

variable (maxCapacity total : Nat)

def maxEntries : Nat := maxCapacity / 32

/-- `max_wrapped`: where the decoder's current window of residues starts. -/
def maxWrapped : Nat :=
  (total + maxEntries maxCapacity) / (2 * maxEntries maxCapacity) * (2 * maxEntries maxCapacity)

/-- The counts a decoder with `total` inserts has to understand. -/
def InWindow (ric : Nat) : Prop :=
  0 < ric ∧ total < ric + maxEntries maxCapacity ∧ ric ≤ total + maxEntries maxCapacity

/-- The two checked additions of the decoder stay below `2 ^ 64`. -/
def NoOverflow (encoded : Nat) : Prop :=
  total + maxEntries maxCapacity < 2 ^ 64 ∧ maxWrapped maxCapacity total + encoded < 2 ^ 64

def Recovers (ric : Nat) : Prop :=
  (encodeRequiredInsertCount ric maxCapacity).map
    (decodeRequiredInsertCount · maxCapacity total) = some (.ok ric)

/-- `encoded` is sent for some count of the window. -/
def Encodes (encoded : Nat) : Prop :=
  ∃ ric, InWindow maxCapacity total ric ∧ encodeRequiredInsertCount ric maxCapacity = some encoded

/-- `encoded` is no residue, and the decoder takes a period off it all the same: it lies
    behind the window, by at most what the overshoot test lets pass. -/
def Overshoots (encoded : Nat) : Prop :=
  2 * maxEntries maxCapacity < encoded ∧ NoOverflow maxCapacity total encoded ∧
    2 * maxEntries maxCapacity + 1 < maxWrapped maxCapacity total + encoded ∧
    maxWrapped maxCapacity total + encoded ≤ total + 2 * maxEntries maxCapacity + 1

instance (ric : Nat) : Decidable (InWindow maxCapacity total ric) :=
  inferInstanceAs (Decidable (_ ∧ _))

instance (encoded : Nat) : Decidable (NoOverflow maxCapacity total encoded) :=
  inferInstanceAs (Decidable (_ ∧ _))

instance (encoded : Nat) : Decidable (Overshoots maxCapacity total encoded) :=
  inferInstanceAs (Decidable (_ ∧ _))

end

section

variable {maxCapacity total : Nat} (total) in
theorem maxWrapped_bounds (hcap : 0 < maxEntries maxCapacity) :
    maxWrapped maxCapacity total ≤ total + maxEntries maxCapacity ∧ total + maxEntries maxCapacity <
        maxWrapped maxCapacity total + 2 * maxEntries maxCapacity := by
  have hmod := Nat.mod_lt (total + maxEntries maxCapacity)
    (show 0 < 2 * maxEntries maxCapacity by omega)
  have hsum := Nat.div_add_mod' (total + maxEntries maxCapacity) (2 * maxEntries maxCapacity)
  rw [← maxWrapped] at hsum
  omega

variable (total) in
theorem maxWrapped_add_mod {k : Nat} (hk : k < 2 * maxEntries maxCapacity) :
    (maxWrapped maxCapacity total + k) % (2 * maxEntries maxCapacity) = k := by
  rw [maxWrapped, mul_comm, Nat.mul_add_mod, Nat.mod_eq_of_lt hk]

variable {ric : Nat}

/-- Read as an offset from `maxWrapped`, the residue of a count in the window is the count
    itself or one period too far. -/
theorem maxWrapped_add_residue (hric : InWindow maxCapacity total ric) :
    maxWrapped maxCapacity total + ric % (2 * maxEntries maxCapacity) =
      if maxWrapped maxCapacity total ≤ ric then ric else ric + 2 * maxEntries maxCapacity := by
  obtain ⟨-, hlow, hhigh⟩ := hric
  have hcap : 0 < maxEntries maxCapacity := by omega
  obtain ⟨hle, hlt⟩ := maxWrapped_bounds total hcap
  split
  · next hin =>
    obtain ⟨k, rfl⟩ := Nat.exists_eq_add_of_le hin
    rw [maxWrapped_add_mod total (by omega)]
  · next hout =>
    -- One period further the count is in the window of residues.
    have hin : maxWrapped maxCapacity total ≤ ric + 2 * maxEntries maxCapacity := by omega
    obtain ⟨k, hk⟩ := Nat.exists_eq_add_of_le hin
    rw [← Nat.add_mod_right ric, hk, maxWrapped_add_mod total (by omega)]

variable {encoded : Nat}

/-- What the decoder accepts, and as which count. -/
theorem decodeRequiredInsertCount_eq_ok (hcap : 0 < maxEntries maxCapacity) (henc : 0 < encoded) :
    decodeRequiredInsertCount encoded maxCapacity total = .ok ric ↔
      NoOverflow maxCapacity total encoded ∧ 0 < ric ∧
        (maxWrapped maxCapacity total + encoded = ric + 1 ∧ ric ≤ total + maxEntries maxCapacity ∨
          maxWrapped maxCapacity total + encoded = ric + 2 * maxEntries maxCapacity + 1 ∧
            total < ric + maxEntries maxCapacity ∧ ric ≤ total) := by
  have hcap' : maxCapacity / 32 ≠ 0 := Nat.pos_iff_ne_zero.mp hcap
  unfold decodeRequiredInsertCount
  rw [if_neg hcap', ← maxEntries, ← maxWrapped]
  by_cases hfit : NoOverflow maxCapacity total encoded
  · obtain ⟨hmax, hsum⟩ := hfit
    simp only [NoOverflow]
    split
    · grind
    · grind
  · grind [NoOverflow]

theorem decodeRequiredInsertCount_error :
    decodeRequiredInsertCount encoded maxCapacity total = .error .invalid ↔
      ∀ ric, decodeRequiredInsertCount encoded maxCapacity total ≠ .ok ric := by
  unfold decodeRequiredInsertCount
  simp only
  repeat' split
  all_goals simp

section

variable (hcap : 0 < maxEntries maxCapacity)

include hcap

variable (henc : 0 < encoded)
  (hok : decodeRequiredInsertCount encoded maxCapacity total = .ok ric)

include henc hok

theorem residue_of_ok (hres : encoded ≤ 2 * maxEntries maxCapacity) :
    ric % (2 * maxEntries maxCapacity) + 1 = encoded := by
  obtain ⟨-, -, hcases⟩ := (decodeRequiredInsertCount_eq_ok hcap henc).mp hok
  -- In both cases the residue of `ric` is the offset `encoded - 1`.
  have hoff := maxWrapped_add_mod total
    (show encoded - 1 < 2 * maxEntries maxCapacity by omega)
  rcases hcases with ⟨hsum, -⟩ | ⟨hsum, -, -⟩
  · grind
  · grind [Nat.add_mod_right]

theorem inWindow_of_ok : InWindow maxCapacity total ric := by
  obtain ⟨-, hpos, hcases⟩ := (decodeRequiredInsertCount_eq_ok hcap henc).mp hok
  obtain ⟨hle, hlt⟩ := maxWrapped_bounds total hcap
  exact ⟨hpos, by omega, by omega⟩

theorem encodes_of_ok (hres : encoded ≤ 2 * maxEntries maxCapacity) :
    Encodes maxCapacity total encoded := by
  have hmod := residue_of_ok hcap henc hok hres
  have hwindow := inWindow_of_ok hcap henc hok
  have hpos := hwindow.1
  refine ⟨ric, hwindow, ?_⟩
  rw [encodeRequiredInsertCount, if_neg (by omega)]
  rw [← maxEntries, if_neg (by omega), hmod]

end

/-- The decoder recovers a count of the window exactly when its additions do not overflow
    and the count is not ahead of the decoder across the end of a window of residues. -/
theorem recovers_iff (hric : InWindow maxCapacity total ric) : Recovers maxCapacity total ric ↔
      NoOverflow maxCapacity total (ric % (2 * maxEntries maxCapacity) + 1) ∧
        (ric ≤ total ∨ maxWrapped maxCapacity total ≤ ric) := by
  have hsum := maxWrapped_add_residue hric
  obtain ⟨hpos, hlow, hhigh⟩ := hric
  have hcap : 0 < maxEntries maxCapacity := by omega
  have henc : encodeRequiredInsertCount ric maxCapacity =
      some (ric % (2 * maxEntries maxCapacity) + 1) := by
    rw [encodeRequiredInsertCount, if_neg (by omega)]
    rw [← maxEntries, if_neg (by omega)]
  rw [Recovers, henc, Option.map_some, Option.some.injEq,
    decodeRequiredInsertCount_eq_ok hcap (Nat.succ_pos _)]
  refine and_congr_right fun _ => ?_
  split at hsum <;> omega

/-- A value above the period is refused unless it overshoots by little enough. -/
theorem decodeRequiredInsertCount_of_gt (hcap : 0 < maxEntries maxCapacity)
    (hgt : 2 * maxEntries maxCapacity < encoded) :
    decodeRequiredInsertCount encoded maxCapacity total = .error .invalid ↔
      ¬ Overshoots maxCapacity total encoded := by
  obtain ⟨hle, hlt⟩ := maxWrapped_bounds total hcap
  rw [decodeRequiredInsertCount_error]
  simp only [ne_eq, decodeRequiredInsertCount_eq_ok hcap (Nat.zero_lt_of_lt hgt)]
  constructor
  · rintro hnone ⟨-, hfit, hpos, hover⟩
    refine hnone (maxWrapped maxCapacity total + encoded - (2 * maxEntries maxCapacity + 1)) ?_
    exact ⟨hfit, by omega, .inr ⟨by omega, by omega, by omega⟩⟩
  · rintro hno ric ⟨hfit, hpos, ⟨hsum, hric⟩ | ⟨hsum, -, hric⟩⟩
    · omega
    · exact hno ⟨hgt, hfit, by omega, by omega⟩

end

/-- Which counts the codec recovers, and which values that stand for no count it refuses.
    It recovers every count of the window that the decoder has already reached, or that
    is in the decoder's own window of residues; it refuses everything that encodes no
    count, apart from overshooting values and `0`, which means "no dynamic entries". -/
theorem requiredInsertCount_codec {maxCapacity : Nat} (hcap : 32 ≤ maxCapacity) (total : Nat) :
    (∀ ric, InWindow maxCapacity total ric →
      (Recovers maxCapacity total ric ↔
        NoOverflow maxCapacity total (ric % (2 * maxEntries maxCapacity) + 1) ∧
          (ric ≤ total ∨ maxWrapped maxCapacity total ≤ ric))) ∧
    (∀ encoded, ¬ Encodes maxCapacity total encoded →
      (decodeRequiredInsertCount encoded maxCapacity total = .error .invalid ↔
        0 < encoded ∧ ¬ Overshoots maxCapacity total encoded)) := by
  have hent : 0 < maxEntries maxCapacity := Nat.div_pos hcap (by decide)
  refine ⟨fun ric => recovers_iff, fun encoded hnone => ?_⟩
  rcases Nat.eq_zero_or_pos encoded with rfl | hpos
  · simp [decodeRequiredInsertCount]
  rcases lt_or_ge (2 * maxEntries maxCapacity) encoded with hgt | hle
  · simp only [hpos, true_and, decodeRequiredInsertCount_of_gt hent hgt]
  · -- A residue is never accepted unless it encodes a count.
    have hover : ¬ Overshoots maxCapacity total encoded := fun h => absurd h.1 (by omega)
    simp only [hpos, hover, not_false_iff, and_self, iff_true]
    exact decodeRequiredInsertCount_error.mpr fun ric hok =>
      hnone (encodes_of_ok hent hpos hok hle)

/-- With room for two entries and two inserts received, the count 4 is recovered although
    it is ahead, and the value 5 is refused. -/
theorem requiredInsertCount_codec_two_entries :
    Recovers 64 2 4 ∧ decodeRequiredInsertCount 5 64 2 = .error .invalid := by
  obtain ⟨hrec, hrej⟩ := requiredInsertCount_codec (show 32 ≤ 64 by decide) 2
  refine ⟨(hrec 4 (by decide)).mpr (by decide), (hrej 5 ?_).mpr (by decide)⟩
  rintro ⟨ric, hric, henc⟩
  simp [encodeRequiredInsertCount, hric.1.ne'] at henc
  omega

/-- With room for two entries and two inserts received, a section that needs the third is
    refused; with room for one entry, the value 3 is taken for the count 2. -/
theorem requiredInsertCount_codec_fails :
    InWindow 64 2 3 ∧ encodeRequiredInsertCount 3 64 = some 4 ∧
      decodeRequiredInsertCount 4 64 2 = .error .invalid ∧
    2 * maxEntries 32 < 3 ∧ decodeRequiredInsertCount 3 32 2 = .ok 2 := by
  decide

end WebTransportBun.Wasm.Qpack
