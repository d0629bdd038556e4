/-
  Library.Fair

  Infinite runs of a labelled step relation, and what has to happen in them.  A group of
  labels is treated fairly if it is not passed over for ever while one of its steps is
  possible.  `Trace.eventually_while` is the one rule: a rank that no step raises and every
  step of the group lowers brings the run to its goal.
-/

import Mathlib.Tactic.ByContra
import WebTransportBun.Library.Run

namespace Library

variable {S L : Type*} {step : S → L → S → Prop}

/-- An infinite run; at some moments nothing happens. -/
structure Trace (step : S → L → S → Prop) where
  state : Nat → S
  label : Nat → Option L
  next : ∀ n, match label n with
    | none => state (n + 1) = state n
    | some l => step (state n) l (state (n + 1))

def Enabled (step : S → L → S → Prop) (A : L → Prop) (s : S) : Prop := ∃ l t, A l ∧ step s l t

namespace Trace

variable (σ : Trace step)

/-- The group `A` is not passed over for ever. -/
def Fair (A : L → Prop) : Prop :=
  ∀ n, (∀ m ≥ n, Enabled step A (σ.state m)) → ∃ m ≥ n, ∃ l, σ.label m = some l ∧ A l

variable {σ}

theorem moment (n : Nat) : σ.state (n + 1) = σ.state n ∨
      ∃ l, σ.label n = some l ∧ step (σ.state n) l (σ.state (n + 1)) := by
  have hnext := σ.next n
  cases hlabel : σ.label n with
  | none =>
    rw [hlabel] at hnext
    exact .inl hnext
  | some l =>
    rw [hlabel] at hnext
    exact .inr ⟨l, rfl, hnext⟩

theorem run_of_le {n m : Nat} (h : n ≤ m) : ∃ ls, Run step (σ.state n) ls (σ.state m) := by
  induction h with
  | refl => exact ⟨[], .nil _⟩
  | @step m _ ih =>
    obtain ⟨ls, hrun⟩ := ih
    rcases σ.moment m with hsame | ⟨l, -, hstep⟩
    · exact ⟨ls, (congrArg (Run step (σ.state n) ls) hsame).mpr hrun⟩
    · exact ⟨ls ++ [l], .snoc hrun hstep⟩

theorem invariant {P : S → Prop} (hstep : ∀ s l t, P s → step s l t → P t) {n m : Nat}
    (h : n ≤ m) (hn : P (σ.state n)) : P (σ.state m) := by
  obtain ⟨ls, hrun⟩ := σ.run_of_le h
  exact hrun.invariant hstep hn

variable (σ) in
def Meets (ok : S → L → Prop) : Prop := ∀ n l, σ.label n = some l → ok (σ.state n) l

theorem meets_true : σ.Meets fun _ _ => True := fun _ _ _ => trivial

/-- A run whose steps all satisfy `ok`, as a run of restricted steps. -/
def restricted {ok : S → L → Prop} (hok : σ.Meets ok) : Trace (restrict ok step) where
  state := σ.state
  label := σ.label
  next n := by
    have hnext := σ.next n
    cases hlabel : σ.label n with
    | none =>
      rw [hlabel] at hnext
      exact hnext
    | some l =>
      rw [hlabel] at hnext
      exact ⟨hok n l hlabel, hnext⟩

variable {A : L → Prop}

/-- From `P` on and as long as `I` holds, every step reaches `Q` or keeps `P` without raising
    the rank; the steps of the fair group lower it, and there always is one. -/
theorem eventually_while (hfair : σ.Fair A) {ok : S → L → Prop}
    (hok : σ.Meets ok) {I P Q : S → Prop} (rank : S → Nat)
    (hstep : ∀ s l t, P s → I t → ok s l → step s l t →
      Q t ∨ P t ∧ rank t ≤ rank s ∧ (A l → rank t < rank s))
    (henabled : ∀ s, P s → Enabled step A s) {n : Nat} (hI : ∀ m ≥ n, I (σ.state m))
    (hn : P (σ.state n)) : ∃ m ≥ n, Q (σ.state m) := by
  induction hrank : rank (σ.state n) using Nat.strongRecOn generalizing n with
  | ind r ih =>
    by_contra hnever
    have hnever : ∀ m ≥ n, ¬ Q (σ.state m) := fun m hm hQ => hnever ⟨m, hm, hQ⟩
    -- as long as the goal is not reached, `P` stays and the rank does not rise
    have hstay : ∀ m ≥ n, P (σ.state m) ∧ rank (σ.state m) ≤ r := by
      intro m hm
      induction hm with
      | refl => exact ⟨hn, Nat.le_of_eq hrank⟩
      | @step m hm ih =>
        obtain ⟨hP, hle⟩ := ih
        rcases σ.moment m with hsame | ⟨l, hlabel, hl⟩
        · rw [show σ.state m.succ = σ.state m from hsame]
          exact ⟨hP, hle⟩
        · rcases hstep _ l _ hP (hI _ (Nat.le_succ_of_le hm)) (hok m l hlabel) hl with
            hQ | ⟨hP', hle', -⟩
          · exact absurd hQ (hnever _ (Nat.le_succ_of_le hm))
          · exact ⟨hP', Nat.le_trans hle' hle⟩
    obtain ⟨m, hm, l, hlabel, hA⟩ := hfair n fun m hm => henabled _ (hstay m hm).1
    have hl : step (σ.state m) l (σ.state (m + 1)) := by
      have hnext := σ.next m
      rw [hlabel] at hnext
      exact hnext
    obtain ⟨hP, hle⟩ := hstay m hm
    have hlater : ∀ k ≥ m + 1, k ≥ n := fun k hk => Nat.le_trans (Nat.le_succ_of_le hm) hk
    rcases hstep _ l _ hP (hI _ (hlater _ (Nat.le_refl _))) (hok m l hlabel) hl with
      hQ | ⟨hP', -, hlt⟩
    · exact hnever _ (Nat.le_succ_of_le hm) hQ
    · -- the fair step is taken, and the rest of the run starts from a lower rank
      obtain ⟨k, hk, hQ⟩ := ih _ (Nat.lt_of_lt_of_le (hlt hA) hle)
        (fun k hk => hI k (hlater k hk)) hP' rfl
      exact hnever k (hlater k hk) hQ

theorem eventually (hfair : σ.Fair A) {P Q : S → Prop} (rank : S → Nat)
    (hstep : ∀ s l t, P s → step s l t → Q t ∨ P t ∧ rank t ≤ rank s ∧ (A l → rank t < rank s))
    (henabled : ∀ s, P s → Enabled step A s) {n : Nat} (hn : P (σ.state n)) :
    ∃ m ≥ n, Q (σ.state m) :=
  eventually_while (I := fun _ => True) hfair meets_true rank
    (fun s l t hP _ _ => hstep s l t hP) henabled (fun _ _ => trivial) hn

/-! ## Runs that compute -/

/-- The state after `n` labels; a label that is refused is skipped. -/
def following (exec : S → L → Option S) (ls : Nat → L) (s : S) : Nat → S
  | 0 => s
  | n + 1 => (exec (following exec ls s n) (ls n)).getD (following exec ls s n)

/-- The run that takes one label after the other. -/
def follow {exec : S → L → Option S} (hexec : ∀ s l t, exec s l = some t → step s l t)
    (ls : Nat → L) (s : S) : Trace step where
  state := following exec ls s
  label n := (exec (following exec ls s n) (ls n)).map fun _ => ls n
  next n := by
    show match (exec (following exec ls s n) (ls n)).map fun _ => ls n with
      | none => (exec (following exec ls s n) (ls n)).getD (following exec ls s n) = _
      | some l => step _ l ((exec (following exec ls s n) (ls n)).getD (following exec ls s n))
    cases h : exec (following exec ls s n) (ls n) with
    | none => rfl
    | some t => exact hexec _ _ _ h

section

variable {exec : S → L → Option S} {hexec : ∀ s l t, exec s l = some t → step s l t}
  {ls : Nat → L} {s : S}

theorem follow_meets {ok : S → L → Prop} (h : ∀ n, ok (following exec ls s n) (ls n)) :
    (follow hexec ls s).Meets ok := by
  intro n l hlabel
  obtain ⟨t, -, rfl⟩ := Option.map_eq_some_iff.mp hlabel
  exact h n

variable {k : Nat}

section

variable (hsame : ∀ n ≥ k, (exec (following exec ls s k) (ls n)).getD (following exec ls s k) =
  following exec ls s k)

include hsame

theorem following_stay {n : Nat} (hn : n ≥ k) :
    following exec ls s n = following exec ls s k := by
  induction hn with
  | refl => rfl
  | @step n hn ih =>
    show (exec (following exec ls s n) (ls n)).getD (following exec ls s n) = _
    rw [ih, hsame n hn]

theorem follow_fair_of_stay (hnot : ¬ Enabled step A (following exec ls s k)) :
    (follow hexec ls s).Fair A := by
  intro n henabled
  refine absurd (henabled (max n k) (Nat.le_max_left ..)) ?_
  show ¬ Enabled step A (following exec ls s (max n k))
  rw [following_stay hsame (Nat.le_max_right ..)]
  exact hnot

end

variable {l : L} (hls : ∀ n ≥ k, ls n = l)
  (hloop : exec (following exec ls s k) l = some (following exec ls s k))

include hls hloop

theorem same_of_loop (n : Nat) (hn : n ≥ k) :
    (exec (following exec ls s k) (ls n)).getD (following exec ls s k) = following exec ls s k := by
  rw [hls n hn, hloop]
  rfl

theorem follow_fair (hA : A l) : (follow hexec ls s).Fair A := by
  intro n _
  refine ⟨max n k, Nat.le_max_left .., l, ?_, hA⟩
  show (exec (following exec ls s (max n k)) (ls (max n k))).map _ = some l
  rw [following_stay (same_of_loop hls hloop) (Nat.le_max_right ..), hls _ (Nat.le_max_right ..),
    hloop]
  rfl

theorem follow_fair_of_not_enabled (hnot : ¬ Enabled step A (following exec ls s k)) :
    (follow hexec ls s).Fair A :=
  follow_fair_of_stay (same_of_loop hls hloop) hnot

end

end Trace

end Library
