/-
  Library.Prog

  Programs over a state that may fail to return, and rules for what they do.

  A program is `StateT S Option`: it yields a value and a new state, or nothing when a
  loop runs out of fuel or the program traps.  `wlp` is the weakest liberal
  precondition, so a theorem "for every fuel" is a theorem about every call that
  returns.  `Does` reads a program as a sequence of steps of an abstract machine; its rules
  are tagged for `grind`, which takes a program apart by them.
-/

import Mathlib.Logic.Relation

namespace Library

/-- A program over the state `S` with a result in `α`. -/
abbrev Prog (S α : Type) := StateT S Option α

namespace Prog

variable {S V α β : Type}

/-- `body` again and again until it yields a value, at most `n` times, and then `after`. -/
def rounds : Nat → Prog S (Option α) → Prog S α → Prog S α
  | 0, _, after => after
  | n + 1, body, after => do
    match ← body with
    | some a => pure a
    | none => rounds n body after

/-- A loop without a bound of its own; a program that uses up the fuel does not return. -/
def loop (fuel : Nat) (body : Prog S (Option α)) : Prog S α := rounds fuel body failure

def when (c : Bool) (m : Prog S Unit) : Prog S Unit := if c then m else pure ()

/-! ## Weakest liberal preconditions -/

/-- Whatever `m` returns from `s` satisfies `Q`. -/
def wlp (m : Prog S α) (s : S) (Q : α → S → Prop) : Prop :=
  ∀ a s', m s = some (a, s') → Q a s'

variable {m : Prog S α} {k : α → Prog S β} {s : S} {Q Q' : α → S → Prop}

theorem wlp_mono (h : wlp m s Q) (hQ : ∀ a s', Q a s' → Q' a s') : wlp m s Q' :=
  fun a s' hm => hQ a s' (h a s' hm)

variable {a : α}

@[simp] theorem wlp_pure : wlp (pure a) s Q ↔ Q a s := by
  constructor
  · intro h
    exact h a s rfl
  · rintro h _ _ ⟨⟩
    exact h

theorem bind_eq_some {b : β} {s' : S} (h : (m >>= k) s = some (b, s')) :
    ∃ a t, m s = some (a, t) ∧ k a t = some (b, s') := by
  obtain ⟨⟨a, t⟩, hm, hk⟩ := Option.bind_eq_some_iff.mp h
  exact ⟨a, t, hm, hk⟩

@[simp] theorem wlp_bind {Q : β → S → Prop} :
    wlp (m >>= k) s Q ↔ wlp m s fun a t => wlp (k a) t Q := by
  constructor
  · intro h a t hm b s' hk
    refine h b s' ?_
    show (m s).bind _ = _
    rw [hm]
    exact hk
  · intro h b s' hmk
    obtain ⟨a, t, hm, hk⟩ := bind_eq_some hmk
    exact h a t hm b s' hk

@[simp] theorem wlp_get {Q : S → S → Prop} : wlp get s Q ↔ Q s s := by
  constructor
  · intro h
    exact h s s rfl
  · rintro h _ _ ⟨⟩
    exact h

@[simp] theorem wlp_set {t : S} {Q : PUnit → S → Prop} : wlp (set t) s Q ↔ Q ⟨⟩ t := by
  constructor
  · intro h
    exact h ⟨⟩ t rfl
  · rintro h _ _ ⟨⟩
    exact h

variable {f : S → S}

@[simp] theorem wlp_modify {Q : PUnit → S → Prop} : wlp (modify f) s Q ↔ Q ⟨⟩ (f s) := by
  constructor
  · intro h
    exact h ⟨⟩ (f s) rfl
  · rintro h _ _ ⟨⟩
    exact h

@[simp] theorem wlp_failure : wlp (failure : Prog S α) s Q :=
  fun _ _ h => nomatch h

@[simp] theorem wlp_discard {Q : PUnit → S → Prop} :
    wlp (discard m) s Q ↔ wlp m s fun _ t => Q ⟨⟩ t := by
  constructor
  · intro h a t hm
    refine h ⟨⟩ t ?_
    show (m s).bind _ = _
    rw [hm]
    rfl
  · intro h a t hm
    obtain ⟨⟨b, t'⟩, hb, heq⟩ := Option.bind_eq_some_iff.mp hm
    cases heq
    exact h b t hb

/-! ## Weakest preconditions -/

/-- Run in `s`, the program returns, with a result that satisfies `Q`. -/
def wp (m : Prog S α) (s : S) (Q : α → S → Prop) : Prop :=
  ∃ a s', m s = some (a, s') ∧ Q a s'

theorem wp_mono (h : wp m s Q) (hQ : ∀ a s', Q a s' → Q' a s') : wp m s Q' := by
  obtain ⟨a, s', hm, ha⟩ := h
  exact ⟨a, s', hm, hQ a s' ha⟩

theorem wp_wlp (h : wp m s Q) : wlp m s Q := by
  obtain ⟨a, t, hm, hQ⟩ := h
  intro b u hm'
  rw [hm] at hm'
  cases hm'
  exact hQ

@[simp] theorem wp_pure : wp (pure a) s Q ↔ Q a s := by
  constructor
  · rintro ⟨_, _, ⟨⟩, h⟩
    exact h
  · intro h
    exact ⟨a, s, rfl, h⟩

@[simp] theorem wp_bind {Q : β → S → Prop} :
    wp (m >>= k) s Q ↔ wp m s fun a t => wp (k a) t Q := by
  constructor
  · rintro ⟨b, s', hmk, hQ⟩
    obtain ⟨a, t, hm, hk⟩ := bind_eq_some hmk
    exact ⟨a, t, hm, b, s', hk, hQ⟩
  · rintro ⟨a, t, hm, b, s', hk, hQ⟩
    refine ⟨b, s', ?_, hQ⟩
    show (m s).bind _ = _
    rw [hm]
    exact hk

@[simp] theorem wp_get {Q : S → S → Prop} : wp get s Q ↔ Q s s := wp_pure

@[simp] theorem wp_set {t : S} {Q : PUnit → S → Prop} : wp (set t) s Q ↔ Q ⟨⟩ t := by
  constructor
  · rintro ⟨_, _, ⟨⟩, h⟩
    exact h
  · intro h
    exact ⟨⟨⟩, t, rfl, h⟩

@[simp] theorem wp_modify {Q : PUnit → S → Prop} : wp (modify f) s Q ↔ Q ⟨⟩ (f s) := by
  show wp (set (f s)) s Q ↔ _
  exact wp_set

@[simp] theorem wp_discard {Q : PUnit → S → Prop} :
    wp (discard m) s Q ↔ wp m s fun _ t => Q ⟨⟩ t := by
  show wp (m >>= fun _ => pure PUnit.unit) s Q ↔ _
  simp only [wp_bind, wp_pure]

@[simp] theorem wp_when {c : Bool} {m : Prog S Unit} {Q : Unit → S → Prop} :
    wp (when c m) s Q ↔ if c then wp m s Q else Q () s := by
  cases c <;> simp [when]

/-! ## Programs as step sequences -/

/-- A property of the state that every step of `A` keeps. -/
def Stable (A : S → S → Prop) (P : S → Prop) : Prop := ∀ s t, A s t → P s → P t

variable {A : S → S → Prop}

/-- What every step keeps, any number of steps keep. -/
theorem Stable.run {P : S → Prop} (hP : Stable A P) {s t : S}
    (h : Relation.ReflTransGen A s t) (hs : P s) : P t := by
  induction h with
  | refl => exact hs
  | tail _ hlast ih => exact hP _ _ hlast ih

structure Invariant (A : S → S → Prop) where
  holds : S → Prop
  stable : Stable A holds

/-- From every state with the invariant on, the program takes steps of `A`. -/
def Does (P : Invariant A) (m : Prog S α) : Prop :=
  ∀ s, P.holds s → wlp m s fun _ t => Relation.ReflTransGen A s t

section Does

/-! The rules go backward over the program, one for each way to put programs together. -/

variable {P : Invariant A}

@[grind ←] theorem does_pure : Does P (pure a : Prog S α) :=
  fun _ _ => wlp_pure.mpr .refl

@[grind ←] theorem does_failure : Does P (failure : Prog S α) :=
  fun _ _ => wlp_failure

@[grind ←] theorem does_get : Does P get :=
  fun _ _ => wlp_get.mpr .refl

theorem does_modify (h : ∀ s, P.holds s → Relation.ReflTransGen A s (f s)) :
    Does P (modify f) :=
  fun s hs => wlp_modify.mpr (h s hs)

theorem does_bind_at (hs : P.holds s) (hm : wlp m s fun _ t => Relation.ReflTransGen A s t)
    (hk : ∀ a, Does P (k a)) : wlp (m >>= k) s fun _ t => Relation.ReflTransGen A s t := by
  rw [wlp_bind]
  refine wlp_mono hm fun a t hst => ?_
  exact wlp_mono (hk a t (P.stable.run hst hs)) fun _ _ htu => hst.trans htu

@[grind ←] theorem does_bind (hm : Does P m) (hk : ∀ a, Does P (k a)) : Does P (m >>= k) :=
  fun s hs => does_bind_at hs (hm s hs) hk

/-- Having looked at the state, a program may go on in a way that fits this state. -/
theorem does_get_bind {k : S → Prog S β}
    (hk : ∀ s, P.holds s → wlp (k s) s fun _ t => Relation.ReflTransGen A s t) :
    Does P (get >>= k) := by
  intro s hs
  exact hk s hs

/-- A program that computes its next state from the one it finds. -/
theorem does_get_set {g : S → S} {k : S → Prog S β}
    (h : ∀ s, P.holds s → Relation.ReflTransGen A s (g s)) (hk : ∀ s, Does P (k s)) :
    Does P (get >>= fun s => set (g s) >>= fun _ => k s) := by
  intro s hs
  exact wlp_mono (hk s (g s) (P.stable.run (h s hs) hs)) fun _ _ ht => (h s hs).trans ht

@[grind ←] theorem does_when {c : Bool} {m : Prog S Unit} (h : Does P m) : Does P (when c m) := by
  cases c with
  | false => exact does_pure
  | true => exact h

@[grind ←] theorem does_discard (h : Does P m) : Does P (discard m) :=
  fun s hs => wlp_discard.mpr (h s hs)

@[grind ←] theorem does_rounds {n : Nat} {body : Prog S (Option α)} {after : Prog S α}
    (hbody : Does P body) (hafter : Does P after) : Does P (rounds n body after) := by
  induction n with
  | zero => exact hafter
  | succ n ih =>
    refine does_bind hbody fun r => ?_
    cases r with
    | none => exact ih
    | some a => exact does_pure

@[grind ←] theorem does_loop {fuel : Nat} {body : Prog S (Option α)} (hbody : Does P body) :
    Does P (loop fuel body) :=
  does_rounds hbody does_failure

@[grind ←] theorem does_forM {γ : Type} {l : List γ} {f : γ → Prog S PUnit}
    (hf : ∀ x ∈ l, Does P (f x)) : Does P (l.forM f) := by
  induction l with
  | nil => exact does_pure
  | cons x l ih =>
    exact does_bind (hf x (by simp)) fun _ => ih fun y hy => hf y (by simp [hy])

@[grind ←] theorem does_mapM {γ : Type} {l : List γ} {f : γ → Prog S β}
    (hf : ∀ x, Does P (f x)) : Does P (l.mapM f) := by
  induction l with
  | nil => exact does_pure
  | cons x l ih =>
    rw [List.mapM_cons]
    exact does_bind (hf x) fun _ => does_bind ih fun _ => does_pure

end Does

end Prog

end Library
