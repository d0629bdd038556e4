/-
  WebTransportBun.Native.CapacityWait

  When the wait for stream capacity gets to see the capacity.  The waiter loads the counters
  before it registers, so what is freed between the two is neither seen nor notified; and a
  stream of another session notifies another notifier.
-/

import Mathlib.Order.Nat
import Mathlib.Data.List.GetD
import WebTransportBun.Native.StreamCapacity

namespace WebTransportBun.Native.StreamCapacity

open Library List Option Nat Trace

/-! ## What the waiter knows -/

/-- What the waiter has loaded so far lets its check pass. -/
def Phase.Fine (limits : Limits) (kind : Kind) : Phase → Prop
  | .globalLoaded g => g < limits.maxStreamsGlobal
  | .bidiLoaded g b =>
    g < limits.maxStreamsGlobal ∧ (kind = .bidi → b < limits.maxStreamsPerSessionBidi)
  | .viewed view | .registered view => view.hasCapacity limits kind = true
  | .idle | .loading | .suspended | .returned _ => True

variable {limits : Limits}

theorem Phase.fine_of_not_examining {kind : Kind} {phase : Phase}
    (h : ¬ phase.Examining) : phase.Fine limits kind := by
  cases phase with
  | idle | loading | suspended | returned => exact trivial
  | globalLoaded | bidiLoaded | viewed | registered => exact absurd trivial h

def Phase.Enrolled : Phase → Prop
  | .registered _ | .suspended => True
  | _ => False

namespace State

variable {limits : Limits} {s t : State} {op : Op}

structure Inv (limits : Limits) (s : State) : Prop where
  present : s.present = true
  outcome : ∀ o, s.waiter.phase = .returned o →
    o = .ok ∨ o = .backpressureTimeout ∧ s.waiter.deadline ≤ s.now
  enrolled : s.waiter.phase.Enrolled → s.waiter.wake ≠ .none
  fine : s.Available limits → s.waiter.phase.Fine limits s.waiter.kind
  /-- Asleep beside free capacity, the waiter has a notification to come. -/
  owed : s.Available limits → s.waiter.phase = .suspended → s.waiter.wake = .registered → s.Owed

theorem Inv.init (limits : Limits) : State.init.Inv limits where
  present := rfl
  outcome o h := by cases h
  enrolled h := h.elim
  fine _ := trivial
  owed _ h := by cases h

/-- A step that leaves the waiter alone. -/
theorem Inv.frame (h : s.Inv limits) (hwaiter : t.waiter = s.waiter)
    (hpresent : t.present = s.present) (hnow : s.now ≤ t.now) (howed : s.Owed → t.Owed)
    (hroom : ¬ s.Available limits → t.Available limits → ¬ s.waiter.phase.Examining ∧
        (s.waiter.phase = .suspended → s.waiter.wake = .registered → t.Owed)) : t.Inv limits where
  present := hpresent.trans h.present
  outcome o ho := by
    rw [hwaiter] at ho ⊢
    rcases h.outcome o ho with hok | ⟨htimeout, hdeadline⟩
    · exact .inl hok
    · exact .inr ⟨htimeout, Nat.le_trans hdeadline hnow⟩
  enrolled := by
    rw [hwaiter]
    exact h.enrolled
  fine havailable := by
    rw [hwaiter]
    by_cases hbefore : s.Available limits
    · exact h.fine hbefore
    · exact Phase.fine_of_not_examining (hroom hbefore havailable).1
  owed havailable hphase hwake := by
    rw [hwaiter] at hphase hwake
    by_cases hbefore : s.Available limits
    · exact howed (h.owed hbefore hphase hwake)
    · exact (hroom hbefore havailable).2 hphase hwake

/-! ## Streams come and go -/

variable {i : Nat}

theorem getElem?_putStream_ne {j : Nat} (h : i ≠ j) (s : State) (st : Stream) :
    (s.putStream i st).streams[j]? = s.streams[j]? := getElem?_set_ne h

variable {st : Stream}

theorem getElem?_putStream_self (hst : s.streams[i]? = some st)
    (st' : Stream) : (s.putStream i st').streams[i]? = some st' := by
  obtain ⟨hi, -⟩ := List.getElem?_eq_some_iff.mp hst
  exact getElem?_set_self hi

theorem Owed.putStream (h : s.Owed) (hst : s.streams[i]? = some st)
    (hnot : ¬ (st.session = s.waiter.session ∧ st.stage.Dropping)) (st' : Stream) :
    (s.putStream i st').Owed := by
  obtain ⟨owing, hmem, hown, hdropping⟩ := h
  obtain ⟨j, hj⟩ := mem_iff_getElem?.mp hmem
  have hij : i ≠ j := by grind
  refine ⟨owing, mem_iff_getElem?.mpr ⟨j, ?_⟩, hown, hdropping⟩
  rw [getElem?_putStream_ne hij, hj]

theorem owed_putStream {st' : Stream} (hst : s.streams[i]? = some st)
    (hown : st'.session = s.waiter.session) (hdropping : st'.stage.Dropping) :
    (s.putStream i st').Owed :=
  ⟨st', mem_iff_getElem?.mpr ⟨i, getElem?_putStream_self hst st'⟩, hown, hdropping⟩

theorem le_modify (active : Active) (session : Nat) (kind : Kind) (session' : Nat) (kind' : Kind) :
    active session' kind' ≤ active.modify session kind (· + 1) session' kind' := by
  unfold Active.modify
  split
  · exact le_succ _
  · exact le_rfl

section

variable (h : s.Inv limits)

include h

/-- Opening a stream makes no room and keeps what is owed. -/
theorem Inv.openStream
    (hst : s.streams[i]? = some st) (hopen : s.openStream limits i st = some t) : t.Inv limits := by
  have hframe : ∀ (st' : Stream) (g : Nat) (a : Active), ¬ st.stage.Dropping →
      s.globalActive ≤ g → (∀ session kind, s.active session kind ≤ a session kind) →
      { s.putStream i st' with globalActive := g, active := a }.Inv limits := by
    intro st' g a hstage hg ha
    refine h.frame rfl rfl le_rfl (fun howed => ?_) (fun hnot havailable => ?_)
    · exact howed.putStream hst (fun hdropping => hstage hdropping.2) st'
    · exact absurd ⟨Nat.lt_of_le_of_lt hg havailable.1,
        Nat.lt_of_le_of_lt (ha _ _) havailable.2⟩ hnot
  have hsame : ∀ session kind, s.active session kind ≤ s.active session kind :=
    fun _ _ => le_rfl
  unfold State.openStream at hopen
  split at hopen <;> rename_i hstage
  · cases hopen
    exact hframe _ s.globalActive s.active (by rw [hstage]; decide) le_rfl hsame
  · cases hopen
    exact hframe _ s.globalActive s.active (by rw [hstage]; decide) le_rfl hsame
  · cases hopen
    exact hframe _ _ s.active (by rw [hstage]; decide) (le_succ _) hsame
  · cases hopen
    exact hframe _ s.globalActive _ (by rw [hstage]; decide) le_rfl (le_modify _ _ _)
  · cases hopen

theorem Inv.notify (streams : List Stream) :
    { s with
      streams, waiter := { s.waiter with wake := s.waiter.wake.notify } }.Inv limits where
  present := h.present
  outcome := h.outcome
  enrolled henrolled := by
    rw [Ne, Wake.notify_eq_none]
    exact h.enrolled henrolled
  fine := h.fine
  owed _ _ hwake := absurd hwake Wake.notify_eq_registered

/-- A guard is dropped, with the waiter watching. -/
theorem Inv.dropGuard (hst : s.streams[i]? = some st) (hdrop : s.dropGuard i st = some t)
    (hwatched : s.Watched limits i (some t)) : t.Inv limits := by
  -- where room is made for a waiter that sleeps, the stream is one of its session
  have hroom : ¬ s.Available limits → t.Available limits →
      ¬ s.waiter.phase.Examining ∧ (s.waiter.phase = .suspended →
        s.waiter.wake = .registered → st.session = s.waiter.session) := by
    intro hnot havailable
    obtain ⟨hexamining, hown⟩ := hwatched hnot (decide_eq_true havailable)
    refine ⟨hexamining, fun hphase hwake => ?_⟩
    rcases hown hphase with hnotified | hown
    · rw [hwake] at hnotified
      cases hnotified
    · rw [hst] at hown
      exact of_decide_eq_true hown
  unfold State.dropGuard at hdrop
  split at hdrop <;> rename_i hstage
  · cases hdrop
    refine h.frame rfl rfl le_rfl (fun howed => ?_) (fun hnot havailable => ?_)
    · exact howed.putStream hst (fun hdropping => absurd hdropping.2 (by rw [hstage]; decide)) _
    · obtain ⟨hexamining, hown⟩ := hroom hnot havailable
      exact ⟨hexamining, fun hphase hwake => owed_putStream hst (hown hphase hwake) (.inl rfl)⟩
  · cases hdrop
    refine h.frame rfl rfl le_rfl (fun howed => ?_) (fun hnot havailable => ?_)
    · by_cases hown : st.session = s.waiter.session
      · exact owed_putStream hst hown (.inr rfl)
      · exact howed.putStream hst (fun hdropping => hown hdropping.1) _
    · obtain ⟨hexamining, hown⟩ := hroom hnot havailable
      exact ⟨hexamining, fun hphase hwake => owed_putStream hst (hown hphase hwake) (.inr rfl)⟩
  · cases hdrop
    unfold State.notify
    split
    · exact h.notify _
    · next hown =>
      refine h.frame rfl rfl le_rfl (fun howed => ?_) (fun hnot havailable => ?_)
      · exact howed.putStream hst (fun hdropping => hown hdropping.1) _
      · exact absurd havailable hnot
  · cases hdrop

theorem Inv.move {wake : Wake} {phase : Phase} (houtcome : ∀ o, phase = .returned o →
      o = .ok ∨ o = .backpressureTimeout ∧ s.waiter.deadline ≤ s.now)
    (henrolled : phase.Enrolled → wake ≠ .none)
    (hfine : s.Available limits → phase.Fine limits s.waiter.kind)
    (howed : s.Available limits → phase = .suspended → wake = .registered → s.Owed) :
    { s with waiter := { s.waiter with wake, phase } }.Inv limits :=
  ⟨h.present, houtcome, henrolled, hfine, howed⟩

theorem Inv.timeout (hdeadline : s.waiter.deadline ≤ s.now) :
    { s with waiter := { s.waiter with
      wake := .none, phase := .returned .backpressureTimeout } }.Inv limits := by
  refine h.move (fun o ho => ?_) nofun (fun _ => trivial) fun _ => nofun
  cases ho
  exact .inr ⟨rfl, hdeadline⟩

theorem Inv.advance {w : Waiter} (hw : s.advance limits = some w) :
    { s with waiter := w }.Inv limits := by
  have hfine := h.fine
  unfold State.advance at hw
  cases hphase : s.waiter.phase with
  | idle | returned =>
    simp only [hphase] at hw
    cases hw
  | loading =>
    simp only [hphase, h.present] at hw
    cases hw
    exact h.move nofun nofun (fun ha => ha.1) fun _ => nofun
  | globalLoaded g =>
    simp only [hphase] at hw hfine
    cases hw
    refine h.move nofun nofun (fun ha => ⟨hfine ha, fun hkind => ?_⟩) fun _ => nofun
    have hroom := ha.2
    rw [hkind] at hroom
    exact hroom
  | bidiLoaded g b =>
    simp only [hphase] at hw hfine
    cases hw
    refine h.move nofun nofun (fun ha => ?_) fun _ => nofun
    obtain ⟨hglobal, hbidi⟩ := hfine ha
    have hroom := ha.2
    show View.hasCapacity limits s.waiter.kind _ = true
    unfold View.hasCapacity
    cases hkind : s.waiter.kind with
    | bidi => simp [hglobal, hbidi hkind]
    | uni => grind [maxPerSession]
  | viewed view =>
    simp only [hphase] at hw hfine
    cases hw
    exact h.move nofun (fun _ => by decide) hfine fun _ => nofun
  | registered view =>
    simp only [hphase] at hw hfine
    split at hw
    · cases hw
      refine h.move (fun o ho => ?_) nofun (fun _ => trivial) fun _ => nofun
      cases ho
      exact .inl rfl
    · next hfull =>
      split at hw
      · next hdeadline =>
        cases hw
        exact h.timeout hdeadline
      · -- the view was full, and so were the counters
        cases hw
        refine h.move nofun (fun _ => ?_) (fun _ => trivial) fun ha _ _ => ?_
        · exact h.enrolled (by rw [hphase]; exact trivial)
        · exact absurd (hfine ha) hfull
  | suspended =>
    simp only [hphase] at hw
    split at hw
    · cases hw
      exact h.move nofun nofun (fun _ => trivial) fun _ => nofun
    · split at hw
      · next hdeadline =>
        cases hw
        exact h.timeout hdeadline
      · cases hw

theorem Inv.step (hstep : restrict (Prompt limits) (Step limits) s op t) :
    t.Inv limits := by
  obtain ⟨hprompt, hstep⟩ := hstep
  cases op with
  | call session kind timeoutMs =>
    obtain ⟨-, ht⟩ := ite_none_right_eq_some.mp hstep
    cases ht
    exact ⟨h.present, nofun, nofun, fun _ => trivial, fun _ => nofun⟩
  | waiter =>
    obtain ⟨w, hw, rfl⟩ := map_eq_some_iff.mp hstep
    exact h.advance hw
  | «open» session kind =>
    cases hstep
    refine h.frame rfl rfl le_rfl ?_ (fun hnot ha => absurd ha hnot)
    rintro ⟨st, hmem, howing⟩
    exact ⟨st, mem_append_left _ hmem, howing⟩
  | opening i =>
    obtain ⟨st, hst, hopen⟩ := bind_eq_some_iff.mp hstep
    exact h.openStream hst hopen
  | close i =>
    obtain ⟨st, hst, hdrop⟩ := bind_eq_some_iff.mp hstep
    have hwatched : s.Watched limits i (s.exec limits (.close i)) := hprompt
    rw [show s.exec limits (.close i) = some t from hstep] at hwatched
    exact h.dropGuard (filter_eq_some_iff.mp hst).1 hdrop hwatched
  | closing i =>
    obtain ⟨st, hst, hdrop⟩ := bind_eq_some_iff.mp hstep
    have hwatched : s.Watched limits i (s.exec limits (.closing i)) := hprompt
    rw [show s.exec limits (.closing i) = some t from hstep] at hwatched
    exact h.dropGuard (filter_eq_some_iff.mp hst).1 hdrop hwatched
  | remove => exact hprompt.elim
  | tick now =>
    obtain ⟨hnow, ht⟩ := ite_none_left_eq_some.mp hstep
    cases ht
    exact h.frame rfl rfl (Nat.not_lt.mp hnow) id (fun hnot ha => absurd ha hnot)

end

/-! ## The wait comes to an end -/

theorem dropGuard_frame {j : Nat} (hdrop : s.dropGuard i st = some t) :
    (t.waiter = s.waiter ∨ t.waiter = { s.waiter with wake := s.waiter.wake.notify }) ∧
      (i ≠ j → t.streams[j]? = s.streams[j]?) := by
  unfold dropGuard at hdrop
  split at hdrop
  · cases hdrop
    exact ⟨.inl rfl, fun hij => getElem?_putStream_ne hij ..⟩
  · cases hdrop
    exact ⟨.inl rfl, fun hij => getElem?_putStream_ne hij ..⟩
  · cases hdrop
    unfold notify
    split
    · exact ⟨.inr rfl, fun hij => getElem?_putStream_ne hij ..⟩
    · exact ⟨.inl rfl, fun hij => getElem?_putStream_ne hij ..⟩
  · cases hdrop

theorem openStream_frame (hopen : s.openStream limits i st = some t) :
    t.waiter = s.waiter ∧ ∃ st', t.streams = s.streams.set i st' := by
  unfold openStream at hopen
  split at hopen <;> cases hopen <;> exact ⟨rfl, _, rfl⟩

/-- A step of others finds the waiter where it was, and at most notifies it. -/
theorem waiter_of_other (hstep : Step limits s op t) (hop : op ≠ .waiter)
    (hphase : s.waiter.phase ≠ .idle) :
    t.waiter = s.waiter ∨ t.waiter = { s.waiter with wake := s.waiter.wake.notify } := by
  cases op with
  | call session kind timeoutMs =>
    obtain ⟨hidle, -⟩ := ite_none_right_eq_some.mp hstep
    exact absurd hidle hphase
  | waiter => exact absurd rfl hop
  | «open» session kind =>
    cases hstep
    exact .inl rfl
  | opening i =>
    obtain ⟨st, -, hopen⟩ := bind_eq_some_iff.mp hstep
    exact .inl (openStream_frame hopen).1
  | close i | closing i =>
    obtain ⟨st, -, hdrop⟩ := bind_eq_some_iff.mp hstep
    exact (dropGuard_frame (j := i) hdrop).1
  | remove =>
    cases hstep
    unfold notify
    rw [if_pos rfl]
    exact .inr rfl
  | tick now =>
    obtain ⟨-, ht⟩ := ite_none_left_eq_some.mp hstep
    cases ht
    exact .inl rfl

/-- Nobody else moves a stream whose guard is being dropped. -/
theorem stream_of_other (hst : s.streams[i]? = some st)
    (hdropping : st.stage.Dropping) (hstep : Step limits s op t) (hop : op ≠ .closing i) :
    t.streams[i]? = some st := by
  cases op with
  | call session kind timeoutMs =>
    obtain ⟨-, ht⟩ := ite_none_right_eq_some.mp hstep
    cases ht
    exact hst
  | waiter =>
    obtain ⟨w, -, rfl⟩ := map_eq_some_iff.mp hstep
    exact hst
  | «open» session kind =>
    cases hstep
    exact List.getElem?_append_left (List.getElem?_eq_some_iff.mp hst).1 ▸ hst
  | opening j =>
    obtain ⟨st', hst', hopen⟩ := bind_eq_some_iff.mp hstep
    have hji : j ≠ i := by
      rintro rfl
      rw [hst] at hst'
      cases hst'
      rcases hdropping with hstage | hstage <;> simp [openStream, hstage] at hopen
    obtain ⟨-, new, hstreams⟩ := openStream_frame hopen
    rw [hstreams, getElem?_set_ne hji, hst]
  | close j =>
    obtain ⟨st', hst', hdrop⟩ := bind_eq_some_iff.mp hstep
    obtain ⟨hst', hlive⟩ := filter_eq_some_iff.mp hst'
    have hji : j ≠ i := by
      rintro rfl
      rw [hst] at hst'
      cases hst'
      rcases hdropping with hstage | hstage <;> simp [hstage] at hlive
    rw [(dropGuard_frame hdrop).2 hji, hst]
  | closing j =>
    obtain ⟨st', -, hdrop⟩ := bind_eq_some_iff.mp hstep
    have hji : j ≠ i := fun hji => hop (congrArg _ hji)
    rw [(dropGuard_frame hdrop).2 hji, hst]
  | remove =>
    cases hstep
    unfold notify
    rw [if_pos rfl]
    exact hst
  | tick now =>
    obtain ⟨-, ht⟩ := ite_none_left_eq_some.mp hstep
    cases ht
    exact hst

/-- The waiter sleeps, and stream `i` owes it a notification. -/
structure Sleeping (limits : Limits) (s : State) (i : Nat) : Prop where
  inv : s.Inv limits
  phase : s.waiter.phase = .suspended
  wake : s.waiter.wake = .registered
  owing : ∃ st, s.streams[i]? = some st ∧ st.session = s.waiter.session ∧ st.stage.Dropping

def Awake (s : State) : Prop :=
  s.waiter.phase = .loading ∨ s.waiter.phase.Examining ∨
    s.waiter.phase = .suspended ∧ s.waiter.wake = .notified

/-- How many steps of its drop stream `i` is away from the notification. -/
def dropRank (i : Nat) (s : State) : Nat :=
  s.streams[i]?.elim 0 fun st => if st.stage = .leaving then 2 else 1

section

variable (h : s.Sleeping limits i)

include h

theorem Sleeping.not_waiter (hprompt : s.Prompt limits .waiter) :
    ¬ Step limits s .waiter t := by
  intro hstep
  obtain ⟨w, hw, -⟩ := map_eq_some_iff.mp hstep
  obtain ⟨st, hst, hown, hdropping⟩ := h.owing
  have hnot : s.waiter.wake ≠ .notified := by
    rw [h.wake]
    decide
  unfold advance at hw
  simp only [h.phase, if_neg hnot] at hw
  split at hw
  · next hdeadline =>
    exact hprompt ⟨h.phase, hnot, hdeadline, st, mem_of_getElem? hst, hown, hdropping⟩
  · cases hw

theorem Sleeping.step (hstep : restrict (Prompt limits) (Step limits) s op t) :
    (t.Inv limits ∧ t.Awake) ∨
      t.Sleeping limits i ∧ t.dropRank i ≤ s.dropRank i ∧
        (op = .closing i → t.dropRank i < s.dropRank i) := by
  have hinv := h.inv.step hstep
  obtain ⟨hprompt, hstep⟩ := hstep
  obtain ⟨st, hst, hown, hdropping⟩ := h.owing
  by_cases hop : op = .closing i
  · subst hop
    obtain ⟨st', hst', hdrop⟩ := bind_eq_some_iff.mp hstep
    obtain ⟨hst', -⟩ := filter_eq_some_iff.mp hst'
    obtain rfl := Option.some.inj (hst.symm.trans hst')
    rcases hdropping with hstage | hstage
    · -- the session's counter is given back
      simp only [dropGuard, hstage] at hdrop
      cases hdrop
      refine .inr ⟨⟨hinv, h.phase, h.wake, _, getElem?_putStream_self hst _, hown, .inr rfl⟩, ?_⟩
      have hlt : dropRank i (s.putStream i { st with stage := .left }) < s.dropRank i := by
        simp [dropRank, getElem?_putStream_self hst, hst, hstage]
      exact ⟨Nat.le_of_lt hlt, fun _ => hlt⟩
    · -- the notification
      simp only [dropGuard, hstage, notify] at hdrop
      rw [if_pos (show st.session = (s.putStream i _).waiter.session from hown)] at hdrop
      cases hdrop
      refine .inl ⟨hinv, .inr (.inr ⟨h.phase, ?_⟩)⟩
      show s.waiter.wake.notify = .notified
      rw [h.wake]
      rfl
  · have hwaiter : op ≠ .waiter := by
      rintro rfl
      exact h.not_waiter hprompt hstep
    have hsame := stream_of_other hst hdropping hstep hop
    have hidle : s.waiter.phase ≠ .idle := by
      rw [h.phase]
      decide
    rcases waiter_of_other hstep hwaiter hidle with heq | heq
    · refine .inr ⟨⟨hinv, heq ▸ h.phase, heq ▸ h.wake, st, hsame, heq ▸ hown, hdropping⟩, ?_⟩
      refine ⟨?_, fun hclosing => absurd hclosing hop⟩
      exact Nat.le_of_eq (by rw [dropRank, dropRank, hsame, hst])
    · refine .inl ⟨hinv, .inr (.inr ⟨?_, ?_⟩)⟩
      · rw [heq]
        exact h.phase
      · rw [heq]
        rw [h.wake]
        rfl

theorem Sleeping.enabled :
    Enabled (restrict (Prompt limits) (Step limits)) (· = .closing i) s := by
  obtain ⟨st, hst, hown, hdropping⟩ := h.owing
  have hwatched : ∀ next, s.Watched limits i next := by
    intro next _ _
    refine ⟨?_, fun _ => .inr ?_⟩
    · rw [h.phase]
      exact id
    · rw [hst]
      exact decide_eq_true hown
  have hexec : (s.exec limits (.closing i)).isSome := by
    rcases hdropping with hstage | hstage <;> simp [exec, hst, filter_some, hstage, dropGuard]
  obtain ⟨t, ht⟩ := isSome_iff_exists.mp hexec
  exact ⟨.closing i, t, rfl, hwatched _, ht⟩

end

/-- How many steps the waiter is away from its return. -/
def wakeRank (s : State) : Nat :=
  match s.waiter.phase with
  | .suspended => 6
  | .loading => 5
  | .globalLoaded _ => 4
  | .bidiLoaded .. => 3
  | .viewed _ => 2
  | .registered _ => 1
  | .idle | .returned _ => 0

theorem Awake.notified (h : s.Awake) (hphase : s.waiter.phase = .suspended) :
    s.waiter.wake = .notified := by
  rcases h with hloading | hexamining | ⟨-, hnotified⟩
  · rw [hphase] at hloading
    cases hloading
  · rw [hphase] at hexamining
    exact hexamining.elim
  · exact hnotified

/-- With capacity at hand, a step of a waiter that is awake leads towards its return. -/
theorem Inv.wake_advance (h : s.Inv limits) (havailable : s.Available limits) (hawake : s.Awake)
    {w : Waiter} (hw : s.advance limits = some w) :
    w.phase = .returned .ok ∨
      { s with waiter := w }.Awake ∧ { s with waiter := w }.wakeRank < s.wakeRank := by
  have hfine := h.fine havailable
  unfold State.advance at hw
  cases hphase : s.waiter.phase with
  | idle | returned =>
    simp only [hphase] at hw
    cases hw
  | loading =>
    simp only [hphase, h.present] at hw
    cases hw
    exact .inr ⟨.inr (.inl trivial), by simp [wakeRank, hphase]⟩
  | globalLoaded g | bidiLoaded g b | viewed view =>
    simp only [hphase] at hw
    cases hw
    exact .inr ⟨.inr (.inl trivial), by simp [wakeRank, hphase]⟩
  | registered view =>
    rw [hphase] at hfine
    have hcapacity : view.hasCapacity limits s.waiter.kind = true := hfine
    simp only [hphase] at hw
    rw [if_pos hcapacity] at hw
    cases hw
    exact .inl rfl
  | suspended =>
    simp only [hphase, if_pos (hawake.notified hphase)] at hw
    cases hw
    exact .inr ⟨.inl rfl, by simp [wakeRank, hphase]⟩

theorem Awake.not_idle (h : s.Awake) : s.waiter.phase ≠ .idle := by
  intro hidle
  rcases h with hloading | hexamining | ⟨hsuspended, -⟩
  · rw [hidle] at hloading
    cases hloading
  · rw [hidle] at hexamining
    exact hexamining
  · rw [hidle] at hsuspended
    cases hsuspended

theorem Awake.notify (h : s.Awake)
    (heq : t.waiter = { s.waiter with wake := s.waiter.wake.notify }) : t.Awake := by
  unfold Awake
  rw [heq]
  rcases h with hloading | hexamining | ⟨hsuspended, hnotified⟩
  · exact .inl hloading
  · exact .inr (.inl hexamining)
  · refine .inr (.inr ⟨hsuspended, ?_⟩)
    rw [hnotified]
    rfl

theorem Awake.step (hawake : s.Awake) (h : s.Inv limits) (havailable : s.Available limits)
    (hstep : Step limits s op t) : t.waiter.phase = .returned .ok ∨
      t.Awake ∧ t.wakeRank ≤ s.wakeRank ∧ (op = .waiter → t.wakeRank < s.wakeRank) := by
  by_cases hop : op = .waiter
  · subst hop
    obtain ⟨w, hw, rfl⟩ := map_eq_some_iff.mp hstep
    rcases h.wake_advance havailable hawake hw with hok | ⟨hawake', hlt⟩
    · exact .inl hok
    · exact .inr ⟨hawake', Nat.le_of_lt hlt, fun _ => hlt⟩
  · have hrank : t.waiter.phase = s.waiter.phase → t.wakeRank ≤ s.wakeRank ∧
        (op = .waiter → t.wakeRank < s.wakeRank) := by
      intro hphase
      rw [wakeRank, hphase]
      exact ⟨le_rfl, fun hwaiter => absurd hwaiter hop⟩
    rcases waiter_of_other hstep hop hawake.not_idle with heq | heq
    · grind [Awake]
    · exact .inr ⟨hawake.notify heq, hrank (by rw [heq])⟩

theorem Awake.enabled (hawake : s.Awake) (h : s.Inv limits) :
    Enabled (restrict (Prompt limits) (Step limits)) (· = .waiter) s := by
  have hprompt : s.Prompt limits .waiter := by
    rintro ⟨hphase, hnot, -⟩
    exact hnot (hawake.notified hphase)
  have hsome : (s.advance limits).isSome := by
    unfold advance
    rcases hawake with hloading | hexamining | ⟨hsuspended, hnotified⟩
    · simp [hloading, h.present]
    · cases hphase : s.waiter.phase with
      | idle | loading | suspended | returned =>
        rw [hphase] at hexamining
        exact hexamining.elim
      | globalLoaded | bidiLoaded | viewed => simp only [hphase, isSome_some]
      | registered view => grind
    · simp [hsuspended, hnotified]
  obtain ⟨w, hw⟩ := isSome_iff_exists.mp hsome
  refine ⟨.waiter, { s with waiter := w }, rfl, hprompt, ?_⟩
  show (s.advance limits).map _ = _
  rw [hw]
  rfl

end State

open State

/-- If room is made under the waiter's eyes, by streams of its own session when it sleeps, and
    each guard gets to its notification before the wait runs out of time, then a wait that has
    capacity from some moment before its deadline on returns `Ok`. -/
theorem capacity_wait_returns {limits : Limits}
    (σ : Trace (restrict (Prompt limits) (Step limits))) (hstart : σ.state 0 = .init)
    (hwaiter : σ.Fair (· = .waiter)) (hclosing : ∀ i, σ.Fair (· = .closing i)) {n : Nat}
    (hcalled : (σ.state n).waiter.phase ≠ .idle)
    (htime : (σ.state n).now < (σ.state n).waiter.deadline)
    (havailable : ∀ m ≥ n, (σ.state m).Available limits) :
    ∃ m ≥ n, (σ.state m).waiter.phase = .returned .ok := by
  have hinv : (σ.state n).Inv limits :=
    σ.invariant (fun _ _ _ h => h.step) (zero_le n) (hstart ▸ Inv.init limits)
  -- a waiter that is awake goes on to return
  have hreturn : ∀ m ≥ n, (σ.state m).Inv limits → (σ.state m).Awake →
      ∃ k ≥ m, (σ.state k).waiter.phase = .returned .ok := by
    intro m hm hinv hawake
    refine eventually_while hwaiter meets_true
      (Q := fun s => s.waiter.phase = .returned .ok)
      (P := fun s => s.Inv limits ∧ s.Available limits ∧ s.Awake) wakeRank ?_ ?_
      (fun k hk => havailable k (Nat.le_trans hm hk)) ⟨hinv, havailable m hm, hawake⟩
    · rintro s op t ⟨hinv, hroom, hawake⟩ hroom' - hstep
      rcases hawake.step hinv hroom hstep.2 with hok | ⟨hawake', hrank⟩
      · exact .inl hok
      · exact .inr ⟨⟨hinv.step hstep, hroom', hawake'⟩, hrank⟩
    · rintro s ⟨hinv, -, hawake⟩
      exact hawake.enabled hinv
  cases hphase : (σ.state n).waiter.phase with
  | idle => exact absurd hphase hcalled
  | loading => exact hreturn n (Nat.le_refl n) hinv (.inl hphase)
  | globalLoaded | bidiLoaded | viewed | registered =>
    refine hreturn n (Nat.le_refl n) hinv (.inr (.inl ?_))
    rw [hphase]
    exact trivial
  | returned o =>
    rcases hinv.outcome o hphase with rfl | ⟨-, hlate⟩
    · exact ⟨n, Nat.le_refl n, hphase⟩
    · exact absurd htime (Nat.not_lt.mpr hlate)
  | suspended =>
    cases hwake : (σ.state n).waiter.wake with
    | none => exact absurd hwake (hinv.enrolled (by rw [hphase]; exact trivial))
    | notified => exact hreturn n (Nat.le_refl n) hinv (.inr (.inr ⟨hphase, hwake⟩))
    | registered =>
      -- asleep, but a notification is on its way
      obtain ⟨st, hmem, hown, hdropping⟩ :=
        hinv.owed (havailable n (Nat.le_refl n)) hphase hwake
      obtain ⟨i, hi⟩ := mem_iff_getElem?.mp hmem
      obtain ⟨m, hm, hinv', hawake⟩ := eventually (hclosing i)
        (P := fun s => s.Sleeping limits i) (dropRank i)
        (fun _ _ _ h => h.step) (fun _ h => h.enabled)
        ⟨hinv, hphase, hwake, st, hi, hown, hdropping⟩
      obtain ⟨k, hk, hok⟩ := hreturn m hm hinv' hawake
      exact ⟨k, Nat.le_trans hm hk, hok⟩

/-! ## Two runs -/

variable {s : State}

theorem exec_tick_now (limits : Limits) {now : Nat} (h : s.now = now) :
    s.exec limits (.tick now) = some s := by
  subst h
  exact if_neg (Nat.lt_irrefl _)

theorem not_enabled_waiter {step : State → Op → State → Prop}
    (hstep : ∀ op t, step s op t → Step limits s op t) {o : Outcome}
    (hphase : s.waiter.phase = .returned o) : ¬ Enabled step (· = .waiter) s := by
  rintro ⟨op, t, rfl, h⟩
  obtain ⟨w, hw, -⟩ := map_eq_some_iff.mp (hstep _ _ h)
  simp only [advance, hphase] at hw
  cases hw

theorem not_enabled_closing {step : State → Op → State → Prop}
    (hstep : ∀ op t, step s op t → Step limits s op t)
    (hgone : ∀ st ∈ s.streams, st.stage = .gone) (i : Nat) : ¬ Enabled step (· = .closing i) s := by
  rintro ⟨op, t, rfl, h⟩
  obtain ⟨st, hst, hdrop⟩ := bind_eq_some_iff.mp (hstep _ _ h)
  have hstage := hgone st (mem_of_getElem? (filter_eq_some_iff.mp hst).1)
  simp only [dropGuard, hstage] at hdrop
  cases hdrop

def oneStream : Limits := { maxStreamsPerSessionBidi := 1 }

/-- The only stream of session 0 is open, and a call waits for the next. -/
def waiting : List Op :=
  [.open 0 .bidi, .opening 0, .opening 0, .opening 0, .opening 0, .call 0 .bidi 1000]

def closedAsleep (n : Nat) : Op :=
  (waiting ++ replicate 5 .waiter ++ [.close 0, .closing 0, .closing 0] ++
    replicate 6 .waiter : List Op).getD n (.tick 0)

theorem capacity_wait_returns_woken :
    ∃ σ : Trace (restrict (Prompt oneStream) (Step oneStream)), σ.state 0 = .init ∧
      (σ.state 11).waiter.phase = .suspended ∧
      ∃ m ≥ 13, (σ.state m).waiter.phase = .returned .ok := by
  have hls : ∀ n ≥ 20, closedAsleep n = .tick 0 := fun n hn => getD_eq_default _ _ hn
  have hloop : guarded (Prompt oneStream) (exec oneStream)
      (following (guarded (Prompt oneStream) (exec oneStream)) closedAsleep .init 20)
        (.tick 0) = some _ :=
    (if_pos trivial).trans (exec_tick_now oneStream (by decide +kernel))
  refine ⟨follow (fun _ _ _ => restrict_of_guarded) closedAsleep .init, rfl,
    by decide +kernel, ?_⟩
  refine capacity_wait_returns _ rfl ?_ ?_ (by decide +kernel) (by decide +kernel) ?_
  · exact follow_fair_of_not_enabled hls hloop
      (not_enabled_waiter (fun _ _ h => h.2) (o := .ok) (by decide +kernel))
  · intro i
    exact follow_fair_of_not_enabled hls hloop
      (not_enabled_closing (fun _ _ h => h.2) (by decide +kernel) i)
  · intro m hm
    have hfew : ∀ k ≤ 20, 13 ≤ k → (following (guarded (Prompt oneStream) (exec oneStream))
        closedAsleep .init k).Available oneStream := by decide +kernel
    by_cases hlate : m ≤ 20
    · exact hfew m hlate hm
    · show (following _ closedAsleep init m).Available oneStream
      rw [following_stay (same_of_loop hls hloop) (Nat.le_of_not_le hlate)]
      exact hfew 20 le_rfl (by decide)

/-- The stream is closed after the waiter has loaded the counters and before it registers. -/
def closedUnseen (n : Nat) : Op :=
  (waiting ++ replicate 3 .waiter ++ [.close 0, .closing 0, .closing 0] ++
    replicate 2 .waiter ++ [.tick 1000, .waiter] : List Op).getD n (.tick 1000)

/-- The waiter checks the view from before the close and sleeps through its deadline, next to
    capacity that was free all the time. -/
theorem capacity_wait_misses_close :
    ∃ σ : Trace (Step oneStream), σ.state 0 = .init ∧ σ.Fair (· = .waiter) ∧
      (∀ i, σ.Fair (· = .closing i)) ∧ (σ.state 11).waiter.phase ≠ .idle ∧
      (σ.state 11).now < (σ.state 11).waiter.deadline ∧
      (∀ m ≥ 11, (σ.state m).Available oneStream) ∧
      ∀ m ≥ 16, (σ.state m).waiter.phase = .returned .backpressureTimeout := by
  have hls : ∀ n ≥ 16, closedUnseen n = .tick 1000 := fun n hn => getD_eq_default _ _ hn
  have hloop : exec oneStream (following (exec oneStream) closedUnseen .init 16)
      (.tick 1000) = some _ := exec_tick_now oneStream (by decide +kernel)
  have hend : (following (exec oneStream) closedUnseen .init 16).waiter.phase =
      .returned .backpressureTimeout := by decide +kernel
  refine ⟨follow (fun _ _ _ => id) closedUnseen .init, rfl, ?_, fun i => ?_,
    by decide +kernel, by decide +kernel, fun m hm => ?_, fun m hm => ?_⟩
  · exact follow_fair_of_not_enabled hls hloop (not_enabled_waiter (fun _ _ => id) hend)
  · exact follow_fair_of_not_enabled hls hloop
      (not_enabled_closing (fun _ _ => id) (by decide +kernel) i)
  · have hfew : ∀ k ≤ 16, 11 ≤ k →
        (following (exec oneStream) closedUnseen .init k).Available oneStream := by
      decide +kernel
    by_cases hlate : m ≤ 16
    · exact hfew m hlate hm
    · show (following _ closedUnseen init m).Available oneStream
      rw [following_stay (same_of_loop hls hloop) (Nat.le_of_not_le hlate)]
      exact hfew 16 le_rfl (by decide)
  · show (following _ closedUnseen init m).waiter.phase = _
    rw [following_stay (same_of_loop hls hloop) hm]
    exact hend

end WebTransportBun.Native.StreamCapacity
