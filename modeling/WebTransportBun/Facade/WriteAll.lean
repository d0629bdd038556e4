/-
  WebTransportBun.Facade.WriteAll

  `WasmStream.writeAll` (`packages/webtransport/src/backend.ts`): the bytes of a caller's
  buffer, written in as many `wt_stream_write` calls as the flow-control window makes of
  them.

  A write copies what it accepts and then pumps the endpoint, and the pump runs event
  callbacks before `streamWrite` returns (`backend-wasm.ts`); an await gives the caller
  control as well.  Either may overwrite the buffer, resize the memory behind it or transfer
  that away, which leaves an array of length 0.  A script of rounds says what the endpoint and
  the clock do in each turn of the loop, and what the user's code leaves in the buffer.

  The loop reads `data.length` again in every turn and takes its snapshot behind the pump of
  the first write.  It writes the caller's bytes, whatever the endpoint does, iff the callbacks
  of that pump leave the buffer as it was and none makes it shorter than it was
  (`writeAll_faithful_iff`).
-/

import Mathlib.Data.List.Basic

namespace WebTransportBun.Facade.WriteAll

open List

abbrev Bytes := List UInt8

structure Reply where
  /-- `stopCode` when the turn begins. -/
  stopCode : Option Nat := none
  /-- The count `wt_stream_write` accepts, or the error `_streamWriteError` makes of its
      failure. -/
  write : Except String Nat
  /-- Whether the stall deadline has passed. -/
  expired : Bool := false

/-- What the user's code leaves in the buffer. -/
structure Callbacks where
  /-- Behind the callbacks of the pump. -/
  pumped : Bytes
  /-- Behind the await. -/
  awaited : Bytes

/-- The variables of the loop, and the bytes the endpoint has accepted. -/
structure Writing where
  data : Bytes
  owned : Option Bytes := none
  off : Nat := 0
  accepted : Bytes := []

inductive Outcome
  | resolved
  | rejected (message : String)
  | pending
  deriving DecidableEq, Repr

/-- What the next write is handed: `subarray(off)` of the snapshot, or of the buffer while
    there is none. -/
def Writing.view (w : Writing) : Bytes := (w.owned.getD w.data).drop w.off

def Writing.turn (w : Writing) (reply : Reply) (user : Callbacks) : Option String × Writing :=
  match reply.stopCode with
  | some code => (some s!"E_STOP_SENDING: stream stopped by peer (code {code})", w)
  | none =>
    match reply.write with
    | .error message => (some message, { w with data := user.pumped })
    | .ok count =>
      let taken := min count w.view.length
      let w := { w with
        accepted := w.accepted ++ w.view.take taken
        off := w.off + taken
        data := user.pumped }
      if w.off < w.data.length then
        if reply.expired then
          (some ("E_BACKPRESSURE_TIMEOUT: stream write remained blocked past " ++
            "backpressureTimeoutMs"), w)
        else
          -- the snapshot is taken here, behind the pump of the write
          (none, { w with owned := w.owned.or (some w.data), data := user.awaited })
      else (none, w)

/-- `while (off < data.length)`, as far as the script goes. -/
def Writing.drain : List (Reply × Callbacks) → Writing → Outcome × Bytes
  | [], w => (if w.off < w.data.length then .pending else .resolved, w.accepted)
  | (reply, user) :: rounds, w =>
    if w.off < w.data.length then
      match w.turn reply user with
      | (some message, w) => (.rejected message, w.accepted)
      | (none, w) => drain rounds w
    else (.resolved, w.accepted)

/-- `writeAll(data)` on a buffer with this content: how it ends, and the bytes the
    endpoint accepted for it. -/
def writeAll (content : Bytes) (script : List (Reply × Callbacks)) : Outcome × Bytes :=
  Writing.drain script { data := content }

/-- The caller's bytes, all of them if the promise resolved. -/
def Faithful (content : Bytes) : Outcome × Bytes → Prop
  | (.resolved, accepted) => accepted = content
  | (_, accepted) => accepted <+: content

theorem Faithful.isPrefix {content : Bytes} {result : Outcome × Bytes}
    (h : Faithful content result) : result.2 <+: content := by
  match result, h with
  | (.resolved, _), heq => exact heq ▸ prefix_rfl
  | (.rejected _, _), hpre | (.pending, _), hpre => exact hpre

variable {content : Bytes} {w : Writing} {script : List (Reply × Callbacks)}

theorem drain_done (script : List (Reply × Callbacks)) (hdone : w.data.length ≤ w.off) :
    w.drain script = (.resolved, w.accepted) := by
  cases script with
  | nil | cons => rw [Writing.drain, if_neg (Nat.not_lt.mpr hdone)]

/-! ## Callbacks that leave the buffer alone -/

/-- So far the endpoint has the first bytes of the content, and the buffer is no shorter. -/
structure Writing.Sound (w : Writing) (content : Bytes) : Prop where
  accepted : w.accepted = content.take w.off
  data : content.length ≤ w.data.length

/-- The callbacks leave at least as many bytes in the buffer as the content has. -/
def Callbacks.Long (user : Callbacks) (content : Bytes) : Prop :=
  content.length ≤ user.pumped.length ∧ content.length ≤ user.awaited.length

theorem Writing.Sound.all_accepted (h : w.Sound content) (hdone : w.data.length ≤ w.off) :
    w.accepted = content := by
  rw [h.accepted, take_of_length_le (Nat.le_trans h.data hdone)]

/-- A turn that writes from the content keeps this, and goes on with a snapshot of what the pump
    left or the one it had. -/
theorem Writing.Sound.turn (h : w.Sound content) (hview : w.view = content.drop w.off)
    (reply : Reply) {user : Callbacks} (hlong : user.Long content) :
    (w.turn reply user).2.accepted <+: content ∧ ((w.turn reply user).1 = none →
      (w.turn reply user).2.Sound content ∧
      ((w.turn reply user).2.data.length ≤ (w.turn reply user).2.off ∨
        (w.turn reply user).2.owned = w.owned.or (some user.pumped))) := by
  have hpre : w.accepted <+: content := h.accepted ▸ take_prefix ..
  have htake : ∀ k, w.accepted ++ w.view.take k = content.take (w.off + k) := fun k => by
    rw [h.accepted, hview, ← take_add]
  simp only [Writing.turn]
  split
  · exact ⟨hpre, nofun⟩
  · split
    · exact ⟨hpre, nofun⟩
    · simp only [htake]
      split
      · split
        · exact ⟨ take_prefix .., nofun⟩
        · exact ⟨ take_prefix .., fun _ => ⟨⟨rfl, hlong.2⟩, .inr rfl⟩⟩
      · next hdone =>
        exact ⟨ take_prefix .., fun _ => ⟨⟨rfl, hlong.1⟩, .inl (Nat.le_of_not_lt hdone)⟩⟩

theorem Writing.Sound.drain_nil (h : w.Sound content) : Faithful content (w.drain []) := by
  rw [Writing.drain]
  split
  · exact h.accepted ▸ take_prefix ..
  · next hdone => exact h.all_accepted (Nat.le_of_not_lt hdone)

/-- With a snapshot of the content the loop is faithful. -/
theorem Writing.Sound.drain (h : w.Sound content) (howned : w.owned = some content)
    (hlong : ∀ round ∈ script, round.2.Long content) : Faithful content (w.drain script) := by
  induction script generalizing w with
  | nil => exact h.drain_nil
  | cons round script ih =>
    obtain ⟨reply, user⟩ := round
    have hview : w.view = content.drop w.off := by rw [Writing.view, howned, Option.getD_some]
    obtain ⟨hpre, hnext⟩ := h.turn hview reply (hlong _ mem_cons_self)
    rw [Writing.drain]
    split
    · split
      · next hturn =>
        rw [hturn] at hpre
        exact hpre
      · next w' hturn =>
        rw [hturn] at hnext
        obtain ⟨hsound, hdone | howned'⟩ := hnext rfl
        · rw [drain_done script hdone]
          exact hsound.all_accepted hdone
        · refine ih hsound ?_ fun round hround => hlong round (mem_cons_of_mem _ hround)
          rw [howned', howned, Option.some_or]
    · next hdone => exact h.all_accepted (Nat.le_of_not_lt hdone)

theorem faithful_of_callbacks (hlong : ∀ round ∈ script, round.2.Long content)
    (hfirst : ∀ first second rest, script = first :: second :: rest →
      first.2.pumped = content) : Faithful content (writeAll content script) := by
  have hsound : Writing.Sound { data := content } content := ⟨rfl, Nat.le_refl _⟩
  cases script with
  | nil => exact hsound.drain_nil
  | cons round script =>
    obtain ⟨reply, user⟩ := round
    obtain ⟨hpre, hnext⟩ := hsound.turn rfl reply (hlong _ mem_cons_self)
    rw [writeAll, Writing.drain]
    split
    · split
      · next hturn =>
        rw [hturn] at hpre
        exact hpre
      · next w hturn =>
        rw [hturn] at hnext
        obtain ⟨hsound', hdone | howned⟩ := hnext rfl
        · rw [drain_done script hdone]
          exact hsound'.all_accepted hdone
        · cases script with
          | nil => exact hsound'.drain_nil
          | cons second rest =>
            refine hsound'.drain ?_ fun round hround => hlong round (mem_cons_of_mem _ hround)
            rw [howned, Option.none_or, ← hfirst _ second rest rfl]
    · next hdone => exact hsound.all_accepted (Nat.le_of_not_lt hdone)

/-! ## Callbacks that do not -/

/-- Whatever the endpoint does, the loop ends faithfully. -/
def AlwaysFaithful (content : Bytes) (w : Writing) (users : List Callbacks) : Prop :=
  ∀ replies : List Reply, replies.length = users.length →
    Faithful content (w.drain (replies.zip users))

/-- A loop that has written nothing, from bytes no shorter than the content. -/
structure Writing.Fresh (w : Writing) (content : Bytes) : Prop where
  off : w.off = 0
  accepted : w.accepted = []
  data : content.length ≤ w.data.length
  view : content.length ≤ (w.owned.getD w.data).length

variable {user : Callbacks} {users : List Callbacks}

/-- A fresh loop, after a write of which the endpoint accepted `count` bytes. -/
def Writing.wrote (w : Writing) (count : Nat) (user : Callbacks) : Writing :=
  if count < user.pumped.length then
    ⟨user.awaited, w.owned.or (some user.pumped), count, (w.owned.getD w.data).take count⟩
  else ⟨user.pumped, w.owned, count, (w.owned.getD w.data).take count⟩

theorem Writing.Fresh.drain (h : w.Fresh content) (hne : content ≠ []) {count : Nat}
    (hcount : count ≤ content.length) :
    w.drain (({ write := .ok count }, user) :: script) = (w.wrote count user).drain script := by
  have hpos := length_pos_iff.mpr hne
  have hdata := h.data
  have hview := h.view
  have hmin : min count (w.owned.getD w.data).length = count := by omega
  have hturn : w.turn { write := .ok count } user = (none, w.wrote count user) := by
    simp only [Writing.turn, Writing.view, Writing.wrote, h.off, h.accepted, drop_zero, hmin,
      Nat.zero_add]
    split <;> rfl
  rw [Writing.drain, if_pos (by rw [h.off]; omega), hturn]

/-- A buffer that a callback leaves too short ends the loop early, if the endpoint has accepted
    just so many bytes. -/
theorem long_of_alwaysFaithful (h : w.Fresh content) (hne : content ≠ [])
    (hall : AlwaysFaithful content w users) : ∀ user ∈ users, user.Long content := by
  induction users generalizing w with
  | nil => exact fun _ hmem => by cases hmem
  | cons user users ih =>
    have hview := h.view
    -- The endpoint accepts just so many bytes as the buffer is left with.
    have hends : ∀ count data owned, w.wrote count user =
        ⟨data, owned, count, (w.owned.getD w.data).take count⟩ → data.length ≤ count →
        content.length ≤ count := by
      intro count data owned hwrote hdone
      by_contra hlt
      have hfaithful := hall ({ write := .ok count } ::
        replicate users.length { write := .ok 0 }) (by simp)
      rw [zip_cons_cons, h.drain hne (by omega), hwrote, drain_done _ hdone] at hfaithful
      have hlen := congrArg length (show _ = content from hfaithful)
      rw [length_take] at hlen
      omega
    have hpumped : content.length ≤ user.pumped.length :=
      hends _ _ _ (if_neg (Nat.lt_irrefl _)) (Nat.le_refl _)
    have hawaited : content.length ≤ user.awaited.length := by
      by_contra hlt
      exact hlt (hends _ _ _ (if_pos (by omega)) (Nat.le_refl _))
    refine forall_mem_cons.mpr ⟨⟨hpumped, hawaited⟩, ?_⟩
    -- The endpoint accepts nothing, and the loop goes on as fresh as it was.
    have hpos := length_pos_iff.mpr hne
    have hwrote : w.wrote 0 user = ⟨user.awaited, w.owned.or (some user.pumped), 0, []⟩ :=
      if_pos (by omega)
    refine ih (w := w.wrote 0 user) ?_ fun replies hlen => ?_
    · rw [hwrote]
      refine ⟨rfl, rfl, hawaited, ?_⟩
      cases howned : w.owned with
      | none => exact hpumped
      | some owned => simpa [howned] using hview
    · rw [← h.drain hne (Nat.zero_le _)]
      exact hall ({ write := .ok 0 } :: replies) (by simpa using hlen)

theorem turn_isPrefix (w : Writing) (reply : Reply) (user : Callbacks) :
    w.accepted <+: (w.turn reply user).2.accepted := by
  simp only [Writing.turn]
  split
  · exact prefix_rfl
  · split
    · exact prefix_rfl
    · split
      · split <;> exact prefix_append ..
      · exact prefix_append ..

theorem accepted_isPrefix (script : List (Reply × Callbacks)) (w : Writing) :
    w.accepted <+: (w.drain script).2 := by
  induction script generalizing w with
  | nil => exact prefix_rfl
  | cons round script ih =>
    have hturn := turn_isPrefix w round.1 round.2
    rw [Writing.drain]
    split
    · grind
    · exact prefix_rfl

/-- If there is a second write it is handed what the callbacks of the first left. -/
theorem pumped_eq_of_alwaysFaithful (hne : content ≠ []) {first second : Callbacks}
    (hall : AlwaysFaithful content { data := content } (first :: second :: users)) :
    first.pumped = content := by
  have hfresh : Writing.Fresh { data := content } content :=
    ⟨rfl, rfl, Nat.le_refl _, Nat.le_refl _⟩
  obtain ⟨hpumped, hawaited⟩ := long_of_alwaysFaithful hfresh hne hall first mem_cons_self
  have hpos := length_pos_iff.mpr hne
  have hwrote : Writing.wrote { data := content } 0 first =
      ⟨first.awaited, some first.pumped, 0, []⟩ := if_pos (by omega)
  -- Nothing is accepted of the first write, and all of the second.
  have hfaithful := hall ({ write := .ok 0 } :: { write := .ok first.pumped.length } ::
    replicate users.length { write := .ok 0 }) (by simp)
  rw [zip_cons_cons, zip_cons_cons, hfresh.drain hne (Nat.zero_le _), hwrote, Writing.drain,
    if_pos (show 0 < first.awaited.length by omega)] at hfaithful
  have haccepted : first.pumped <+:
      (Writing.turn ⟨first.awaited, some first.pumped, 0, []⟩
        { write := .ok first.pumped.length } second).2.accepted := by
    simp only [Writing.turn, Writing.view, Option.getD_some, drop_zero, Nat.min_self, take_length]
    split
    · split <;> exact prefix_rfl
    · exact prefix_rfl
  have hpre : first.pumped <+: content := by
    refine haccepted.trans (IsPrefix.trans ?_ hfaithful.isPrefix)
    split
    · next h => exact h ▸ prefix_rfl
    · next h => exact h ▸ accepted_isPrefix _ _
  exact hpre.eq_of_length (Nat.le_antisymm hpre.length_le hpumped)

/-- Whatever the endpoint and the clock do, `writeAll` writes the content that its buffer had
    when it was called iff the buffer is empty, or no callback and no await leaves it shorter
    and, if there is a second turn, the callbacks that the first write's pump runs leave it as
    it was. -/
theorem writeAll_faithful_iff (content : Bytes) (users : List Callbacks) :
    (∀ replies : List Reply, replies.length = users.length →
        Faithful content (writeAll content (replies.zip users))) ↔
      content = [] ∨ (∀ user ∈ users, content.length ≤ user.pumped.length ∧
          content.length ≤ user.awaited.length) ∧
        ∀ first second rest, users = first :: second :: rest → first.pumped = content := by
  constructor
  · intro hall
    rcases eq_or_ne content [] with hnil | hne
    · exact .inl hnil
    · have hfresh : Writing.Fresh { data := content } content :=
        ⟨rfl, rfl, Nat.le_refl _, Nat.le_refl _⟩
      refine .inr ⟨long_of_alwaysFaithful hfresh hne hall, ?_⟩
      rintro first second rest rfl
      exact pumped_eq_of_alwaysFaithful hne hall
  · rintro (rfl | ⟨hlong, hfirst⟩) replies hlen
    · rw [writeAll, drain_done _ (Nat.le_refl _)]
      rfl
    · refine faithful_of_callbacks (fun round hround => hlong _ (of_mem_zip hround).2) ?_
      rintro ⟨reply, first⟩ ⟨reply', second⟩ rest hzip
      match replies, users with
      | _ :: _ :: _, first' :: second' :: users' =>
        cases hzip
        exact hfirst first second users' rfl
      | [], _ | _ :: _, [] | [_], _ :: _ | _ :: _ :: _, [_] => simp at hzip

/-- A window of one byte, a callback in the pump that overwrites the rest, then an open
    window: the promise resolves and the endpoint has accepted a byte the caller did not
    pass. -/
theorem overwritten_before_snapshot :
    writeAll [1, 2]
    [({ write := .ok 1 }, ⟨[1, 9], [1, 9]⟩), ({ write := .ok 1 }, ⟨[1, 9], [1, 9]⟩)] =
        (.resolved, [1, 9]) ∧
      ¬ Faithful [1, 2] (.resolved, [1, 9]) := by
  refine ⟨by decide, ?_⟩
  simp [Faithful]

end WebTransportBun.Facade.WriteAll
