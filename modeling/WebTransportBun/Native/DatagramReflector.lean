/-
  WebTransportBun.Native.DatagramReflector

  The per-server datagram reflector: `compile` checks a rule once, and the read task then
  runs `matches` and `apply` on every datagram, indexing without further checks.

  Slices are partial operations here, so that a rule is safe when no datagram takes `matches`
  or `apply` to `none`.  What `compile` checks suffices for that (`reflector_safe`).  The length
  of a pattern is cast to `u32` before it is compared, which would matter for 2³² bytes and more
  only (`reflector_safe_iff`); no array of JavaScript is as long.

  `usize` has 64 bits in the native build.
-/

import WebTransportBun.Library.Bounds
import WebTransportBun.Library.Checks
import WebTransportBun.Library.Memory

namespace WebTransportBun.Native.DatagramReflector

open Library List Option Nat

/-! ## Rules -/

def maxReplyLength : Nat := 1200
def maxMatches : Nat := 8
def maxOps : Nat := 16

def usizeMax : Nat := 2 ^ 64 - 1

structure MatchInput where
  offset : UInt32
  bytes : List UInt8
  deriving DecidableEq, Repr

/-- `ReflectorOpInput`; `pos`, `src` and `dst` are its `at`, `from` and `to`. -/
structure OpInput where
  op : String
  pos : Option UInt32 := none
  src : Option UInt32 := none
  dst : Option UInt32 := none
  length : Option UInt32 := none
  value : Option UInt32 := none
  deriving DecidableEq, Repr

/-- `DatagramReflectorRuleInput`; `patterns` is its `matches`. -/
structure RuleInput where
  minLength : UInt32
  replyLength : UInt32
  patterns : List MatchInput
  rewrite : List OpInput
  deriving DecidableEq, Repr

inductive RuleError
  | shape (message : String)
  | range (message : String)
  deriving DecidableEq, Repr

inductive Op
  | copy (src dst length : Nat)
  | nowNs (pos : Nat)
  | holdNs (pos : Nat)
  | zero (pos length : Nat)
  | set (pos : Nat) (value : UInt8)
  deriving DecidableEq, Repr

structure Match where
  offset : Nat
  bytes : List UInt8
  deriving DecidableEq, Repr

structure CompiledRule where
  minLength : Nat
  replyLength : Nat
  patterns : List Match
  ops : List Op
  deriving DecidableEq, Repr

/-! ## Compiling -/

/-- `range_in`.  The sum of two `u32` numbers is a `usize`, so the checked addition does not
    fail. -/
def rangeIn (label : String) (start length : UInt32) (bound : Nat) :
    Except RuleError (Nat × Nat) :=
  let start := start.toNat
  let length := length.toNat
  let stop := start + length
  if length = 0 then .error (.range s!"{label} length must be at least 1")
  else if stop ≤ bound then .ok (start, length)
  else .error (.range s!"{label} range {start}..{stop} exceeds {bound}")

def required (field : Option UInt32) (op name : String) : Except RuleError UInt32 :=
  match field with
  | some x => .ok x
  | none => .error (.shape s!"op {op} requires {name}")

/-- The match loop of `compile`: the length of the pattern is cast to `u32`. -/
def compileMatch (minLength : Nat) (m : MatchInput) : Except RuleError Match := do
  let (offset, _) ← rangeIn "match" m.offset (UInt32.ofNat m.bytes.length) minLength
  return { offset, bytes := m.bytes }

def compileOp (replyLength : Nat) (op : OpInput) : Except RuleError Op :=
  if op.op = "copy" then do
    let length ← required op.length "copy" "length"
    let src ← required op.src "copy" "from"
    let (src, _) ← rangeIn "copy.from" src length replyLength
    let dst ← required op.dst "copy" "to"
    let (dst, length) ← rangeIn "copy.to" dst length replyLength
    return .copy src dst length
  else if op.op = "nowNs" then do
    let pos ← required op.pos "nowNs" "at"
    let (pos, _) ← rangeIn "nowNs" pos 8 replyLength
    return .nowNs pos
  else if op.op = "holdNs" then do
    let pos ← required op.pos "holdNs" "at"
    let (pos, _) ← rangeIn "holdNs" pos 8 replyLength
    return .holdNs pos
  else if op.op = "zero" then do
    let pos ← required op.pos "zero" "at"
    let length ← required op.length "zero" "length"
    let (pos, length) ← rangeIn "zero" pos length replyLength
    return .zero pos length
  else if op.op = "set" then do
    let value ← required op.value "set" "value"
    refuse (255 < value.toNat) (.range "set.value must be 0..=255")
    let pos ← required op.pos "set" "at"
    let (pos, _) ← rangeIn "set" pos 1 replyLength
    return .set pos (UInt8.ofNat value.toNat)
  else .error (.shape s!"unknown op {op.op}")

def compile (input : RuleInput) : Except RuleError CompiledRule := do
  refuse (input.replyLength.toNat = 0) (.range "replyLength must be at least 1")
  refuse (input.minLength.toNat < input.replyLength.toNat)
    (.range "replyLength must not exceed minLength")
  refuse (maxReplyLength < input.minLength.toNat)
    (.range s!"minLength must not exceed {maxReplyLength}")
  refuse (input.patterns = [] ∨ maxMatches < input.patterns.length)
    (.shape s!"match needs 1..={maxMatches} entries")
  refuse (maxOps < input.rewrite.length) (.shape s!"rewrite allows at most {maxOps} ops")
  let patterns ← input.patterns.mapM (compileMatch input.minLength.toNat)
  let ops ← input.rewrite.mapM (compileOp input.replyLength.toNat)
  return ⟨input.minLength.toNat, input.replyLength.toNat, patterns, ops⟩

/-! ## Running a rule -/

def Match.test (m : Match) (datagram : List UInt8) : Option Bool := do
  let stop ← addIn usizeMax m.offset m.bytes.length
  let block ← rangeOf datagram m.offset stop
  return block = m.bytes

/-- `all` over the patterns, which stops at the first that differs. -/
def testAll (datagram : List UInt8) : List Match → Option Bool
  | [] => some true
  | m :: ms => do
    let same ← m.test datagram
    if same then testAll datagram ms else return false

/-- `CompiledRule::matches`; `none` is a slice out of range. -/
def CompiledRule.matchesDatagram (rule : CompiledRule) (datagram : List UInt8) : Option Bool :=
  if datagram.length < rule.minLength then some false else testAll datagram rule.patterns

def Op.run (nowNs holdNs : Nat) (reply : List UInt8) : Op → Option (List UInt8)
  | .copy src dst length => do
    let stop ← addIn usizeMax src length
    let block ← rangeOf reply src stop
    putAt reply dst block
  | .nowNs pos => do
    let _ ← addIn usizeMax pos 8
    putAt reply pos (leBytes 8 nowNs)
  | .holdNs pos => do
    let _ ← addIn usizeMax pos 8
    putAt reply pos (leBytes 8 holdNs)
  | .zero pos length => do
    let _ ← addIn usizeMax pos length
    putAt reply pos (replicate length 0)
  | .set pos value => putAt reply pos [value]

def CompiledRule.apply (rule : CompiledRule) (datagram : List UInt8) (nowNs holdNs : Nat) :
    Option (List UInt8) := do
  let reply ← rangeOf datagram 0 rule.replyLength
  rule.ops.foldlM (fun reply op => op.run nowNs holdNs reply) reply

/-! ## What a compiled rule satisfies -/

namespace Op

/-- The place an operation writes to: where it starts and how long it is. -/
def target : Op → Nat × Nat
  | copy _ dst length => (dst, length)
  | nowNs pos => (pos, 8)
  | holdNs pos => (pos, 8)
  | zero pos length => (pos, length)
  | set pos _ => (pos, 1)

def Writes (op : Op) (i : Nat) : Prop := op.target.1 ≤ i ∧ i < op.target.1 + op.target.2

/-- What an operation reads and writes is inside a reply of `bound` bytes. -/
def Inside (bound : Nat) (op : Op) : Prop :=
  op.target.1 + op.target.2 ≤ bound ∧
    ∀ src dst length, op = .copy src dst length → src + length ≤ bound

end Op

theorem rangeIn_eq_ok {label : String} {start length : UInt32} {bound : Nat} {r : Nat × Nat}
    (h : rangeIn label start length bound = .ok r) :
    r = (start.toNat, length.toNat) ∧ 0 < length.toNat ∧ start.toNat + length.toNat ≤ bound := by
  simp only [rangeIn] at h
  split at h
  · cases h
  split at h
  · next hpos hle =>
    cases h
    exact ⟨rfl, by omega, hle⟩
  · cases h

theorem compileMatch_eq_ok {minLength : Nat} {m : MatchInput} {r : Match}
    (h : compileMatch minLength m = .ok r) :
    r = ⟨m.offset.toNat, m.bytes⟩ ∧ 0 < m.bytes.length % 2 ^ 32 ∧
      m.offset.toNat + m.bytes.length % 2 ^ 32 ≤ minLength := by
  obtain ⟨⟨offset, length⟩, hrange, hret⟩ := bind_eq_ok h
  obtain ⟨hr, hpos, hle⟩ := rangeIn_eq_ok hrange
  cases hr
  cases hret
  exact ⟨rfl, hpos, hle⟩

theorem compileOp_inside {replyLength : Nat} {op : OpInput} {r : Op}
    (h : compileOp replyLength op = .ok r) : r.Inside replyLength := by
  unfold compileOp at h
  split at h
  · obtain ⟨length, -, h⟩ := bind_eq_ok h
    obtain ⟨src, -, h⟩ := bind_eq_ok h
    obtain ⟨_, hsrc, h⟩ := bind_eq_ok h
    obtain ⟨dst, -, h⟩ := bind_eq_ok h
    obtain ⟨_, hdst, h⟩ := bind_eq_ok h
    obtain ⟨rfl, -, hsrc⟩ := rangeIn_eq_ok hsrc
    obtain ⟨rfl, -, hdst⟩ := rangeIn_eq_ok hdst
    cases h
    exact ⟨hdst, fun _ _ _ heq => by cases heq; exact hsrc⟩
  split at h
  · obtain ⟨pos, -, h⟩ := bind_eq_ok h
    obtain ⟨_, hpos, h⟩ := bind_eq_ok h
    obtain ⟨rfl, -, hpos⟩ := rangeIn_eq_ok hpos
    cases h
    exact ⟨hpos, nofun⟩
  split at h
  · obtain ⟨pos, -, h⟩ := bind_eq_ok h
    obtain ⟨_, hpos, h⟩ := bind_eq_ok h
    obtain ⟨rfl, -, hpos⟩ := rangeIn_eq_ok hpos
    cases h
    exact ⟨hpos, nofun⟩
  split at h
  · obtain ⟨pos, -, h⟩ := bind_eq_ok h
    obtain ⟨length, -, h⟩ := bind_eq_ok h
    obtain ⟨_, hpos, h⟩ := bind_eq_ok h
    obtain ⟨rfl, -, hpos⟩ := rangeIn_eq_ok hpos
    cases h
    exact ⟨hpos, nofun⟩
  split at h
  · obtain ⟨value, -, h⟩ := bind_eq_ok h
    obtain ⟨_, -, h⟩ := bind_eq_ok h
    obtain ⟨pos, -, h⟩ := bind_eq_ok h
    obtain ⟨_, hpos, h⟩ := bind_eq_ok h
    obtain ⟨rfl, -, hpos⟩ := rangeIn_eq_ok hpos
    cases h
    exact ⟨hpos, nofun⟩
  · cases h

structure CompiledRule.Checked (rule : CompiledRule) : Prop where
  reply_le : rule.replyLength ≤ rule.minLength
  min_le : rule.minLength ≤ maxReplyLength
  patterns : ∀ m ∈ rule.patterns, m.offset < 2 ^ 32 ∧ 0 < m.bytes.length % 2 ^ 32 ∧
    m.offset + m.bytes.length % 2 ^ 32 ≤ rule.minLength
  ops : ∀ op ∈ rule.ops, op.Inside rule.replyLength

theorem checked_of_compile {input : RuleInput} {rule : CompiledRule}
    (h : compile input = .ok rule) :
    rule.Checked ∧ rule.minLength = input.minLength.toNat ∧
      rule.patterns = input.patterns.map fun m => ⟨m.offset.toNat, m.bytes⟩ := by
  obtain ⟨_, -, h⟩ := bind_eq_ok h
  obtain ⟨_, hreply, h⟩ := bind_eq_ok h
  obtain ⟨_, hmin, h⟩ := bind_eq_ok h
  obtain ⟨_, -, h⟩ := bind_eq_ok h
  obtain ⟨_, -, h⟩ := bind_eq_ok h
  obtain ⟨patterns, hpatterns, h⟩ := bind_eq_ok h
  obtain ⟨ops, hops, h⟩ := bind_eq_ok h
  cases h
  refine ⟨⟨not_lt.mp (not_of_refuse hreply), not_lt.mp (not_of_refuse hmin),
    fun m hm => ?_, fun op hop => ?_⟩, rfl, ?_⟩
  · obtain ⟨input, -, hinput⟩ := exists_of_mem_mapM hpatterns hm
    obtain ⟨rfl, hpos, hle⟩ := compileMatch_eq_ok hinput
    exact ⟨input.offset.toNat_lt, hpos, hle⟩
  · obtain ⟨input, -, hinput⟩ := exists_of_mem_mapM hops hop
    exact compileOp_inside hinput
  · exact eq_map_of_mapM (fun m r hm => (compileMatch_eq_ok hm).1) hpatterns

/-! ## Rewrites -/

/-- An operation inside the reply writes a block at its target. -/
theorem Op.Inside.run_eq {op : Op} {reply : List UInt8} (h : op.Inside reply.length)
    (hlen : reply.length ≤ maxReplyLength) (nowNs holdNs : Nat) :
    ∃ block : List UInt8, block.length = op.target.2 ∧
      op.run nowNs holdNs reply = putAt reply op.target.1 block := by
  obtain ⟨htarget, hsrc⟩ := h
  have hadd : ∀ {a b : Nat}, a + b ≤ reply.length → addIn usizeMax a b = some (a + b) := by
    intro a b hle
    apply addIn_of_le
    unfold maxReplyLength at hlen
    unfold usizeMax
    omega
  cases op with
  | copy src dst length =>
    have hle := hsrc src dst length rfl
    refine ⟨(reply.drop src).take length, ?_, ?_⟩
    · rw [length_take_of_le (by rw [length_drop]; omega)]
      rfl
    · simp only [run, hadd hle, bind_eq_bind, bind_some,
        rangeOf_of_le (Nat.le_add_right src length) hle, Nat.add_sub_cancel_left, target]
  | nowNs pos =>
    refine ⟨leBytes 8 nowNs, length_leBytes 8 _, ?_⟩
    rw [run, hadd (show pos + 8 ≤ reply.length from htarget)]
    rfl
  | holdNs pos =>
    refine ⟨leBytes 8 holdNs, length_leBytes 8 _, ?_⟩
    rw [run, hadd (show pos + 8 ≤ reply.length from htarget)]
    rfl
  | zero pos length =>
    refine ⟨replicate length 0, length_replicate, ?_⟩
    rw [run, hadd (show pos + length ≤ reply.length from htarget)]
    rfl
  | set pos value => exact ⟨[value], rfl, rfl⟩

/-- All operations of a rule go through; they keep the length of the reply and every byte
    that none of them writes. -/
theorem foldlM_run {ops : List Op} {reply : List UInt8}
    (hops : ∀ op ∈ ops, op.Inside reply.length) (hlen : reply.length ≤ maxReplyLength)
    (nowNs holdNs : Nat) :
    ∃ out, ops.foldlM (fun reply op => op.run nowNs holdNs reply) reply = some out ∧
      out.length = reply.length ∧
      ∀ i, (∀ op ∈ ops, ¬ op.Writes i) → out[i]? = reply[i]? := by
  induction ops generalizing reply with
  | nil => exact ⟨reply, rfl, rfl, fun _ _ => rfl⟩
  | cons op ops ih =>
    obtain ⟨hop, hops⟩ := forall_mem_cons.mp hops
    obtain ⟨block, hblock, hrun⟩ := hop.run_eq hlen nowNs holdNs
    obtain ⟨next, hput, hnext, hsame⟩ := putAt_of_le (hblock ▸ hop.1)
    obtain ⟨out, hout, houtlen, houtsame⟩ :=
      ih (fun op hop => hnext ▸ hops op hop) (hnext ▸ hlen)
    refine ⟨out, ?_, houtlen.trans hnext, fun i hi => ?_⟩
    · rw [foldlM_cons, hrun, hput]
      exact hout
    · grind [Op.Writes]

/-! ## Patterns -/

/-- The pattern stands in the datagram. -/
def Match.Agrees (m : Match) (datagram : List UInt8) : Prop :=
  (datagram.drop m.offset).take m.bytes.length = m.bytes

instance (m : Match) (datagram : List UInt8) : Decidable (m.Agrees datagram) :=
  inferInstanceAs (Decidable (_ = _))

namespace Match

variable {m : Match} {datagram : List UInt8}

theorem test_of_le (hmax : m.offset + m.bytes.length ≤ usizeMax)
    (hle : m.offset + m.bytes.length ≤ datagram.length) :
    m.test datagram = some (decide (m.Agrees datagram)) := by
  rw [test, addIn_of_le hmax, bind_eq_bind, bind_some,
    rangeOf_of_le (Nat.le_add_right ..) hle, Nat.add_sub_cancel_left]
  rfl

theorem test_of_lt (hlt : datagram.length < m.offset + m.bytes.length) :
    m.test datagram = none := by
  rw [test]
  by_cases hmax : m.offset + m.bytes.length ≤ usizeMax
  · rw [addIn_of_le hmax, bind_eq_bind, bind_some, rangeOf_of_lt hlt]
    rfl
  · rw [addIn_of_lt (not_le.mp hmax)]
    rfl

theorem Agrees.le (h : m.Agrees datagram) (hpos : 0 < m.bytes.length) :
    m.offset + m.bytes.length ≤ datagram.length := by
  have hlen := congrArg length h
  rw [length_take, length_drop] at hlen
  omega

variable {n : Nat}

theorem agrees_take (hle : m.offset + m.bytes.length ≤ n) :
    m.Agrees (datagram.take n) ↔ m.Agrees datagram := by
  unfold Agrees
  rw [drop_take, take_take, min_eq_left (by omega)]

end Match

/-- A reply is produced only where every slice is in range; it has the rule's length, is no
    longer than the datagram, and differs from it only where an operation writes. -/
def CompiledRule.Safe (rule : CompiledRule) (datagram : List UInt8) : Prop :=
  ∃ hit, rule.matchesDatagram datagram = some hit ∧
    (hit = true → ∀ nowNs holdNs, ∃ reply, rule.apply datagram nowNs holdNs = some reply ∧
      reply.length = rule.replyLength ∧ reply.length ≤ datagram.length ∧
      ∀ i < reply.length, (∀ op ∈ rule.ops, ¬ op.Writes i) → reply[i]? = datagram[i]?)

/-- A pattern of 2³² bytes and more is never tested: in every datagram of the least length
    an earlier pattern differs. -/
def LongPatternsMissed (minLength : Nat) (patterns : List Match) : Prop :=
  ∀ pre m post, patterns = pre ++ m :: post → 2 ^ 32 ≤ m.bytes.length →
    ∀ datagram : List UInt8, datagram.length = minLength → ∃ p ∈ pre, ¬ p.Agrees datagram

section

variable {rule : CompiledRule} {datagram : List UInt8}

/-- `apply` behaves on every datagram that is long enough. -/
theorem CompiledRule.Checked.apply_eq (h : rule.Checked)
    (hlen : rule.minLength ≤ datagram.length) (nowNs holdNs : Nat) :
    ∃ reply, rule.apply datagram nowNs holdNs = some reply ∧
      reply.length = rule.replyLength ∧ reply.length ≤ datagram.length ∧
      ∀ i < reply.length, (∀ op ∈ rule.ops, ¬ op.Writes i) → reply[i]? = datagram[i]? := by
  have hreply := h.reply_le
  have hmin := h.min_le
  have hlength : (datagram.take rule.replyLength).length = rule.replyLength :=
    length_take_of_le (by omega)
  have hinside : ∀ op ∈ rule.ops, op.Inside (datagram.take rule.replyLength).length := by
    rw [hlength]
    exact h.ops
  obtain ⟨reply, hrun, hsame, hkeep⟩ := foldlM_run hinside (by omega) nowNs holdNs
  refine ⟨reply, ?_, by omega, by omega, fun i hi hout => ?_⟩
  · rw [apply, rangeOf_of_le (zero_le _) (by omega)]
    exact hrun
  · rw [hkeep i hout, getElem?_take_of_lt (by omega)]

theorem exists_testAll {patterns : List Match}
    (h : ∀ pre m post, patterns = pre ++ m :: post → (∀ p ∈ pre, p.Agrees datagram) →
      m.offset + m.bytes.length ≤ usizeMax ∧ m.offset + m.bytes.length ≤ datagram.length) :
    ∃ hit, testAll datagram patterns = some hit := by
  induction patterns with
  | nil => exact ⟨true, rfl⟩
  | cons m ms ih =>
    obtain ⟨hmax, hle⟩ := h [] m ms rfl fun p hp => by cases hp
    rw [testAll, Match.test_of_le hmax hle]
    by_cases hagrees : m.Agrees datagram
    · grind
    · refine ⟨false, ?_⟩
      rw [bind_eq_bind, decide_eq_false hagrees]
      rfl

theorem testAll_eq_none {pre post : List Match} {m : Match}
    (hpre : ∀ p ∈ pre, p.Agrees datagram ∧ p.offset + p.bytes.length ≤ usizeMax ∧
      p.offset + p.bytes.length ≤ datagram.length)
    (hm : datagram.length < m.offset + m.bytes.length) :
    testAll datagram (pre ++ m :: post) = none := by
  induction pre with
  | nil =>
    rw [nil_append, testAll, Match.test_of_lt hm]
    rfl
  | cons p pre ih =>
    obtain ⟨⟨hagrees, hmax, hle⟩, hpre⟩ := forall_mem_cons.mp hpre
    rw [cons_append, testAll, Match.test_of_le hmax hle, bind_eq_bind,
      bind_some, decide_eq_true hagrees]
    exact ih hpre

/-- Where the long patterns are missed, what is reached is short. -/
theorem CompiledRule.Checked.short (h : rule.Checked)
    (hmissed : LongPatternsMissed rule.minLength rule.patterns)
    (hlen : rule.minLength ≤ datagram.length) {pre post : List Match} {m : Match}
    (heq : rule.patterns = pre ++ m :: post) (hpre : ∀ p ∈ pre, p.Agrees datagram) :
    m.offset + m.bytes.length ≤ rule.minLength := by
  generalize hn : pre.length = n
  induction n using Nat.strongRecOn generalizing pre m post with
  | ind n ih =>
    obtain ⟨-, -, hchecked⟩ := h.patterns m (by rw [heq]; simp)
    by_cases hlong : 2 ^ 32 ≤ m.bytes.length
    · -- some earlier pattern differs in the first bytes; it is short, so it differs
      obtain ⟨p, hp, hdiffers⟩ := hmissed pre m post heq hlong (datagram.take rule.minLength)
        (length_take_of_le hlen)
      obtain ⟨pre', post', rfl⟩ := append_of_mem hp
      rw [length_append, length_cons] at hn
      have hshort := ih pre'.length (by omega)
        (by rw [heq, append_assoc, cons_append])
        (fun q hq => hpre q (mem_append_left _ hq)) rfl
      exact absurd ((Match.agrees_take hshort).mpr (hpre p hp)) hdiffers
    · rwa [mod_eq_of_lt (by omega)] at hchecked

end

/-- An accepted rule is safe on every datagram exactly if its patterns of 2³² bytes and more
    are never tested. -/
theorem reflector_safe_iff {input : RuleInput} {rule : CompiledRule}
    (h : compile input = .ok rule) :
    (∀ datagram, rule.Safe datagram) ↔
      LongPatternsMissed input.minLength.toNat
        (input.patterns.map fun m => ⟨m.offset.toNat, m.bytes⟩) := by
  obtain ⟨hchecked, hmin, hpatterns⟩ := checked_of_compile h
  rw [← hmin, ← hpatterns]
  have hsmall := hchecked.min_le
  unfold maxReplyLength at hsmall
  constructor
  · intro hsafe pre m post heq hlong datagram hlen
    by_contra hall
    push Not at hall
    obtain ⟨hit, hmatches, -⟩ := hsafe datagram
    rw [CompiledRule.matchesDatagram, if_neg (by omega), heq,
      testAll_eq_none (fun p hp => ?_) (by omega)] at hmatches
    · cases hmatches
    · obtain ⟨-, hpos, -⟩ := hchecked.patterns p (by rw [heq]; exact mem_append_left _ hp)
      have hpos : 0 < p.bytes.length := pos_of_ne_zero fun hzero => by
        omega
      have hle := (hall p hp).le hpos
      exact ⟨hall p hp, by unfold usizeMax; omega, hle⟩
  · intro hmissed datagram
    by_cases hlen : datagram.length < rule.minLength
    · exact ⟨false, if_pos hlen, nofun⟩
    · have htested : ∃ hit, testAll datagram rule.patterns = some hit := by
        refine exists_testAll fun pre m post heq hpre => ?_
        have := hchecked.short hmissed (not_lt.mp hlen) heq hpre
        unfold usizeMax
        omega
      obtain ⟨hit, htest⟩ := htested
      exact ⟨hit, (if_neg hlen).trans htest, fun _ =>
        hchecked.apply_eq (not_lt.mp hlen)⟩

/-- Every rule that `compile` accepts is safe on every datagram.  A pattern comes from a
    JavaScript array, which has fewer than 2³² elements. -/
theorem reflector_safe {input : RuleInput} {rule : CompiledRule} (h : compile input = .ok rule)
    (hlength : ∀ m ∈ input.patterns, m.bytes.length < 2 ^ 32) (datagram : List UInt8) :
    rule.Safe datagram := by
  refine (reflector_safe_iff h).mpr (fun pre m post heq hlong => ?_) datagram
  have hmem : m ∈ input.patterns.map fun m => (⟨m.offset.toNat, m.bytes⟩ : Match) := by
    rw [heq]
    exact mem_append_right _ mem_cons_self
  obtain ⟨m', hm', rfl⟩ := mem_map.mp hmem
  exact absurd hlong (not_le.mpr (hlength m' hm'))

def stampRule : RuleInput :=
  { minLength := 4, replyLength := 2, patterns := [⟨0, [1]⟩],
    rewrite := [{ op := "set", pos := some 1, value := some 7 }] }

theorem reflector_safe_stamp :
    compile stampRule = .ok ⟨4, 2, [⟨0, [1]⟩], [.set 1 7]⟩ ∧
      CompiledRule.Safe ⟨4, 2, [⟨0, [1]⟩], [.set 1 7]⟩ [1, 2, 3, 4, 5] := by
  have hcompile : compile stampRule = .ok ⟨4, 2, [⟨0, [1]⟩], [.set 1 7]⟩ := by decide
  exact ⟨hcompile, reflector_safe hcompile (by decide) [1, 2, 3, 4, 5]⟩

end WebTransportBun.Native.DatagramReflector
