/-
  WebTransportBun.Wasm.CapsuleAssembler

  The assembler of `crates/wasm/src/capsule.rs` fed with a byte stream in chunks: `push`,
  then `next` until it has nothing more or fails.

  `next` consumes only what it understands.  On an error it leaves the bytes where they
  are, so for the buffer an error is like waiting, and the reader is a settled parser that
  never fails (`capsuleVerdict`).  Where it stops tells whether it was an error
  (`capsuleErrorAt`).  A reader that waits holds less than one capsule
  (`length_lt_of_incomplete`); one that failed holds whatever it was given.
-/

import WebTransportBun.Wasm.Capsule

namespace WebTransportBun.Wasm

open Library List Option Varint

/-- Pop capsules until `next` has none or fails: the capsules, the error and the bytes left.
    Each capsule takes at least two bytes, so the length of the buffer bounds the rounds. -/
def popCapsules : Nat → Bytes → List Capsule × Option CapsuleError × Bytes
  | 0, buf => ([], none, buf)
  | fuel + 1, buf =>
    match nextCapsule buf with
    | (.ok (some capsule), rest) =>
      let (capsules, error, rest) := popCapsules fuel rest
      (capsule :: capsules, error, rest)
    | (.ok none, rest) => ([], none, rest)
    | (.error e, rest) => ([], some e, rest)

/-- A reader of a stream: the capsules so far, the first error, and the assembler's bytes. -/
structure Assembly where
  capsules : List Capsule := []
  error : Option CapsuleError := none
  buf : Bytes := []
  deriving DecidableEq, Repr

/-- `push` a chunk and pop what is there. -/
def Assembly.feed (a : Assembly) (chunk : Bytes) : Assembly :=
  let buf := a.buf ++ chunk
  let (capsules, error, rest) := popCapsules (buf.length + 1) buf
  { capsules := a.capsules ++ capsules, error := a.error.or error, buf := rest }

/-! ## One capsule -/

variable {buf : Bytes}

theorem frameHeader_append {r : Nat × Nat × Nat} (h : frameHeader buf = some r)
    (more : Bytes) : frameHeader (buf ++ more) = some r := by
  simp only [frameHeader, bind_eq_bind, bind_eq_some_iff] at h
  obtain ⟨⟨ftype, n1⟩, hfirst, ⟨flen, n2⟩, hsecond, hr⟩ := h
  have hle := (decode_take hfirst).2.1
  simp only [frameHeader, decode_append hfirst, bind_eq_bind, bind_some,
    drop_append_of_le_length hle, decode_append hsecond]
  exact hr

theorem parseCapsule_append (buf more : Bytes) :
    parseCapsule buf = .incomplete ∨ parseCapsule (buf ++ more) = parseCapsule buf := by
  cases hheader : frameHeader buf with
  | none =>
    left
    rw [parseCapsule, hheader]
  | some r => grind [parseCapsule, frameHeader_append]

theorem parseCapsule_within {n : Nat}
    (h : (∃ c, parseCapsule buf = .parsed c n) ∨ parseCapsule buf = .skipped n) :
    0 < n ∧ n ≤ buf.length := by
  cases hheader : frameHeader buf with
  | none =>
    rw [parseCapsule, hheader] at h
    simp at h
  | some r =>
    obtain ⟨kind, len, header⟩ := r
    have hpos : 0 < header := by
      simp only [frameHeader, bind_eq_bind, bind_eq_some_iff] at hheader
      obtain ⟨⟨ftype, n1⟩, hfirst, ⟨flen, n2⟩, hsecond, hr⟩ := hheader
      cases hr
      have hone := (decode_take hfirst).1
      omega
    rw [parseCapsule] at h
    have htotal : n = header + len ∧ header + len ≤ buf.length := by grind
    omega

/-- A buffer that waits for more holds less than the largest capsule: two varints and a
    value up to the cap. -/
theorem length_lt_of_incomplete (h : parseCapsule buf = .incomplete) :
    buf.length < 16 + maxCapsuleValueLen := by
  cases hfirst : decode buf with
  | none =>
    have hshort := length_lt_eight_of_decode hfirst
    omega
  | some r =>
    obtain ⟨kind, n1⟩ := r
    have h1 := decode_le_eight hfirst
    cases hsecond : decode (buf.drop n1) with
    | none =>
      have hshort := length_lt_eight_of_decode hsecond
      rw [length_drop] at hshort
      omega
    | some r =>
      obtain ⟨len, n2⟩ := r
      have h2 := decode_le_eight hsecond
      have hheader : frameHeader buf = some (kind, len, n1 + n2) := by
        simp only [frameHeader, hfirst, bind_eq_bind, bind_some, hsecond]
        rfl
      rw [parseCapsule, hheader] at h
      dsimp only at h
      -- the value is within the cap, and it is not all there
      split at h
      · cases h
      split at h
      · omega
      split at h
      · split at h <;> cases h
      split at h <;> cases h

/-! ## The reader as a parser -/

/-- The reader of `popCapsules`: it takes capsules and waits on everything else. -/
def capsuleVerdict (capsules : List Capsule) (buf : Bytes) : Verdict (List Capsule) Empty :=
  match parseCapsule buf with
  | .parsed capsule n => .take n (capsules ++ [capsule])
  | .skipped n => .take n capsules
  | .incomplete => .wait
  | .error _ => .wait

/-- The error at which a reader stands still. -/
def capsuleErrorAt (buf : Bytes) : Option CapsuleError :=
  match parseCapsule buf with
  | .error e => some e
  | _ => none

theorem settled_capsuleVerdict : Settled capsuleVerdict where
  stands capsules buf more := by
    rcases parseCapsule_append buf more with hwait | hsame
    · left
      rw [capsuleVerdict, hwait]
    · right
      rw [capsuleVerdict, capsuleVerdict, hsame]
  within capsules buf n capsules' h := by
    rw [capsuleVerdict] at h
    split at h
    · next c k hparse =>
      cases h
      exact parseCapsule_within (.inl ⟨c, hparse⟩)
    · next k hparse =>
      cases h
      exact parseCapsule_within (.inr hparse)
    · cases h
    · cases h

/-- What one call of `next` did, in terms of the parser. -/
inductive Next (capsules : List Capsule) (buf : Bytes) :
    Except CapsuleError (Option Capsule) × Bytes → Prop
  | popped {capsule : Capsule} {rest : Bytes} (hshort : rest.length < buf.length)
      (hdrain : drainAll capsuleVerdict capsules buf =
        drainAll capsuleVerdict (capsules ++ [capsule]) rest) :
      Next capsules buf (.ok (some capsule), rest)
  | waits {rest : Bytes} (hdrain : drainAll capsuleVerdict capsules buf = (capsules, .ok rest))
      (herror : capsuleErrorAt rest = none) : Next capsules buf (.ok none, rest)
  | fails {rest : Bytes} {e : CapsuleError}
      (hdrain : drainAll capsuleVerdict capsules buf = (capsules, .ok rest))
      (herror : capsuleErrorAt rest = some e) : Next capsules buf (.error e, rest)

theorem next_nextCapsuleLoop {fuel : Nat} (capsules : List Capsule)
    (hfuel : buf.length < fuel) : Next capsules buf (nextCapsuleLoop fuel buf) := by
  induction fuel generalizing buf with
  | zero => omega
  | succ fuel ih =>
    rw [nextCapsuleLoop]
    cases hparse : parseCapsule buf with
    | parsed capsule n =>
      have hverdict : capsuleVerdict capsules buf = .take n (capsules ++ [capsule]) := by
        rw [capsuleVerdict, hparse]
      obtain ⟨hpos, hle⟩ := parseCapsule_within (.inl ⟨capsule, hparse⟩)
      refine .popped ?_ (settled_capsuleVerdict.drainAll_take hverdict)
      rw [length_drop]
      omega
    | skipped n =>
      have hverdict : capsuleVerdict capsules buf = .take n capsules := by
        rw [capsuleVerdict, hparse]
      have hdrain := settled_capsuleVerdict.drainAll_take hverdict
      obtain ⟨hpos, hle⟩ := parseCapsule_within (.inr hparse)
      have hlen : (buf.drop n).length + n = buf.length := by
        rw [length_drop]
        omega
      -- the call goes on behind the skipped capsule
      have hrest := @ih (buf.drop n) (by omega)
      show Next capsules buf (nextCapsuleLoop fuel (buf.drop n))
      generalize nextCapsuleLoop fuel (buf.drop n) = r at hrest
      cases hrest with
      | popped hshort hpop => exact .popped (by omega) (hdrain.trans hpop)
      | waits hwait herror => exact .waits (hdrain.trans hwait) herror
      | fails hfail herror => exact .fails (hdrain.trans hfail) herror
    | incomplete =>
      have hverdict : capsuleVerdict capsules buf = .wait := by rw [capsuleVerdict, hparse]
      exact .waits (drainAll_wait hverdict) (by rw [capsuleErrorAt, hparse])
    | error e =>
      have hverdict : capsuleVerdict capsules buf = .wait := by rw [capsuleVerdict, hparse]
      exact .fails (drainAll_wait hverdict) (by rw [capsuleErrorAt, hparse])

/-- Popping everything is draining the buffer, and the error is the one where it stops. -/
theorem popCapsules_spec {fuel : Nat} (capsules : List Capsule) (hfuel : buf.length < fuel) :
    drainAll capsuleVerdict capsules buf =
        (capsules ++ (popCapsules fuel buf).1, .ok (popCapsules fuel buf).2.2) ∧
      (popCapsules fuel buf).2.1 = capsuleErrorAt (popCapsules fuel buf).2.2 := by
  induction fuel generalizing buf capsules with
  | zero => omega
  | succ fuel ih =>
    have hnext := next_nextCapsuleLoop capsules (Nat.lt_succ_self buf.length)
    rw [popCapsules, nextCapsule]
    generalize nextCapsuleLoop (buf.length + 1) buf = r at hnext
    cases hnext with
    | @popped capsule rest hshort hdrain =>
      obtain ⟨hrest, herror⟩ := ih (capsules ++ [capsule]) (show rest.length < fuel by omega)
      refine ⟨hdrain.trans (hrest.trans ?_), herror⟩
      rw [append_assoc, singleton_append]
    | waits hdrain herror | fails hdrain herror =>
      refine ⟨hdrain.trans ?_, herror.symm⟩
      rw [append_nil]

/-! ## Streams -/

namespace Assembly

/-- What the reader has after the stream: the parser's capsules and rest, and the error it
    stands at. -/
structure HasRead (a : Assembly) (stream : Bytes) : Prop where
  drained : drainAll capsuleVerdict [] stream = (a.capsules, .ok a.buf)
  error_eq : a.error = capsuleErrorAt a.buf

variable {a : Assembly} {stream : Bytes}

theorem HasRead.unique {b : Assembly} (ha : a.HasRead stream) (hb : b.HasRead stream) : a = b := by
  have hdrain := ha.drained.symm.trans hb.drained
  have hbuf : a.buf = b.buf := Except.ok.inj (congrArg Prod.snd hdrain)
  have herror : a.error = b.error := by rw [ha.error_eq, hb.error_eq, hbuf]
  cases a
  cases b
  simp_all

theorem hasRead_nil : HasRead {} [] := ⟨rfl, rfl⟩

theorem drainAll_of_error {capsules : List Capsule} {buf : Bytes} {e : CapsuleError}
    (h : capsuleErrorAt buf = some e) (chunk : Bytes) :
    drainAll capsuleVerdict capsules (buf ++ chunk) = (capsules, .ok (buf ++ chunk)) ∧
      capsuleErrorAt (buf ++ chunk) = some e := by
  have hparse : parseCapsule buf = .error e := by grind [capsuleErrorAt]
  have hmore : parseCapsule (buf ++ chunk) = .error e := by
    grind [parseCapsule, parseCapsule_append]
  refine ⟨drainAll_wait ?_, ?_⟩
  · rw [capsuleVerdict, hmore]
  · rw [capsuleErrorAt, hmore]

theorem HasRead.feed (h : a.HasRead stream) (chunk : Bytes) :
    (a.feed chunk).HasRead (stream ++ chunk) := by
  obtain ⟨hdrain, herror⟩ := popCapsules_spec a.capsules (Nat.lt_succ_self (a.buf ++ chunk).length)
  have hfeed : (a.feed chunk).error =
      a.error.or (popCapsules ((a.buf ++ chunk).length + 1) (a.buf ++ chunk)).2.1 := rfl
  have hwhole : drainAll capsuleVerdict [] (stream ++ chunk) =
      drainAll capsuleVerdict a.capsules (a.buf ++ chunk) := by
    rw [settled_capsuleVerdict.drainAll_append, h.drained]
  refine ⟨hwhole.trans hdrain, ?_⟩
  rw [hfeed]
  cases hfirst : a.error with
  | none => exact herror
  | some e =>
    -- the reader stands still, so it stops where it stood
    obtain ⟨hstill, hsame⟩ := drainAll_of_error (h.error_eq.symm.trans hfirst) chunk
    have hbuf : (popCapsules ((a.buf ++ chunk).length + 1) (a.buf ++ chunk)).2.2 =
        a.buf ++ chunk := Except.ok.inj (congrArg Prod.snd (hdrain.symm.trans hstill))
    show some e = capsuleErrorAt (popCapsules ((a.buf ++ chunk).length + 1) (a.buf ++ chunk)).2.2
    rw [hbuf, hsame]

theorem hasRead_foldl (chunks : List Bytes) : HasRead (chunks.foldl feed {}) chunks.flatten := by
  induction chunks using List.reverseRecOn with
  | nil => exact hasRead_nil
  | append_singleton chunks chunk ih =>
    rw [foldl_append, flatten_append, flatten_singleton]
    exact ih.feed chunk

theorem HasRead.length_lt (h : a.HasRead stream)
    (herror : a.error = none) : a.buf.length < 16 + maxCapsuleValueLen := by
  by_cases hne : a.buf = []
  · rw [hne]
    exact Nat.lt_add_right _ (by decide)
  · have hwait := settled_capsuleVerdict.wait_of_drainAll hne
      (settled_capsuleVerdict.drainAll_rest h.drained)
    rw [h.error_eq, capsuleErrorAt] at herror
    rw [capsuleVerdict] at hwait
    apply length_lt_of_incomplete
    split at hwait
    · cases hwait
    · cases hwait
    · next hparse => exact hparse
    · next e hparse => grind

end Assembly

/-- However a stream is cut, the reader ends with the same capsules, the same error and the
    same bytes as on the whole stream.  As long as it has reported no error, it holds less
    than one capsule after every chunk. -/
theorem capsule_chunking (chunks : List Bytes) :
    chunks.foldl Assembly.feed {} = Assembly.feed {} chunks.flatten ∧
      ∀ fed, fed <+: chunks → (fed.foldl Assembly.feed {}).error = none →
        (fed.foldl Assembly.feed {}).buf.length < 16 + maxCapsuleValueLen := by
  constructor
  · exact (Assembly.hasRead_foldl chunks).unique (Assembly.hasRead_nil.feed chunks.flatten)
  · intro fed _ herror
    exact (Assembly.hasRead_foldl fed).length_lt herror

/-- A drain capsule and a beginning of another one, cut inside the type. -/
theorem capsule_chunking_drain :
    ([[0x80, 0x00], [0x78, 0xae, 0x00, 0x68]] : List Bytes).foldl Assembly.feed {} =
        ⟨[.drain], none, [0x68]⟩ ∧
      Assembly.feed {} [0x80, 0x00, 0x78, 0xae, 0x00, 0x68] = ⟨[.drain], none, [0x68]⟩ ∧
      (([[0x80, 0x00], [0x78, 0xae, 0x00, 0x68]] : List Bytes).foldl Assembly.feed {}).buf.length <
        16 + maxCapsuleValueLen := by
  obtain ⟨hwhole, hbound⟩ := capsule_chunking [[0x80, 0x00], [0x78, 0xae, 0x00, 0x68]]
  have hfed : ([[0x80, 0x00], [0x78, 0xae, 0x00, 0x68]] : List Bytes).foldl Assembly.feed {} =
      ⟨[.drain], none, [0x68]⟩ := by decide
  refine ⟨hfed, hwhole.symm.trans hfed, hbound _ prefix_rfl ?_⟩
  rw [hfed]

/-- A capsule over the cap is refused, and its bytes stay in the assembler. -/
theorem feed_of_tooLarge {kind : Nat} {value : Bytes} (hkind : kind < 2 ^ 62)
    (hcap : maxCapsuleValueLen < value.length) (hlen : value.length < 2 ^ 62) :
    Assembly.feed {} (encodeCapsule kind value) =
      ⟨[], some .tooLarge, encodeCapsule kind value⟩ := by
  have hheader := frameHeader_frameWrap hkind hlen []
  rw [append_nil] at hheader
  have hparse : parseCapsule (encodeCapsule kind value) = .error .tooLarge := by
    rw [parseCapsule, encodeCapsule, hheader]
    exact if_pos hcap
  have herror : capsuleErrorAt (encodeCapsule kind value) = some .tooLarge := by
    rw [capsuleErrorAt, hparse]
  refine
    (Assembly.hasRead_nil.feed (encodeCapsule kind value)).unique ⟨drainAll_wait ?_, herror.symm⟩
  show capsuleVerdict [] (encodeCapsule kind value) = .wait
  rw [capsuleVerdict, hparse]

/-- A capsule of 2000 bytes leaves more behind than the largest permitted one has. -/
theorem refused_capsule_retained :
    (Assembly.feed {} (encodeCapsule capsuleDrainWtSession (List.replicate 2000 0))).error =
        some .tooLarge ∧
      16 + maxCapsuleValueLen <
        (Assembly.feed {}
          (encodeCapsule capsuleDrainWtSession (List.replicate 2000 0))).buf.length := by
  have hmax : maxCapsuleValueLen = 1028 := rfl
  have hlen : (List.replicate 2000 (0 : UInt8)).length = 2000 := length_replicate
  rw [feed_of_tooLarge (by decide) (by omega) (by omega)]
  refine ⟨rfl, ?_⟩
  rw [encodeCapsule, frameWrap, length_append]
  omega

end WebTransportBun.Wasm
