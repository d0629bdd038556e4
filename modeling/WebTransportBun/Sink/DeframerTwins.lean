/-
  Sink.DeframerTwins

  The three deframers: `Deframer::push`, `Deframer::push_bytes` and the `FrameCutter` of the
  wasm backend.  Fed with the same chunks they hand out the same frames with every push and
  fault with the same push, on exactly the streams no header of which wraps and no header of
  which is faulty behind a whole frame (`deframers_agree_iff`).  `frame_len` adds in `usize`,
  `#frameLen` does not wrap; and a push of the cutter that throws hands out no frame, while the
  native ones have handed out those in front of the fault.
-/

import WebTransportBun.Sink.FrameCutter

namespace WebTransportBun.Sink

open Library List FrameCutter PushState FramingConfig

/-- A round of the first loop of `Deframer::push`: a header that is completed is read in the
    same round, and the frame is the staged bytes up to its total. -/
def drainStaged (c : FramingConfig) (s : PushState) :
    PushState ⊕ (PushState × Option (Except Halt Unit)) :=
  if s.staging = [] then .inr (s, none)
  else
    let s := if s.staging.length < c.headerBytes then
      s.stage (c.headerBytes - s.staging.length) else s
    if s.staging.length < c.headerBytes then .inr (s, some (.ok ()))
    else
      match c.headerLen s.staging with
      | .error halt => .inr (s, some (.error halt))
      | .ok total =>
        let s := s.stage (total - min s.staging.length total)
        if s.staging.length < total then .inr (s, some (.ok ()))
        else .inl { s with staging := [], out := s.out ++ [s.staging.take total] }

/-- `Deframer::push` with an `emit` that does not fail; `out` is what `emit` received.  The
    second loop is that of `push_bytes`. -/
def Deframer.push (c : FramingConfig) : Nat → Bytes → Bytes → Option Pushed :=
  pushLoops (drainStaged c) (cutWhole c.headerLen c.headerBytes)

inductive Twin
  | push
  | pushBytes
  | frameCutter

/-- A push of a chunk ends like this, with `p.out` the frames that it hands out.  A cutter that
    throws hands out none. -/
def Twin.Returns (c : FramingConfig) (staging chunk : Bytes) (p : Pushed) : Twin → Prop
  | .push => ∃ fuel, Deframer.push c fuel staging chunk = some p
  | .pushBytes => PushReturns c staging chunk p
  | .frameCutter =>
    FrameCutter.push c staging chunk = some p.returned ∧ (p.result ≠ .ok () → p.out = [])

/-- What comes of the chunks of a stream up to the first fault: the frames that each push hands
    out, and whether it faults.  A fault stands right behind the frames before it. -/
inductive Twin.Fed (c : FramingConfig) (d : Twin) :
    Bytes → List Bytes → List (List Bytes × Bool) → Prop
  | nil {staging : Bytes} : Twin.Fed c d staging [] []
  | cons {staging chunk staging' : Bytes} {frames chunks : List Bytes}
      {trace : List (List Bytes × Bool)}
        (hret : d.Returns c staging chunk ⟨staging', frames, .ok ()⟩)
      (hrest : Twin.Fed c d staging' chunks trace) :
      Twin.Fed c d staging (chunk :: chunks) ((frames, false) :: trace)
  | fault {staging chunk staging' : Bytes} {frames chunks : List Bytes} {message : String}
      (hret : d.Returns c staging chunk ⟨staging', frames, .error (.fault message)⟩) :
      Twin.Fed c d staging (chunk :: chunks) [(frames, true)]

/-- All three return, with the same frames and the same fault. -/
def Agree (c : FramingConfig) (chunks : List Bytes) : Prop :=
  ∃ trace, ∀ d : Twin, d.Fed c [] chunks trace

/-- A framing that `validateStreamSinkOptions`, `FrameCutter` and `FramingConfig::validate`
    accept. -/
structure Accepted (text : Js → String) (framing : Js) (c : FramingConfig) : Prop where
  options : validateFraming text framing = .ok ()
  cutter : FrameCutter.new (readFraming framing) = .ok c
  rust : c.validate = .ok ()

theorem Accepted.maxFrameBytes_lt {text : Js → String} {framing : Js} {c : FramingConfig}
    (h : Accepted text framing c) : c.maxFrameBytes < usizeModulus := by
  obtain ⟨_, -, hopts⟩ := bind_eq_ok h.options
  obtain ⟨_, -, hopts⟩ := bind_eq_ok hopts
  obtain ⟨_, -, hopts⟩ := bind_eq_ok hopts
  obtain ⟨_, hmax, -⟩ := bind_eq_ok hopts
  have hcheck := not_not.mp (not_of_refuse hmax)
  rw [(valid_of_new h.cutter).2]
  show (framing.get "maxFrameBytes").toNat < usizeModulus
  generalize framing.get "maxFrameBytes" = v at hcheck
  cases v with
  | number x =>
    obtain ⟨-, -, hle⟩ := of_decide_eq_true hcheck
    simp only [Js.toNat, usizeModulus]
    omega
  | _ => cases hcheck

section

variable {c : FramingConfig} {staging chunk stream : Bytes} {chunks : List Bytes}

/-! ## A stream that does not wrap -/

theorem drainStaged_completes (hv : c.Valid) (hstaging : c.Incomplete staging)
    (hwrap : c.NoWrap (staging ++ chunk)) :
    Completes c (drainStaged c) 3 (staging ++ chunk) ⟨staging, chunk, []⟩ := by
  rcases eq_or_ne staging [] with rfl | hne
  · exact .inl ⟨[], chunk, .nil _ _, le_rfl, loop_done (if_pos rfl)⟩
  generalize hk : max staging.length c.headerBytes = k
  have hstage : (if staging.length < c.headerBytes then
      stage ⟨staging, chunk, []⟩ (c.headerBytes - staging.length)
      else ⟨staging, chunk, []⟩) = ⟨(staging ++ chunk).take k, (staging ++ chunk).drop k, []⟩ := by
    rw [← stage_split _ [] (show staging.length ≤ k by omega), take_left,
      drop_left]
    split
    · rw [← hk, max_eq_right (by omega)]
    · rw [← hk, max_eq_left (by omega)]
      simp [stage]
  have hcut : ((staging ++ chunk).take k).length < c.headerBytes ↔
      (staging ++ chunk).length < c.headerBytes := by
    rw [length_take]
    omega
  by_cases hstill : (staging ++ chunk).length < c.headerBytes
  · refine .inr ⟨_, (staging ++ chunk).drop k, .ok (), fun h => by omega,
      fun _ => take_of_length_le (show _ ≤ k by omega), loop_done ?_⟩
    simp only [drainStaged, if_neg hne, hstage, hcut, if_pos hstill]
  · refine Completes.mono (completes_of_round (k := k) (hwrap.readBy hv) (by omega)
      (fun hbounds => ?_) ?_ (fun t ht => if_pos ht) fun htotal => ?_) (show 2 ≤ 3 by decide)
    · rw [← hk]
      refine Nat.max_le.mpr ⟨?_, hbounds.1⟩
      rcases Nat.lt_or_ge staging.length c.headerBytes with hpart | hfull
      · exact hpart.le.trans hbounds.1
      · rw [take_append_of_le_length hfull]
        exact (hstaging hfull).2.le
    · grind
    · have hheader := (hwrap.readBy hv).header ((staging ++ chunk).take k)
        (by rw [length_take]; omega)
      rw [take_take, min_eq_left (show c.headerBytes ≤ k by omega)] at hheader
      simp only [drainStaged, headerRound, if_neg hne, hstage, hcut, if_neg hstill, hheader]
      cases hok : c.headerLen ((staging ++ chunk).take c.headerBytes) with
      | error halt => rfl
      | ok total => grind [stage_split]

/-- A push of any of the three hands out the whole frames of what it was fed and keeps the rest,
    or faults on the rest; a cutter that faults hands out nothing. -/
theorem Twin.cuts (d : Twin) (hv : c.Valid) (hstaging : c.Incomplete staging)
    (hwrap : c.NoWrap (staging ++ chunk)) :
    PushCuts c staging chunk fun p =>
      (p.result ≠ .ok () → p.out = []) → d.Returns c staging chunk p := by
  cases d with
  | push =>
    obtain ⟨frames, rest, result, staging', hsplit, hends, hkept, hret⟩ :=
      pushLoops_returns hv (drainStaged_completes hv hstaging hwrap) (hwrap.readBy hv)
    exact ⟨frames, rest, result, staging', hsplit, hends, hkept, fun _ => ⟨_, hret⟩⟩
  | pushBytes =>
    obtain ⟨frames, rest, result, staging', hsplit, hends, hkept, hret⟩ :=
      pushBytes_returns hv hstaging hwrap
    exact ⟨frames, rest, result, staging', hsplit, hends, hkept, fun _ => hret⟩
  | frameCutter =>
    obtain ⟨frames, rest, result, staging', hsplit, hends, hkept, hret⟩ :=
      push_returns hv hstaging chunk
    exact ⟨frames, rest, result, staging', hsplit, hends, hkept, fun hnone => ⟨hret, hnone⟩⟩

/-- The stream decides where the twins cut it, and whether they fault. -/
theorem exists_trace (hv : c.Valid) (hstaging : c.Incomplete staging)
    (hwrap : c.NoWrap (staging ++ chunks.flatten))
    (hfirst : c.FaultFirst (staging ++ chunks.flatten)) :
    ∃ trace, ∀ d : Twin, d.Fed c staging chunks trace := by
  induction chunks generalizing staging with
  | nil => exact ⟨[], fun _ => .nil⟩
  | cons chunk chunks ih =>
    rw [flatten_cons, ← append_assoc] at hwrap hfirst
    have hcuts := fun d : Twin => d.cuts hv hstaging hwrap.of_append
    obtain ⟨frames, rest, result, -, hsplit, hends, -, -⟩ := hcuts .pushBytes
    have hsame : ∀ d : Twin, ∃ result staging', Ends c rest result ∧
        (result = .ok () → staging' = rest) ∧ ((result ≠ .ok () → frames = []) →
          d.Returns c staging chunk ⟨staging', frames, result⟩) := by
      intro d
      obtain ⟨frames', rest', result', staging', hsplit', hends', hkept, hret⟩ := hcuts d
      obtain ⟨rfl, rfl⟩ := hends.unique hends' hsplit hsplit'
      exact ⟨result', staging', hends', hkept, hret⟩
    by_cases hfault : c.Faulty rest
    · -- all frames are behind the fault, so that none is lost
      have hnone := hfirst.of_append frames rest hsplit hfault
      refine ⟨[(frames, true)], fun d => ?_⟩
      obtain ⟨result', staging', hends', -, hret⟩ := hsame d
      obtain ⟨message, rfl⟩ := hends'.eq_fault hfault
      exact .fault (hret fun _ => hnone)
    · have hok : ∀ result', Ends c rest result' → result' = .ok () := fun result' hends' => by
        match result', hends' with
        | .ok (), _ => rfl
        | .error (.fault _), hfault' => exact absurd hfault' hfault
      obtain rfl := hok result hends
      have hmore := hsplit.append chunks.flatten
      obtain ⟨trace, htrace⟩ := ih hends (hwrap.of_splits hmore) (hfirst.of_splits hmore)
      refine ⟨(frames, false) :: trace, fun d => ?_⟩
      obtain ⟨result', staging', hends', hkept, hret⟩ := hsame d
      obtain rfl := hok result' hends'
      obtain rfl := hkept rfl
      exact .cons (hret fun hne => absurd rfl hne) (htrace d)

/-! ## A header on which they part -/

theorem Twin.Fed.single {d : Twin} {trace : List (List Bytes × Bool)}
    (h : d.Fed c staging [chunk] trace) :
    ∃ p, d.Returns c staging chunk p ∧ trace = [(p.out, !p.result.isOk)] := by
  cases h with
  | cons hret hrest =>
    cases hrest
    exact ⟨_, hret, rfl⟩
  | fault hret => exact ⟨_, hret, rfl⟩

/-- The second loop of `push_bytes` loses no byte, and leaves with an error in front of a header
    that `frame_len` refuses. -/
theorem cutWhole_leaves {s : PushState} {fuel : Nat} {r : PushState × Except Halt Unit}
    (h : loop (cutWhole c.headerLen c.headerBytes) fuel s = some r) :
    r.1.out.flatten ++ r.1.rest = s.out.flatten ++ s.rest ∧
      ∀ halt, r.2 = .error halt → c.headerLen r.1.rest = .error halt := by
  refine loop_keeps (I := fun t => t.out.flatten ++ t.rest = s.out.flatten ++ s.rest)
    (J := fun r => r.1.out.flatten ++ r.1.rest = s.out.flatten ++ s.rest ∧
      ∀ halt, r.2 = .error halt → c.headerLen r.1.rest = .error halt)
    (fun t u ht hbody => ?_) (fun t r ht hbody => ?_) rfl h
  · unfold cutWhole at hbody
    split at hbody
    · cases hbody
    split at hbody
    · cases hbody
    split at hbody
    · cases hbody
    · cases hbody
      simpa using ht
  · grind [cutWhole]

/-- A `push_bytes` on a fresh deframer that fails without a frame refuses the first header. -/
theorem headerLen_of_pushBytes {p : Pushed} (h : PushReturns c [] stream p) (hout : p.out = [])
    (herror : p.result ≠ .ok ()) : ∃ halt, c.headerLen stream = .error halt := by
  obtain ⟨fuel, h⟩ := h
  cases fuel with
  | zero => cases h
  | succ fuel =>
    simp only [pushBytes, pushLoops,
      show loop (completeStaged c.headerLen c.headerBytes) (fuel + 1) ⟨[], stream, []⟩ =
        some (⟨[], stream, []⟩, none) from rfl] at h
    split at h
    · cases h
    · next s halt hsecond =>
      cases h
      obtain ⟨hbytes, herr⟩ := cutWhole_leaves hsecond
      have hrest : s.rest = stream := by simpa [show s.out = [] from hout] using hbytes
      exact ⟨halt, hrest ▸ herr halt rfl⟩
    · cases h
      exact absurd rfl herror

/-- Where a header is faulty the cutter throws, without a frame; `push_bytes` does the same only
    if that header is the first and it refuses it. -/
theorem refused_of_agree (hv : c.Valid) (hmax : c.maxFrameBytes < usizeModulus)
    (h : Agree c [stream]) {frames : List Bytes} {rest : Bytes}
    (hsplit : Splits c.IsFrame stream frames rest) (hfault : c.Faulty rest) :
    frames = [] ∧ ∃ halt, c.headerLen stream = .error halt := by
  obtain ⟨trace, htrace⟩ := h
  obtain ⟨p, ⟨hp, hnone⟩, rfl⟩ := (htrace .frameCutter).single
  obtain ⟨q, hq, hsame⟩ := (htrace .pushBytes).single
  obtain ⟨frames', rest', result, staging', hsplit', hends, -, hret⟩ :=
    push_returns hv (incomplete_nil hv) stream
  obtain ⟨-, rfl⟩ := hends.unique hfault.ends hsplit' hsplit
  obtain ⟨message, rfl⟩ := hends.eq_fault hfault
  have hresult : p.result.map (fun _ => p.out) = .error (.fault message) :=
    congrArg Prod.snd (Option.some.inj (hp.symm.trans hret))
  cases hpres : p.result with
  | ok u =>
    rw [hpres] at hresult
    cases hresult
  | error halt =>
    rw [hpres] at hsame hnone
    simp only [List.cons.injEq, Prod.mk.injEq, and_true] at hsame
    obtain ⟨hout, hfails⟩ := hsame
    obtain ⟨halt', herr⟩ := headerLen_of_pushBytes hq (hout ▸ hnone nofun)
      fun hok => by rw [hok] at hfails; cases hfails
    refine ⟨?_, halt', herr⟩
    cases frames with
    | nil => rfl
    | cons frame frames =>
      have hfront := headerLen_of_isFrame hv hmax (hsplit.all frame mem_cons_self)
        (frames.flatten ++ rest')
      rw [← append_assoc, ← flatten_cons, ← hsplit.eq, herr] at hfront
      cases hfront

end

/-- For every framing that all validators accept: the three deframers agree on every chunking of
    a stream iff no header at a frame boundary of it denotes a total beyond `usize`, and none
    behind a whole frame denotes a total that no frame may have. -/
theorem deframers_agree_iff {text : Js → String} {framing : Js} {c : FramingConfig}
    (haccepted : Accepted text framing c) (stream : Bytes) :
    (∀ chunks, chunks.flatten = stream → Agree c chunks) ↔
      c.NoWrap stream ∧ c.FaultFirst stream := by
  have hv := (valid_of_new haccepted.cutter).1
  have hmax := haccepted.maxFrameBytes_lt
  constructor
  · intro hagree
    have hrefused := @refused_of_agree c stream hv hmax (hagree [stream] (by simp))
    refine ⟨fun frames rest hsplit hlen => ?_,
      fun frames rest hsplit hfault => (hrefused hsplit hfault).1⟩
    by_contra hwrap
    have hfault : c.Faulty rest := ⟨hlen, fun hbounds => by have := hbounds.2; omega⟩
    obtain ⟨rfl, halt, herr⟩ := hrefused hsplit hfault
    -- the header is the first of the stream, and it wraps to a total that is accepted
    obtain ⟨total, -, hok⟩ := frameLen_wrapped hv (by rw [length_take, min_eq_left hlen])
      (not_lt.mp hwrap)
    have hrest : stream = rest := by simpa using hsplit.eq
    rw [hrest, headerLen, hok] at herr
    cases herr
  · rintro ⟨hwrap, hfirst⟩ chunks rfl
    exact exists_trace hv (incomplete_nil hv) hwrap hfirst

def lengthOptions (headerBytes maxFrameBytes : ℚ) (includes : Bool) : Js :=
  .object [("headerBytes", .number headerBytes), ("lengthOffset", .number 0),
    ("lengthWidth", .number headerBytes), ("lengthIncludesHeader", .boolean includes),
    ("maxFrameBytes", .number maxFrameBytes)]

theorem byteFraming_accepted : Accepted (fun _ => "") (lengthOptions 1 16 true) byteFraming :=
  ⟨by decide +kernel, by decide +kernel, by decide⟩

/-- Two frames, in one chunk and in three. -/
theorem deframers_agree_iff_two_frames :
    Agree byteFraming [[3, 7, 8, 2, 9]] ∧ Agree byteFraming [[3], [7, 8, 2], [9]] := by
  have hsplit : Splits byteFraming.IsFrame [3, 7, 8, 2, 9] [[3, 7, 8], [2, 9]] [] := by
    refine ⟨rfl, ?_⟩
    simp only [mem_cons, not_mem_nil, or_false, forall_eq_or_imp, forall_eq]
    exact ⟨⟨by decide, by decide⟩, by decide, by decide⟩
  have hinc : byteFraming.Incomplete [] := fun h => absurd h (by decide)
  have hfirst : byteFraming.FaultFirst [3, 7, 8, 2, 9] := fun _ _ hsplit' hfault =>
    absurd hfault (hinc.not_faulty hsplit hsplit')
  have hagree := (deframers_agree_iff byteFraming_accepted [3, 7, 8, 2, 9]).mpr
    ⟨byteFraming_noWrap _, hfirst⟩
  exact ⟨hagree _ rfl, hagree _ rfl⟩

/-- The length `2 ^ 64 - 8` behind an eight-byte header: the cutter faults, `push_bytes` does
    not.  A frame and an empty header in one chunk: `push_bytes` hands the frame out before it
    faults, the cutter does not. -/
theorem wrapped_length_parts_deframers :
    Accepted (fun _ => "") (lengthOptions 8 64 false) wideFraming ∧
      ¬ Agree wideFraming [[0xf8, 0xff, 0xff, 0xff, 0xff, 0xff, 0xff, 0xff]] ∧
      Accepted (fun _ => "") (lengthOptions 1 16 true) byteFraming ∧
      ¬ Agree byteFraming [[1, 0]] := by
  have haccepted : Accepted (fun _ => "") (lengthOptions 8 64 false) wideFraming :=
    ⟨by decide +kernel, by decide +kernel, by decide⟩
  refine ⟨haccepted, fun hagree => ?_, byteFraming_accepted, fun hagree => ?_⟩
  · obtain ⟨-, halt, herr⟩ := refused_of_agree (valid_of_new haccepted.cutter).1 (by decide) hagree
      (.nil _ _) ⟨by decide, by decide⟩
    cases (show wideFraming.headerLen _ = .ok 0 by decide).symm.trans herr
  · have hframe : byteFraming.IsFrame [1] := ⟨by decide, by decide⟩
    have hsplit : Splits byteFraming.IsFrame [1, 0] [[1]] [0] := ⟨rfl, by simpa using hframe⟩
    obtain ⟨hnil, -⟩ := refused_of_agree (valid_of_new byteFraming_accepted.cutter).1 (by decide)
      hagree hsplit ⟨by decide, by decide⟩
    cases hnil

end WebTransportBun.Sink
