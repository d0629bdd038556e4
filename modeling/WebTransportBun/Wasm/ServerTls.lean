/-
  WebTransportBun.Wasm.ServerTls

  The certificates of a wasm server: `LiveServerCertResolver`
  (`crates/wasm/src/server_tls.rs`) and what `update_tls_json` (`endpoint.rs`) does once its
  JSON and PEM texts are parsed.  The names that an update leaves are computed before any of
  it is made, so that it is refused as a whole.
-/

import Mathlib.Data.List.Basic

namespace WebTransportBun.Wasm.ServerTls

open List

abbrev Name := List Char

/-- `eq_ignore_ascii_case`. -/
def sameName (a b : Name) : Bool := a.map Char.toLower == b.map Char.toLower

def maxSniEntries : Nat := 1024

inductive UnknownSniPolicy
  | reject
  | default
  deriving DecidableEq, Repr

abbrev Sni (C : Type) := List (Name × C)

def u64Max : Nat := UInt64.size - 1

/-- `ResolverState`; its counters saturate. -/
structure Resolver (C : Type) where
  default : Option C
  sni : Sni C := []
  unknownSniPolicy : UnknownSniPolicy := .reject
  sniSelections : Nat := 0
  defaultSelections : Nat := 0
  unknownRejected : Nat := 0

/-- The fields of a configuration. -/
structure Update (C : Type) where
  default : Option C := none
  policy : Option UnknownSniPolicy := none
  sni : Option (Sni C) := none
  removals : List Name := []
  upserts : Sni C := []

/-- The answer to an update; it has the hash of the new default certificate. -/
structure Reply (C : Type) where
  default : Option C
  sniUpserted : Option Nat
  sniRemoved : Option Nat

variable {C : Type}

def upsertSni (name : Name) (key : C) : Sni C → Sni C
  | [] => [(name, key)]
  | (n, k) :: sni => if sameName n name then (n, key) :: sni else (n, k) :: upsertSni name key sni

/-- Whether there was an entry, and the map without it. -/
def removeSni (name : Name) (sni : Sni C) : Bool × Sni C :=
  let rest := sni.filter fun e => !sameName e.1 name
  (rest.length ≠ sni.length, rest)

def addName (names : List Name) (name : Name) : List Name :=
  if names.any (sameName · name) then names else names ++ [name]

/-- The names behind an update. -/
def simulate (names removals upserts : List Name) : List Name :=
  upserts.foldl addName (names.filter fun n => !removals.any (sameName · n))

def removeCounted (r : Nat × Sni C) (name : Name) : Nat × Sni C :=
  let (found, sni) := removeSni name r.2
  (if found then r.1 + 1 else r.1, sni)

def find (sni : Sni C) (name : Name) : Option C :=
  (sni.find? (sameName ·.1 name)).map Prod.snd

namespace Resolver

def updateTls (r : Resolver C) (u : Update C) : Except String (Reply C × Resolver C) :=
  let sni := u.sni.getD r.sni
  if u.sni.isSome ∧ maxSniEntries < sni.length then
    .error "E_TLS: sni map exceeds the 1024 entry cap"
  else if u.upserts ≠ [] ∧
      maxSniEntries < (simulate (sni.map Prod.fst) u.removals (u.upserts.map Prod.fst)).length then
    .error "E_TLS: sni map would exceed the 1024 entry cap"
  else
    let (removed, kept) := u.removals.foldl removeCounted (0, sni)
    .ok ({ default := u.default
           sniUpserted := if u.upserts = [] then none else some u.upserts.length
           sniRemoved := if u.removals = [] then none else some removed },
      { r with
        default := u.default.or r.default
        unknownSniPolicy := u.policy.getD r.unknownSniPolicy
        sni := u.upserts.foldl (fun sni e => upsertSni e.1 e.2 sni) kept })

/-- The certificate for a client hello that offers a name or none. -/
def resolve (r : Resolver C) (serverName : Option Name) : Option C × Resolver C :=
  match serverName.bind (find r.sni) with
  | some key => (some key, { r with sniSelections := min (r.sniSelections + 1) u64Max })
  | none =>
    -- with no entries the default certificate serves every name
    if serverName.isSome ∧ r.sni ≠ [] ∧ r.unknownSniPolicy = .reject then
      (none, { r with unknownRejected := min (r.unknownRejected + 1) u64Max })
    else (r.default, { r with defaultSelections := min (r.defaultSelections + 1) u64Max })

end Resolver

inductive Call (C : Type)
  | update (u : Update C)
  | resolve (serverName : Option Name)

/-- A refused update leaves the resolver as it is. -/
def Resolver.call (r : Resolver C) : Call C → Resolver C
  | .update u => ((r.updateTls u).toOption.map Prod.snd).getD r
  | .resolve serverName => (r.resolve serverName).2

/-! ## The names behind an update -/

theorem names_upsertSni (name : Name) (key : C) (sni : Sni C) :
    (upsertSni name key sni).map Prod.fst = addName (sni.map Prod.fst) name := by
  unfold addName
  induction sni with
  | nil => rfl
  | cons e sni ih =>
    rw [upsertSni]
    by_cases hsame : sameName e.1 name = true
    · simp [hsame]
    · rw [if_neg hsame, map_cons, ih, map_cons, any_cons]
      simp only [hsame, Bool.false_or]
      split <;> rfl

theorem names_upserts (upserts sni : Sni C) :
    (upserts.foldl (fun sni e => upsertSni e.1 e.2 sni) sni).map Prod.fst =
      (upserts.map Prod.fst).foldl addName (sni.map Prod.fst) := by
  induction upserts generalizing sni with
  | nil => rfl
  | cons e upserts ih => rw [foldl_cons, ih, names_upsertSni, map_cons, foldl_cons]

theorem removeCounted_foldl (removals : List Name) (r : Nat × Sni C) :
    (removals.foldl removeCounted r).2 = r.2.filter fun e => !removals.any (sameName · e.1) := by
  induction removals generalizing r with
  | nil => simp
  | cons name removals ih =>
    have hsame : ∀ n, sameName n name = sameName name n := fun n => BEq.comm
    rw [foldl_cons, ih]
    simp [removeCounted, removeSni, hsame, Bool.and_comm]

/-! ## The certificates behind an update -/

theorem find_cons (e : Name × C) (sni : Sni C) (n : Name) :
    find (e :: sni) n = if sameName e.1 n then some e.2 else find sni n := by
  by_cases h : sameName e.1 n <;> simp [find, h]

theorem find_append (a b : Sni C) (n : Name) : find (a ++ b) n = (find a n).or (find b n) := by
  rw [find, find?_append, Option.map_or]
  rfl

theorem sameName_congr {a b : Name} (h : sameName a b = true) (n : Name) :
    sameName n a = sameName n b ∧ sameName a n = sameName b n := by
  simp only [sameName, beq_iff_eq] at h ⊢
  rw [h]
  exact ⟨rfl, rfl⟩

theorem find_upsertSni (name : Name) (key : C) (sni : Sni C) (n : Name) :
    find (upsertSni name key sni) n = if sameName name n then some key else find sni n := by
  induction sni with
  | nil => exact find_cons ..
  | cons e sni ih =>
    rw [upsertSni]
    split
    next hsame =>
      rw [find_cons, find_cons, (sameName_congr hsame n).2]
      split <;> rfl
    next hsame =>
      rw [find_cons, find_cons, ih]
      -- an entry of another name comes first only if it is not looked for
      split
      next hn => rw [if_neg fun h => hsame ((sameName_congr h e.1).1.trans hn)]
      next => rfl

/-- The last of the upserts counts. -/
theorem find_upserts (upserts sni : Sni C) (n : Name) :
    find (upserts.foldl (fun sni e => upsertSni e.1 e.2 sni) sni) n =
      (find upserts.reverse n).or (find sni n) := by
  induction upserts generalizing sni with
  | nil => rfl
  | cons e upserts ih =>
    rw [foldl_cons, ih, find_upsertSni, reverse_cons, find_append, find_cons, Option.or_assoc]
    split <;> rfl

theorem find_removed (removals : List Name) (sni : Sni C) (n : Name) :
    find (sni.filter fun e => !removals.any (sameName · e.1)) n =
      if removals.any (sameName · n) then none else find sni n := by
  induction sni with
  | nil => simp [find]
  | cons e sni ih => grind [find_cons, sameName_congr]

variable {r r' : Resolver C} {u : Update C} {reply : Reply C}

theorem updateTls_cases (h : r.updateTls u = .ok (reply, r')) :
    (u.sni.isSome → (u.sni.getD r.sni).length ≤ maxSniEntries) ∧
      (u.upserts ≠ [] → (simulate ((u.sni.getD r.sni).map Prod.fst) u.removals
        (u.upserts.map Prod.fst)).length ≤ maxSniEntries) ∧
      r' = { r with
        default := u.default.or r.default
        unknownSniPolicy := u.policy.getD r.unknownSniPolicy
        sni := u.upserts.foldl (fun sni e => upsertSni e.1 e.2 sni)
          ((u.sni.getD r.sni).filter fun e => !u.removals.any (sameName · e.1)) } := by
  unfold Resolver.updateTls at h
  dsimp only at h
  split at h
  · cases h
  split at h
  · cases h
  next hmap hedits => grind [removeCounted_foldl]

theorem names_updateTls (h : r.updateTls u = .ok (reply, r')) :
    r'.sni.map Prod.fst =
      simulate ((u.sni.getD r.sni).map Prod.fst) u.removals (u.upserts.map Prod.fst) := by
  rw [(updateTls_cases h).2.2, names_upserts, simulate, filter_map]
  rfl

/-- An update that is made leaves the names that were computed for it, and for each name the last
    certificate given for it, none if it was only removed, or the one it had. -/
theorem update_serves (h : r.updateTls u = .ok (reply, r')) :
    r'.sni.map Prod.fst =
        simulate ((u.sni.getD r.sni).map Prod.fst) u.removals (u.upserts.map Prod.fst) ∧
      ∀ n, find r'.sni n = (find u.upserts.reverse n).or
        (if u.removals.any (sameName · n) then none else find (u.sni.getD r.sni) n) := by
  refine ⟨names_updateTls h, fun n => ?_⟩
  rw [(updateTls_cases h).2.2, find_upserts, find_removed]

theorem update_serves_last :
    ∃ reply r', Resolver.updateTls { default := some 0 }
        { upserts := [(['a'], 1), (['A'], 2)] } = .ok (reply, r') ∧ find r'.sni ['a'] = some 2 :=
  ⟨_, _, rfl, (update_serves (r := { default := some 0 })
    (u := { upserts := [(['a'], 1), (['A'], 2)] }) rfl).2 ['a']⟩

/-! ## Runs -/

theorem length_updateTls (h : r.updateTls u = .ok (reply, r')) (hr : r.sni.length ≤ maxSniEntries) :
    r'.sni.length ≤ maxSniEntries := by
  obtain ⟨hmap, hedits, hr'⟩ := updateTls_cases h
  by_cases hupserts : u.upserts = []
  · rw [hr', hupserts]
    refine Nat.le_trans (length_filter_le ..) ?_
    cases hsni : u.sni with
    | none => exact hr
    | some sni =>
      rw [← hsni]
      exact hmap (by rw [hsni]; rfl)
  · rw [← length_map Prod.fst, names_updateTls h]
    exact hedits hupserts

def Call.isResolve : Call C → Bool
  | .update _ => false
  | .resolve _ => true

/-- Each client hello was counted by one of the counters, as far as they go. -/
def Counted (r : Resolver C) (hellos : Nat) : Prop :=
  ∃ sni default rejected, sni + default + rejected = hellos ∧
    r.sniSelections = min sni u64Max ∧ r.defaultSelections = min default u64Max ∧
    r.unknownRejected = min rejected u64Max

/-- What a run keeps. -/
structure Serving (r : Resolver C) (hellos : Nat) : Prop where
  capped : r.sni.length ≤ maxSniEntries
  hasDefault : r.default.isSome
  counted : Counted r hellos

theorem Counted.resolve {hellos : Nat} (h : Counted r hellos) (serverName : Option Name) :
    Counted (r.resolve serverName).2 (hellos + 1) := by
  obtain ⟨sni, default, rejected, rfl, hsni, hdefault, hrejected⟩ := h
  unfold Resolver.resolve
  split
  · exact ⟨sni + 1, default, rejected, by omega, by dsimp only; omega, hdefault, hrejected⟩
  split
  · exact ⟨sni, default, rejected + 1, by omega, hsni, hdefault, by dsimp only; omega⟩
  · exact ⟨sni, default + 1, rejected, by omega, hsni, by dsimp only; omega, hrejected⟩

theorem resolve_keeps (serverName : Option Name) :
    (r.resolve serverName).2.sni = r.sni ∧ (r.resolve serverName).2.default = r.default := by
  unfold Resolver.resolve
  split
  · exact ⟨rfl, rfl⟩
  split <;> exact ⟨rfl, rfl⟩

theorem Serving.call {hellos : Nat} (h : Serving r hellos) (c : Call C) :
    Serving (r.call c) (hellos + [c].countP Call.isResolve) := by
  obtain ⟨hcapped, hdefault, hcounted⟩ := h
  cases c with
  | update u =>
    rw [Resolver.call]
    cases hupdate : r.updateTls u with
    | error e => exact ⟨hcapped, hdefault, hcounted⟩
    | ok result =>
      refine ⟨length_updateTls hupdate hcapped, ?_, ?_⟩
      · simp [(updateTls_cases hupdate).2.2, Except.toOption, hdefault]
      · show Counted result.2 hellos
        rw [(updateTls_cases hupdate).2.2]
        exact hcounted
  | resolve serverName =>
    obtain ⟨hsni, hkept⟩ := resolve_keeps (r := r) serverName
    exact ⟨hsni ▸ hcapped, hkept ▸ hdefault, hcounted.resolve serverName⟩

theorem Serving.calls {hellos : Nat} (h : Serving r hellos) (calls : List (Call C)) :
    Serving (calls.foldl Resolver.call r) (hellos + calls.countP Call.isResolve) := by
  induction calls generalizing r hellos with
  | nil => exact h
  | cons c calls ih =>
    rw [← singleton_append, countP_append, ← Nat.add_assoc]
    exact ih (h.call c)

/-- Whatever updates and client hellos come: the map stays within the cap, each client hello is
    counted by one counter, up to the most a counter can hold, and one gets no certificate only
    for an unknown name under the policy that rejects it. -/
theorem resolver_runs (key : C) (calls : List (Call C)) :
    let r := calls.foldl Resolver.call { default := some key }
    r.sni.length ≤ maxSniEntries ∧
      Counted r (calls.countP Call.isResolve) ∧
      ∀ name, (r.resolve name).1 = none ↔ name.isSome ∧ name.bind (find r.sni) = none ∧
        r.sni ≠ [] ∧ r.unknownSniPolicy = .reject := by
  intro r
  have hstart : Serving (C := C) { default := some key } 0 :=
    ⟨Nat.zero_le _, rfl, 0, 0, 0, rfl, rfl, rfl, rfl⟩
  obtain ⟨hcapped, hdefault, hcounted⟩ := hstart.calls calls
  rw [Nat.zero_add] at hcounted
  refine ⟨hcapped, hcounted, fun name => ?_⟩
  rw [Resolver.resolve]
  split
  next hfound => simp [hfound]
  next hfound => grind

end WebTransportBun.Wasm.ServerTls
