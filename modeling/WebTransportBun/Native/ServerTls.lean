/-
  WebTransportBun.Native.ServerTls

  The choice of the server certificate by the name that a client offers:
  `LiveServerCertResolver` with its updates, `resolve` with its three counters, and the
  normalisation of names.

  `Config` is what the documentation says about the same updates: which certificate a name
  is configured with, and what is chosen for a client hello.  The resolver keeps what is
  configured (`refines_of_calls`), and chooses and counts as documented, except for offered
  names that do not normalise, which are refused without being counted, and for configured
  wildcards with one label behind the star, which are not looked up (`sni_selection_iff`).

  `idna::domain_to_ascii_cow` is a partial function on names.  Certificates are of any type.
  A lock is not poisoned here: nothing panics under it.
-/

import WebTransportBun.Library.Map
import WebTransportBun.Library.Text

namespace WebTransportBun.Native.ServerTls

open Library List Option

/-! ## Names -/

abbrev Name := List Char

def splitOnceDot (name : Name) : Option (Name × Name) :=
  if '.' ∈ name then some (name.takeWhile (· ≠ '.'), (name.dropWhile (· ≠ '.')).drop 1) else none

def wildcard (suffix : Name) : Name := '*' :: '.' :: suffix

def startsWithStar (name : Name) : Bool := name.take 2 = ['*', '.']

section

variable (idna : Name → Option Name)

def normalizeAsciiDomain (name : Name) : Except String Name :=
  match idna name with
  | some domain => .ok (domain.map Char.toLower)
  | none => .error ("invalid serverName: " ++ String.ofList name)

def validateWildcardServerName (name : Name) : Except String Unit :=
  let suffix := name.drop 2
  if name.count '*' ≠ 1 ∨ ¬ startsWithStar name then
    .error "wildcard serverName must start with \"*.\" and contain no other \"*\" characters"
  else if suffix = [] ∨ suffix.head? = some '.' ∨ suffix.getLast? = some '.' then
    .error "wildcard serverName suffix must be non-empty"
  else if '.' ∉ suffix then
    .error "wildcard serverName must include at least two labels after \"*.\""
  else if '*' ∈ suffix then
    .error "wildcard serverName must start with \"*.\" and contain no other \"*\" characters"
  else .ok ()

def normalizeServerName (serverName : Name) : Except String Name :=
  let normalized := ((trim serverName).reverse.dropWhile (· = '.')).reverse
  if normalized = [] then .error "serverName must be non-empty"
  else if '*' ∈ normalized then do
    validateWildcardServerName normalized
    let suffix ← normalizeAsciiDomain idna (normalized.drop 2)
    return wildcard suffix
  else normalizeAsciiDomain idna normalized

end

def wildcardLookupKey (name : Name) : Option Name :=
  if startsWithStar name then none
  else
    match splitOnceDot name with
    | none => none
    | some (_, suffix) => if '.' ∉ suffix then none else some (wildcard suffix)

/-! ## The resolver -/

inductive UnknownSniPolicy
  | reject
  | default
  deriving DecidableEq, Repr

/-- The counters are `AtomicU64`, whose `fetch_add` wraps. -/
structure Resolver (C : Type) where
  defaultCert : C
  certsByName : Map Name C
  unknownSniPolicy : UnknownSniPolicy
  sniCertSelections : UInt64 := 0
  defaultCertSelections : UInt64 := 0
  unknownSniRejectedCount : UInt64 := 0

def Resolver.new {C : Type} (defaultCert : C) (certsByName : Map Name C)
    (unknownSniPolicy : UnknownSniPolicy) : Resolver C :=
  { defaultCert, certsByName, unknownSniPolicy }

/-- The updates, and a client hello with the name it offers. -/
inductive Call (C : Type)
  | replaceDefault (cert : C)
  | replaceAll (cert : C) (certsByName : Map Name C) (policy : UnknownSniPolicy)
  | replaceSniCerts (certsByName : Map Name C)
  | upsertSniCert (serverName : Name) (cert : C)
  | removeSniCert (serverName : Name)
  | setUnknownSniPolicy (policy : UnknownSniPolicy)
  | resolve (serverName : Option Name)

namespace Resolver

variable {C : Type} (idna : Name → Option Name) (r : Resolver C)

def upsertSniCert (serverName : Name) (cert : C) : Except String Name × Resolver C :=
  match normalizeServerName idna serverName with
  | .error e => (.error e, r)
  | .ok key => (.ok key, { r with certsByName := r.certsByName.insert key cert })

def removeSniCert (serverName : Name) : Except String Bool × Resolver C :=
  match normalizeServerName idna serverName with
  | .error e => (.error e, r)
  | .ok key =>
    (.ok (r.certsByName.contains key), { r with certsByName := r.certsByName.erase key })

def selectSni (cert : C) : Option C × Resolver C :=
  (some cert, { r with sniCertSelections := r.sniCertSelections + 1 })

def selectDefault : Option C × Resolver C :=
  (some r.defaultCert, { r with defaultCertSelections := r.defaultCertSelections + 1 })

/-- `resolve`: the certificate, and the resolver with its counters. -/
def resolve (serverName : Option Name) : Option C × Resolver C :=
  match serverName with
  | none => r.selectDefault
  | some name =>
    match normalizeServerName idna name with
    | .error _ => (none, r)
    | .ok key =>
      match r.certsByName.get? key with
      | some cert => r.selectSni cert
      | none =>
        match (wildcardLookupKey key).bind r.certsByName.get? with
        | some cert => r.selectSni cert
        | none =>
          if r.certsByName.keys ≠ [] ∧ r.unknownSniPolicy = .reject then
            (none, { r with unknownSniRejectedCount := r.unknownSniRejectedCount + 1 })
          else r.selectDefault

def call : Call C → Resolver C
  | .replaceDefault cert => { r with defaultCert := cert }
  | .replaceAll cert certsByName policy =>
    { r with defaultCert := cert, certsByName, unknownSniPolicy := policy }
  | .replaceSniCerts certsByName => { r with certsByName }
  | .upsertSniCert serverName cert => (r.upsertSniCert idna serverName cert).2
  | .removeSniCert serverName => (r.removeSniCert idna serverName).2
  | .setUnknownSniPolicy policy => { r with unknownSniPolicy := policy }
  | .resolve serverName => (r.resolve idna serverName).2

end Resolver

/-! ## What is configured, and what is chosen -/

/-- The default certificate, the certificate of every configured name, and the policy. -/
structure Config (C : Type) where
  defaultCert : C
  certOf : Name → Option C
  policy : UnknownSniPolicy

inductive Selection (C : Type)
  | sni (cert : C)
  | rejected
  | default (cert : C)

def Selection.cert {C : Type} : Selection C → Option C
  | sni cert => some cert
  | rejected => none
  | default cert => some cert

namespace Config

variable {C : Type} (idna : Name → Option Name) (config : Config C)

def call : Call C → Config C
  | .replaceDefault cert => { config with defaultCert := cert }
  | .replaceAll cert certsByName policy => ⟨cert, certsByName.get?, policy⟩
  | .replaceSniCerts certsByName => { config with certOf := certsByName.get? }
  | .upsertSniCert serverName cert =>
    { config with certOf := fun name =>
        if normalizeServerName idna serverName = .ok name then some cert else config.certOf name }
  | .removeSniCert serverName =>
    { config with certOf := fun name =>
        if normalizeServerName idna serverName = .ok name then none else config.certOf name }
  | .setUnknownSniPolicy policy => { config with policy }
  | .resolve _ => config

/-- The certificate of the name, or else of the wildcard over the name without its left-most
    label. -/
def find (serverName : Name) : Option C :=
  match normalizeServerName idna serverName with
  | .error _ => none
  | .ok key =>
    (config.certOf key).or
      ((splitOnceDot key).bind fun parts => config.certOf (wildcard parts.2))

open Classical in
/-- The choice for a name, by the certificate that was found for it. -/
noncomputable def choose : Option C → Selection C
  | some cert => .sni cert
  | none =>
    if (∃ name, config.certOf name ≠ none) ∧ config.policy = .reject then .rejected
    else .default config.defaultCert

/-- The documented choice. -/
noncomputable def select : Option Name → Selection C
  | none => .default config.defaultCert
  | some name => config.choose (config.find idna name)

end Config

def Resolver.count {C : Type} (r : Resolver C) : Selection C → Resolver C
  | .sni _ => { r with sniCertSelections := r.sniCertSelections + 1 }
  | .rejected => { r with unknownSniRejectedCount := r.unknownSniRejectedCount + 1 }
  | .default _ => { r with defaultCertSelections := r.defaultCertSelections + 1 }

/-! ## The resolver keeps what is configured -/

section

variable {C : Type} {idna : Name → Option Name} {r : Resolver C} {config : Config C}

/-- The resolver holds the configuration. -/
structure Refines (r : Resolver C) (config : Config C) : Prop where
  defaultCert : r.defaultCert = config.defaultCert
  certOf : ∀ name, r.certsByName.get? name = config.certOf name
  policy : r.unknownSniPolicy = config.policy

section

variable (h : Refines r config)

include h

theorem Refines.keys_ne_nil :
    r.certsByName.keys ≠ [] ↔ ∃ name, config.certOf name ≠ none := by
  have hkeys : ∀ name, name ∈ r.certsByName.keys ↔ config.certOf name ≠ none := fun name => by
    rw [Map.mem_keys, h.certOf, ne_none_iff_exists']
  constructor
  · intro hne
    obtain ⟨name, hname⟩ := exists_mem_of_ne_nil _ hne
    exact ⟨name, (hkeys name).mp hname⟩
  · rintro ⟨name, hname⟩
    exact ne_nil_of_mem ((hkeys name).mpr hname)

theorem Refines.resolve (serverName : Option Name) :
    Refines (r.resolve idna serverName).2 config := by
  have hcounters : ∀ sni default rejected, Refines { r with
      sniCertSelections := sni
      defaultCertSelections := default
      unknownSniRejectedCount := rejected } config :=
        fun _ _ _ => ⟨h.defaultCert, h.certOf, h.policy⟩
  unfold Resolver.resolve
  split
  · exact hcounters _ _ _
  split
  · exact h
  split
  · exact hcounters _ _ _
  split
  · exact hcounters _ _ _
  split
  · exact hcounters _ _ _
  · exact hcounters _ _ _

theorem Refines.call (c : Call C) :
    Refines (r.call idna c) (config.call idna c) := by
  cases c with
  | replaceDefault cert => exact ⟨rfl, h.certOf, h.policy⟩
  | replaceAll cert certsByName policy => exact ⟨rfl, fun _ => rfl, rfl⟩
  | replaceSniCerts certsByName => exact ⟨h.defaultCert, fun _ => rfl, h.policy⟩
  | upsertSniCert serverName cert =>
    simp only [Resolver.call, Config.call, Resolver.upsertSniCert]
    cases normalizeServerName idna serverName with
    | error e => exact ⟨h.defaultCert, fun name => h.certOf name, h.policy⟩
    | ok key =>
      refine ⟨h.defaultCert, fun name => ?_, h.policy⟩
      rw [Map.get?_insert, h.certOf]
      exact if_congr (by rw [Except.ok.injEq, eq_comm]) rfl rfl
  | removeSniCert serverName =>
    simp only [Resolver.call, Config.call, Resolver.removeSniCert]
    cases normalizeServerName idna serverName with
    | error e => exact ⟨h.defaultCert, fun name => h.certOf name, h.policy⟩
    | ok key =>
      refine ⟨h.defaultCert, fun name => ?_, h.policy⟩
      rw [Map.get?_erase, h.certOf]
      exact if_congr (by rw [Except.ok.injEq, eq_comm]) rfl rfl
  | setUnknownSniPolicy policy => exact ⟨h.defaultCert, h.certOf, rfl⟩
  | resolve serverName => exact h.resolve serverName

/-- After any updates and client hellos the resolver holds what they have configured. -/
theorem refines_of_calls (calls : List (Call C)) :
    Refines (calls.foldl (Resolver.call idna) r) (calls.foldl (Config.call idna) config) := by
  induction calls generalizing r config with
  | nil => exact h
  | cons c calls ih => exact ih (h.call c)

end

/-! ## Wildcards -/

variable {key : Name}

theorem wildcard_of_startsWithStar (h : startsWithStar key = true) :
    ∃ suffix, splitOnceDot key = some (['*'], suffix) ∧ wildcard suffix = key := by
  have htake : key.take 2 = ['*', '.'] := of_decide_eq_true h
  obtain ⟨suffix, rfl⟩ : ∃ suffix, key = '*' :: '.' :: suffix :=
    ⟨key.drop 2, by rw [← take_append_drop 2 key, htake]; rfl⟩
  refine ⟨suffix, ?_, rfl⟩
  simp [splitOnceDot]

/-- A wildcard with one label behind the star covers the name, and is configured. -/
def Config.ShortWildcard (config : Config C) (key : Name) : Prop :=
  ∃ label suffix, splitOnceDot key = some (label, suffix) ∧ '.' ∉ suffix ∧
    config.certOf (wildcard suffix) ≠ none

/-- What `resolve` finds under the wildcard key is what the wildcard has, unless it is short. -/
theorem wildcardLookupKey_bind (hkey : config.certOf key = none)
    (hshort : ¬ config.ShortWildcard key) :
    (wildcardLookupKey key).bind config.certOf =
      (splitOnceDot key).bind fun parts => config.certOf (wildcard parts.2) := by
  unfold wildcardLookupKey
  by_cases hstar : startsWithStar key = true
  · obtain ⟨suffix, hsplit, hwildcard⟩ := wildcard_of_startsWithStar hstar
    rw [if_pos hstar, hsplit, bind_some, hwildcard, hkey]
    rfl
  · rw [if_neg hstar]
    cases hsplit : splitOnceDot key with
    | none => rfl
    | some parts =>
      by_cases hdot : '.' ∈ parts.2
      · simp [hdot]
      · have hnone : config.certOf (wildcard parts.2) = none := by
          by_contra hsome
          exact hshort ⟨parts.1, parts.2, hsplit, hdot, hsome⟩
        simp [hnone]

theorem wildcardLookupKey_of_short (hshort : config.ShortWildcard key) :
    wildcardLookupKey key = none := by
  obtain ⟨label, suffix, hsplit, hdot, -⟩ := hshort
  unfold wildcardLookupKey
  split
  · rfl
  · rw [hsplit]
    exact if_pos hdot

/-! ## What is chosen -/

/-- The resolver answers and counts as documented. -/
def Conforms (idna : Name → Option Name) (r : Resolver C) (config : Config C)
    (serverName : Option Name) : Prop :=
  r.resolve idna serverName =
    ((config.select idna serverName).cert, r.count (config.select idna serverName))

/-- The offered name, if there is one, normalises, and is not left to a short wildcard. -/
def Config.Regular (idna : Name → Option Name) (config : Config C) (serverName : Option Name) :
    Prop :=
  ∀ name, serverName = some name → ∃ key, normalizeServerName idna name = .ok key ∧
    (config.certOf key = none → ¬ config.ShortWildcard key)

theorem add_one_ne_self (n : UInt64) : n + 1 ≠ n := by
  intro heq
  simp at heq

theorem Resolver.count_ne_self (r : Resolver C) (choice : Selection C) : r.count choice ≠ r := by
  intro heq
  cases choice with
  | sni cert => exact add_one_ne_self _ (congrArg Resolver.sniCertSelections heq)
  | rejected => exact add_one_ne_self _ (congrArg Resolver.unknownSniRejectedCount heq)
  | default cert => exact add_one_ne_self _ (congrArg Resolver.defaultCertSelections heq)

theorem count_choose_ne (r : Resolver C) (config : Config C) (cert : C) :
    r.count (config.choose none) ≠ r.count (config.choose (some cert)) := by
  intro heq
  have hsni : (r.count (config.choose none)).sniCertSelections = r.sniCertSelections := by
    unfold Config.choose
    dsimp only
    split <;> rfl
  exact add_one_ne_self _ (hsni.symm.trans (congrArg Resolver.sniCertSelections heq)).symm

/-- For a name that normalises, `resolve` chooses by the certificate of the key, or else of
    its lookup key. -/
theorem Refines.resolve_eq (h : Refines r config) {name : Name}
    (hname : normalizeServerName idna name = .ok key) :
    r.resolve idna (some name) =
      (let choice :=
        config.choose ((config.certOf key).or ((wildcardLookupKey key).bind config.certOf))
       (choice.cert, r.count choice)) := by
  have hget : r.certsByName.get? = config.certOf := funext h.certOf
  simp only [Resolver.resolve, hname, hget]
  cases config.certOf key with
  | some cert => rfl
  | none =>
    cases (wildcardLookupKey key).bind config.certOf with
    | some cert => rfl
    | none =>
      have hreject : (r.certsByName.keys ≠ [] ∧ r.unknownSniPolicy = .reject) ↔
          (∃ name, config.certOf name ≠ none) ∧ config.policy = .reject := by
        rw [h.keys_ne_nil, h.policy]
      by_cases hempty : r.certsByName.keys ≠ [] ∧ r.unknownSniPolicy = .reject
      · simp only [Config.choose, if_pos hempty, if_pos (hreject.mp hempty)]
        rfl
      · simp only [Config.choose, if_neg hempty,
          if_neg (mt hreject.mpr hempty)]
        exact congrArg (fun cert => (some cert, _)) h.defaultCert

theorem Refines.conforms_iff (h : Refines r config) (serverName : Option Name) :
    Conforms idna r config serverName ↔ config.Regular idna serverName := by
  unfold Conforms
  cases serverName with
  | none =>
    refine iff_of_true ?_ fun name hname => by cases hname
    exact congrArg (fun cert => (some cert, _)) h.defaultCert
  | some name =>
    cases hname : normalizeServerName idna name with
    | error e =>
      -- refused, and no counter goes up
      have hrefused : r.resolve idna (some name) = (none, r) := by
        simp only [Resolver.resolve, hname]
      refine iff_of_false (fun hconf => ?_) fun hregular => ?_
      · rw [hrefused] at hconf
        exact r.count_ne_self _ (congrArg Prod.snd hconf).symm
      · obtain ⟨key, hkey, -⟩ := hregular name rfl
        rw [hname] at hkey
        cases hkey
    | ok key =>
      have hfind : config.find idna name = (config.certOf key).or
          ((splitOnceDot key).bind fun parts => config.certOf (wildcard parts.2)) := by
        simp only [Config.find, hname]
      have hregular : config.Regular idna (some name) ↔
          (config.certOf key = none → ¬ config.ShortWildcard key) := by
        constructor
        · intro hregular
          obtain ⟨key', hkey', hshort⟩ := hregular name rfl
          obtain rfl : key = key' := Except.ok.inj (hname.symm.trans hkey')
          exact hshort
        · rintro hshort _ ⟨⟩
          exact ⟨key, hname, hshort⟩
      rw [h.resolve_eq hname, hregular, Config.select, hfind]
      cases hcert : config.certOf key with
      | some cert => exact iff_of_true rfl nofun
      | none =>
        by_cases hshort : config.ShortWildcard key
        · refine iff_of_false (fun hconf => ?_) fun hnot => hnot rfl hshort
          obtain ⟨label, suffix, hsplit, hdot, hsome⟩ := hshort
          obtain ⟨cert, hcert⟩ := ne_none_iff_exists'.mp hsome
          rw [wildcardLookupKey_of_short ⟨label, suffix, hsplit, hdot, hsome⟩, hsplit] at hconf
          simp only [bind_none, bind_some, none_or, hcert] at hconf
          exact count_choose_ne r config cert (congrArg Prod.snd hconf)
        · rw [wildcardLookupKey_bind hcert hshort]
          exact iff_of_true rfl fun _ => hshort

/-- After any updates and client hellos, the resolver answers a client hello with the
    documented certificate and counts the choice under its one counter exactly if the offered
    name normalises and is not left to a wildcard with one label behind the star. -/
theorem sni_selection_iff (idna : Name → Option Name) (defaultCert : C)
    (certsByName : Map Name C) (policy : UnknownSniPolicy) (calls : List (Call C))
    (serverName : Option Name) :
    Conforms idna
        (calls.foldl (Resolver.call idna) (Resolver.new defaultCert certsByName policy))
        (calls.foldl (Config.call idna) ⟨defaultCert, certsByName.get?, policy⟩) serverName ↔
      (calls.foldl (Config.call idna) ⟨defaultCert, certsByName.get?, policy⟩).Regular idna
        serverName :=
  (refines_of_calls ⟨rfl, fun _ => rfl, rfl⟩ calls).conforms_iff serverName

end

/-- A server without named certificates refuses a client whose name is no IDNA domain, instead
    of serving the default certificate, and counts nothing. -/
theorem unnormalized_name_refused :
    let idna : Name → Option Name := fun name =>
      if name = "xn--a.com".toList then none else some name
    let r : Resolver Nat := Resolver.new 1 ∅ .default
    let config : Config Nat := ⟨1, Map.get? ∅, .default⟩
    r.resolve idna (some "xn--a.com".toList) = (none, r) ∧
      config.select idna (some "xn--a.com".toList) = .default 1 ∧
      ¬ Conforms idna r config (some "xn--a.com".toList) := by
  intro idna r config
  have hname : normalizeServerName idna "xn--a.com".toList =
      .error "invalid serverName: xn--a.com" := by decide +kernel
  have hresolve : r.resolve idna (some "xn--a.com".toList) = (none, r) := by
    simp only [Resolver.resolve, hname]
  have hselect : config.select idna (some "xn--a.com".toList) = .default 1 := by
    exact if_neg fun hreject => by cases hreject.2
  refine ⟨hresolve, hselect, fun hconf => ?_⟩
  rw [Conforms, hselect] at hconf
  cases congrArg Prod.fst hconf

end WebTransportBun.Native.ServerTls
