import DbAgent.PyBuiltins
import DbAgent.RegexScan

/-! The configuration file as `rca_common.config` reads it: the references to
environment variables in it, and the alert sources of its `ingest` block. -/
namespace DbAgent.Deploy

open Scan Py List

/-- A code point of a Python string; a surrogate on its own is no character. -/
inductive CodePoint where
  | char (c : Char)
  | surrogate (n : Fin 2048)
  deriving DecidableEq

open CodePoint

abbrev Text := List CodePoint

def text (s : String) : Text := s.toList.map .char

def CodePoint.is (p : Char → Bool) : CodePoint → Bool
  | .char c => p c
  | .surrogate _ => false

abbrev Environ := Text → Option Text

section References

def isNameStart (c : Char) : Bool := c.isAlpha || c == '_'

def isNameChar (c : Char) : Bool := c.isAlphanum || c == '_'

def envVarRe : Pattern CodePoint where
  first := .seq (.one (is (· == '$'))) (.one (is (· == '\x7b')))
  second := .seq (.one (is isNameStart)) (.many (is isNameChar))
  third := .one (is (· == '\x7d'))

/-- `_interpolate` of a string: an unset variable counts as empty. -/
def substitute (env : Environ) (t : Text) : Text :=
  envVarRe.replaceAll (fun h => (env h.second).getD []) t

def IsName (n : Text) : Prop := envVarRe.second.Matches n

def reference (n : Text) : Text := .char '$' :: .char '\x7b' :: (n ++ [.char '\x7d'])

def Blank (env : Environ) (t : Text) : Prop :=
  ∃ names : List Text, (∀ n ∈ names, IsName n ∧ (env n).getD [] = []) ∧
    t = names.flatMap reference

theorem eq_char_of_is {c : CodePoint} {d : Char} (h : c.is (· == d) = true) : c = .char d := by
  cases c with
  | char c =>
    have hcd : c = d := by simpa [is] using h
    rw [hcd]
  | surrogate n => cases h

theorem reference_of_matches {h : Hit CodePoint} (hm : envVarRe.Matches h) :
    h.text = reference h.second ∧ IsName h.second := by
  obtain ⟨a, b, hfirst, ⟨c, hc, rfl⟩, ⟨d, hd, rfl⟩⟩ := hm.first
  obtain ⟨e, he, hthird⟩ := hm.third
  rw [eq_char_of_is hc, eq_char_of_is hd] at hfirst
  rw [eq_char_of_is he] at hthird
  refine ⟨?_, hm.second⟩
  rw [Hit.text, hfirst, hthird]
  rfl

theorem envVarRe_nonempty : envVarRe.Nonempty := by
  intro h hm
  rw [(reference_of_matches hm).1]
  exact cons_ne_nil _ _

theorem matchAt_reference {n rest : Text} (hn : IsName n) :
    envVarRe.matchAt (reference n ++ rest) ≠ none := by
  let hit : Hit CodePoint := ⟨text "$\x7b", n, text "\x7d"⟩
  have htext : reference n ++ rest = hit.text ++ rest := by simp [hit, Hit.text, reference, text]
  have hmatch : envVarRe.Matches hit :=
    ⟨⟨_, _, rfl, ⟨_, rfl, rfl⟩, ⟨_, rfl, rfl⟩⟩, hn, ⟨_, rfl, rfl⟩⟩
  exact Pattern.matchAt_isSome htext hmatch

theorem isNameChar_of_start {c : Char} (h : isNameStart c = true) : isNameChar c = true := by
  simp only [isNameStart, isNameChar, Bool.or_eq_true, Char.isAlphanum] at h ⊢
  exact h.imp_left Or.inl

theorem name_chars {n : Text} (hn : IsName n) : ∀ c ∈ n, c.is isNameChar = true := by
  obtain ⟨a, b, rfl, ⟨c, hc, rfl⟩, hb⟩ := hn
  intro d hd
  rcases mem_append.mp hd with hd | hd
  · obtain rfl := mem_singleton.mp hd
    cases d with
    | char d => exact isNameChar_of_start hc
    | surrogate k => cases hc
  · exact hb d hd

theorem reference_append_inj {n m r s : Text} (hn : IsName n) (hm : IsName m)
    (h : reference n ++ r = reference m ++ s) : n = m ∧ r = s := by
  simp only [reference, cons_append, append_assoc, nil_append,
    List.cons.injEq, true_and] at h
  have hbrace : is isNameChar (.char '\x7d') = false := by decide
  obtain ⟨hnm, -, hrs⟩ := Regex.run_unique h (name_chars hn) (name_chars hm) hbrace hbrace
  exact ⟨hnm, hrs⟩

theorem blank_reference_append (env : Environ) {n t : Text} (hn : IsName n) :
    Blank env (reference n ++ t) ↔ (env n).getD [] = [] ∧ Blank env t := by
  constructor
  · rintro ⟨names, hblank, ht⟩
    cases names with
    | nil => simp [reference] at ht
    | cons m names =>
      obtain ⟨hm, hunset⟩ := hblank m mem_cons_self
      rw [flatMap_cons] at ht
      obtain ⟨rfl, hrest⟩ := reference_append_inj hn hm ht
      exact ⟨hunset, names, fun k hk => hblank k (mem_cons_of_mem n hk), hrest⟩
  · rintro ⟨hunset, names, hblank, rfl⟩
    refine ⟨n :: names, ?_, by rw [flatMap_cons]⟩
    grind

theorem substitute_eq_nil_iff (env : Environ) (t : Text) : substitute env t = [] ↔ Blank env t := by
  unfold substitute
  -- along the scan of the text: each piece is passed over or is one reference
  induction t using Pattern.scan_induction envVarRe_nonempty with
  | nil => exact ⟨fun _ => ⟨[], by simp, rfl⟩, fun _ => rfl⟩
  | skip c cs hm ih =>
    rw [Pattern.replaceAll_skip _ hm]
    constructor
    · intro h
      cases h
    · rintro ⟨names, hblank, ht⟩
      cases names with
      | nil => cases ht
      | cons n names =>
        rw [ht, flatMap_cons] at hm
        exact absurd hm (matchAt_reference (hblank n mem_cons_self).1)
  | hit h rest hm ih =>
    obtain ⟨htext, hname⟩ := reference_of_matches (Pattern.matchAt_matches hm)
    rw [Pattern.replaceAll_hit envVarRe_nonempty _ hm, append_eq_nil_iff, ih, htext,
      blank_reference_append env hname]

end References

section Values

inductive Key (α : Type) where
  | str (t : Text)
  | atom (a : α)
  deriving DecidableEq

/-- What `yaml.safe_load` and `json.loads` build. Numbers, dates, `None` and all
else that holds no strings are atoms. -/
inductive Datum (α : Type) where
  | atom (a : α)
  | str (t : Text)
  | list (xs : List (Datum α))
  | dict (kvs : List (Key α × Datum α))

structure Atoms (α : Type) where
  none : α
  truthy : α → Bool
  truthy_none : truthy none = false
  hashable : α → Bool
  equal : α → α → Bool

inductive Error where
  | attributeError | typeError | keyError | valueError | recursionError
  | unicodeEncodeError | unicodeDecodeError
  deriving DecidableEq

variable {α : Type} [DecidableEq α] (A : Atoms α)

def Datum.truthy : Datum α → Bool
  | .atom a => A.truthy a
  | .str t => !t.isEmpty
  | .list xs => !xs.isEmpty
  | .dict kvs => !kvs.isEmpty

/-- `x or d`. -/
def Datum.orElse (x d : Datum α) : Datum α := if x.truthy A then x else d

def lookup (k : String) (kvs : List (Key α × Datum α)) : Option (Datum α) :=
  (kvs.find? (fun kv => kv.1 = .str (text k))).map Prod.snd

/-- `x.get(k, d)`. -/
def Datum.get (x : Datum α) (k : String) (d : Datum α) : Except Error (Datum α) :=
  match x with
  | .dict kvs => .ok ((lookup k kvs).getD d)
  | _ => .error .attributeError

/-- `x[k]`. -/
def Datum.getItem (k : String) : Datum α → Except Error (Datum α)
  | .dict kvs => (lookup k kvs).elim (.error .keyError) .ok
  | _ => .error .typeError

mutual
/-- `_interpolate`; the keys of dictionaries stay. -/
def Datum.interpolate (env : Environ) : Datum α → Datum α
  | .atom a => .atom a
  | .str t => .str (substitute env t)
  | .list xs => .list (interpolateItems env xs)
  | .dict kvs => .dict (interpolateMembers env kvs)
def interpolateItems (env : Environ) : List (Datum α) → List (Datum α)
  | [] => []
  | x :: xs => x.interpolate env :: interpolateItems env xs
def interpolateMembers (env : Environ) : List (Key α × Datum α) → List (Key α × Datum α)
  | [] => []
  | (k, v) :: kvs => (k, v.interpolate env) :: interpolateMembers env kvs
end

structure IngestSource (α : Type) where
  name : Datum α
  secret : Datum α

/-- `IngestSource(name=s["name"], secret=s.get("secret", ""))`. -/
def ingestSource (s : Datum α) : Except Error (IngestSource α) := do
  let name ← s.getItem "name"
  let secret ← s.get "secret" (.str [])
  return ⟨name, secret⟩

/-- The `ingest` block of `parse_config`. -/
def ingestSources (raw : Datum α) : Except Error (List (IngestSource α)) := do
  let ig ← raw.get "ingest" (.atom A.none)
  let sources ← (ig.orElse A (.dict [])).get "sources" (.atom A.none)
  match sources.orElse A (.list []) with
  | .list xs => xs.mapM ingestSource
  -- neither a character nor a key nor an item of an atom can be subscripted by a string
  | _ => .error .typeError

/-- `load_config`, as far as the sources go, for the document in the file. -/
def loadConfig (env : Environ) (doc : Datum α) : Except Error (List (IngestSource α)) :=
  ingestSources A ((doc.orElse A (.dict [])).interpolate env)

def Datum.hashable : Datum α → Bool
  | .atom a => A.hashable a
  | .str _ => true
  | _ => false

/-- `==` of values that can be keys. -/
def Datum.same : Datum α → Datum α → Bool
  | .atom a, .atom b => A.equal a b
  | .str t, .str u => t = u
  | _, _ => false

/-- The dictionary `secrets` of `build_app`, with its insertions in order. -/
abbrev Secrets (α : Type) := List (Datum α × Datum α)

def secretEntry (s : IngestSource α) : Except Error (Datum α × Datum α) :=
  if s.name.hashable A then .ok (s.name, s.secret) else .error .typeError

/-- `{s.name: s.secret for s in config.ingest.sources}` of `build_app`. -/
def buildSecrets (env : Environ) (doc : Datum α) : Except Error (Secrets α) := do
  let sources ← loadConfig A env doc
  sources.mapM (secretEntry A)

def secretOf (secrets : Secrets α) (source : Datum α) : Option (Datum α) :=
  (secrets.reverse.find? (fun kv => kv.1.same A source)).map Prod.snd

end Values

section Document

variable {α : Type}

def Datum.member [DecidableEq α] (k : String) : Datum α → Option (Datum α)
  | .dict kvs => lookup k kvs
  | _ => none

section Interpolated

theorem orElse_list (A : Atoms α) (xs : List (Datum α)) :
    (Datum.list xs).orElse A (.list []) = .list xs := by
  cases xs with
  | nil => exact ite_self _
  | cons x xs => rfl

variable (env : Environ)

theorem interpolateItems_eq (xs : List (Datum α)) :
    interpolateItems env xs = xs.map (Datum.interpolate env) := by
  induction xs with
  | nil => rw [interpolateItems, map_nil]
  | cons x xs ih => rw [interpolateItems, map_cons, ih]

theorem interpolate_eq_empty_iff {v : Datum α} :
    v.interpolate env = .str [] ↔ ∃ t, v = .str t ∧ Blank env t := by
  constructor
  · intro h
    cases v with
    | str t => grind [Datum.interpolate, substitute_eq_nil_iff]
    | _ =>
      rw [Datum.interpolate] at h
      cases h
  · grind [Datum.interpolate, substitute_eq_nil_iff]

variable [DecidableEq α]

theorem lookup_interpolate (k : String) (kvs : List (Key α × Datum α)) :
    lookup k (interpolateMembers env kvs) = (lookup k kvs).map (Datum.interpolate env) := by
  induction kvs with
  | nil =>
    rw [interpolateMembers]
    rfl
  | cons kv kvs ih => grind [interpolateMembers, lookup]

theorem member_interpolate (k : String) (v : Datum α) :
    (v.interpolate env).member k = (v.member k).map (Datum.interpolate env) := by
  cases v with
  | dict kvs =>
    rw [Datum.interpolate]
    exact lookup_interpolate env k kvs
  | _ =>
    rw [Datum.interpolate]
    rfl

end Interpolated

variable [DecidableEq α] (A : Atoms α)

/-- The items of `ingest.sources` as they stand in the file. -/
def entries (doc : Datum α) : List (Datum α) :=
  match (doc.member "ingest").bind (Datum.member "sources") with
  | some (.list xs) => xs
  | _ => []

def entryName (env : Environ) (e : Datum α) : Option (Datum α) :=
  (e.member "name").map (Datum.interpolate env)

def entrySecret (env : Environ) (e : Datum α) : Datum α :=
  ((e.member "secret").map (Datum.interpolate env)).getD (.str [])

def entryOf (env : Environ) (doc source : Datum α) : Option (Datum α) :=
  (entries doc).reverse.find? fun e => (entryName env e).any fun n => n.same A source

def configuredSecret (env : Environ) (doc source : Datum α) : Option (Datum α) :=
  (entryOf A env doc source).map (entrySecret env)

/-- The entry of the source has no secret, or only references to variables that
are unset or empty. -/
def Secretless (env : Environ) (doc source : Datum α) : Prop :=
  ∃ e, entryOf A env doc source = some e ∧
    (e.member "secret" = none ∨ ∃ t, e.member "secret" = some (.str t) ∧ Blank env t)

theorem configuredSecret_empty_iff (env : Environ) (doc source : Datum α) :
    configuredSecret A env doc source = some (.str []) ↔ Secretless A env doc source := by
  unfold configuredSecret Secretless
  rw [Option.map_eq_some_iff]
  apply exists_congr
  intro e
  apply and_congr_right
  intro _
  unfold entrySecret
  cases e.member "secret" with
  | none => simp
  | some v =>
    simp only [Option.map_some, Option.getD_some, reduceCtorEq, Option.some.injEq, false_or]
    exact interpolate_eq_empty_iff env

theorem get_ok {v d r : Datum α} {k : String} (h : v.get k d = .ok r) :
    r = (v.member k).getD d := by
  cases v with
  | dict kvs =>
    cases h
    rfl
  | _ => cases h

theorem getItem_ok {v r : Datum α} {k : String} (h : v.getItem k = .ok r) :
    v.member k = some r := by
  cases v with
  | dict kvs =>
    change (lookup k kvs).elim _ _ = _ at h
    change lookup k kvs = some r
    cases hk : lookup k kvs with
    | none =>
      rw [hk] at h
      cases h
    | some x =>
      rw [hk] at h
      cases h
      rfl
  | _ => cases h

theorem member_orElse (k : String) (x : Datum α) :
    (x.orElse A (.dict [])).member k = x.member k := by
  unfold Datum.orElse
  split_ifs with hx
  · rfl
  · cases x with
    | dict kvs =>
      have hnil : kvs = [] := by simpa [Datum.truthy] using hx
      rw [hnil]
    | _ => rfl

variable {env : Environ}

theorem ingestSource_ok {e : Datum α} {s : IngestSource α}
    (h : ingestSource (e.interpolate env) = .ok s) :
    entryName env e = some s.name ∧ entrySecret env e = s.secret := by
  obtain ⟨name, hname, h⟩ := bind_ok h
  obtain ⟨secret, hsecret, h⟩ := bind_ok h
  cases h
  have hn := getItem_ok hname
  have hs := get_ok hsecret
  rw [member_interpolate] at hn hs
  exact ⟨hn, hs.symm⟩

variable {doc : Datum α}

theorem loadConfig_ok {sources : List (IngestSource α)} (h : loadConfig A env doc = .ok sources) :
    List.Forall₂ (fun e s => ingestSource (e.interpolate env) = .ok s) (entries doc) sources := by
  obtain ⟨ig, hig, h⟩ := bind_ok h
  obtain ⟨v, hv, h⟩ := bind_ok h
  have higm := get_ok hig
  have hvm := get_ok hv
  rw [member_interpolate, member_orElse] at higm
  rw [member_orElse, higm] at hvm
  have hroute : v = (((doc.member "ingest").bind (Datum.member "sources")).map
      (Datum.interpolate env)).getD (.atom A.none) := by
    rw [hvm]
    cases doc.member "ingest" with
    | none => rfl
    | some x => simp [member_interpolate]
  unfold entries
  cases hs : (doc.member "ingest").bind (Datum.member "sources") with
  | none =>
    rw [hs] at hroute
    subst hroute
    simp only [Option.map_none, Option.getD_none, Datum.orElse, Datum.truthy, A.truthy_none] at h
    cases h
    exact .nil
  | some x =>
    rw [hs] at hroute
    change v = x.interpolate env at hroute
    subst hroute
    cases x with
    | list xs =>
      rw [Datum.interpolate, interpolateItems_eq, orElse_list] at h
      exact forall₂_map_left_iff.mp (mapM_ok h)
    | _ =>
      -- what is no list is falsy, or the loop raises
      rw [Datum.interpolate] at h
      unfold Datum.orElse at h
      split_ifs at h
      cases h
      exact .nil

theorem buildSecrets_ok {secrets : Secrets α} (h : buildSecrets A env doc = .ok secrets) :
    List.Forall₂ (fun e kv => entryName env e = some kv.1 ∧ entrySecret env e = kv.2)
      (entries doc) secrets := by
  obtain ⟨sources, hload, hkeys⟩ := bind_ok h
  have hentries := loadConfig_ok A hload
  have hpairs := mapM_ok hkeys
  generalize entries doc = es at hentries
  clear h hload hkeys
  induction hentries generalizing secrets with
  | nil =>
    cases hpairs
    exact .nil
  | cons he _ ih =>
    cases hpairs with
    | cons hkv hrest =>
      refine .cons ?_ (ih hrest)
      grind [secretEntry, ingestSource_ok]

theorem find?_forall₂ {β γ δ : Type} {R : β → γ → Prop} {p : β → Bool} {q : γ → Bool}
    {f : β → δ} {g : γ → δ} {xs : List β} {ys : List γ} (h : List.Forall₂ R xs ys)
    (hpq : ∀ x y, R x y → p x = q y) (hfg : ∀ x y, R x y → f x = g y) :
    (xs.find? p).map f = (ys.find? q).map g := by
  induction h with
  | nil => rfl
  | @cons x y xs ys hxy _ ih => grind

theorem secretOf_eq {secrets : Secrets α} (h : buildSecrets A env doc = .ok secrets)
    (source : Datum α) :
    secretOf A secrets source = configuredSecret A env doc source := by
  have hpairs := forall₂_reverse_iff.mpr (buildSecrets_ok A h)
  refine (find?_forall₂ hpairs ?_ ?_).symm
  · grind
  · simp

end Document

end DbAgent.Deploy
