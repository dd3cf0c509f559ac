import DbAgent.DeployConfig

/-! The references to environment variables as the Go services expand them, in
the nodes of a YAML document, and as `rca_common.config` does, in the value that
the document decodes to. -/
namespace DbAgent.EnvExpand

open Scan Deploy List Pattern CodePoint Datum

abbrev Variables := List Char → Option (List Char)

def getenv (vars : Variables) (name : List Char) : List Char := (vars name).getD []

def chars : Text → Option (List Char)
  | [] => some []
  | .char c :: t => (chars t).map (c :: ·)
  | .surrogate _ :: _ => none

/-- `os.environ` of the same process. -/
def environ (vars : Variables) : Environ :=
  fun name => ((chars name).bind vars).map fun value => value.map .char

section Strings

def envVarRE : Pattern Char where
  first := .seq (.one (· == '$')) (.one (· == '\x7b'))
  second := .seq (.one isNameStart) (.many isNameChar)
  third := .one (· == '\x7d')

def findStringSubmatch (s : List Char) : Option (Hit Char) := (envVarRE.findAll s).head?

/-- `ExpandString`: each match is matched once more, for its group. -/
def expandString (vars : Variables) (s : List Char) : List Char :=
  envVarRE.replaceAll
    (fun found => (findStringSubmatch found.text).elim [] fun sub => getenv vars sub.second) s

/-- What an expansion is: references are replaced from the left, by text that is
not looked at again, and everything else stays. -/
inductive Expands (env : Environ) : Text → Text → Prop
  | nil : Expands env [] []
  | reference {n t u : Text} (hn : IsName n) (h : Expands env t u) :
      Expands env (reference n ++ t) ((env n).getD [] ++ u)
  | skip {c : CodePoint} {t u : Text}
      (hno : ∀ n r, IsName n → c :: t ≠ reference n ++ r) (h : Expands env t u) :
      Expands env (c :: t) (c :: u)

end Strings

/-- `yaml.Node`. A scalar has a tag and is quoted or plain; `zero` is the node of
an empty document. -/
inductive Node where
  | zero
  | document (content : List Node)
  | sequence (content : List Node)
  | mapping (content : List (Node × Node))
  | scalar (tag : String) (quoted : Bool) (value : List Char)
  | aliasTo (anchor : String)

open Node

mutual
/-- `ExpandNode`: only values of mappings, not their keys. -/
def expandNode (vars : Variables) : Node → Node
  | .document content => .document (expandContent vars content)
  | .sequence content => .sequence (expandContent vars content)
  | .mapping content => .mapping (expandValues vars content)
  | .scalar tag quoted value =>
    if tag = "!!str" ∨ envVarRE.findAll value ≠ [] then
      .scalar "!!str" quoted (expandString vars value)
    else .scalar tag quoted value
  | .zero => .zero
  | .aliasTo anchor => .aliasTo anchor
def expandContent (vars : Variables) : List Node → List Node
  | [] => []
  | n :: ns => expandNode vars n :: expandContent vars ns
def expandValues (vars : Variables) : List (Node × Node) → List (Node × Node)
  | [] => []
  | (k, v) :: rest => (k, expandNode vars v) :: expandValues vars rest
end

section Decoding

mutual
/-- The tree with the text of every string value rewritten; keys and all other scalars stay. -/
def Node.rewrite (f : List Char → List Char) : Node → Node
  | .document content => .document (rewriteContent f content)
  | .sequence content => .sequence (rewriteContent f content)
  | .mapping content => .mapping (rewriteValues f content)
  | .scalar tag quoted value => .scalar tag quoted (if tag = "!!str" then f value else value)
  | .zero => .zero
  | .aliasTo anchor => .aliasTo anchor
def rewriteContent (f : List Char → List Char) : List Node → List Node
  | [] => []
  | n :: ns => n.rewrite f :: rewriteContent f ns
def rewriteValues (f : List Char → List Char) : List (Node × Node) → List (Node × Node)
  | [] => []
  | (k, v) :: rest => (k, v.rewrite f) :: rewriteValues f rest
end

mutual
/-- A tree of the parser for a document without anchors, aliases and explicit
tags: a quoted scalar is a string, and a plain one has the tag it resolves to. -/
def Node.Implicit (resolve : List Char → String) : Node → Prop
  | .zero => True
  | .document content => ImplicitContent resolve content
  | .sequence content => ImplicitContent resolve content
  | .mapping content => ImplicitMembers resolve content
  | .scalar tag quoted value => tag = if quoted then "!!str" else resolve value
  | .aliasTo _ => False
def ImplicitContent (resolve : List Char → String) : List Node → Prop
  | [] => True
  | n :: ns => n.Implicit resolve ∧ ImplicitContent resolve ns
def ImplicitMembers (resolve : List Char → String) : List (Node × Node) → Prop
  | [] => True
  | (k, v) :: rest => k.Implicit resolve ∧ v.Implicit resolve ∧ ImplicitMembers resolve rest
end

variable {α : Type}

mutual
def mapStrings (g : Text → Text) : Datum α → Datum α
  | .atom a => .atom a
  | .str t => .str (g t)
  | .list xs => .list (mapItems g xs)
  | .dict kvs => .dict (mapMembers g kvs)
def mapItems (g : Text → Text) : List (Datum α) → List (Datum α)
  | [] => []
  | x :: xs => mapStrings g x :: mapItems g xs
def mapMembers (g : Text → Text) : List (Key α × Datum α) → List (Key α × Datum α)
  | [] => []
  | (k, v) :: kvs => (k, mapStrings g v) :: mapMembers g kvs
end

end Decoding

/-- The library `yaml.v3`: the tag that a plain scalar resolves to, and `Node.Decode` into an `any`.
What has a dollar sign in it is a string in every schema. Of a string value the decoder takes the
text as it is, and nothing that it does depends on this text: keys, merge keys and the types of
scalars are settled without it. So when texts with a dollar sign are rewritten, the same strings of
the decoded value are, and all else stays. -/
structure Yaml (α : Type) where
  resolve : List Char → String
  resolve_dollar : ∀ s, '$' ∈ s → resolve s = "!!str"
  decode : Node → Option (Datum α)
  decode_rewrite : ∀ n : Node, n.Implicit resolve →
    ∀ (f : List Char → List Char) (g : Text → Text), (∀ s, (f s).map .char = g (s.map .char)) →
      (∀ s, '$' ∉ s → f s = s) → decode (n.rewrite f) = (decode n).map (mapStrings g)

section Strings

theorem chars_map (s : List Char) : chars (s.map .char) = some s := by
  induction s with
  | nil => rfl
  | cons c s ih => rw [map_cons, chars, ih, Option.map_some]

theorem envVarRE_eq : envVarRE = envVarRe.comap .char := rfl

theorem matches_char {h : Hit Char} (hm : envVarRE.Matches h) :
    envVarRe.Matches (h.map .char) where
  first := (Regex.matches_comap char envVarRe.first h.first).mp hm.first
  second := (Regex.matches_comap char envVarRe.second h.second).mp hm.second
  third := (Regex.matches_comap char envVarRe.third h.third).mp hm.third

theorem reference_of_match {h : Hit Char} (hm : envVarRE.Matches h) :
    h.text.map .char = reference (h.second.map .char) ∧ IsName (h.second.map .char) := by
  rw [← Hit.text_map]
  exact reference_of_matches (matches_char hm)

theorem envVarRE_nonempty : envVarRE.Nonempty := by
  intro h hm hnil
  have htext := (reference_of_match hm).1
  rw [hnil] at htext
  cases htext

theorem findStringSubmatch_match {h : Hit Char} (hm : envVarRE.Matches h) :
    ∃ sub, findStringSubmatch h.text = some sub ∧ sub.second = h.second := by
  have hsome : envVarRE.matchAt h.text ≠ none :=
    matchAt_isSome (append_nil h.text).symm hm
  obtain ⟨⟨sub, rest⟩, hat⟩ := Option.ne_none_iff_exists'.mp hsome
  refine ⟨sub, ?_, ?_⟩
  · rw [findStringSubmatch, findAll_hit envVarRE_nonempty hat]
    rfl
  · obtain ⟨hsub, hsubname⟩ := reference_of_match (matchAt_matches hat)
    obtain ⟨hh, hhname⟩ := reference_of_match hm
    have htext : h.text.map char ++ [] =
        sub.text.map char ++ rest.map char := by
      rw [append_nil, ← map_append, ← matchAt_eq hat]
    rw [hh, hsub] at htext
    have hname := (reference_append_inj hhname hsubname htext).1
    exact (map_injective_iff.mpr (fun _ _ h => char.inj h) hname).symm

theorem expandString_eq (vars : Variables) (s : List Char) :
    (expandString vars s).map .char = substitute (environ vars) (s.map .char) := by
  have hgroup : expandString vars s = envVarRE.replaceAll (fun h => getenv vars h.second) s := by
    apply replaceAll_congr envVarRE_nonempty
    intro m hm
    obtain ⟨sub, hsub, hname⟩ := findStringSubmatch_match hm
    rw [hsub, Option.elim_some, hname]
  rw [hgroup, envVarRE_eq, substitute]
  apply replaceAll_comap
  intro h
  change (getenv vars h.second).map char = (environ vars (h.second.map .char)).getD []
  rw [getenv, environ, chars_map, Option.bind_some]
  cases vars h.second with
  | none => rfl
  | some value => rfl

theorem expands_iff (env : Environ) (t u : Text) : Expands env t u ↔ u = substitute env t := by
  unfold substitute
  constructor
  · intro h
    induction h with
    | nil => rfl
    | @reference n t u hn _ ih =>
      have hsome : envVarRe.matchAt (reference n ++ t) ≠ none := matchAt_reference hn
      obtain ⟨⟨hit, rest⟩, hat⟩ := Option.ne_none_iff_exists'.mp hsome
      obtain ⟨htext, hname⟩ := reference_of_matches (matchAt_matches hat)
      have heq := matchAt_eq hat
      rw [htext] at heq
      obtain ⟨hn', ht⟩ := reference_append_inj hn hname heq
      rw [replaceAll_hit envVarRe_nonempty _ hat, ← hn', ← ht, ih]
    | @skip c t u hno _ ih =>
      have hm : envVarRe.matchAt (c :: t) = none := by
        by_contra hsome
        obtain ⟨⟨hit, rest⟩, hat⟩ := Option.ne_none_iff_exists'.mp hsome
        obtain ⟨htext, hname⟩ := reference_of_matches (matchAt_matches hat)
        have heq := matchAt_eq hat
        rw [htext] at heq
        exact hno _ _ hname heq
      rw [replaceAll_skip _ hm, ih]
  · rintro rfl
    induction t using scan_induction envVarRe_nonempty with
    | nil => exact .nil
    | skip c cs hm ih =>
      rw [replaceAll_skip _ hm]
      refine .skip ?_ ih
      intro n r hn heq
      rw [heq] at hm
      exact matchAt_reference hn hm
    | hit h rest hm ih =>
      obtain ⟨htext, hname⟩ := reference_of_matches (matchAt_matches hm)
      rw [replaceAll_hit envVarRe_nonempty _ hm, htext]
      exact .reference hname ih

theorem dollar_mem {s : List Char} (h : envVarRE.findAll s ≠ []) : '$' ∈ s := by
  obtain ⟨hit, hhit⟩ := exists_mem_of_ne_nil _ h
  obtain ⟨a, rest, hs, hat⟩ := findAll_at envVarRE_nonempty hhit
  have htext := (reference_of_match (matchAt_matches hat)).1
  have hmem : char '$' ∈ hit.text.map char := by
    rw [htext]
    exact mem_cons_self
  grind

end Strings

section Trees

variable {α : Type} (env : Environ)

mutual
theorem interpolate_eq (v : Datum α) : v.interpolate env = mapStrings (substitute env) v := by
  cases v with
  | list xs => rw [interpolate, mapStrings, interpolateItems_mapItems xs]
  | dict kvs => rw [interpolate, mapStrings, interpolateMembers_mapMembers kvs]
  | _ => rw [interpolate, mapStrings]
theorem interpolateItems_mapItems (xs : List (Datum α)) :
    interpolateItems env xs = mapItems (substitute env) xs := by
  cases xs with
  | nil => rw [interpolateItems, mapItems]
  | cons x xs =>
    rw [interpolateItems, mapItems, interpolate_eq x, interpolateItems_mapItems xs]
theorem interpolateMembers_mapMembers (kvs : List (Key α × Datum α)) :
    interpolateMembers env kvs = mapMembers (substitute env) kvs := by
  cases kvs with
  | nil => rw [interpolateMembers, mapMembers]
  | cons kv kvs =>
    obtain ⟨k, v⟩ := kv
    rw [interpolateMembers, mapMembers, interpolate_eq v, interpolateMembers_mapMembers kvs]
end

variable (Y : Yaml α) (vars : Variables)

theorem expandString_self {s : List Char} (h : '$' ∉ s) : expandString vars s = s := by
  apply replaceAll_of_findAll envVarRE_nonempty
  by_contra hsome
  exact h (dollar_mem hsome)

theorem expandNode_scalar {tag : String} {quoted : Bool} {value : List Char}
    (hn : (scalar tag quoted value).Implicit Y.resolve) :
    expandNode vars (.scalar tag quoted value) =
      (scalar tag quoted value).rewrite (expandString vars) := by
  rw [Implicit] at hn
  by_cases htag : tag = "!!str"
  · rw [expandNode, if_pos (.inl htag), rewrite, if_pos htag, htag]
  · -- a scalar of another type is plain, and has no reference in it
    have hplain : quoted = false := by
      by_contra hq
      rw [Bool.not_eq_false] at hq
      rw [hq] at hn
      exact htag hn
    have hnone : envVarRE.findAll value = [] := by
      by_contra hsome
      apply htag
      rw [hn, hplain]
      exact Y.resolve_dollar value (dollar_mem hsome)
    have hstay : ¬(tag = "!!str" ∨ envVarRE.findAll value ≠ []) := by
      rw [not_or, not_not]
      exact ⟨htag, hnone⟩
    rw [expandNode, if_neg hstay, rewrite, if_neg htag]

mutual
theorem expandNode_eq (n : Node) (hn : n.Implicit Y.resolve) :
    expandNode vars n = n.rewrite (expandString vars) := by
  cases n with
  | document content =>
    rw [Implicit] at hn
    rw [expandNode, rewrite, expandContent_eq content hn]
  | sequence content =>
    rw [Implicit] at hn
    rw [expandNode, rewrite, expandContent_eq content hn]
  | mapping content =>
    rw [Implicit] at hn
    rw [expandNode, rewrite, expandValues_eq content hn]
  | scalar tag quoted value => exact expandNode_scalar Y vars hn
  | zero => rw [expandNode, rewrite]
  | aliasTo anchor => rw [expandNode, rewrite]
theorem expandContent_eq (ns : List Node) (hn : ImplicitContent Y.resolve ns) :
    expandContent vars ns = rewriteContent (expandString vars) ns := by
  cases ns with
  | nil => rw [expandContent, rewriteContent]
  | cons n ns =>
    rw [ImplicitContent] at hn
    rw [expandContent, rewriteContent, expandNode_eq n hn.1, expandContent_eq ns hn.2]
theorem expandValues_eq (ms : List (Node × Node)) (hn : ImplicitMembers Y.resolve ms) :
    expandValues vars ms = rewriteValues (expandString vars) ms := by
  cases ms with
  | nil => rw [expandValues, rewriteValues]
  | cons kv ms =>
    obtain ⟨k, v⟩ := kv
    rw [ImplicitMembers] at hn
    rw [expandValues, rewriteValues, expandNode_eq v hn.2.1, expandValues_eq ms hn.2.2]
end

theorem decode_expandNode (n : Node) (hn : n.Implicit Y.resolve) :
    Y.decode (expandNode vars n) = (Y.decode n).map (interpolate (environ vars)) := by
  have hdecode := Y.decode_rewrite n hn (expandString vars) (substitute (environ vars))
    (expandString_eq vars) (fun s hs => expandString_self vars hs)
  rw [expandNode_eq Y vars n hn, hdecode]
  exact congrArg (Option.map · (Y.decode n)) (funext fun v => (interpolate_eq _ v).symm)

end Trees

section Values

inductive Selector (α : Type) where
  | key (k : Key α)
  | index (i : ℕ)

inductive Leaf (α : Type) where
  | atom (a : α)
  | str (t : Text)
  | list (length : ℕ)
  | dict

variable {α : Type}

def leaf : Datum α → Leaf α
  | .atom a => .atom a
  | .str t => .str t
  | .list xs => .list xs.length
  | .dict _ => .dict

variable [DecidableEq α]

def child : Selector α → Datum α → Option (Datum α)
  | .key k, .dict kvs => (kvs.find? fun kv => kv.1 = k).map Prod.snd
  | .index i, .list xs => xs[i]?
  | _, _ => none

def view : List (Selector α) → Datum α → Option (Leaf α)
  | [], v => some (leaf v)
  | s :: path, v => (child s v).bind (view path)

def Same (v w : Datum α) : Prop := ∀ path, view path v = view path w

def Leaf.Expanded (env : Environ) : Leaf α → Leaf α → Prop
  | .str t, .str u => Expands env t u
  | .str _, _ => False
  | l, l' => l = l'

def Leaf.interpolate (env : Environ) : Leaf α → Leaf α
  | .str t => .str (substitute env t)
  | l => l

omit [DecidableEq α] in
theorem expanded_interpolate (env : Environ) (l : Leaf α) : l.Expanded env (l.interpolate env) := by
  cases l with
  | str t => exact (expands_iff env t _).mpr rfl
  | _ => rfl

omit [DecidableEq α] in
theorem interpolateMembers_eq (env : Environ) (kvs : List (Key α × Datum α)) :
    interpolateMembers env kvs = kvs.map fun kv => (kv.1, kv.2.interpolate env) := by
  induction kvs with
  | nil => rw [interpolateMembers, map_nil]
  | cons kv kvs ih =>
    obtain ⟨k, v⟩ := kv
    rw [interpolateMembers, map_cons, ih]

theorem child_interpolate (env : Environ) (s : Selector α) (v : Datum α) :
    child s (v.interpolate env) = (child s v).map (interpolate env) := by
  cases v with
  | dict kvs =>
    rw [interpolate, interpolateMembers_eq]
    cases s with
    | index i => rfl
    | key k =>
      simp only [child, List.find?_map, Option.map_map]
      rfl
  | list xs =>
    rw [interpolate, interpolateItems_eq]
    cases s with
    | index i => exact List.getElem?_map
    | key k => rfl
  | _ =>
    rw [interpolate]
    cases s <;> rfl

theorem view_interpolate (env : Environ) (path : List (Selector α)) (v : Datum α) :
    view path (v.interpolate env) = (view path v).map (Leaf.interpolate env) := by
  induction path generalizing v with
  | nil =>
    cases v with
    | list xs =>
      rw [interpolate, interpolateItems_eq]
      simp [view, leaf, Leaf.interpolate]
    | _ =>
      rw [interpolate]
      rfl
  | cons s path ih => grind [view, child_interpolate]

end Values

/-- `v` is what Python loads from the document, and `w` what Go decodes from its nodes. -/
theorem expansion_agrees {α : Type} [DecidableEq α] (Y : Yaml α) (vars : Variables) (n : Node)
    (hn : n.Implicit Y.resolve) (v w : Datum α) (hgo : Y.decode n = some w) (hsame : Same v w) :
    ∃ w', Y.decode (expandNode vars n) = some w' ∧ Same (v.interpolate (environ vars)) w' ∧
      ∀ path, Option.Rel (Leaf.Expanded (environ vars)) (view path w) (view path w') := by
  refine ⟨w.interpolate (environ vars), ?_, ?_, ?_⟩
  · rw [decode_expandNode Y vars n hn, hgo, Option.map_some]
  · intro path
    rw [view_interpolate, view_interpolate, hsame path]
  · intro path
    rw [view_interpolate]
    cases view path w with
    | none => exact .none
    | some l => exact .some (expanded_interpolate _ l)

section Sample

def decodeKey : Node → Key (List Char)
  | .scalar tag _ value => if tag = "!!str" then .str (value.map .char) else .atom value
  | _ => .atom []

mutual
/-- A decoder that knows no merge keys. Of equal keys the last counts. -/
def decodeNode : Node → Datum (List Char)
  | .document content => (decodeContent content).headD (.atom [])
  | .sequence content => .list (decodeContent content)
  | .mapping content => .dict (decodeMembers content).reverse
  | .scalar tag _ value => if tag = "!!str" then .str (value.map .char) else .atom value
  | .zero => .atom []
  | .aliasTo _ => .atom []
def decodeContent : List Node → List (Datum (List Char))
  | [] => []
  | n :: ns => decodeNode n :: decodeContent ns
def decodeMembers : List (Node × Node) → List (Key (List Char) × Datum (List Char))
  | [] => []
  | (k, v) :: rest => (decodeKey k, decodeNode v) :: decodeMembers rest
end

theorem mapMembers_eq {α : Type} (g : Text → Text) (kvs : List (Key α × Datum α)) :
    mapMembers g kvs = kvs.map fun kv => (kv.1, mapStrings g kv.2) := by
  induction kvs with
  | nil => rw [mapMembers, map_nil]
  | cons kv kvs ih => rw [mapMembers, map_cons, ih]

variable {f : List Char → List Char} {g : Text → Text}

mutual
theorem decodeNode_rewrite (hfg : ∀ s, (f s).map .char = g (s.map .char)) (n : Node) :
    decodeNode (n.rewrite f) = mapStrings g (decodeNode n) := by
  cases n with
  | document content =>
    rw [rewrite, decodeNode, decodeNode, decodeContent_rewrite hfg content]
    cases decodeContent content with
    | nil => rfl
    | cons v vs => rfl
  | sequence content =>
    rw [rewrite, decodeNode, decodeNode, mapStrings, decodeContent_rewrite hfg content]
  | mapping content =>
    rw [rewrite, decodeNode, decodeNode, mapStrings, decodeMembers_rewrite hfg content]
    simp only [mapMembers_eq, map_reverse]
  | scalar tag quoted value =>
    rw [rewrite, decodeNode, decodeNode]
    split_ifs
    · rw [mapStrings, hfg]
    · rw [mapStrings]
  | zero => rw [rewrite, decodeNode, mapStrings]
  | aliasTo anchor => rw [rewrite, decodeNode, mapStrings]
theorem decodeContent_rewrite (hfg : ∀ s, (f s).map .char = g (s.map .char)) (ns : List Node) :
    decodeContent (rewriteContent f ns) = mapItems g (decodeContent ns) := by
  cases ns with
  | nil => rw [rewriteContent, decodeContent, mapItems]
  | cons n ns =>
    rw [rewriteContent, decodeContent, decodeContent, mapItems, decodeNode_rewrite hfg n,
      decodeContent_rewrite hfg ns]
theorem decodeMembers_rewrite (hfg : ∀ s, (f s).map .char = g (s.map .char))
    (ms : List (Node × Node)) :
    decodeMembers (rewriteValues f ms) = mapMembers g (decodeMembers ms) := by
  cases ms with
  | nil => rw [rewriteValues, decodeMembers, mapMembers]
  | cons kv ms =>
    obtain ⟨k, v⟩ := kv
    rw [rewriteValues, decodeMembers, decodeMembers, mapMembers, decodeNode_rewrite hfg v,
      decodeMembers_rewrite hfg ms]
end

def sampleYaml : Yaml (List Char) where
  resolve s := if s.all Char.isDigit then "!!int" else "!!str"
  resolve_dollar s hs := by grind
  decode n := some (decodeNode n)
  decode_rewrite n _ f g hfg _ := congrArg some (decodeNode_rewrite hfg n)

def referenceA : List Char := ['$', '\x7b', 'A', '\x7d']

def sampleNode : Node :=
  .document [.mapping [
    (.scalar "!!str" false ['p', 'o', 'r', 't'], .scalar "!!int" false ['4', '2']),
    (.scalar "!!str" false referenceA, .sequence [.scalar "!!str" true ('x' :: referenceA)])]]

def sampleVariables : Variables := fun name =>
  if name = ['A'] then some ['$', '\x7b', 'A', '\x7d', '!'] else none

def samplePython : Datum (List Char) :=
  .dict [(.str (referenceA.map .char), .list [.str (('x' :: referenceA).map .char)]),
    (.str (['p', 'o', 'r', 't'].map .char), .atom ['4', '2'])]

theorem expansion_agrees_sample :
    sampleNode.Implicit sampleYaml.resolve ∧ sampleYaml.decode sampleNode = some samplePython ∧
      ∃ w', sampleYaml.decode (expandNode sampleVariables sampleNode) = some w' ∧
        Same (samplePython.interpolate (environ sampleVariables)) w' ∧
        view [.key (.str (referenceA.map .char)), .index 0] w' =
          some (.str (['x', '$', '\x7b', 'A', '\x7d', '!'].map .char)) := by
  have himplicit : sampleNode.Implicit sampleYaml.resolve := by
    simp [sampleNode, referenceA, Implicit, ImplicitContent, ImplicitMembers, sampleYaml]
  have hgo : sampleYaml.decode sampleNode = some samplePython := rfl
  obtain ⟨w', hdecode, hsame, -⟩ := expansion_agrees sampleYaml sampleVariables sampleNode
    himplicit samplePython samplePython hgo fun _ => rfl
  refine ⟨himplicit, hgo, w', hdecode, hsame, ?_⟩
  rw [← hsame]
  rfl

end Sample

end DbAgent.EnvExpand
