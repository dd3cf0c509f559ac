import DbAgent.PropertiesFile

/-! What a properties text defines, where the last definition of a key counts, and what
`mergeProperties` of the probe does to it. -/
namespace DbAgent.Config

open Trimming List

/-- The property that a line defines: blank lines and comments define none, and a line
without `=` gives its key the empty value. -/
def definition (l : Text) : Option (Text × Text) :=
  let t := trimSpace l
  if t = [] ∨ t.head? = some '#' ∨ t.head? = some '!' then none
  else
    let key := t.takeWhile (· ≠ '=')
    some (trimSpace key, trimSpace (t.drop (key.length + 1)))

def valueOf (key l : Text) : Option Text :=
  (definition l).bind fun d => if d.1 = key then some d.2 else none

def lastValue (key : Text) (ls : List Text) : Option Text := ls.reverse.findSome? (valueOf key)

def effective (content key : Text) : Option Text := lastValue key (lines content)

section Trimming

theorem trimSpace_trimmed (s : Text) : Trimmed isSpace (trimSpace s) := trim_trimmed s

theorem trimSpace_idem (s : Text) : trimSpace (trimSpace s) = trimSpace s :=
  (trimSpace_trimmed s).eq_self

end Trimming

variable {l : Text}

section Readable

structure ReadableKey (key : Text) : Prop where
  trimmed : trimSpace key = key
  hash : key.head? ≠ some '#'
  bang : key.head? ≠ some '!'

theorem head_trimSpace_takeWhile {t : Text} (ht : ∀ c ∈ t.head?, isSpace c = false)
    (c : Char) (hc : (trimSpace (t.takeWhile (· ≠ '='))).head? = some c) : t.head? = some c := by
  cases t with
  | nil => cases hc
  | cons d t =>
    by_cases hd : d = '='
    · subst hd
      cases hc
    · have htake : (d :: t).takeWhile (· ≠ '=') = d :: t.takeWhile (· ≠ '=') :=
        takeWhile_cons_of_pos (by simpa using hd)
      have hfront : [d] <+: trimSpace (d :: t.takeWhile (· ≠ '=')) :=
        isPrefix_trim (s := []) (by simp [ht d rfl]) (ht d rfl) _
      obtain ⟨rest, hrest⟩ := hfront
      rw [htake, ← hrest] at hc
      exact hc

theorem readable_of_valueOf {key value : Text} (h : valueOf key l = some value) :
    ReadableKey key ∧ trimSpace value = value := by
  obtain ⟨d, hd, hkey⟩ := Option.bind_eq_some_iff.mp h
  rw [definition] at hd
  split at hd
  · cases hd
  · next hcomment =>
    rw [not_or, not_or] at hcomment
    obtain rfl := Option.some.inj hd
    split at hkey
    · next hkey' =>
      subst hkey'
      have hstart := head_trimSpace_takeWhile (trimSpace_trimmed l).head
      refine ⟨⟨trimSpace_idem _, ?_, ?_⟩, ?_⟩
      · grind
      · grind
      · rw [← Option.some.inj hkey, trimSpace_idem]
    · cases hkey

theorem takeWhile_entry {key : Text} (heq : '=' ∉ key) (rest : Text) :
    (entry key rest).takeWhile (· ≠ '=') = key := by
  rw [entry, takeWhile_append_of_pos]
  · simp
  · grind

theorem isLineOf_cases {key : Text} (h : isLineOf key l) :
    (∃ rest, trimSpace l = entry key rest) ∨ trimSpace l = key := by
  rw [isLineOf, Bool.or_eq_true, isPrefixOf_iff_prefix, beq_iff_eq] at h
  refine h.imp_left ?_
  rintro ⟨rest, hrest⟩
  exact ⟨rest, by rw [← hrest, entry, append_assoc, singleton_append]⟩

theorem takeWhile_of_isLineOf {key : Text} (heq : '=' ∉ key) (h : isLineOf key l) :
    (trimSpace l).takeWhile (· ≠ '=') = key := by
  grind [isLineOf_cases, takeWhile_entry, takeWhile_eq_self_iff]

theorem isLineOf_unique {key key' : Text} (heq : '=' ∉ key) (heq' : '=' ∉ key') (h : isLineOf key l)
    (h' : isLineOf key' l) : key = key' := by
  rw [← takeWhile_of_isLineOf heq h, takeWhile_of_isLineOf heq' h']

theorem definition_of_isLineOf {key : Text} (heq : '=' ∉ key) (hk : ReadableKey key)
    (h : isLineOf key l) : trimSpace l = [] ∨ ∃ v, definition l = some (key, v) := by
  by_cases hblank : trimSpace l = []
  · exact .inl hblank
  · right
    have hhead (c : Char) (hc : c ≠ '=') (hne : key.head? ≠ some c) :
        (trimSpace l).head? ≠ some c := by
      obtain ⟨rest, hl⟩ | hl := isLineOf_cases h
      · rw [hl, entry, List.head?_append]
        cases hkey : key.head? with
        | none => simpa using hc.symm
        | some d => rwa [hkey] at hne
      · rwa [hl]
    have hcomment : ¬(trimSpace l = [] ∨ (trimSpace l).head? = some '#' ∨
        (trimSpace l).head? = some '!') := by
      rw [not_or, not_or]
      exact ⟨hblank, hhead '#' (by decide) hk.hash, hhead '!' (by decide) hk.bang⟩
    refine ⟨trimSpace ((trimSpace l).drop (key.length + 1)), ?_⟩
    simp only [definition, if_neg hcomment, takeWhile_of_isLineOf heq h, hk.trimmed]

theorem valueOf_blank {key : Text} (h : trimSpace l = []) : valueOf key l = none := by
  rw [valueOf, definition, if_pos (Or.inl h)]
  rfl

theorem valueOf_other {key key' : Text} (heq : '=' ∉ key) (hk : ReadableKey key)
    (h : isLineOf key l) (hne : key' ≠ key) : valueOf key' l = none := by
  obtain hblank | ⟨v, hv⟩ := definition_of_isLineOf heq hk h
  · exact valueOf_blank hblank
  · rw [valueOf, hv, Option.bind_some, if_neg hne.symm]

variable {key value : Text} (heq : '=' ∉ key) (hk : ReadableKey key)
  (hv : trimSpace value = value)

theorem trimSpace_entry (hk : ReadableKey key) (hv : trimSpace value = value) :
    trimSpace (entry key value) = entry key value := by
  apply Trimmed.eq_self
  constructor
  · intro c hc
    rw [entry, List.head?_append, Option.mem_def, Option.or_eq_some_iff] at hc
    rcases hc with hc | ⟨-, hc⟩
    · exact (trimSpace_trimmed key).head c (by rwa [hk.trimmed])
    · rw [← Option.some.inj hc]
      decide
  · intro c hc
    rw [entry, List.getLast?_append, Option.mem_def, List.getLast?_cons] at hc
    cases hlast : value.getLast? with
    | none =>
      rw [hlast] at hc
      rw [← Option.some.inj hc]
      decide
    | some d =>
      rw [hlast] at hc
      rw [← Option.some.inj hc]
      exact (trimSpace_trimmed value).last d (by rwa [hv])

include hk hv in
theorem isLineOf_own_entry : isLineOf key (entry key value) := by
  rw [isLineOf, trimSpace_entry hk hv, Bool.or_eq_true, isPrefixOf_iff_prefix]
  exact .inl ⟨value, by rw [entry, append_assoc, singleton_append]⟩

include heq hk hv in
theorem valueOf_entry : valueOf key (entry key value) = some value := by
  obtain hblank | ⟨v, hdef⟩ := definition_of_isLineOf heq hk (isLineOf_own_entry hk hv)
  · rw [trimSpace_entry hk hv] at hblank
    simp [entry] at hblank
  · have hv' : v = value := by
      rw [definition, trimSpace_entry hk hv, takeWhile_entry heq] at hdef
      split at hdef
      · cases hdef
      · have hdrop : (entry key value).drop (key.length + 1) = value := by
          rw [entry, drop_append]
          simp
        grind
    rw [valueOf, hdef, Option.bind_some, if_pos rfl, hv']

end Readable

section LastValue

variable {key : Text}

theorem lastValue_append (ls ls' : List Text) :
    lastValue key (ls ++ ls') = (lastValue key ls').or (lastValue key ls) := by
  rw [lastValue, reverse_append, List.findSome?_append]
  rfl

theorem lastValue_singleton (l : Text) : lastValue key [l] = valueOf key l := by
  rw [lastValue, reverse_singleton, List.findSome?_singleton]

theorem lastValue_cons (l : Text) (ls : List Text) :
    lastValue key (l :: ls) = (lastValue key ls).or (valueOf key l) := by
  rw [← lastValue_singleton]
  exact lastValue_append [l] ls

theorem lastValue_eq_none {ls : List Text} (h : ∀ l ∈ ls, valueOf key l = none) :
    lastValue key ls = none := by
  rw [lastValue, List.findSome?_eq_none_iff]
  grind

theorem valueOf_of_lastValue {ls : List Text} {value : Text}
    (h : lastValue key ls = some value) : ∃ l ∈ ls, valueOf key l = some value := by
  obtain ⟨l, hl, hvalue⟩ := exists_of_findSome?_eq_some h
  grind

/-- The lines after the one that `setProperty` replaces. -/
def afterFirst (key : Text) (ls : List Text) : List Text :=
  (ls.dropWhile fun l => !isLineOf key l).tail

def shadow (key : Text) (ls : List Text) : Option Text := lastValue key (afterFirst key ls)

theorem afterFirst_of_first {pre post : List Text} (hl : isLineOf key l)
    (hpre : ∀ x ∈ pre, isLineOf key x = false) : afterFirst key (pre ++ l :: post) = post := by
  grind [afterFirst, dropWhile_append_of_pos, dropWhile_cons_of_neg]

theorem afterFirst_of_none {ls : List Text} (h : ∀ x ∈ ls, isLineOf key x = false) :
    afterFirst key ls = [] := by
  rw [afterFirst, dropWhile_eq_nil_iff.mpr (by simpa using h)]
  rfl

theorem shadow_append (ls ls' : List Text) (h : ∀ l ∈ ls', valueOf key l = none) :
    shadow key (ls ++ ls') = shadow key ls := by
  obtain ⟨pre, l, post, rfl, hl, hpre⟩ | hnone := first_line_cases key ls
  · rw [shadow, shadow, afterFirst_of_first hl hpre, append_assoc, cons_append,
      afterFirst_of_first hl hpre, lastValue_append, lastValue_eq_none h, Option.none_or]
  · have hafter : ∀ l ∈ afterFirst key (ls ++ ls'), valueOf key l = none := by
      intro l hmem
      apply h
      rw [afterFirst, dropWhile_append_of_pos (by simpa using hnone)] at hmem
      exact (dropWhile_suffix _).subset (mem_of_mem_tail hmem)
    rw [shadow, shadow, afterFirst_of_none hnone, lastValue_eq_none hafter]
    rfl

theorem shadow_replace {pre post : List Text} {l' : Text} (hl : isLineOf key l = false)
    (hl' : isLineOf key l' = false) (hvalue : valueOf key l = none)
    (hvalue' : valueOf key l' = none) :
    shadow key (pre ++ l :: post) = shadow key (pre ++ l' :: post) := by
  obtain ⟨pre', x, post', rfl, hx, hpre⟩ | hnone := first_line_cases key pre
  · rw [shadow, shadow, append_assoc, append_assoc, cons_append, cons_append,
      afterFirst_of_first hx hpre, afterFirst_of_first hx hpre, lastValue_append,
      lastValue_append, lastValue_cons, lastValue_cons, hvalue, hvalue']
  · have hskip (y : Text) (hy : isLineOf key y = false) :
        afterFirst key (pre ++ y :: post) = afterFirst key post := by
      rw [afterFirst, dropWhile_append_of_pos (by simpa using hnone),
        dropWhile_cons_of_pos (by simpa using hy)]
      rfl
    rw [shadow, shadow, hskip l hl, hskip l' hl']

end LastValue

section Setting

theorem endsBlind_lastValue (key : Text) : EndsBlind (lastValue key) := by
  intro ls
  rw [lastValue_append, lastValue_singleton, valueOf_blank rfl, Option.none_or]

theorem endsBlind_shadow (key : Text) : EndsBlind (shadow key) := by
  intro ls
  apply shadow_append
  intro l hl
  rw [mem_singleton.mp hl]
  exact valueOf_blank rfl

variable (content : Text) {key value : Text} (heq : '=' ∉ key) (hk : ReadableKey key)
  (hv : trimSpace value = value) (hentry : '\n' ∉ entry key value)

include heq hk hv hentry

theorem effective_setProperty : effective (setProperty content key value) key =
    some ((shadow key (lines content)).getD value) := by
  have hnew := valueOf_entry heq hk hv
  rw [effective]
  obtain ⟨pre, l, post, hsplit, hl, hpre, h⟩ | ⟨hnone, gap, hgap, h⟩ :=
    setProperty_cases (endsBlind_lastValue key) content hentry
  · rw [h, hsplit, shadow, afterFirst_of_first hl hpre, lastValue_append, lastValue_cons, hnew]
    cases lastValue key post <;> rfl
  · rw [h, shadow, afterFirst_of_none hnone, lastValue_append, lastValue_append,
      lastValue_singleton, hnew]
    rfl

theorem effective_setProperty_other {key' : Text} (hne : key' ≠ key) :
    effective (setProperty content key value) key' = effective content key' := by
  have hnew : valueOf key' (entry key value) = none :=
    valueOf_other heq hk (isLineOf_own_entry hk hv) hne
  rw [effective, effective]
  obtain ⟨pre, l, post, hsplit, hl, hpre, h⟩ | ⟨-, gap, hgap, h⟩ :=
    setProperty_cases (endsBlind_lastValue key') content hentry
  · grind [valueOf_other, lastValue_append, lastValue_cons]
  · have hempty : lastValue key' gap = none := by
      apply lastValue_eq_none
      intro l hl
      rw [hgap l hl]
      exact valueOf_blank rfl
    rw [h, lastValue_append, lastValue_append, lastValue_singleton, hnew, hempty]
    rfl

theorem shadow_setProperty_other {key' : Text} (heq' : '=' ∉ key') (hne : key' ≠ key) :
    shadow key' (lines (setProperty content key value)) = shadow key' (lines content) := by
  have hown := isLineOf_own_entry hk hv
  have hnew : valueOf key' (entry key value) = none := valueOf_other heq hk hown hne
  have hnot (l : Text) (hl : isLineOf key l) : isLineOf key' l = false := by
    rw [Bool.eq_false_iff]
    exact fun hl' => hne (isLineOf_unique heq' heq hl' hl)
  obtain ⟨pre, l, post, hsplit, hl, hpre, h⟩ | ⟨-, gap, hgap, h⟩ :=
    setProperty_cases (endsBlind_shadow key') content hentry
  · grind [shadow_replace, valueOf_other]
  · rw [h]
    apply shadow_append
    intro l hl
    rcases mem_append.mp hl with hl | hl
    · rw [hgap l hl]
      exact valueOf_blank rfl
    · grind

end Setting

section Effect

def undefining (keys : List Text) (l : Text) : Bool :=
  !(trimSpace l).isEmpty && !keys.any fun k => (valueOf k l).isSome

/-- The merge takes effect, whatever the order of the map: patched keys have their
values, others keep theirs, the lines of others keep their text and order, and another
order gives the same properties. -/
def TakesEffect (current : Text) (patches : List (Text × Text)) : Prop :=
  ∀ o : MapOrders,
    (∀ p ∈ patches, effective (mergeProperties o current patches) p.1 = some p.2) ∧
    (∀ key, key ∉ patches.map Prod.fst →
      effective (mergeProperties o current patches) key = effective current key) ∧
    ((lines (mergeProperties o current patches)).filter (undefining (patches.map Prod.fst)) =
      (lines current).filter (undefining (patches.map Prod.fst))) ∧
    ∀ (o' : MapOrders) key, effective (mergeProperties o current patches) key =
      effective (mergeProperties o' current patches) key

/-- A key without `=` and line break, and a value without line break. -/
def Settable (p : Text × Text) : Prop := '=' ∉ p.1 ∧ '\n' ∉ p.1 ∧ '\n' ∉ p.2

def setAll (content : Text) (patches : List (Text × Text)) : Text :=
  patches.foldl (fun base p => setProperty base p.1 p.2) content

theorem mergeProperties_plain (o : MapOrders) (current : Text) (patches : List (Text × Text))
    (h : ∀ p ∈ patches, '\n' ∉ p.2 ∧ '=' ∉ p.2) :
    mergeProperties o current patches = setAll current (o.all patches) := by
  have hnone : (o.search patches).find? (fun p => fileLike p.2) = none := by
    rw [List.find?_eq_none]
    intro p hp
    obtain ⟨hnewline, heq⟩ := h p ((o.search_perm patches).mem_iff.mp hp)
    simp [fileLike, hnewline, heq]
  rw [mergeProperties, hnone]
  rfl

theorem perm_listed (m : List (Text × Text)) : (id m).Perm m :=
  .refl m

def listedOrders : MapOrders where
  search := id
  others := id
  all := id
  search_perm := perm_listed
  others_perm := perm_listed
  all_perm := perm_listed

variable (patches : List (Text × Text)) (hset : ∀ p ∈ patches, Settable p)
  (hread : ∀ p ∈ patches, ReadableKey p.1 ∧ trimSpace p.2 = p.2)

include hset hread

theorem effective_setAll_other (content : Text) (key : Text) (hkey : key ∉ patches.map Prod.fst) :
    effective (setAll content patches) key = effective content key := by
  induction patches generalizing content with
  | nil => rfl
  | cons p patches ih =>
    obtain ⟨⟨heq, hnewline, hvalue⟩, hset'⟩ := forall_mem_cons.mp hset
    obtain ⟨⟨hk, hv⟩, hread'⟩ := forall_mem_cons.mp hread
    rw [map_cons, mem_cons, not_or] at hkey
    have hrest := ih hset' hread' (setProperty content p.1 p.2) hkey.2
    rw [← effective_setProperty_other content heq hk hv (newline_notMem_entry hnewline hvalue)
      hkey.1, ← hrest]
    rfl

theorem effective_setAll (hnodup : (patches.map Prod.fst).Nodup) (content : Text)
    (p : Text × Text) (hp : p ∈ patches) : effective (setAll content patches) p.1 =
      some ((shadow p.1 (lines content)).getD p.2) := by
  induction patches generalizing content with
  | nil => cases hp
  | cons q patches ih =>
    obtain ⟨⟨heq, hnewline, hvalue⟩, hset'⟩ := forall_mem_cons.mp hset
    obtain ⟨⟨hk, hv⟩, hread'⟩ := forall_mem_cons.mp hread
    rw [map_cons, nodup_cons] at hnodup
    have hentry := newline_notMem_entry hnewline hvalue
    have hstep : setAll content (q :: patches) = setAll (setProperty content q.1 q.2) patches :=
      rfl
    rw [hstep]
    rcases mem_cons.mp hp with rfl | hp
    · grind [effective_setAll_other, effective_setProperty]
    · have hne : p.1 ≠ q.1 := fun heq' => hnodup.1 (heq' ▸ mem_map_of_mem hp)
      rw [ih hset' hread' hnodup.2 _ hp,
        shadow_setProperty_other content heq hk hv hentry (hset' p hp).1 hne]

theorem filter_setAll (keys : List Text) (hkeys : ∀ p ∈ patches, p.1 ∈ keys) (content : Text) :
    (lines (setAll content patches)).filter (undefining keys) =
      (lines content).filter (undefining keys) := by
  induction patches generalizing content with
  | nil => rfl
  | cons p patches ih =>
    obtain ⟨⟨heq, hnewline, hvalue⟩, hset'⟩ := forall_mem_cons.mp hset
    obtain ⟨⟨hk, hv⟩, hread'⟩ := forall_mem_cons.mp hread
    obtain ⟨hkey, hkeys'⟩ := forall_mem_cons.mp hkeys
    have hlines (l : Text) (hl : isLineOf p.1 l) : undefining keys l = false := by
      obtain hblank | ⟨v, hdef⟩ := definition_of_isLineOf heq hk hl
      · rw [undefining, hblank]
        rfl
      · have hany : (keys.any fun k => (valueOf k l).isSome) = true :=
          any_eq_true.mpr ⟨p.1, hkey, by rw [valueOf, hdef]; simp⟩
        rw [undefining, hany, Bool.not_true, Bool.and_false]
    have hrest := ih hset' hread' hkeys' (setProperty content p.1 p.2)
    rw [← filter_setProperty content (newline_notMem_entry hnewline hvalue)
      (p := undefining keys) rfl hlines (hlines _ (isLineOf_own_entry hk hv)), ← hrest]
    rfl

end Effect

/-- A merge of plain keys and values takes effect exactly if every patch can be read back
from its line, and no line after the first one of a patched key gives it another value. -/
theorem mergeProperties_takesEffect_iff (current : Text) (patches : List (Text × Text))
    (hmap : (patches.map Prod.fst).Nodup)
    (hkeys : ∀ p ∈ patches, '\n' ∉ p.1 ∧ '=' ∉ p.1)
    (hvalues : ∀ p ∈ patches, '\n' ∉ p.2 ∧ '=' ∉ p.2) :
    TakesEffect current patches ↔ ∀ p ∈ patches, ReadableKey p.1 ∧ trimSpace p.2 = p.2 ∧
      ∀ w, shadow p.1 (lines current) = some w → w = p.2 := by
  -- every order is one of the same patches
  have hmem (o : MapOrders) {p} : p ∈ o.all patches → p ∈ patches := (o.all_perm patches).mem_iff.mp
  have hset (o : MapOrders) : ∀ p ∈ o.all patches, Settable p := by
    intro p hp
    obtain ⟨hnewline, heq⟩ := hkeys p (hmem o hp)
    exact ⟨heq, hnewline, (hvalues p (hmem o hp)).1⟩
  have hvalue (hread : ∀ p ∈ patches, ReadableKey p.1 ∧ trimSpace p.2 = p.2) (o : MapOrders)
      (p : Text × Text) (hp : p ∈ patches) :
      effective (mergeProperties o current patches) p.1 =
        some ((shadow p.1 (lines current)).getD p.2) := by
    have hperm := o.all_perm patches
    rw [mergeProperties_plain o current patches hvalues]
    exact effective_setAll _ (hset o) (fun q hq => hread q (hmem o hq))
      ((hperm.map Prod.fst).nodup_iff.mpr hmap) current p (hperm.mem_iff.mpr hp)
  constructor
  · intro h
    have horder := (h listedOrders).1
    have hread : ∀ p ∈ patches, ReadableKey p.1 ∧ trimSpace p.2 = p.2 := by
      intro p hp
      obtain ⟨l, -, hl⟩ := valueOf_of_lastValue (horder p hp)
      exact readable_of_valueOf hl
    grind
  · intro h
    have hread : ∀ p ∈ patches, ReadableKey p.1 ∧ trimSpace p.2 = p.2 :=
      fun p hp => ⟨(h p hp).1, (h p hp).2.1⟩
    have hpatched (o : MapOrders) (p : Text × Text) (hp : p ∈ patches) :
        effective (mergeProperties o current patches) p.1 = some p.2 := by
      rw [hvalue hread o p hp]
      cases hw : shadow p.1 (lines current) with
      | none => rfl
      | some w => rw [(h p hp).2.2 w hw, Option.getD_some]
    have hother (o : MapOrders) (key : Text) (hkey : key ∉ patches.map Prod.fst) :
        effective (mergeProperties o current patches) key = effective current key := by
      have hperm := o.all_perm patches
      rw [mergeProperties_plain o current patches hvalues]
      apply effective_setAll_other _ (hset o) (fun q hq => hread q (hmem o hq))
      exact fun hmem => hkey ((hperm.map Prod.fst).mem_iff.mp hmem)
    intro o
    refine ⟨hpatched o, hother o, ?_, ?_⟩
    · rw [mergeProperties_plain o current patches hvalues]
      exact filter_setAll _ (hset o) (fun q hq => hread q (hmem o hq)) _
        (fun q hq => mem_map_of_mem (hmem o hq)) current
    · grind

/-- A key with spaces around its `=`: its line stays, and the new one counts. -/
theorem takesEffect_spaced :
    mergeProperties listedOrders "a=1\nb = 2\n".toList [("b".toList, "3".toList)] =
      "a=1\nb = 2\n\nb=3\n".toList ∧
    TakesEffect "a=1\nb = 2\n".toList [("b".toList, "3".toList)] := by
  refine ⟨by decide, (mergeProperties_takesEffect_iff _ _ (by decide) (by decide)
    (by decide)).mpr ?_⟩
  intro p hp
  obtain rfl := mem_singleton.mp hp
  have hnone : shadow "b".toList (lines "a=1\nb = 2\n".toList) = none := by decide
  refine ⟨⟨by decide, by decide, by decide⟩, by decide, ?_⟩
  intro w hw
  rw [hnone] at hw
  cases hw

/-- A key that is set twice: the first line is patched, the second one counts. -/
theorem repeated_key_hides_patch :
    mergeProperties listedOrders "query.max-memory=1GB\nquery.max-memory=2GB\n".toList
        [("query.max-memory".toList, "3GB".toList)] =
      "query.max-memory=3GB\nquery.max-memory=2GB\n".toList ∧
    effective (mergeProperties listedOrders
        "query.max-memory=1GB\nquery.max-memory=2GB\n".toList
        [("query.max-memory".toList, "3GB".toList)]) "query.max-memory".toList =
      some "2GB".toList ∧
    ¬TakesEffect "query.max-memory=1GB\nquery.max-memory=2GB\n".toList
      [("query.max-memory".toList, "3GB".toList)] := by
  have hvalue : effective (mergeProperties listedOrders
      "query.max-memory=1GB\nquery.max-memory=2GB\n".toList
      [("query.max-memory".toList, "3GB".toList)]) "query.max-memory".toList =
      some "2GB".toList := by decide
  refine ⟨by decide, hvalue, ?_⟩
  intro h
  have hpatched := (h listedOrders).1 ("query.max-memory".toList, "3GB".toList)
    mem_cons_self
  grind

end DbAgent.Config
