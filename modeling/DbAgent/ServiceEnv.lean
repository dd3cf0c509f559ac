import DbAgent.PropertiesFile

/-! The `Env` list of a container: `mergeEnv` of the probe, and the variables that such
a list defines. -/
namespace DbAgent.Config

open List Prod

/-- The name of a variable, up to the first `=`. -/
def envKey (e : Text) : Text := e.takeWhile (· ≠ '=')

/-- Its value; an entry without `=` has none. -/
def envValue (e : Text) : Option Text := if e.contains '=' then some (e.drop (envKey e).length.succ)
  else none

/-- The state of the two loops of `mergeEnv`: where a name stands, and the list so far. -/
structure EnvIndex where
  index : Text → Option ℕ
  out : List Text

open EnvIndex

def EnvIndex.keep (s : EnvIndex) (e : Text) : EnvIndex where
  index := Function.update s.index (envKey e) (some s.out.length)
  out := s.out ++ [e]

def EnvIndex.overlay (s : EnvIndex) (p : Text × Text) : EnvIndex :=
  match s.index p.1 with
  | some i => { s with out := s.out.set i (entry p.1 p.2) }
  | none =>
    { index := Function.update s.index p.1 (some s.out.length), out := s.out ++ [entry p.1 p.2] }

def indexed (existing : List Text) : EnvIndex := existing.foldl keep ⟨fun _ => none, []⟩

/-- `mergeEnv`; the patches are listed in the order in which the map is gone through. -/
def mergeEnv (existing : List Text) (patches : List (Text × Text)) : List Text :=
  (patches.foldl overlay (indexed existing)).out

def envGet (env : List Text) (name : Text) : Option (Option Text) :=
  (env.reverse.find? fun e => envKey e == name).map envValue

theorem envGet_append (env : List Text) (e name : Text) :
    envGet (env ++ [e]) name =
      if envKey e = name then some (envValue e) else envGet env name := by
  rw [envGet, reverse_append, reverse_singleton, singleton_append,
    List.find?_cons]
  by_cases h : envKey e = name
  · rw [if_pos h]
    simp [h]
  · rw [if_neg h, beq_eq_false_iff_ne.mpr h]
    rfl

theorem envKey_entry (key value : Text) (h : '=' ∉ key) : envKey (entry key value) = key := by
  rw [envKey, entry, takeWhile_append_of_pos]
  · simp
  · grind

theorem envValue_entry (key value : Text) (h : '=' ∉ key) :
    envValue (entry key value) = some value := by
  rw [envValue, envKey_entry key value h, entry]
  simp

structure Indexes (s : EnvIndex) : Prop where
  found : ∀ name i, s.index name = some i → ∃ before e after,
    s.out = before ++ e :: after ∧ before.length = i ∧ envKey e = name ∧
      ∀ e' ∈ after, envKey e' ≠ name
  missing : ∀ name, s.index name = none → ∀ e ∈ s.out, envKey e ≠ name

theorem indexes_keep (s : EnvIndex) (hs : Indexes s) (e : Text) : Indexes (s.keep e) where
  found := by
    intro name i hi
    by_cases h : name = envKey e
    · subst h
      have hlen : s.out.length = i := by simpa [keep] using hi
      exact ⟨s.out, e, [], rfl, hlen, rfl, forall_mem_nil _⟩
    · have hi' : s.index name = some i := by simpa [keep, h] using hi
      obtain ⟨before, e', after, hout, hlen, hname, hafter⟩ := hs.found name i hi'
      grind [keep, append_assoc, mem_singleton]
  missing := by
    intro name hnone e' he'
    have h : name ≠ envKey e := by
      rintro rfl
      simp [keep] at hnone
    have hnone' : s.index name = none := by simpa [keep, h] using hnone
    rcases mem_append.mp he' with he' | he'
    · exact hs.missing name hnone' e' he'
    · grind

theorem indexes_foldl (existing : List Text) (s : EnvIndex) (hs : Indexes s) :
    Indexes (existing.foldl keep s) ∧
      (existing.foldl keep s).out = s.out ++ existing := by
  induction existing generalizing s with
  | nil => exact ⟨hs, (append_nil _).symm⟩
  | cons e existing ih => grind [indexes_keep, keep, append_assoc]

theorem indexes_indexed (existing : List Text) :
    Indexes (indexed existing) ∧ (indexed existing).out = existing := by
  have hempty : Indexes ⟨fun _ => none, []⟩ :=
    ⟨nofun, fun _ _ => forall_mem_nil _⟩
  obtain ⟨hindexes, hout⟩ := indexes_foldl existing _ hempty
  exact ⟨hindexes, hout⟩

/-- In a list with one entry of a name at its end, replacing that entry by another of
the name changes that variable only. -/
theorem envGet_replace (before after : List Text) (e new name : Text)
    (hkey : envKey new = envKey e) (hafter : ∀ e' ∈ after, envKey e' ≠ envKey e) :
    envGet (before ++ new :: after) name =
      if envKey new = name then some (envValue new) else envGet (before ++ e :: after) name := by
  have hsplit (x : Text) : envGet (before ++ x :: after) name =
      ((after.reverse.find? fun e => envKey e == name).or
        (if envKey x = name then some x else before.reverse.find? fun e => envKey e == name)).map
        envValue := by
    rw [envGet, reverse_append, reverse_cons, append_assoc, List.find?_append,
      singleton_append, List.find?_cons]
    by_cases h : envKey x = name
    · simp [h]
    · rw [if_neg h, beq_eq_false_iff_ne.mpr h]
  grind

theorem overlay_cases {s : EnvIndex} (hs : Indexes s) (p : Text × Text) :
    (∃ before e after, s.out = before ++ e :: after ∧ envKey e = p.1 ∧
      (∀ e' ∈ after, envKey e' ≠ p.1) ∧
      s.overlay p = { s with out := before ++ entry p.1 p.2 :: after }) ∨
    ((∀ e ∈ s.out, envKey e ≠ p.1) ∧
      s.overlay p = ⟨Function.update s.index p.1 (some s.out.length),
        s.out ++ [entry p.1 p.2]⟩) := by
  cases hindex : s.index p.1 with
  | none => exact .inr ⟨hs.missing p.1 hindex, by rw [overlay, hindex]⟩
  | some i =>
    obtain ⟨before, e, after, hout, hlen, hname, hafter⟩ := hs.found p.1 i hindex
    have hset : s.out.set i (entry p.1 p.2) = before ++ entry p.1 p.2 :: after := by
      rw [hout, ← hlen, set_append_right _ _ (Nat.le_refl _), Nat.sub_self]
      rfl
    grind [overlay]

theorem eq_notMem_envKey (e : Text) : '=' ∉ envKey e := by
  intro hmem
  rw [envKey] at hmem
  simpa using mem_takeWhile_imp hmem

theorem envGet_overlay {s : EnvIndex} (hs : Indexes s) (p : Text × Text) (name : Text) :
    envGet (s.overlay p).out name =
      if envKey (entry p.1 p.2) = name then some (envValue (entry p.1 p.2))
      else envGet s.out name := by
  obtain ⟨before, e, after, hout, hname, hafter, h⟩ | ⟨-, h⟩ := overlay_cases hs p
  · -- a name that is found is one of the list, so it has no `=`
    have hkey : envKey (entry p.1 p.2) = envKey e := by
      rw [hname]
      apply envKey_entry
      rw [← hname]
      exact eq_notMem_envKey e
    rw [h, hout]
    apply envGet_replace before after e _ name hkey
    rwa [hname]
  · rw [h]
    exact envGet_append s.out _ name

theorem envGet_mergeEnv (existing : List Text) (key value name : Text) :
    envGet (mergeEnv existing [(key, value)]) name =
      if envKey (entry key value) = name then some (envValue (entry key value))
      else envGet existing name := by grind [indexes_indexed, mergeEnv, envGet_overlay]

/-! ### Many patches -/

theorem Indexes.of_keys {s s' : EnvIndex} (hs : Indexes s) (hindex : s'.index = s.index)
    (hkeys : s'.out.map envKey = s.out.map envKey) : Indexes s' where
  found := by
    intro name i hi
    rw [hindex] at hi
    obtain ⟨before, e, after, hout, hlen, hname, hafter⟩ := hs.found name i hi
    rw [hout, map_append, map_cons] at hkeys
    obtain ⟨before', rest, hout', hbefore, hrest⟩ := map_eq_append_iff.mp hkeys
    obtain ⟨e', after', rfl, he', hafter'⟩ := map_eq_cons_iff.mp hrest
    refine ⟨before', e', after', hout', ?_, he'.trans hname, ?_⟩
    · rw [← hlen, ← length_map envKey, hbefore, length_map]
    · grind [mem_map_of_mem]
  missing := by
    intro name hnone e he
    rw [hindex] at hnone
    have hmem : envKey e ∈ s.out.map envKey := hkeys ▸ mem_map_of_mem he
    obtain ⟨y, hy, hey⟩ := mem_map.mp hmem
    rw [← hey]
    exact hs.missing name hnone y hy

theorem keys_replace {before after : List Text} {e new : Text} (h : envKey new = envKey e) :
    (before ++ new :: after).map envKey = (before ++ e :: after).map envKey := by
  simp [h]

theorem envKey_append_value (e : Text) (h : '=' ∈ e) :
    envKey e ++ '=' :: e.drop (envKey e).length.succ = e := by
  induction e with
  | nil => cases h
  | cons c e ih =>
    by_cases hc : c = '='
    · subst hc
      rfl
    · have hkey : envKey (c :: e) = c :: envKey e := by
        rw [envKey, takeWhile_cons_of_pos (by simpa using hc)]
        rfl
      grind

theorem overlay_of_set {s : EnvIndex} (hs : Indexes s) (p : Text × Text)
    (hset : envGet s.out p.1 = some (some p.2)) :
    (s.overlay p).out = s.out := by
  obtain ⟨before, e, after, hout, hname, hafter, h⟩ | ⟨hnew, -⟩ := overlay_cases hs p
  · have hself : entry p.1 p.2 = e := by
      have hget := envGet_replace before after e e p.1 rfl (hname ▸ hafter)
      rw [if_pos hname, ← hout, hset, Option.some_inj, envValue] at hget
      split at hget
      · grind [entry, envKey_append_value]
      · cases hget
    rw [h, hout, hself]
  · have hnone : envGet s.out p.1 = none := by
      rw [envGet, Option.map_eq_none_iff, List.find?_eq_none]
      grind
    rw [hnone] at hset
    cases hset

section Overlay

variable {s : EnvIndex} (hs : Indexes s) (p : Text × Text) (hp : '=' ∉ p.1)

include hs hp

theorem keys_overlay : (s.overlay p).out.map envKey =
    s.out.map envKey ++ if p.1 ∈ s.out.map envKey then [] else [p.1] := by
  have hentry := envKey_entry p.1 p.2 hp
  obtain ⟨before, e, after, hout, hname, -, h⟩ | ⟨hnew, h⟩ := overlay_cases hs p
  · have hmem : p.1 ∈ s.out.map envKey := by
      rw [hout]
      simp [hname]
    rw [h, if_pos hmem, append_nil, hout]
    simp [hentry, hname]
  · have hnone : p.1 ∉ s.out.map envKey := by simpa using hnew
    rw [h, if_neg hnone, map_append, map_singleton, hentry]

theorem indexes_overlay : Indexes (s.overlay p) := by
  have hentry := envKey_entry p.1 p.2 hp
  obtain ⟨before, e, after, hout, hname, -, h⟩ | ⟨-, h⟩ := overlay_cases hs p
  · grind [Indexes.of_keys, keys_replace]
  · -- a new name is entered as the first loop enters its names
    have hkeep : s.overlay p = s.keep (entry p.1 p.2) := by
      rw [h, keep, hentry]
    rw [hkeep]
    exact indexes_keep s hs _

theorem filter_overlay (keep : Text → Bool) (hkeep : ∀ e, envKey e = p.1 → keep e = false) :
    (s.overlay p).out.filter keep = s.out.filter keep := by
  have hnone := hkeep _ (envKey_entry p.1 p.2 hp)
  obtain ⟨before, e, after, hout, hname, -, h⟩ | ⟨-, h⟩ := overlay_cases hs p
  · rw [h, hout]
    simp [hnone, hkeep e hname]
  · rw [h, filter_append]
    simp [hnone]

end Overlay

section Patches

variable (order : List (Text × Text)) {s : EnvIndex} (hs : Indexes s)
  (hkeys : ∀ p ∈ order, '=' ∉ p.1)

include hs hkeys

theorem envGet_unpatched (name : Text) (hname : name ∉ order.map fst) :
    envGet (order.foldl overlay s).out name = envGet s.out name := by
  induction order generalizing s with
  | nil => rfl
  | cons p order ih =>
    obtain ⟨hp, hrest⟩ := forall_mem_cons.mp hkeys
    rw [map_cons, mem_cons, not_or] at hname
    have hne : envKey (entry p.1 p.2) ≠ name := by
      rw [envKey_entry p.1 p.2 hp]
      exact fun heq => hname.1 heq.symm
    rw [foldl_cons, ih (indexes_overlay hs p hp) hrest hname.2, envGet_overlay hs,
      if_neg hne]

theorem envGet_patched (hnodup : (order.map fst).Nodup) (p : Text × Text)
    (hp : p ∈ order) : envGet (order.foldl overlay s).out p.1 = some (some p.2) := by
  induction order generalizing s with
  | nil => cases hp
  | cons q order ih =>
    obtain ⟨hq, hrest⟩ := forall_mem_cons.mp hkeys
    rw [map_cons, nodup_cons] at hnodup
    have hs' := indexes_overlay hs q hq
    rcases mem_cons.mp hp with rfl | hp
    · -- the patches that come after it have other names
      rw [foldl_cons, envGet_unpatched order hs' hrest p.1 hnodup.1, envGet_overlay hs,
        if_pos (envKey_entry p.1 p.2 hq), envValue_entry p.1 p.2 hq]
    · exact ih hs' hrest hnodup.2 hp

theorem filter_foldl_overlay (keep : Text → Bool)
    (hkeep : ∀ e, envKey e ∈ order.map fst → keep e = false) :
    (order.foldl overlay s).out.filter keep = s.out.filter keep := by
  induction order generalizing s with
  | nil => rfl
  | cons p order ih =>
    obtain ⟨hp, hrest⟩ := forall_mem_cons.mp hkeys
    have hfirst : ∀ e, envKey e = p.1 → keep e = false := by
      intro e he
      apply hkeep
      rw [he]
      exact mem_cons_self
    have htail : ∀ e, envKey e ∈ order.map fst → keep e = false :=
      fun e he => hkeep e (mem_cons_of_mem _ he)
    rw [foldl_cons, ih (indexes_overlay hs p hp) hrest htail,
      filter_overlay hs p hp keep hfirst]

theorem length_foldl_overlay (hnodup : (order.map fst).Nodup) :
    (order.foldl overlay s).out.length =
      s.out.length + (order.filter fun p => !(s.out.map envKey).contains p.1).length := by
  induction order generalizing s with
  | nil => rfl
  | cons q order ih =>
    obtain ⟨hq, hrest⟩ := forall_mem_cons.mp hkeys
    rw [map_cons, nodup_cons] at hnodup
    have hkeys' := keys_overlay hs q hq
    -- what is new after this turn is what was new before it, but for its own name
    have hsame : (order.filter fun p => !((s.overlay q).out.map envKey).contains p.1) =
        order.filter fun p => !(s.out.map envKey).contains p.1 := by
      apply filter_congr
      intro p hp
      have hne : p.1 ≠ q.1 := by
        intro heq
        exact hnodup.1 (heq ▸ mem_map_of_mem hp)
      rw [hkeys']
      split
      · rw [append_nil]
      · simp [hne]
    have hlen : (s.overlay q).out.length = s.out.length +
        if q.1 ∈ s.out.map envKey then 0 else 1 := by
      rw [← length_map envKey, hkeys', length_append, length_map]
      split <;> rfl
    rw [foldl_cons, ih (indexes_overlay hs q hq) hrest hnodup.2, hsame, hlen,
      filter_cons]
    by_cases hmem : q.1 ∈ s.out.map envKey
    · have hcontains : (s.out.map envKey).contains q.1 = true := by simpa using hmem
      rw [if_pos hmem, hcontains]
      rfl
    · have hcontains : (s.out.map envKey).contains q.1 = false := by simpa using hmem
      rw [if_neg hmem, hcontains, Bool.not_false, if_pos rfl, length_cons]
      omega

end Patches

theorem foldl_overlay_of_set (again : List (Text × Text)) {s : EnvIndex} (hs : Indexes s)
    (hkeys : ∀ p ∈ again, '=' ∉ p.1) (hset : ∀ p ∈ again, envGet s.out p.1 = some (some p.2)) :
    (again.foldl overlay s).out = s.out := by
  induction again generalizing s with
  | nil => rfl
  | cons p again ih =>
    obtain ⟨hp, hrest⟩ := forall_mem_cons.mp hkeys
    obtain ⟨hfirst, hset'⟩ := forall_mem_cons.mp hset
    have hout := overlay_of_set hs p hfirst
    rw [foldl_cons, ih (indexes_overlay hs p hp) hrest (hout ▸ hset'), hout]

/-- The overlay of a map of patches on a list of variables, whatever the order in which
the map is gone through: the patched variables have the values of the patches, the others
the values they had, the entries of the others stay as they are and in their order, the
list grows by the names that are new, and the same map laid over it again, in any order,
changes nothing. -/
theorem mergeEnv_overlays (existing : List Text) (patches order again : List (Text × Text))
    (hmap : (patches.map fst).Nodup) (hkeys : ∀ p ∈ patches, '=' ∉ p.1)
    (horder : order.Perm patches) (hagain : again.Perm patches) :
    (∀ p ∈ patches, envGet (mergeEnv existing order) p.1 = some (some p.2)) ∧
      (∀ name, name ∉ patches.map fst →
        envGet (mergeEnv existing order) name = envGet existing name) ∧
      ((mergeEnv existing order).filter fun e => !(patches.map fst).contains (envKey e)) =
        (existing.filter fun e => !(patches.map fst).contains (envKey e)) ∧
      (mergeEnv existing order).length = existing.length +
        (patches.filter fun p => !(existing.map envKey).contains p.1).length ∧
      mergeEnv (mergeEnv existing order) again = mergeEnv existing order := by
  obtain ⟨hindexes, hout⟩ := indexes_indexed existing
  have hnames : (order.map fst).Perm (patches.map fst) := horder.map _
  have hnodup : (order.map fst).Nodup := hnames.nodup_iff.mpr hmap
  have hkeys' : ∀ p ∈ order, '=' ∉ p.1 := fun p hp => hkeys p (horder.mem_iff.mp hp)
  have hset : ∀ p ∈ patches, envGet (mergeEnv existing order) p.1 = some (some p.2) :=
    fun p hp => envGet_patched order hindexes hkeys' hnodup p (horder.mem_iff.mpr hp)
  refine ⟨hset, ?_, ?_, ?_, ?_⟩
  · intro name hname
    have hother : name ∉ order.map fst := fun hmem => hname (hnames.mem_iff.mp hmem)
    have hsame := envGet_unpatched order hindexes hkeys' name hother
    rwa [hout] at hsame
  · have hfilter := filter_foldl_overlay order hindexes hkeys'
      (fun e => !(patches.map fst).contains (envKey e)) (by grind)
    rwa [hout] at hfilter
  · have hlength := length_foldl_overlay order hindexes hkeys' hnodup
    rw [hout] at hlength
    rw [mergeEnv, hlength, (horder.filter _).length_eq]
  · grind [indexes_indexed, mergeEnv, foldl_overlay_of_set]

/-- A name twice in the list, an entry without `=`, one patched and one new name. -/
theorem mergeEnv_overlays_two :
    mergeEnv ["A=1".toList, "B".toList, "A=2".toList]
        [("C".toList, "4".toList), ("A".toList, "3".toList)] =
      ["A=1".toList, "B".toList, "A=3".toList, "C=4".toList] ∧
    envGet (mergeEnv ["A=1".toList, "B".toList, "A=2".toList]
        [("C".toList, "4".toList), ("A".toList, "3".toList)]) "A".toList =
      some (some "3".toList) :=
  ⟨by decide, (mergeEnv_overlays ["A=1".toList, "B".toList, "A=2".toList]
    [("A".toList, "3".toList), ("C".toList, "4".toList)]
    [("C".toList, "4".toList), ("A".toList, "3".toList)]
    [("A".toList, "3".toList), ("C".toList, "4".toList)]
    (by decide) (by decide) (List.Perm.swap _ _ _) (List.Perm.refl _)).1
    ("A".toList, "3".toList) mem_cons_self⟩

end DbAgent.Config
