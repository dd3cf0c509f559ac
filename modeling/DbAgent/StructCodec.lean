import Mathlib.Data.List.Pairwise
import DbAgent.JsonValue

/-! Records that are read from JSON objects field by field and written back. A member
goes to the field of its name, or else to one whose name is the same up to case; other
members are skipped. A field may be left out when the record is written. -/
namespace DbAgent.Codec

open JsonText Json Prod

variable {ν : Type}

/-- How a value is read into a place that holds another one, and what is written for it. -/
structure Cell (ν α : Type) where
  zero : α
  read : Json ν → α → Except String α
  write : α → Option (Json ν)

structure Field (ν σ : Type) where
  name : String
  Value : Type
  cell : Cell ν Value
  get : σ → Value
  put : Value → σ → σ

/-- What a decoder leaves open: how names are compared up to case, and in which order
the members of an object stand in the text. -/
structure Reader (ν : Type) where
  fold : String → String
  order : List (String × Json ν) → List (String × Json ν)
  order_perm : ∀ ms, (order ms).Perm ms

variable {σ : Type} (R : Reader ν) (fields : List (Field ν σ))

def fieldOf (k : String) : Option (Field ν σ) :=
  (fields.find? fun f => f.name = k).or (fields.find? fun f => R.fold f.name = R.fold k)

def readMember (s : σ) (m : String × Json ν) : Except String σ :=
  match fieldOf R fields m.1 with
  | none => .ok s
  | some f => (f.cell.read m.2 (f.get s)).map fun a => f.put a s

/-- `null` leaves the record as it is. -/
def readObject (s : σ) : Json ν → Except String σ
  | .null => .ok s
  | .obj ms => (R.order ms).foldlM (readMember R fields) s
  | _ => .error "json: cannot unmarshal value into Go struct"

def writeMembers (s : σ) : List (String × Json ν) :=
  fields.filterMap fun f => (f.cell.write (f.get s)).map fun v => (f.name, v)

def recordCell (zero : σ) : Cell ν σ where
  zero := zero
  read := fun v s => readObject R fields s v
  write := fun s => some (.obj (writeMembers fields s))

def Apart (f g : Field ν σ) : Prop :=
  (∀ a s, f.get (g.put a s) = f.get s) ∧ ∀ a s, g.get (f.put a s) = g.get s

instance : Std.Symm (Apart (ν := ν) (σ := σ)) := ⟨fun _ _ h => ⟨h.2, h.1⟩⟩

/-- The fields are places of their own, listed by name, and empty in the zero record. -/
structure Lawful (fields : List (Field ν σ)) (zero : σ) : Prop where
  sorted : (fields.map Field.name).Pairwise keyLt
  get_zero : ∀ f ∈ fields, f.get zero = f.cell.zero
  get_put : ∀ f ∈ fields, ∀ a s, f.get (f.put a s) = a
  apart : fields.Pairwise Apart

variable {ms : List (String × Json ν)}

section Names

theorem keyLt_irrefl (a : String) : ¬keyLt a a := by
  intro h
  exact List.lex_irrefl (r := (· < ·)) (fun x => Nat.lt_irrefl x) _ h

theorem keyLt_trans {a b c : String} (hab : keyLt a b) (hbc : keyLt b c) : keyLt a c :=
  List.lex_trans (r := fun x y : ℕ => x < y) Nat.lt_trans hab hbc

theorem keys_nodup (h : (ms.map fst).Pairwise keyLt) : (ms.map fst).Nodup := by
  apply h.imp
  rintro a b hab rfl
  exact keyLt_irrefl a hab

theorem lookup_eq_none (k : String) (ms : List (String × Json ν)) :
    lookup k ms = none ↔ k ∉ ms.map fst := by
  induction ms with
  | nil => simp [lookup]
  | cons m ms ih =>
    obtain ⟨k', v⟩ := m
    rw [lookup, List.map_cons, List.mem_cons, not_or, ← ih]
    grind

theorem lookup_eq_some (k : String) (v : Json ν) (h : (ms.map fst).Nodup) :
    lookup k ms = some v ↔ (k, v) ∈ ms := by
  induction ms with
  | nil => simp [lookup]
  | cons m ms ih =>
    obtain ⟨k', v'⟩ := m
    rw [List.map_cons, List.nodup_cons] at h
    rw [lookup, List.mem_cons, ← ih h.2]
    grind

theorem members_ext {as bs : List (String × Json ν)} (ha : (as.map fst).Pairwise keyLt)
    (hb : (bs.map fst).Pairwise keyLt) : as = bs ↔ ∀ k, lookup k as = lookup k bs := by
  constructor
  · rintro rfl k
    rfl
  · intro h
    have hmem (m : String × Json ν) : m ∈ as ↔ m ∈ bs := by
      rw [← lookup_eq_some m.1 m.2 (keys_nodup ha), ← lookup_eq_some m.1 m.2 (keys_nodup hb),
        h]
    have hperm : as.Perm bs := (List.perm_ext_iff_of_nodup (List.Nodup.of_map _ (keys_nodup ha))
      (List.Nodup.of_map _ (keys_nodup hb))).mpr hmem
    apply List.Perm.eq_of_pairwise _ (List.pairwise_map.mp ha) (List.pairwise_map.mp hb) hperm
    intro a b _ _ hab hba
    exact absurd (keyLt_trans hab hba) (keyLt_irrefl a.1)

theorem canonical_of_mem (h : CanonicalMembers ms) {m : String × Json ν} (hm : m ∈ ms) :
    m.2.Canonical := by
  induction ms with
  | nil => cases hm
  | cons m' ms ih => grind [CanonicalMembers]

end Names

section Reading

variable {R fields} {zero : σ}

def valuesFor (R : Reader ν) (fields : List (Field ν σ)) (name : String)
    (ms : List (String × Json ν)) : List (Json ν) :=
  ms.filterMap fun m => ((fieldOf R fields m.1).filter fun f => f.name = name).map fun _ => m.2

variable {f : Field ν σ}

theorem fieldOf_mem {k : String} (h : fieldOf R fields k = some f) : f ∈ fields := by
  grind [fieldOf, Option.or_eq_some_iff, List.mem_of_find?_eq_some]

variable (hlaw : Lawful fields zero)

include hlaw

theorem names_nodup : (fields.map Field.name).Nodup := by
  apply hlaw.sorted.imp
  rintro a b hab rfl
  exact keyLt_irrefl a hab

theorem eq_of_name_eq {f g : Field ν σ} (hf : f ∈ fields)
    (hg : g ∈ fields) (h : f.name = g.name) : f = g :=
  List.inj_on_of_nodup_map (names_nodup hlaw) hf hg h

theorem get_put_of_ne {f g : Field ν σ} (hf : f ∈ fields)
    (hg : g ∈ fields) (hne : f.name ≠ g.name) (a : g.Value) (s : σ) :
    f.get (g.put a s) = f.get s := by
  have hfg : f ≠ g := fun h => hne (congrArg Field.name h)
  exact (hlaw.apart.forall hf hg hfg).1 a s

theorem fieldOf_name (hf : f ∈ fields) :
    fieldOf R fields f.name = some f := by
  cases hfind : fields.find? fun g => g.name = f.name with
  | none => grind
  | some g =>
    grind [fieldOf, eq_of_name_eq, List.mem_of_find?_eq_some]

theorem readMembers_get (s s' : σ)
    (h : ms.foldlM (readMember R fields) s = .ok s') (f : Field ν σ) (hf : f ∈ fields) :
    (valuesFor R fields f.name ms).foldlM (fun a v => f.cell.read v a) (f.get s) =
      .ok (f.get s') := by
  induction ms generalizing s with
  | nil =>
    obtain rfl := Except.ok.inj h
    rfl
  | cons m ms ih =>
    rw [List.foldlM_cons] at h
    cases hm : readMember R fields s m with
    | error e =>
      rw [hm] at h
      cases h
    | ok s₁ =>
      rw [hm] at h
      have hrest := ih s₁ h
      rw [valuesFor, List.filterMap_cons]
      rw [readMember] at hm
      cases hfield : fieldOf R fields m.1 with
      | none =>
        rw [hfield] at hm
        obtain rfl := Except.ok.inj hm
        exact hrest
      | some g =>
        rw [hfield] at hm
        have hg := fieldOf_mem hfield
        cases hread : g.cell.read m.2 (g.get s) with
        | error e =>
          simp only [hread] at hm
          cases hm
        | ok a =>
          simp only [hread] at hm
          obtain rfl := Except.ok.inj hm
          by_cases hname : g.name = f.name
          · obtain rfl := eq_of_name_eq hlaw hg hf hname
            rw [hlaw.get_put g hg] at hrest
            simp only [Option.filter_some, decide_true, if_true, Option.map_some,
              List.foldlM_cons, hread]
            exact hrest
          · rw [get_put_of_ne hlaw hf hg (Ne.symm hname)] at hrest
            simp only [Option.filter_some, hname, decide_false, Bool.false_eq_true, if_false,
              Option.map_none]
            exact hrest

theorem valuesFor_known (hnodup : (ms.map fst).Nodup)
    (hknown : ∀ m ∈ ms, ∃ g ∈ fields, g.name = m.1) (f : Field ν σ) :
    valuesFor R fields f.name ms = (lookup f.name ms).toList := by
  induction ms with
  | nil => rfl
  | cons m ms ih =>
    obtain ⟨k, v⟩ := m
    rw [List.map_cons, List.nodup_cons] at hnodup
    obtain ⟨⟨g, hg, hname⟩, hknown⟩ := List.forall_mem_cons.mp hknown
    replace hname : g.name = k := hname
    have hrest := ih hnodup.2 hknown
    have hfield : fieldOf R fields k = some g := by
      rw [← hname]
      exact fieldOf_name hlaw hg
    rw [valuesFor, List.filterMap_cons, lookup]
    simp only [hfield, Option.filter_some, hname]
    by_cases hk : k = f.name
    · have hnone : lookup f.name ms = none := by
        rw [lookup_eq_none, ← hk]
        exact hnodup.1
      rw [hnone] at hrest
      simp only [hk, decide_true, if_true, Option.map_some, Option.toList_some, List.cons.injEq,
        true_and]
      exact hrest
    · simp only [hk, decide_false, Bool.false_eq_true, if_false, Option.map_none]
      exact hrest

theorem readObject_get {s : σ} (hnodup : (ms.map fst).Nodup)
    (h : readObject R fields zero (.obj ms) = .ok s) (hknown : ∀ m ∈ ms, ∃ g ∈ fields, g.name = m.1)
    (f : Field ν σ) (hf : f ∈ fields) :
    (lookup f.name ms = none ∧ f.get s = f.cell.zero) ∨
      ∃ v, lookup f.name ms = some v ∧ f.cell.read v f.cell.zero = .ok (f.get s) := by
  have hread := readMembers_get hlaw zero s h f hf
  rw [hlaw.get_zero f hf] at hread
  have hperm : (valuesFor R fields f.name (R.order ms)).Perm (lookup f.name ms).toList := by
    rw [← valuesFor_known (R := R) hlaw hnodup hknown f]
    exact (R.order_perm ms).filterMap _
  cases hlookup : lookup f.name ms with
  | none =>
    rw [hlookup] at hperm
    rw [List.perm_nil.mp hperm] at hread
    exact Or.inl ⟨rfl, (Except.ok.inj hread).symm⟩
  | some v => simp_all

theorem readObject_only {s : σ}
    (h : readObject R fields zero (.obj ms) = .ok s) (hf : f ∈ fields) {v : Json ν}
    (honly : ms.filter (fun m => R.fold m.1 = R.fold f.name) = [(f.name, v)]) :
    f.cell.read v f.cell.zero = .ok (f.get s) := by
  have hread := readMembers_get hlaw zero s h f hf
  rw [hlaw.get_zero f hf] at hread
  have hfold (m : String × Json ν) (hm : R.fold m.1 ≠ R.fold f.name) :
      (((fieldOf R fields m.1).filter fun g => g.name = f.name).map fun _ => m.2) = none := by
    rw [Option.map_eq_none_iff, Option.filter_eq_none_iff]
    intro g hg hname
    replace hname : g.name = f.name := by simpa using hname
    rw [fieldOf, Option.or_eq_some_iff] at hg
    rcases hg with hg | ⟨-, hg⟩
    · grind
    · grind
  have hvalues : valuesFor R fields f.name ms = [v] := by
    calc valuesFor R fields f.name ms
      _ = valuesFor R fields f.name (ms.filter fun m => R.fold m.1 = R.fold f.name) := by
        rw [valuesFor, valuesFor, List.filterMap_filter]
        apply List.filterMap_congr
        intro m _
        grind
      _ = [v] := by
        rw [honly, valuesFor, List.filterMap_cons, fieldOf_name hlaw hf]
        grind
  have hperm : (valuesFor R fields f.name (R.order ms)).Perm [v] := by
    rw [← hvalues]
    exact (R.order_perm ms).filterMap _
  simp_all

end Reading

section Comparing

variable {fields} {zero : σ}

def prune (n : String → Json ν → Option (Json ν)) (ms : List (String × Json ν)) :
    List (String × Json ν) :=
  ms.filterMap fun m => (n m.1 m.2).map fun v => (m.1, v)

theorem keys_prune (n : String → Json ν → Option (Json ν)) (ms : List (String × Json ν)) :
    ((prune n ms).map fst).Sublist (ms.map fst) := by
  induction ms with
  | nil => exact List.Sublist.slnil
  | cons m ms ih =>
    rw [prune, List.filterMap_cons]
    cases n m.1 m.2 with
    | none => exact ih.cons _
    | some v => exact ih.cons_cons _

theorem lookup_prune (n : String → Json ν → Option (Json ν)) (hnodup : (ms.map fst).Nodup)
    (k : String) : lookup k (prune n ms) = (lookup k ms).bind (n k) := by
  induction ms with
  | nil => rfl
  | cons m ms ih =>
    obtain ⟨k', v⟩ := m
    rw [List.map_cons, List.nodup_cons] at hnodup
    have hrest := ih hnodup.2
    rw [prune, List.filterMap_cons]
    by_cases hk : k' = k
    · subst hk
      have hnone : lookup k' (prune n ms) = none := by
        rw [lookup_eq_none]
        intro hmem
        exact hnodup.1 ((keys_prune n ms).subset hmem)
      simp only [lookup, if_true, Option.bind_some]
      cases hn : n k' v with
      | none => exact hnone
      | some w =>
        simp only [Option.map_some, lookup, if_true]
    · simp only [lookup, hk, if_false]
      cases hn : n k' v with
      | none => exact hrest
      | some w =>
        simp only [Option.map_some, lookup, hk, if_false]
        exact hrest

theorem keys_writeMembers (s : σ) :
    ((writeMembers fields s).map fst).Sublist (fields.map Field.name) := by
  induction fields with
  | nil => exact List.Sublist.slnil
  | cons f fields ih =>
    rw [writeMembers, List.filterMap_cons]
    cases f.cell.write (f.get s) with
    | none => exact ih.cons _
    | some v => exact ih.cons_cons _

theorem mem_writeMembers (hlaw : Lawful fields zero) (s : σ) {f : Field ν σ} (hf : f ∈ fields)
    (v : Json ν) : (f.name, v) ∈ writeMembers fields s ↔ f.cell.write (f.get s) = some v := by
  rw [writeMembers, List.mem_filterMap]
  grind [Option.map_eq_some_iff, eq_of_name_eq]

theorem lookup_writeMembers (hlaw : Lawful fields zero) (s : σ) {f : Field ν σ} (hf : f ∈ fields) :
    lookup f.name (writeMembers fields s) = f.cell.write (f.get s) := by
  have hnodup := (keys_writeMembers s).nodup (names_nodup hlaw)
  cases hwrite : f.cell.write (f.get s) with
  | some v => rw [lookup_eq_some _ _ hnodup, mem_writeMembers hlaw s hf, hwrite]
  | none =>
    cases hlookup : lookup f.name (writeMembers fields s) with
    | none => rfl
    | some v => grind [lookup_eq_some, mem_writeMembers]

/-- A written record is, up to what is left out, a given object, exactly if the object
has only known names and each field is written as the member of its name. -/
theorem writeMembers_eq_iff (hlaw : Lawful fields zero) (n : String → Json ν → Option (Json ν))
    (hn : ∀ k v, (∀ f ∈ fields, f.name ≠ k) → n k v ≠ none)
    (hsorted : (ms.map fst).Pairwise keyLt) (s : σ) :
    prune n (writeMembers fields s) = prune n ms ↔
      (∀ m ∈ ms, ∃ f ∈ fields, f.name = m.1) ∧
      ∀ f ∈ fields, (f.cell.write (f.get s)).bind (n f.name) =
        (lookup f.name ms).bind (n f.name) := by
  have hwritten : ((writeMembers fields s).map fst).Pairwise keyLt :=
    hlaw.sorted.sublist (keys_writeMembers s)
  have hlookup (k : String) : lookup k (prune n (writeMembers fields s)) =
      (lookup k (writeMembers fields s)).bind (n k) := lookup_prune n (keys_nodup hwritten) k
  rw [members_ext (hwritten.sublist (keys_prune n _)) (hsorted.sublist (keys_prune n _))]
  simp only [hlookup, lookup_prune n (keys_nodup hsorted)]
  have hunknown (k : String) (hk : ∀ f ∈ fields, f.name ≠ k) :
      lookup k (writeMembers fields s) = none := by
    rw [lookup_eq_none]
    intro hmem
    obtain ⟨f, hf, hname⟩ := List.mem_map.mp ((keys_writeMembers s).subset hmem)
    exact hk f hf hname
  constructor
  · intro h
    constructor
    · intro m hm
      by_contra hnot
      have hk : ∀ f ∈ fields, f.name ≠ m.1 := fun f hf hname => hnot ⟨f, hf, hname⟩
      have heq := h m.1
      rw [hunknown m.1 hk, (lookup_eq_some m.1 m.2 (keys_nodup hsorted)).mpr hm] at heq
      exact hn m.1 m.2 hk heq.symm
    · intro f hf
      rw [← lookup_writeMembers hlaw s hf]
      exact h f.name
  · rintro ⟨hknown, hfields⟩ k
    by_cases hk : ∃ f ∈ fields, f.name = k
    · grind [lookup_writeMembers]
    · have hk' : ∀ f ∈ fields, f.name ≠ k := fun f hf hname => hk ⟨f, hf, hname⟩
      have hnone : lookup k ms = none := by
        rw [lookup_eq_none]
        intro hmem
        obtain ⟨m, hm, rfl⟩ := List.mem_map.mp hmem
        obtain ⟨f, hf, hname⟩ := hknown m hm
        exact hk' f hf hname
      rw [hunknown k hk', hnone]

def eraseAt : List String → Json ν → Json ν
  | k :: ks, .obj ms => .obj (prune
      (fun k' v => if k' = k then if ks = [] then none else some (eraseAt ks v) else some v) ms)
  | _, v => v

def memberAt : List String → Json ν → Option (Json ν)
  | [], v => some v
  | k :: ks, .obj ms => (lookup k ms).bind (memberAt ks)
  | _ :: _, _ => none

def pruneAt : List String → String → Json ν → Option (Json ν)
  | [], _, v => some v
  | k :: ks, k', v => if k' = k then if ks = [] then none else some (eraseAt ks v) else some v

theorem eraseAt_obj (p : List String) (ms : List (String × Json ν)) :
    eraseAt p (.obj ms) = .obj (prune (pruneAt p) ms) := by
  cases p with
  | nil => simp [prune, pruneAt, List.filterMap_some, eraseAt]
  | cons k ks =>
    rw [eraseAt]
    rfl

variable {p : List String} {k : String}

theorem pruneAt_of_ne (h : p.head? ≠ some k) (v : Json ν) :
    pruneAt p k v = some v := by
  cases p with
  | nil => rfl
  | cons k' ks => exact if_neg fun hk => h (congrArg some hk.symm)

theorem pruneAt_end (h : p = [k]) (v : Json ν) :
    pruneAt p k v = none := by
  rw [h, pruneAt, if_pos rfl, if_pos rfl]

def below (k : String) : List String → List String
  | [] => []
  | k' :: ks => if k' = k then ks else []

theorem pruneAt_below (h : p ≠ [k]) (v : Json ν) :
    pruneAt p k v = some (eraseAt (below k p) v) := by
  have hnil : eraseAt [] v = v := by
    rw [eraseAt]
    simp
  cases p with
  | nil => rw [pruneAt, below, hnil]
  | cons k' ks =>
    rw [pruneAt, below]
    grind

/-- What it takes that a record comes back, up to the member that a path leads to: the
object has only known names, each member comes back, and no field is added. -/
theorem eraseAt_record_iff {R : Reader ν} (hlaw : Lawful fields zero)
    (hp : ∀ k ∈ p.head?, ∃ f ∈ fields, f.name = k) {v : Json ν} (hv : v.Canonical) {s s' : σ}
    (hread : readObject R fields zero v = .ok s) (Keeps : String → Json ν → Prop)
    (Extra : String → Prop)
    (hkeeps : ∀ f ∈ fields, ∀ w, w.Canonical → f.cell.read w f.cell.zero = .ok (f.get s) →
      ((f.cell.write (f.get s')).bind (pruneAt p f.name) = pruneAt p f.name w ↔ Keeps f.name w))
    (hextra : ∀ f ∈ fields, f.get s = f.cell.zero →
      ((f.cell.write (f.get s')).bind (pruneAt p f.name) = none ↔ ¬Extra f.name)) :
    eraseAt p (.obj (writeMembers fields s')) = eraseAt p v ↔
      ∃ ms, v = .obj ms ∧ (∀ m ∈ ms, (∃ f ∈ fields, f.name = m.1) ∧ Keeps m.1 m.2) ∧
        ∀ f ∈ fields, Extra f.name → f.name ∈ ms.map fst := by
  cases v with
  | bool | num | str | arr => cases hread
  | null => simp [eraseAt_obj, eraseAt]
  | obj ms =>
    rw [Canonical] at hv
    have hsorted : (ms.map fst).Pairwise keyLt := List.pairwise_map.mpr hv.1
    have hnodup := keys_nodup hsorted
    have hn (k : String) (w : Json ν) (hk : ∀ f ∈ fields, f.name ≠ k) : pruneAt p k w ≠ none := by
      have hne : p.head? ≠ some k := by
        intro h
        obtain ⟨f, hf, hname⟩ := hp k h
        exact hk f hf hname
      rw [pruneAt_of_ne hne]
      exact Option.some_ne_none w
    rw [eraseAt_obj, eraseAt_obj, obj.injEq, writeMembers_eq_iff hlaw _ hn hsorted]
    have hmem (k : String) (w : Json ν) : lookup k ms = some w ↔ (k, w) ∈ ms :=
      lookup_eq_some k w hnodup
    have hcanon (m : String × Json ν) (hm : m ∈ ms) : m.2.Canonical :=
      canonical_of_mem hv.2 hm
    constructor
    · rintro ⟨hknown, hfields⟩
      refine ⟨ms, rfl, ?_, ?_⟩
      · grind [readObject_get]
      · intro f hf he
        by_contra hnot
        have hnone := (lookup_eq_none f.name ms).mpr hnot
        rcases readObject_get hlaw hnodup hread hknown f hf with ⟨-, hzero⟩ | ⟨w, hw, -⟩
        · grind
        · grind
    · rintro ⟨ms', hms, hkept, hadded⟩
      obtain rfl := obj.inj hms
      have hknown : ∀ m ∈ ms, ∃ f ∈ fields, f.name = m.1 := fun m hm => (hkept m hm).1
      refine ⟨hknown, ?_⟩
      intro f hf
      rcases readObject_get hlaw hnodup hread hknown f hf with ⟨hnone, hzero⟩ | ⟨w, hw, hr⟩
      · grind [lookup_eq_none]
      · grind

end Comparing

section Cells

/-- A string, or `null` in its place. -/
def textOf : Json ν → Except String String
  | .str s => .ok s
  | .null => .ok ""
  | _ => .error "json: cannot unmarshal value into Go value of type string"

/-- A string that is left out if it is empty. -/
def textCell : Cell ν String where
  zero := ""
  read
    | .str s, _ => .ok s
    | .null, old => .ok old
    | _, _ => .error "json: cannot unmarshal value into Go value of type string"
  write s := if s = "" then none else some (.str s)

/-- A list of strings that is left out if it is empty. -/
def listCell : Cell ν (List String) where
  zero := []
  read
    | .arr xs, _ => xs.mapM textOf
    | .null, _ => .ok []
    | _, _ => .error "json: cannot unmarshal value into Go value of type []string"
  write xs := if xs = [] then none else some (.arr (xs.map .str))

def mergeMap (old new : List (String × String)) : List (String × String) :=
  ((old.filter fun e => e.1 ∉ new.map fst) ++ new).insertionSort fun a b => keyLt a.1 b.1

/-- A map of strings that is left out if it is empty. -/
def mapCell : Cell ν (List (String × String)) where
  zero := []
  read
    | .obj ms, old => (ms.mapM fun m => (textOf m.2).map fun s => (m.1, s)).map (mergeMap old)
    | .null, _ => .ok []
    | _, _ => .error "json: cannot unmarshal value into Go value of type map[string]string"
  write es := if es = [] then none else some (.obj (es.map fun e => (e.1, .str e.2)))

def nonNull : Json ν → Option (Json ν)
  | .null => none
  | v => some v

/-- Any value, with its numbers as `float64` gives them; left out if it is `null`. -/
def anyCell (float64 : ν → Option ν) : Cell ν (Option (Json ν)) where
  zero := none
  read v _ :=
    if v.allNum fun n => (float64 n).isSome then
      .ok (nonNull (v.bindNum fun n => .num ((float64 n).getD n)))
    else .error "json: cannot unmarshal number into Go value of type float64"
  write := id

/-- A count that is left out if it is zero. -/
def countCell (uint64 : ν → Option ℕ) (ofNat : ℕ → ν) : Cell ν ℕ where
  zero := 0
  read
    | .num n, _ => match uint64 n with
      | some k => .ok k
      | none => .error "json: cannot unmarshal number into Go value of type uint64"
    | .null, old => .ok old
    | _, _ => .error "json: cannot unmarshal value into Go value of type uint64"
  write k := if k = 0 then none else some (.num (ofNat k))

def KeepsText (v : Json ν) : Prop := ∃ s : String, s ≠ "" ∧ v = .str s

def KeepsList (v : Json ν) : Prop := ∃ xs : List String, xs ≠ [] ∧ v = .arr (xs.map .str)

def KeepsMap (v : Json ν) : Prop :=
  ∃ es : List (String × String), es ≠ [] ∧ v = .obj (es.map fun e => (e.1, .str e.2))

def KeepsAny [DecidableEq ν] (float64 : ν → Option ν) (v : Json ν) : Prop :=
  v ≠ .null ∧ v.allNum (fun n => float64 n = some n) = true

def KeepsCount (uint64 : ν → Option ℕ) (v : Json ν) : Prop :=
  ∃ n k, v = .num n ∧ uint64 n = some k ∧ k ≠ 0

variable {v : Json ν}

theorem textCell_keeps {a : String} (h : textCell.read v "" = .ok a) :
    textCell.write a = some v ↔ KeepsText v := by
  have hwrite : textCell.write a = some v ↔ a ≠ "" ∧ str a = v := by
    rw [textCell, Option.ite_none_left_eq_some, Option.some.injEq]
  rw [hwrite]
  constructor
  · rintro ⟨ha, rfl⟩
    exact ⟨a, ha, rfl⟩
  · rintro ⟨s, hs, rfl⟩
    obtain rfl := Except.ok.inj h
    exact ⟨hs, rfl⟩

theorem mapM_textOf (xs : List String) :
    (xs.map (str (ν := ν))).mapM textOf = .ok xs := by
  induction xs with
  | nil => rfl
  | cons x xs ih =>
    rw [List.map_cons, List.mapM_cons, ih]
    rfl

theorem listCell_keeps {a : List String} (h : listCell.read v [] = .ok a) :
    listCell.write a = some v ↔ KeepsList v := by
  have hwrite : listCell.write a = some v ↔ a ≠ [] ∧ arr (a.map .str) = v := by
    rw [listCell, Option.ite_none_left_eq_some, Option.some.injEq]
  rw [hwrite]
  constructor
  · rintro ⟨ha, rfl⟩
    exact ⟨a, ha, rfl⟩
  · rintro ⟨xs, hne, rfl⟩
    have hread : (xs.map (str (ν := ν))).mapM textOf = .ok a := h
    rw [mapM_textOf] at hread
    grind

theorem mapM_entries (es : List (String × String)) :
    (es.map fun e => (e.1, str (ν := ν) e.2)).mapM
      (fun m => (textOf m.2).map fun s => (m.1, s)) = .ok es := by
  induction es with
  | nil => rfl
  | cons e es ih =>
    rw [List.map_cons, List.mapM_cons, ih]
    rfl

theorem mapCell_keeps (hv : v.Canonical) {a : List (String × String)}
    (h : mapCell.read v [] = .ok a) : mapCell.write a = some v ↔ KeepsMap v := by
  have hwrite : mapCell.write a = some v ↔
      a ≠ [] ∧ obj (a.map fun e => (e.1, .str e.2)) = v := by
    rw [mapCell, Option.ite_none_left_eq_some, Option.some.injEq]
  rw [hwrite]
  constructor
  · rintro ⟨ha, rfl⟩
    exact ⟨a, ha, rfl⟩
  · rintro ⟨es, hne, rfl⟩
    have hsorted : es.Pairwise fun a b => keyLt a.1 b.1 := by
      rw [Canonical] at hv
      exact (List.pairwise_map.mp hv.1).imp fun h => h
    have hread : Except.map (mergeMap []) ((es.map fun e => (e.1, str (ν := ν) e.2)).mapM
        fun m => (textOf m.2).map fun s => (m.1, s)) = .ok a := h
    rw [mapM_entries] at hread
    have ha : mergeMap [] es = a := Except.ok.inj hread
    rw [mergeMap, List.filter_nil, List.nil_append, hsorted.insertionSort_eq] at ha
    grind

theorem nonNull_eq_some (u v : Json ν) : nonNull u = some v ↔ v ≠ .null ∧ u = v := by
  grind [nonNull, Option.some.injEq]

section Numbers

variable [DecidableEq ν] (float64 : ν → Option ν)

mutual
theorem bindNum_float64 (v : Json ν) (h : v.allNum (fun n => (float64 n).isSome) = true) :
    v.bindNum (fun n => .num ((float64 n).getD n)) = v ↔
      v.allNum (fun n => float64 n = some n) = true := by
  match v with
  | .null => exact iff_of_true rfl rfl
  | .bool _ => exact iff_of_true rfl rfl
  | .str _ => exact iff_of_true rfl rfl
  | .num n => grind [allNum, Option.isSome_iff_exists, bindNum]
  | .arr xs =>
    rw [allNum] at h
    rw [bindNum, allNum, arr.injEq]
    exact bindNumList_float64 xs h
  | .obj ms =>
    rw [allNum] at h
    rw [bindNum, allNum, obj.injEq]
    exact bindNumMembers_float64 ms h
theorem bindNumList_float64 (xs : List (Json ν))
    (h : allNumList (fun n => (float64 n).isSome) xs = true) :
    bindNumList (fun n => .num ((float64 n).getD n)) xs = xs ↔
      allNumList (fun n => float64 n = some n) xs = true := by
  match xs with
  | [] => exact iff_of_true rfl rfl
  | x :: xs =>
    rw [allNumList, Bool.and_eq_true] at h
    rw [bindNumList, allNumList, Bool.and_eq_true, List.cons.injEq,
      bindNum_float64 x h.1, bindNumList_float64 xs h.2]
theorem bindNumMembers_float64 (ms : List (String × Json ν))
    (h : allNumMembers (fun n => (float64 n).isSome) ms = true) :
    bindNumMembers (fun n => .num ((float64 n).getD n)) ms = ms ↔
      allNumMembers (fun n => float64 n = some n) ms = true := by
  match ms with
  | [] => exact iff_of_true rfl rfl
  | (k, v) :: ms =>
    rw [allNumMembers, Bool.and_eq_true] at h
    rw [bindNumMembers, allNumMembers, Bool.and_eq_true, List.cons.injEq,
      mk.injEq, bindNum_float64 v h.1, bindNumMembers_float64 ms h.2]
    simp
end

theorem anyCell_keeps {v : Json ν} {a : Option (Json ν)}
    (h : (anyCell float64).read v none = .ok a) :
    (anyCell float64).write a = some v ↔ KeepsAny float64 v := by
  have hread : (if v.allNum fun n => (float64 n).isSome then
      Except.ok (nonNull (v.bindNum fun n => .num ((float64 n).getD n)))
    else .error "json: cannot unmarshal number into Go value of type float64") = .ok a := h
  by_cases hall : v.allNum (fun n => (float64 n).isSome) = true
  · rw [if_pos hall] at hread
    rw [← Except.ok.inj hread, KeepsAny, ← bindNum_float64 float64 v hall]
    exact nonNull_eq_some _ v
  · grind

end Numbers

theorem countCell_keeps {uint64 : ν → Option ℕ} {ofNat : ℕ → ν}
    (hof : ∀ n k, uint64 n = some k → ofNat k = n) {a : ℕ}
    (h : (countCell uint64 ofNat).read v 0 = .ok a) :
    (countCell uint64 ofNat).write a = some v ↔ KeepsCount uint64 v := by
  have hwrite : (countCell uint64 ofNat).write a = some v ↔ a ≠ 0 ∧ num (ofNat a) = v := by
    rw [countCell, Option.ite_none_left_eq_some, Option.some.injEq]
  rw [hwrite]
  cases v with
  | num n =>
    rw [countCell] at h
    cases hn : uint64 n with
    | none => grind
    | some k =>
      simp only [hn] at h
      obtain rfl := Except.ok.inj h
      constructor
      · rintro ⟨hk, -⟩
        exact ⟨n, k, rfl, hn, hk⟩
      · rintro ⟨n', k', heq, hn', hne⟩
        grind
  | null =>
    obtain rfl := Except.ok.inj h
    refine ⟨fun hw => absurd rfl hw.1, ?_⟩
    rintro ⟨n, k, heq, -⟩
    cases heq
  | bool | str | arr | obj => cases h

end Cells

end DbAgent.Codec
