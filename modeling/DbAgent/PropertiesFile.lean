import DbAgent.LineSegments
import DbAgent.Trimming

/-! The text of a properties file, and what `setProperty` and `mergeProperties` of the
probe make of it. -/
namespace DbAgent.Config

open List

abbrev Text := List Char

def isSpace (c : Char) : Bool :=
  c.toNat ∈ [0x09, 0x0a, 0x0b, 0x0c, 0x0d, 0x20, 0x85, 0xa0, 0x1680, 0x2028, 0x2029, 0x202f,
    0x205f, 0x3000] || (0x2000 ≤ c.toNat && c.toNat ≤ 0x200a)

def trimSpace (s : Text) : Text := Trimming.trim isSpace s

/-- `strings.Contains`. -/
def containsText (s sub : Text) : Bool := s.tails.any fun t => sub.isPrefixOf t

/-- `strings.Split(content, "\n")`. -/
def lines (content : Text) : List Text := content.splitOn '\n'

/-- `strings.Join(lines, "\n")`. -/
def joinLines (ls : List Text) : Text := ['\n'].intercalate ls

def entry (key value : Text) : Text := key ++ '=' :: value

/-- The test of `setProperty` for the line of a key. -/
def isLineOf (key line : Text) : Bool :=
  (key ++ ['=']).isPrefixOf (trimSpace line) || trimSpace line == key

/-- The first line that satisfies `p`, replaced. -/
def replaceFirst (p : Text → Bool) (new : Text) : List Text → Option (List Text)
  | [] => none
  | l :: ls => if p l then some (new :: ls) else (replaceFirst p new ls).map (l :: ·)

def setProperty (content key value : Text) : Text :=
  let ls :=
    match replaceFirst (isLineOf key) (entry key value) (lines content) with
    | some ls => ls
    | none =>
      let content := if content ≠ [] ∧ content.getLast? ≠ some '\n' then content ++ ['\n']
        else content
      lines content ++ [entry key value]
  joinLines (ls.rdropWhile (· == [])) ++ ['\n']

/-- The orders in which the three loops of `mergeProperties` go through the map. -/
structure MapOrders where
  search : List (Text × Text) → List (Text × Text)
  others : List (Text × Text) → List (Text × Text)
  all : List (Text × Text) → List (Text × Text)
  search_perm : ∀ m, (search m).Perm m
  others_perm : ∀ m, (others m).Perm m
  all_perm : ∀ m, (all m).Perm m

def fileLike (v : Text) : Bool :=
  v.contains '\n' || (v.contains '=' && containsText v "query.".toList)

def mergeProperties (o : MapOrders) (current : Text) (patches : List (Text × Text)) : Text :=
  match (o.search patches).find? fun p => fileLike p.2 with
  | some (_, v) =>
    (o.others patches).foldl (fun base p =>
      if p.2 = v then base
      else if !p.2.contains '\n' && !p.2.contains '=' then setProperty base p.1 p.2
      else base) v
  | none => (o.all patches).foldl (fun base p => setProperty base p.1 p.2) current

variable {p : Text → Bool}

section Lines

theorem lines_append (xs ys : Text) : lines (xs ++ '\n' :: ys) = lines xs ++ lines ys :=
  Lines.splitOn_append_cons xs ys

theorem newline_notMem_of_mem_lines (content : Text) : ∀ l ∈ lines content, '\n' ∉ l :=
  Lines.notMem_of_mem_splitOn '\n' content

end Lines

section Setting

theorem first_line_cases (key : Text) (ls : List Text) :
    (∃ pre l post, ls = pre ++ l :: post ∧ isLineOf key l ∧ ∀ x ∈ pre, isLineOf key x = false) ∨
      ∀ x ∈ ls, isLineOf key x = false := by
  induction ls with
  | nil => exact .inr (forall_mem_nil _)
  | cons l ls ih =>
    cases hl : isLineOf key l with
    | true => exact .inl ⟨[], l, ls, rfl, hl, forall_mem_nil _⟩
    | false => grind

/-- An empty line at the end makes no difference to the view. -/
def EndsBlind {X : Type} (view : List Text → X) : Prop := ∀ ls, view (ls ++ [[]]) = view ls

theorem endsBlind_filter (hp : p [] = false) : EndsBlind (List.filter p) := by
  intro ls
  simp [hp]

theorem EndsBlind.rdropWhile {X : Type} {view : List Text → X} (hview : EndsBlind view)
    (ls : List Text) : view (ls.rdropWhile (· == [])) = view ls := by
  induction ls using List.reverseRecOn with
  | nil => rfl
  | append_singleton ls l ih =>
    by_cases hl : l = []
    · subst hl
      rw [rdropWhile_concat_pos _ _ _ rfl, ih, hview]
    · simp_all

theorem EndsBlind.lines_joinLines {X : Type} {view : List Text → X} (hview : EndsBlind view)
    (ls : List Text) (hls : ∀ l ∈ ls, '\n' ∉ l) :
    view (lines (joinLines ls ++ ['\n'])) = view ls := by
  have hend : lines (joinLines ls ++ ['\n']) = lines (joinLines ls) ++ [[]] := lines_append _ []
  rw [hend, hview]
  by_cases hne : ls = []
  · subst hne
    exact hview []
  · rw [lines, joinLines, splitOn_intercalate '\n' hls hne]

theorem replaceFirst_eq (p : Text → Bool) (new : Text) {pre post : List Text} {l : Text}
    (hl : p l = true) (hpre : ∀ x ∈ pre, p x = false) :
    replaceFirst p new (pre ++ l :: post) = some (pre ++ new :: post) := by
  induction pre with
  | nil => rw [nil_append, replaceFirst, if_pos hl, nil_append]
  | cons x pre ih =>
    obtain ⟨hx, hrest⟩ := forall_mem_cons.mp hpre
    rw [cons_append, replaceFirst, if_neg (by simp [hx]), ih hrest]
    rfl

theorem replaceFirst_eq_none (p : Text → Bool) (new : Text) {ls : List Text}
    (h : ∀ x ∈ ls, p x = false) : replaceFirst p new ls = none := by
  induction ls with
  | nil => rfl
  | cons x ls ih =>
    obtain ⟨hx, hrest⟩ := forall_mem_cons.mp h
    rw [replaceFirst, if_neg (by simp [hx]), ih hrest]
    rfl

theorem newline_notMem_entry {key value : Text} (hkey : '\n' ∉ key) (hvalue : '\n' ∉ value) :
    '\n' ∉ entry key value := by
  rw [entry, mem_append, mem_cons, not_or, not_or]
  exact ⟨hkey, by decide, hvalue⟩

/-- What `setProperty` does, as such a view sees it: the first line of the key is
replaced, or the new line comes at the end, after an empty one perhaps. -/
theorem setProperty_cases {X : Type} {view : List Text → X} (hview : EndsBlind view)
    (content : Text) {key value : Text} (hentry : '\n' ∉ entry key value) :
    (∃ pre l post, lines content = pre ++ l :: post ∧ isLineOf key l ∧
      (∀ x ∈ pre, isLineOf key x = false) ∧
      view (lines (setProperty content key value)) = view (pre ++ entry key value :: post)) ∨
    ((∀ x ∈ lines content, isLineOf key x = false) ∧ ∃ gap : List Text, (∀ l ∈ gap, l = []) ∧
      view (lines (setProperty content key value)) =
        view (lines content ++ (gap ++ [entry key value]))) := by
  have hlines := newline_notMem_of_mem_lines content
  have hfinish (ls : List Text) (hls : ∀ l ∈ ls, '\n' ∉ l) :
      view (lines (joinLines (ls.rdropWhile (· == [])) ++ ['\n'])) = view ls := by
    rw [hview.lines_joinLines, hview.rdropWhile]
    intro l hl
    have hfront := rdropWhile_prefix (· == []) ls
    exact hls l (hfront.subset hl)
  obtain ⟨pre, l, post, hsplit, hl, hpre⟩ | hnone := first_line_cases key (lines content)
  · refine .inl ⟨pre, l, post, hsplit, hl, hpre, ?_⟩
    rw [setProperty, hsplit, replaceFirst_eq _ _ hl hpre]
    grind
  · refine .inr ⟨hnone, ?_⟩
    have hadd (gap : List Text) (hgap : ∀ l ∈ gap, l = []) :
        ∀ l ∈ lines content ++ (gap ++ [entry key value]), '\n' ∉ l := by
      intro l hl
      rw [mem_append, mem_append, mem_singleton] at hl
      rcases hl with hl | hl | rfl
      · exact hlines l hl
      · grind
      · exact hentry
    by_cases hopen : content ≠ [] ∧ content.getLast? ≠ some '\n'
    · have hblank : ∀ l ∈ [([] : Text)], l = [] := by simp
      refine ⟨[[]], hblank, ?_⟩
      have hend : lines (content ++ ['\n']) = lines content ++ [[]] := lines_append content []
      rw [setProperty, replaceFirst_eq_none _ _ hnone]
      dsimp only
      rw [if_pos hopen, hend, append_assoc, hfinish _ (hadd _ hblank)]
    · have hblank : ∀ l ∈ ([] : List Text), l = [] := forall_mem_nil _
      refine ⟨[], hblank, ?_⟩
      rw [setProperty, replaceFirst_eq_none _ _ hnone]
      dsimp only
      rw [if_neg hopen]
      exact hfinish _ (hadd [] hblank)

theorem filter_setProperty (content : Text) {key value : Text} (hentry : '\n' ∉ entry key value)
    (hnil : p [] = false) (hlines : ∀ l, isLineOf key l → p l = false)
    (hnew : p (entry key value) = false) :
    (lines (setProperty content key value)).filter p = (lines content).filter p := by
  obtain ⟨pre, l, post, hsplit, hl, -, h⟩ | ⟨-, gap, hgap, h⟩ :=
    setProperty_cases (endsBlind_filter hnil) content hentry
  · rw [h, hsplit]
    simp [hnew, hlines l hl]
  · grind [filter_eq_nil_iff]

end Setting

section Keys

def isOther (keys : List Text) (l : Text) : Bool := !l.isEmpty && !keys.any fun k => isLineOf k l

def otherLines (keys : List Text) (content : Text) : List Text :=
  (lines content).filter (isOther keys)

structure Plain (key : Text) : Prop where
  newline : '\n' ∉ key
  start : ∃ c rest, key = c :: rest ∧ isSpace c = false

theorem isLineOf_entry (key value : Text) (hk : Plain key) : isLineOf key (entry key value) := by
  obtain ⟨c, rest, rfl, hc⟩ := hk.start
  have hkept : c :: rest ++ ['='] <+: trimSpace (entry (c :: rest) value) := by
    rw [entry, append_cons _ _ value]
    exact Trimming.isPrefix_trim (by simp [hc]) (by decide) value
  rw [isLineOf, isPrefixOf_iff_prefix.mpr hkept]
  rfl

theorem isOther_of_isLineOf (keys : List Text) (key l : Text) (hk : key ∈ keys)
    (hl : isLineOf key l) : isOther keys l = false := by
  have hany : (keys.any fun k => isLineOf k l) = true := any_eq_true.mpr ⟨key, hk, hl⟩
  rw [isOther, hany, Bool.not_true, Bool.and_false]

theorem otherLines_setProperty (keys : List Text) (content key value : Text) (hmem : key ∈ keys)
    (hk : Plain key) (hv : '\n' ∉ value) :
    otherLines keys (setProperty content key value) = otherLines keys content := by
  have hlines (l : Text) (hl : isLineOf key l) : isOther keys l = false :=
    isOther_of_isLineOf keys key l hmem hl
  exact filter_setProperty content (newline_notMem_entry hk.newline hv) rfl hlines
    (hlines _ (isLineOf_entry key value hk))

end Keys

section Merging

variable {keys : List Text}

theorem otherLines_foldl (step : Text → Text × Text → Text) (patches : List (Text × Text))
    (hstep : ∀ base, ∀ p ∈ patches, otherLines keys (step base p) = otherLines keys base)
    (base : Text) : otherLines keys (patches.foldl step base) = otherLines keys base := by
  induction patches generalizing base with
  | nil => rfl
  | cons p patches ih => grind

def mergeBase (o : MapOrders) (current : Text) (patches : List (Text × Text)) : Text :=
  ((o.search patches).find? fun p => fileLike p.2).elim current Prod.snd

theorem otherLines_mergeProperties (o : MapOrders) (current : Text)
    (patches : List (Text × Text)) (hkeys : ∀ p ∈ patches, p.1 ∈ keys)
    (hplain : ∀ k ∈ keys, Plain k) :
    otherLines keys (mergeProperties o current patches) =
      otherLines keys (mergeBase o current patches) := by
  have hset (base : Text) (p : Text × Text) (hp : p ∈ patches) (hv : '\n' ∉ p.2) :=
    otherLines_setProperty keys base p.1 p.2 (hkeys p hp) (hplain _ (hkeys p hp)) hv
  unfold mergeProperties mergeBase
  cases hfind : (o.search patches).find? fun p => fileLike p.2 with
  | some p =>
    apply otherLines_foldl
    intro base q hq
    have hq' : q ∈ patches := (o.others_perm patches).mem_iff.mp hq
    grind
  | none =>
    apply otherLines_foldl
    intro base q hq
    have hq' : q ∈ patches := (o.all_perm patches).mem_iff.mp hq
    apply hset base q hq'
    -- a value with a line break would have been taken for a file
    have hnot := List.find?_eq_none.mp hfind q ((o.search_perm patches).mem_iff.mpr hq')
    intro hmem
    apply hnot
    rw [fileLike, contains_iff_mem.mpr hmem]
    rfl

def ordersFrom (p : Text × Text) : MapOrders where
  search m := if p ∈ m then p :: m.erase p else m
  others m := m
  all m := m
  search_perm m := by grind
  others_perm := List.Perm.refl
  all_perm := List.Perm.refl

/-- Whatever the orders are, the other lines are kept exactly if every value that is
taken for a file has the same ones. -/
theorem mergeProperties_confined (current : Text) (patches : List (Text × Text))
    (hkeys : ∀ p ∈ patches, p.1 ∈ keys) (hplain : ∀ k ∈ keys, Plain k) :
    (∀ o, otherLines keys (mergeProperties o current patches) = otherLines keys current) ↔
      ∀ p ∈ patches, fileLike p.2 → otherLines keys p.2 = otherLines keys current := by
  constructor
  · intro h p hp hfile
    have horder := h (ordersFrom p)
    rw [otherLines_mergeProperties _ _ _ hkeys hplain, mergeBase] at horder
    have hsearch : (ordersFrom p).search patches = p :: patches.erase p := if_pos hp
    grind
  · intro h o
    rw [otherLines_mergeProperties o _ _ hkeys hplain, mergeBase]
    cases hfind : (o.search patches).find? fun p => fileLike p.2 with
    | none => rfl
    | some p =>
      have hp := (o.search_perm patches).mem_iff.mp (mem_of_find?_eq_some hfind)
      grind

end Merging

end DbAgent.Config
