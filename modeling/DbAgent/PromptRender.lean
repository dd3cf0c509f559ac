import DbAgent.RegexScan

/-! How a prompt is made of its template: `render` replaces the placeholders one name
after the other and then cuts out what is left between double braces. It is compared
with the substitution of all placeholders of the template at once. -/
namespace DbAgent.Prompt

open Scan List Pattern

abbrev Text := List Char

section Rendering

/-- `"\x7b\x7b" + name + "\x7d\x7d"`. -/
def placeholder (name : Text) : Text := '\x7b' :: '\x7b' :: (name ++ ['\x7d', '\x7d'])

/-- `str.replace`, with the number of characters of a match that are still to be passed
over. -/
def replaceFrom (old new : Text) : ℕ → Text → Text
  | _, [] => []
  | n+1, _ :: t => replaceFrom old new n t
  | 0, c :: t =>
    if old.isPrefixOf (c :: t) then new ++ replaceFrom old new (old.length-1) t
    else c :: replaceFrom old new 0 t

def replaceText (old new t : Text) : Text := replaceFrom old new 0 t

def splitPair (p : Char) : Text → Option (Text × Text)
  | [] => none
  | c :: t =>
    if c = p ∧ t.head? = some p then some ([], t.tail)
    else (splitPair p t).map fun x => (c :: x.1, x.2)

/-- `ValueError: substring not found`. -/
inductive Error where
  | valueError
  deriving DecidableEq, Repr

/-- One round of the clean-up: `out[:start] + out[end:]`. -/
def dropFirst (out : Text) : Except Error Text :=
  match splitPair '\x7b' out with
  | none => .error .valueError
  | some (before, rest) =>
    match splitPair '\x7d' ('\x7b' :: '\x7b' :: rest) with
    | none => .error .valueError
    | some (_, after) => .ok (before ++ after)

/-- The clean-up. Every round makes the text shorter, so the length of the text is enough
fuel. -/
def stripLeftover : ℕ → Text → Except Error Text
  | 0, out => .ok out
  | fuel+1, out =>
    if (splitPair '\x7b' out).isSome && (splitPair '\x7d' out).isSome then
      match dropFirst out with
      | .error e => .error e
      | .ok out => stripLeftover fuel out
    else .ok out

def isBrace (c : Char) : Bool := c == '\x7b' || c == '\x7d'

/-- `variables`: names without braces and their values, in the order of the dictionary. -/
structure Assignment where
  entries : List (Text × Option Text)
  names : ∀ kv ∈ entries, ∀ c ∈ kv.1, isBrace c = false

/-- `str(value) if value is not None else ""`. -/
def valueText (v : Option Text) : Text := v.getD []

def render (template : Text) (vars : Assignment) : Except Error Text :=
  let out := vars.entries.foldl
    (fun out kv => replaceText (placeholder kv.1) (valueText kv.2) out) template
  stripLeftover out.length out

end Rendering

section Verbatim

def placeholderRe : Pattern Char where
  first := .seq (.one (· == '\x7b')) (.one (· == '\x7b'))
  second := .many (fun c => !isBrace c)
  third := .seq (.one (· == '\x7d')) (.one (· == '\x7d'))

def Assignment.get (vars : Assignment) (name : Text) : Option Text :=
  (vars.entries.lookup name).map valueText

def Assignment.fill (vars : Assignment) : Piece Char → Text
  | .skip c => [c]
  | .hit h => (vars.get h.second).getD []

def verbatim (vars : Assignment) (template : Text) : Text :=
  (placeholderRe.pieces template).flatMap vars.fill

end Verbatim

section Pairs

variable {p : Char}

variable {t : Text}

theorem pair_cons {c : Char} :
    [p, p] <:+: c :: t ↔ (c = p ∧ t.head? = some p) ∨ [p, p] <:+: t := by
  rw [infix_cons_iff]
  apply or_congr_left
  constructor
  · rintro ⟨s, hs⟩
    grind
  · rintro ⟨rfl, ht⟩
    cases t with
    | nil => cases ht
    | cons d t => grind

theorem pair_append_cons {q : Char} (hq : q ≠ p) {x y : Text} :
    [p, p] <:+: x ++ q :: y ↔ [p, p] <:+: x ∨ [p, p] <:+: y := by
  induction x with
  | nil => grind [pair_cons]
  | cons c x ih =>
    rw [cons_append, pair_cons, pair_cons, ih, or_assoc]
    apply or_congr_left
    cases x with
    | nil => simp [hq]
    | cons d x => rfl

theorem not_pair_concat (h : p ∉ t) : ¬[p, p] <:+: t ++ [p] := by
  induction t with
  | nil =>
    rw [nil_append, pair_cons]
    simp
  | cons c t ih =>
    rw [mem_cons, not_or] at h
    rw [cons_append, pair_cons, not_or]
    grind

theorem head?_pair (a b : Text) : (a ++ p :: p :: b).head? = (a ++ [p]).head? := by
  cases a <;> rfl

theorem splitPair_some_iff {t a b : Text} :
    splitPair p t = some (a, b) ↔ t = a ++ p :: p :: b ∧ ¬[p, p] <:+: a ++ [p] := by
  induction t generalizing a with
  | nil => simp [splitPair]
  | cons c t ih =>
    rw [splitPair]
    split
    next hpair =>
      -- the text begins with the pair, and so nothing stands before the first one
      constructor
      · grind [cons_head?_tail, not_pair_concat]
      · rintro ⟨ht, hnot⟩
        cases a with
        | nil => grind
        | cons d a =>
          obtain ⟨rfl, rfl⟩ := List.cons.inj ht
          rw [cons_append, pair_cons, not_or, ← head?_pair a b] at hnot
          grind
    next hpair =>
      rw [Option.map_eq_some_iff]
      constructor
      · rintro ⟨⟨a', b'⟩, hsplit, heq⟩
        cases heq
        obtain ⟨rfl, hnot⟩ := ih.mp hsplit
        rw [head?_pair] at hpair
        refine ⟨rfl, ?_⟩
        rw [cons_append, pair_cons, not_or]
        exact ⟨hpair, hnot⟩
      · rintro ⟨ht, hnot⟩
        cases a with
        | nil => grind
        | cons d a =>
          obtain ⟨rfl, rfl⟩ := List.cons.inj ht
          rw [cons_append, pair_cons, not_or] at hnot
          grind

theorem splitPair_isSome_iff : (splitPair p t).isSome = true ↔ [p, p] <:+: t := by
  induction t with
  | nil => simp [splitPair]
  | cons c t ih => grind [splitPair, pair_cons]

theorem exists_splitPair (h : [p, p] <:+: t) :
    ∃ a b, t = a ++ p :: p :: b ∧ ¬[p, p] <:+: a ++ [p] := by
  obtain ⟨⟨a, b⟩, hab⟩ := Option.isSome_iff_exists.mp (splitPair_isSome_iff.mpr h)
  exact ⟨a, b, splitPair_some_iff.mp hab⟩

end Pairs

section Pieces

def raw : Piece Char → Text
  | .skip c => [c]
  | .hit h => h.text

def Formed (ps : List (Piece Char)) : Prop := ∀ h, .hit h ∈ ps → placeholderRe.Matches h

theorem text_of_matches {h : Hit Char} (hm : placeholderRe.Matches h) :
    h.text = placeholder h.second ∧ ∀ c ∈ h.second, isBrace c = false := by
  obtain ⟨a, b, hfirst, ⟨c, hc, rfl⟩, ⟨d, hd, rfl⟩⟩ := hm.first
  obtain ⟨a', b', hthird, ⟨c', hc', rfl⟩, ⟨d', hd', rfl⟩⟩ := hm.third
  simp only [beq_iff_eq] at hc hd hc' hd'
  subst hc hd hc' hd'
  refine ⟨?_, ?_⟩
  · rw [Hit.text, hfirst, hthird]
    rfl
  · intro c hc
    simpa using hm.second c hc

theorem not_open_mem {n : Text} (hn : ∀ c ∈ n, isBrace c = false) :
    '\x7b' ∉ n ++ ['\x7d', '\x7d'] := by
  intro hmem
  rcases mem_append.mp hmem with hmem | hmem
  · cases hn _ hmem
  · simp at hmem

theorem placeholderRe_nonempty : placeholderRe.Nonempty := by
  intro h hm
  rw [(text_of_matches hm).1]
  exact cons_ne_nil _ _

theorem raw_pieces (t : Text) : (placeholderRe.pieces t).flatMap raw = t := by
  induction t using scan_induction placeholderRe_nonempty with
  | nil => rfl
  | skip c cs hm ih =>
    rw [pieces_skip hm, flatMap_cons, ih]
    rfl
  | hit h rest hm ih =>
    rw [pieces_hit placeholderRe_nonempty hm, flatMap_cons, ih]
    exact (matchAt_eq hm).symm

theorem formed_pieces (t : Text) : Formed (placeholderRe.pieces t) := by
  induction t using scan_induction placeholderRe_nonempty with
  | nil =>
    intro h hh
    cases hh
  | skip c cs hm ih =>
    rw [pieces_skip hm]
    intro h hh
    rcases mem_cons.mp hh with heq | hh
    · cases heq
    · exact ih h hh
  | hit g rest hm ih =>
    rw [pieces_hit placeholderRe_nonempty hm]
    intro h hh
    rcases mem_cons.mp hh with heq | hh
    · cases heq
      exact matchAt_matches hm
    · exact ih h hh

variable {ps : List (Piece Char)}

theorem Formed.tail {q : Piece Char} (h : Formed (q :: ps)) : Formed ps :=
  fun g hg => h g (mem_cons_of_mem q hg)

def spelled (t : Text) : List (Piece Char) := t.map Piece.skip

theorem flatMap_spelled {β : Type} {f : Piece Char → List β} {g : Char → β}
    (h : ∀ c, f (.skip c) = [g c]) (t : Text) : (spelled t).flatMap f = t.map g := by
  induction t with
  | nil => rfl
  | cons c t ih =>
    rw [spelled, map_cons, flatMap_cons, h, map_cons, ← ih]
    rfl

theorem raw_spelled (t : Text) : (spelled t).flatMap raw = t :=
  (flatMap_spelled (fun _ => rfl) t).trans (map_id t)

theorem prefix_spelled {t : Text} (ht : '\x7b' ∉ t) (hps : Formed ps) (h : t <+: ps.flatMap raw) :
    ∃ rest, ps = spelled t ++ rest := by
  induction t generalizing ps with
  | nil => exact ⟨ps, rfl⟩
  | cons c t ih =>
    rw [mem_cons, not_or] at ht
    cases ps with
    | nil => grind
    | cons q ps =>
      rw [flatMap_cons] at h
      cases q with
      | skip d =>
        obtain ⟨hd, htail⟩ := cons_prefix_cons.mp h
        obtain ⟨rest, hrest⟩ := ih ht.2 hps.tail htail
        exact ⟨rest, by rw [hd, hrest]; rfl⟩
      | hit g =>
        rw [raw, (text_of_matches (hps g mem_cons_self)).1] at h
        exact absurd (cons_prefix_cons.mp h).1.symm ht.1

theorem placeholder_spelled {k : Text} (hk : ∀ c ∈ k, isBrace c = false) {c : Char}
    (hps : Formed ps) (h : placeholder k <+: (Piece.skip c :: ps).flatMap raw) :
    ∃ rest, Piece.skip c :: ps = spelled (placeholder k) ++ rest := by
  have hopen := not_open_mem hk
  rw [flatMap_cons] at h
  have hc : '\x7b' = c := (cons_prefix_cons.mp h).1
  have hrest : '\x7b' :: (k ++ ['\x7d', '\x7d']) <+: ps.flatMap raw := (cons_prefix_cons.mp h).2
  cases ps with
  | nil => grind
  | cons q ps =>
    rw [flatMap_cons] at hrest
    cases q with
    | skip d =>
      have hd : '\x7b' = d := (cons_prefix_cons.mp hrest).1
      obtain ⟨rest, rfl⟩ := prefix_spelled hopen hps.tail (cons_prefix_cons.mp hrest).2
      rw [← hc, ← hd]
      exact ⟨rest, rfl⟩
    | hit g =>
      -- three braces in a row would begin a name with one
      rw [raw, (text_of_matches (hps g mem_cons_self)).1] at hrest
      have hthird := (cons_prefix_cons.mp hrest).2
      cases k with
      | nil => simp_all
      | cons d k => simp_all

end Pieces

section Replacing

variable {k v : Text}

theorem replaceFrom_drop (old new : Text) (n : ℕ) (t : Text) :
    replaceFrom old new n t = replaceText old new (t.drop n) := by
  induction n generalizing t with
  | zero => rfl
  | succ n ih =>
    cases t with
    | nil => rfl
    | cons c t => exact ih t

theorem replaceText_cons_of_not {old : Text} (new : Text) {c : Char} {t : Text}
    (h : ¬old <+: c :: t) : replaceText old new (c :: t) = c :: replaceText old new t := by
  have hfalse : old.isPrefixOf (c :: t) = false := by
    rw [Bool.eq_false_iff, Ne, isPrefixOf_iff_prefix]
    exact h
  rw [replaceText, replaceFrom, hfalse, if_neg Bool.false_ne_true]
  rfl

theorem replaceText_placeholder (k v rest : Text) :
    replaceText (placeholder k) v (placeholder k ++ rest) =
      v ++ replaceText (placeholder k) v rest := by
  have htrue : (placeholder k).isPrefixOf (placeholder k ++ rest) = true :=
    isPrefixOf_iff_prefix.mpr (prefix_append _ _)
  have hdrop : (('\x7b' :: (k ++ ['\x7d', '\x7d'])) ++ rest).drop ((placeholder k).length-1) =
      rest := drop_left
  change replaceFrom (placeholder k) v 0
    ('\x7b' :: (('\x7b' :: (k ++ ['\x7d', '\x7d'])) ++ rest)) = _
  rw [replaceFrom, replaceFrom_drop, hdrop]
  exact if_pos htrue

theorem replaceText_append {t : Text} (ht : '\x7b' ∉ t) (k v rest : Text) :
    replaceText (placeholder k) v (t ++ rest) = t ++ replaceText (placeholder k) v rest := by
  induction t with
  | nil => rfl
  | cons c t ih =>
    rw [mem_cons, not_or] at ht
    rw [cons_append, replaceText_cons_of_not, ih ht.2, cons_append]
    intro h
    exact ht.1 (cons_prefix_cons.mp h).1

theorem placeholder_inj {n : Text} (hk : ∀ c ∈ k, isBrace c = false)
    (hn : ∀ c ∈ n, isBrace c = false) {rest : Text} (h : placeholder k <+: placeholder n ++ rest) :
    k = n := by
  obtain ⟨s, hs⟩ := h
  simp only [placeholder, cons_append, append_assoc, nil_append,
    List.cons.injEq, true_and] at hs
  have hname {m : Text} (hm : ∀ c ∈ m, isBrace c = false) : ∀ c ∈ m, (!isBrace c) = true := by
    intro c hc
    rw [hm c hc]
    rfl
  have hbrace : (!isBrace '\x7d') = false := rfl
  exact (Regex.run_unique hs (hname hk) (hname hn) hbrace hbrace).1

theorem replaceText_other {n : Text} (hk : ∀ c ∈ k, isBrace c = false)
    (hn : ∀ c ∈ n, isBrace c = false) (hne : n ≠ k) (v rest : Text) :
    replaceText (placeholder k) v (placeholder n ++ rest) =
      placeholder n ++ replaceText (placeholder k) v rest := by
  have hopen := not_open_mem hn
  have hfirst : ¬placeholder k <+: '\x7b' :: ('\x7b' :: (n ++ ['\x7d', '\x7d']) ++ rest) :=
    fun h => hne (placeholder_inj hk hn h).symm
  have hsecond : ¬placeholder k <+: '\x7b' :: ((n ++ ['\x7d', '\x7d']) ++ rest) := by
    intro h
    have h' := (cons_prefix_cons.mp h).2
    cases n with
    | nil => grind
    | cons d n => grind
  grind [placeholder, replaceText_cons_of_not, replaceText_append]

end Replacing

section Stages

def fillOne (k v : Text) : Piece Char → List (Piece Char)
  | .skip c => [.skip c]
  | .hit h => if h.second = k then spelled v else [.hit h]

variable {ps : List (Piece Char)}

theorem replaceText_pieces {k : Text} (hk : ∀ c ∈ k, isBrace c = false) (v : Text) (hps : Formed ps)
    (hno : ∀ a b, ps ≠ a ++ (spelled (placeholder k) ++ b)) :
    replaceText (placeholder k) v (ps.flatMap raw) = (ps.flatMap (fillOne k v)).flatMap raw := by
  induction ps with
  | nil => rfl
  | cons q ps ih =>
    have htail := ih hps.tail fun a b h => hno (q :: a) b (by rw [h]; rfl)
    rw [flatMap_cons, flatMap_cons, flatMap_append, ← htail]
    cases q with
    | skip c =>
      apply replaceText_cons_of_not
      intro h
      obtain ⟨rest, hrest⟩ := placeholder_spelled hk hps.tail h
      exact hno [] rest hrest
    | hit g =>
      obtain ⟨htext, hname⟩ := text_of_matches (hps g mem_cons_self)
      rw [raw, htext]
      by_cases hkey : g.second = k
      · rw [fillOne, if_pos hkey, raw_spelled, hkey]
        exact replaceText_placeholder k v _
      · rw [fillOne, if_neg hkey, flatMap_singleton, raw, htext]
        exact replaceText_other hk hname hkey v _

def resolve (entries : List (Text × Option Text)) : Piece Char → List (Piece Char)
  | .skip c => [.skip c]
  | .hit h => ((entries.lookup h.second).map fun v => spelled (valueText v)).getD [.hit h]

theorem spelled_flatMap_fillOne (k v t : Text) : (spelled t).flatMap (fillOne k v) = spelled t :=
  flatMap_spelled (fun _ => rfl) t

theorem resolve_concat (done : List (Text × Option Text)) (k : Text) (v : Option Text)
    (q : Piece Char) :
    (resolve done q).flatMap (fillOne k (valueText v)) = resolve (done ++ [(k, v)]) q := by
  cases q with
  | skip c => rfl
  | hit h =>
    rw [resolve, resolve, lookup_append]
    cases done.lookup h.second with
    | some w => exact spelled_flatMap_fillOne _ _ _
    | none =>
      by_cases hkey : h.second = k
      · simp [fillOne, hkey]
      · grind [fillOne]

theorem formed_resolve (hps : Formed ps) (entries : List (Text × Option Text)) :
    Formed (ps.flatMap (resolve entries)) := by
  intro h hh
  obtain ⟨q, hq, hmem⟩ := mem_flatMap.mp hh
  cases q with
  | skip c =>
    simp [resolve] at hmem
  | hit g =>
    rw [resolve] at hmem
    cases hlook : entries.lookup g.second with
    | some w =>
      rw [hlook] at hmem
      simp [spelled] at hmem
    | none =>
      rw [hlook] at hmem
      obtain rfl : h = g := by simpa using hmem
      exact hps h hq

variable (vars : Assignment)

theorem fill_spelled (t : Text) : (spelled t).flatMap vars.fill = t :=
  (flatMap_spelled (fun _ => rfl) t).trans (map_id t)

theorem fill_resolve {done rest : List (Text × Option Text)} (h : vars.entries = done ++ rest)
    (ps : List (Piece Char)) :
    (ps.flatMap (resolve done)).flatMap vars.fill = ps.flatMap vars.fill := by
  rw [flatMap_assoc]
  apply flatMap_congr
  intro q _
  cases q with
  | skip c => rfl
  | hit g =>
    rw [resolve]
    cases hlook : done.lookup g.second with
    | none => simp
    | some w =>
      grind [Assignment.get, fill_spelled, Assignment.fill]

def Braced (t : Text) : Prop := ['\x7b', '\x7b'] <:+: t ∧ ['\x7d', '\x7d'] <:+: t

theorem braced_of_placeholder {a k b : Text} : Braced (a ++ (placeholder k ++ b)) := by
  constructor
  · exact ⟨a, k ++ ['\x7d', '\x7d'] ++ b, by simp [placeholder]⟩
  · exact ⟨a ++ '\x7b' :: '\x7b' :: k, b, by simp [placeholder]⟩

theorem replace_entries (hps : Formed ps) (hout : ¬Braced (ps.flatMap vars.fill))
    (rest done : List (Text × Option Text)) (h : vars.entries = done ++ rest) :
    rest.foldl (fun out kv => replaceText (placeholder kv.1) (valueText kv.2) out)
        ((ps.flatMap (resolve done)).flatMap raw) =
      (ps.flatMap (resolve vars.entries)).flatMap raw := by
  induction rest generalizing done with
  | nil => grind
  | cons kv rest ih =>
    have hname : ∀ c ∈ kv.1, isBrace c = false := by
      apply vars.names kv
      rw [h]
      simp
    have hno : ∀ a b, ps.flatMap (resolve done) ≠ a ++ (spelled (placeholder kv.1) ++ b) := by
      intro a b hab
      apply hout
      rw [← fill_resolve vars h ps, hab, flatMap_append, flatMap_append, fill_spelled]
      exact braced_of_placeholder
    have hnext : (ps.flatMap (resolve done)).flatMap (fillOne kv.1 (valueText kv.2)) =
        ps.flatMap (resolve (done ++ [kv])) := by
      rw [flatMap_assoc]
      apply flatMap_congr
      intro q _
      exact resolve_concat done kv.1 kv.2 q
    grind [replaceText_pieces, formed_resolve]

end Stages

section CleanUp

theorem dropFirst_eq {a b m r : Text} (ha : ¬['\x7b', '\x7b'] <:+: a ++ ['\x7b'])
    (hb : '\x7b' :: '\x7b' :: b = m ++ '\x7d' :: '\x7d' :: r)
    (hm : ¬['\x7d', '\x7d'] <:+: m ++ ['\x7d']) :
    dropFirst (a ++ '\x7b' :: '\x7b' :: b) = .ok (a ++ r) := by
  have hopen : splitPair '\x7b' (a ++ '\x7b' :: '\x7b' :: b) = some (a, b) :=
    splitPair_some_iff.mpr ⟨rfl, ha⟩
  have hclose := splitPair_some_iff.mpr ⟨hb, hm⟩
  simp only [dropFirst, hopen, hclose]

theorem dropFirst_length {out t : Text} (h : dropFirst out = .ok t) : t.length < out.length := by
  unfold dropFirst at h
  grind [splitPair_some_iff, length_append]

theorem strip_stop {out : Text} (h : ¬Braced out) (fuel : ℕ) :
    stripLeftover fuel out = .ok out := by
  cases fuel with
  | zero => rfl
  | succ fuel =>
    rw [stripLeftover, if_neg]
    rw [Bool.and_eq_true, splitPair_isSome_iff, splitPair_isSome_iff]
    exact h

theorem strip_braced {out : Text} (h : Braced out) (fuel : ℕ) :
    stripLeftover (fuel+1) out = (dropFirst out).bind (stripLeftover fuel) := by
  rw [stripLeftover, if_pos]
  · cases dropFirst out <;> rfl
  · rw [Bool.and_eq_true, splitPair_isSome_iff, splitPair_isSome_iff]
    exact h

variable {t : Text}

theorem Braced.ne_nil (h : Braced t) : t ≠ [] := by
  rintro rfl
  have hlength := h.1.length_le
  simp at hlength

variable {out r : Text}

theorem strip_succ_ok {fuel : ℕ} (h : stripLeftover (fuel+1) out = .ok r) :
    (¬Braced out ∧ r = out) ∨ ∃ t, t.length < out.length ∧ stripLeftover fuel t = .ok r := by
  by_cases hout : Braced out
  · rw [strip_braced hout] at h
    cases hdrop : dropFirst out with
    | error e =>
      rw [hdrop] at h
      cases h
    | ok t =>
      rw [hdrop] at h
      exact .inr ⟨t, dropFirst_length hdrop, h⟩
  · rw [strip_stop hout] at h
    grind

theorem strip_not_braced (fuel : ℕ) (hfuel : out.length ≤ fuel)
    (h : stripLeftover fuel out = .ok r) :
    ¬Braced r := by
  induction fuel generalizing out with
  | zero =>
    obtain rfl : out = [] := length_eq_zero_iff.mp (Nat.le_zero.mp hfuel)
    obtain rfl : [] = r := Except.ok.inj h
    exact fun hbraced => hbraced.ne_nil rfl
  | succ fuel ih =>
    rcases strip_succ_ok h with ⟨hout, rfl⟩ | ⟨t, hlt, ht⟩
    · exact hout
    · grind

theorem strip_length (fuel : ℕ) (h : stripLeftover fuel out = .ok r) :
    r.length ≤ out.length := by
  induction fuel generalizing out with
  | zero =>
    obtain rfl : out = r := Except.ok.inj h
    exact Nat.le_refl _
  | succ fuel ih =>
    rcases strip_succ_ok h with ⟨-, rfl⟩ | ⟨t, hlt, ht⟩
    · exact Nat.le_refl _
    · grind

theorem not_close_mem {n : Text} (hn : ∀ c ∈ n, isBrace c = false) : '\x7d' ∉ n := by
  intro hmem
  cases hn _ hmem

theorem dropFirst_clean {pre n : Text} (hn : ∀ c ∈ n, isBrace c = false) (rest : Text)
    (h : ¬['\x7b', '\x7b'] <:+: pre ++ ['\x7b']) :
    dropFirst (pre ++ (placeholder n ++ rest)) = .ok (pre ++ rest) := by
  have hm : ¬['\x7d', '\x7d'] <:+: ('\x7b' :: '\x7b' :: n) ++ ['\x7d'] := by
    apply not_pair_concat
    simpa using not_close_mem hn
  have hb : '\x7b' :: '\x7b' :: (n ++ ['\x7d', '\x7d'] ++ rest) =
      ('\x7b' :: '\x7b' :: n) ++ '\x7d' :: '\x7d' :: rest := by
    simp
  exact dropFirst_eq h hb hm

theorem dropFirst_cuts {pre n : Text} (hn : ∀ c ∈ n, isBrace c = false) (rest : Text)
    (h : ['\x7b', '\x7b'] <:+: pre ++ ['\x7b']) :
    ∃ pre', pre'.length < pre.length ∧
      (dropFirst (pre ++ (placeholder n ++ rest)) = .ok (pre' ++ (placeholder n ++ rest)) ∨
        dropFirst (pre ++ (placeholder n ++ rest)) = .ok (pre' ++ rest)) := by
  obtain ⟨a, b, hpre, ha⟩ := exists_splitPair h
  have hwhole : pre ++ (placeholder n ++ rest) =
      a ++ '\x7b' :: '\x7b' :: (b ++ '\x7b' :: (n ++ '\x7d' :: '\x7d' :: rest)) := by
    calc pre ++ (placeholder n ++ rest)
        = (pre ++ ['\x7b']) ++ '\x7b' :: (n ++ '\x7d' :: '\x7d' :: rest) := by simp [placeholder]
      _ = (a ++ '\x7b' :: '\x7b' :: b) ++ '\x7b' :: (n ++ '\x7d' :: '\x7d' :: rest) := by rw [hpre]
      _ = _ := by simp
  rw [hwhole]
  by_cases hclose : ['\x7d', '\x7d'] <:+: '\x7b' :: '\x7b' :: b
  · -- a pair closes before the placeholder
    obtain ⟨m, r, hb, hm⟩ := exists_splitPair hclose
    have hlast : pre ++ ['\x7b'] = (a ++ m ++ ['\x7d', '\x7d']) ++ r := by
      rw [hpre, hb]
      simp
    rcases eq_nil_or_concat r with rfl | ⟨r, x, rfl⟩
    · have hend := congrArg List.getLast? hlast
      simp at hend
    · rw [concat_eq_append] at hb hlast
      rw [← append_assoc] at hlast
      obtain ⟨hpre', hx⟩ := append_inj' hlast rfl
      obtain rfl : '\x7b' = x := by simpa using hx
      refine ⟨a ++ r, ?_, .inl ?_⟩
      · grind
      · have hrest : a ++ r ++ (placeholder n ++ rest) =
            a ++ ((r ++ ['\x7b']) ++ '\x7b' :: (n ++ '\x7d' :: '\x7d' :: rest)) := by
          simp [placeholder]
        rw [hrest]
        apply dropFirst_eq ha _ hm
        grind
  · -- the first pair that closes is that of the placeholder
    refine ⟨a, ?_, .inr ?_⟩
    · grind [List.length_cons]
    · have hm : ¬['\x7d', '\x7d'] <:+: (('\x7b' :: '\x7b' :: b) ++ '\x7b' :: n) ++ ['\x7d'] := by
        have hne : '\x7b' ≠ '\x7d' := by decide
        have hsplit : (('\x7b' :: '\x7b' :: b) ++ '\x7b' :: n) ++ ['\x7d'] =
            ('\x7b' :: '\x7b' :: b) ++ '\x7b' :: (n ++ ['\x7d']) := by simp
        rw [hsplit, pair_append_cons hne, not_or]
        exact ⟨hclose, not_pair_concat (not_close_mem hn)⟩
      apply dropFirst_eq ha _ hm
      simp

def kept : Piece Char → Text
  | .skip c => [c]
  | .hit _ => []

theorem kept_spelled (t : Text) : (spelled t).flatMap kept = t :=
  (flatMap_spelled (fun _ => rfl) t).trans (map_id t)

/-- Nothing opens before a placeholder, and without the placeholders nothing is braced. -/
structure Clear (ps : List (Piece Char)) : Prop where
  text : ¬Braced (ps.flatMap kept)
  before : ∀ pre h post, ps = pre ++ .hit h :: post →
    ¬['\x7b', '\x7b'] <:+: pre.flatMap kept ++ ['\x7b']

theorem spelled_or_hit (ps : List (Piece Char)) :
    (∃ pre, ps = spelled pre) ∨ ∃ pre h rest, ps = spelled pre ++ .hit h :: rest := by
  induction ps with
  | nil => exact .inl ⟨[], rfl⟩
  | cons q ps ih =>
    cases q with
    | hit h => exact .inr ⟨[], h, ps, rfl⟩
    | skip c =>
      rcases ih with ⟨pre, rfl⟩ | ⟨pre, h, rest, rfl⟩
      · exact .inl ⟨c :: pre, rfl⟩
      · exact .inr ⟨c :: pre, h, rest, rfl⟩

variable {h : Hit Char}

theorem split_spelled {tail pre post : List (Piece Char)}
    (heq : spelled t ++ tail = pre ++ .hit h :: post) :
    ∃ pre', pre = spelled t ++ pre' ∧ tail = pre' ++ .hit h :: post := by
  induction t generalizing pre with
  | nil => exact ⟨pre, rfl, heq⟩
  | cons c t ih =>
    cases pre with
    | nil => cases heq
    | cons q pre =>
      obtain ⟨rfl, htail⟩ := List.cons.inj heq
      obtain ⟨pre', rfl, htail'⟩ := ih htail
      exact ⟨pre', rfl, htail'⟩

theorem kept_hit (t : Text) (h : Hit Char) (rest : List (Piece Char)) :
    (spelled t ++ .hit h :: rest).flatMap kept = (spelled t ++ rest).flatMap kept := by
  rw [flatMap_append, flatMap_append, flatMap_cons]
  rfl

variable {rest : List (Piece Char)}

theorem clear_hit (hbefore : ¬['\x7b', '\x7b'] <:+: t ++ ['\x7b']) :
    Clear (spelled t ++ .hit h :: rest) ↔ Clear (spelled t ++ rest) := by
  constructor
  · rintro ⟨htext, hpre⟩
    refine ⟨kept_hit t h rest ▸ htext, ?_⟩
    intro pre g post heq
    obtain ⟨pre', rfl, rfl⟩ := split_spelled heq
    rw [← kept_hit t h]
    grind
  · rintro ⟨htext, hpre⟩
    refine ⟨(kept_hit t h rest).symm ▸ htext, ?_⟩
    intro pre g post heq
    obtain ⟨pre', rfl, htail⟩ := split_spelled heq
    cases pre' with
    | nil =>
      rw [append_nil, kept_spelled]
      exact hbefore
    | cons q pre' => grind [kept_hit]

theorem raw_hit (hps : Formed (spelled t ++ .hit h :: rest)) :
    (spelled t ++ .hit h :: rest).flatMap raw =
        t ++ (placeholder h.second ++ rest.flatMap raw) ∧
      ∀ c ∈ h.second, isBrace c = false := by
  obtain ⟨htext, hname⟩ := text_of_matches (hps h (by simp))
  refine ⟨?_, hname⟩
  rw [flatMap_append, raw_spelled, flatMap_cons, raw, htext]

theorem Formed.drop_hit (hps : Formed (spelled t ++ .hit h :: rest)) (t' : Text) :
    Formed (spelled t' ++ .hit h :: rest) ∧ Formed (spelled t' ++ rest) := by
  have hspelled : ∀ g, Piece.hit g ∉ spelled t' := by
    intro g hg
    simp [spelled] at hg
  have hin : ∀ g, Piece.hit g ∈ Piece.hit h :: rest → placeholderRe.Matches g :=
    fun g hg => hps g (mem_append_right _ hg)
  constructor
  · intro g hg
    grind
  · intro g hg
    grind

theorem kept_length (t : Text) (rest : List (Piece Char)) :
    ((spelled t ++ rest).flatMap kept).length = t.length+(rest.flatMap kept).length := by
  rw [flatMap_append, kept_spelled, length_append]

theorem dropFirst_pieces (hps : Formed (spelled t ++ .hit h :: rest)) :
    ∃ ps', Formed ps' ∧ dropFirst ((spelled t ++ .hit h :: rest).flatMap raw) =
        .ok (ps'.flatMap raw) ∧
      ((¬['\x7b', '\x7b'] <:+: t ++ ['\x7b'] ∧ ps' = spelled t ++ rest) ∨
        (['\x7b', '\x7b'] <:+: t ++ ['\x7b'] ∧ (ps'.flatMap kept).length <
          ((spelled t ++ .hit h :: rest).flatMap kept).length)) := by
  obtain ⟨hraw, hname⟩ := raw_hit hps
  rw [hraw]
  by_cases hbefore : ['\x7b', '\x7b'] <:+: t ++ ['\x7b']
  · obtain ⟨t', hlt, hdrop | hdrop⟩ := dropFirst_cuts hname (rest.flatMap raw) hbefore
    · have hps' := (hps.drop_hit t').1
      grind [raw_hit, kept_length]
    · refine ⟨_, (hps.drop_hit t').2, ?_, .inr ⟨hbefore, ?_⟩⟩
      · rw [hdrop, flatMap_append, raw_spelled]
      · rw [kept_hit, kept_length, kept_length]
        omega
  · refine ⟨spelled t ++ rest, (hps.drop_hit t).2, ?_, .inl ⟨hbefore, rfl⟩⟩
    rw [dropFirst_clean hname (rest.flatMap raw) hbefore, flatMap_append, raw_spelled]

theorem braced_hit (hps : Formed (spelled t ++ .hit h :: rest)) :
    Braced ((spelled t ++ .hit h :: rest).flatMap raw) := by
  rw [(raw_hit hps).1]
  exact braced_of_placeholder

theorem strip_kept (fuel : ℕ) {ps : List (Piece Char)} {r : Text} (hps : Formed ps)
    (hfuel : (ps.flatMap raw).length ≤ fuel)
    (h : stripLeftover fuel (ps.flatMap raw) = .ok r) : r.length ≤ (ps.flatMap kept).length := by
  induction fuel generalizing ps with
  | zero =>
    have hnil : ps.flatMap raw = [] := length_eq_zero_iff.mp (Nat.le_zero.mp hfuel)
    rw [hnil] at h
    cases h
    exact Nat.zero_le _
  | succ fuel ih =>
    rcases spelled_or_hit ps with ⟨t, rfl⟩ | ⟨t, g, rest, rfl⟩
    · rw [kept_spelled]
      rw [raw_spelled] at h
      exact strip_length _ h
    · obtain ⟨ps', hps', hdrop, hcases⟩ := dropFirst_pieces hps
      have hlt := dropFirst_length hdrop
      rw [strip_braced (braced_hit hps), hdrop] at h
      have hle := ih hps' (by omega) h
      grind

theorem strip_self_iff (fuel : ℕ) (hfuel : t.length ≤ fuel) :
    stripLeftover fuel t = .ok t ↔ ¬Braced t :=
  ⟨strip_not_braced fuel hfuel, fun h => strip_stop h fuel⟩

theorem clear_spelled_iff (t : Text) : Clear (spelled t) ↔ ¬Braced t := by
  constructor
  · intro h
    rw [← kept_spelled t]
    exact h.text
  · intro h
    refine ⟨(kept_spelled t).symm ▸ h, ?_⟩
    intro pre g post heq
    have hmem : Piece.hit g ∈ spelled t := by
      rw [heq]
      simp
    simp [spelled] at hmem

theorem strip_exact_iff (fuel : ℕ) {ps : List (Piece Char)} (hps : Formed ps)
    (hfuel : (ps.flatMap raw).length ≤ fuel) :
    stripLeftover fuel (ps.flatMap raw) = .ok (ps.flatMap kept) ↔ Clear ps := by
  induction fuel generalizing ps with
  | zero =>
    rcases spelled_or_hit ps with ⟨t, rfl⟩ | ⟨t, g, rest, rfl⟩
    · rw [raw_spelled] at hfuel ⊢
      rw [kept_spelled, strip_self_iff 0 hfuel, clear_spelled_iff]
    · have hnil := length_eq_zero_iff.mp (Nat.le_zero.mp hfuel)
      exact absurd hnil (braced_hit hps).ne_nil
  | succ fuel ih =>
    rcases spelled_or_hit ps with ⟨t, rfl⟩ | ⟨t, g, rest, rfl⟩
    · rw [raw_spelled] at hfuel ⊢
      rw [kept_spelled, strip_self_iff (fuel+1) hfuel, clear_spelled_iff]
    · obtain ⟨ps', hps', hdrop, hcases⟩ := dropFirst_pieces hps
      have hlt := dropFirst_length hdrop
      have hfuel' : (ps'.flatMap raw).length ≤ fuel := by omega
      rw [strip_braced (braced_hit hps), hdrop]
      change stripLeftover fuel (ps'.flatMap raw) = _ ↔ _
      rcases hcases with ⟨hbefore, rfl⟩ | ⟨hbefore, hfewer⟩
      · rw [clear_hit hbefore, ← ih hps' hfuel', kept_hit]
      · -- a character is gone for good, and the pieces are not clear
        constructor
        · intro h
          have hle := strip_kept fuel hps' hfuel' h
          omega
        · intro h
          have hclear := h.before (spelled t) g rest rfl
          rw [kept_spelled] at hclear
          exact absurd hbefore hclear

end CleanUp

section Exact

variable (vars : Assignment)

theorem resolve_cases (q : Piece Char) :
    resolve vars.entries q = spelled (vars.fill q) ∨
      ∃ g, q = .hit g ∧ vars.get g.second = none ∧ resolve vars.entries q = [.hit g] := by
  cases q with
  | skip c => exact .inl rfl
  | hit g =>
    rw [resolve, Assignment.fill, Assignment.get]
    cases hlook : vars.entries.lookup g.second with
    | some w => exact .inl rfl
    | none => exact .inr ⟨g, rfl, by rw [Assignment.get, hlook]; rfl, rfl⟩

theorem kept_resolve (ps : List (Piece Char)) :
    (ps.flatMap (resolve vars.entries)).flatMap kept = ps.flatMap vars.fill := by
  rw [flatMap_assoc]
  apply flatMap_congr
  intro q _
  rcases resolve_cases vars q with hq | ⟨g, rfl, hget, hq⟩
  · rw [hq, kept_spelled]
  · rw [hq, Assignment.fill, hget]
    rfl

theorem resolve_split {ps pre post : List (Piece Char)} {h : Hit Char}
    (heq : ps.flatMap (resolve vars.entries) = pre ++ .hit h :: post) :
    ∃ pre' post', ps = pre' ++ .hit h :: post' ∧ vars.get h.second = none ∧
      pre = pre'.flatMap (resolve vars.entries) := by
  induction ps generalizing pre with
  | nil => simp_all
  | cons q ps ih =>
    rw [flatMap_cons] at heq
    rcases resolve_cases vars q with hq | ⟨g, rfl, hget, hq⟩
    · -- the placeholder is not in the value
      grind [split_spelled]
    · rw [hq] at heq
      cases pre with
      | nil => grind
      | cons q' pre => grind

theorem clear_resolve_iff (ps : List (Piece Char)) :
    Clear (ps.flatMap (resolve vars.entries)) ↔
      ¬Braced (ps.flatMap vars.fill) ∧ ∀ pre h post, ps = pre ++ .hit h :: post →
        vars.get h.second = none → ¬['\x7b', '\x7b'] <:+: pre.flatMap vars.fill ++ ['\x7b'] := by
  constructor
  · intro hclear
    refine ⟨kept_resolve vars ps ▸ hclear.text, ?_⟩
    intro pre h post hps hget
    have hresolve : resolve vars.entries (.hit h) = [.hit h] := by
      have hlook : vars.entries.lookup h.second = none := by
        simpa [Assignment.get] using hget
      rw [resolve, hlook]
      rfl
    rw [← kept_resolve]
    apply hclear.before _ h (post.flatMap (resolve vars.entries))
    grind
  · rintro ⟨htext, hbefore⟩
    refine ⟨(kept_resolve vars ps).symm ▸ htext, ?_⟩
    grind [resolve_split, kept_resolve]

theorem resolve_nil (ps : List (Piece Char)) : ps.flatMap (resolve []) = ps := by
  induction ps with
  | nil => rfl
  | cons q ps ih =>
    rw [flatMap_cons, ih]
    cases q <;> rfl

theorem render_eq {template : Text} (h : ¬Braced (verbatim vars template)) :
    let out := ((placeholderRe.pieces template).flatMap (resolve vars.entries)).flatMap raw
    render template vars = stripLeftover out.length out := by
  intro out
  have hentries := replace_entries vars (formed_pieces template) h vars.entries [] rfl
  rw [resolve_nil, raw_pieces] at hentries
  rw [render, hentries]

/-- A prompt is the template with the values put in verbatim if, and only if, what comes
out has no pair that opens with a pair that closes, and no pair opens before a placeholder
without a value. -/
theorem render_verbatim_iff (template : Text) :
    render template vars = .ok (verbatim vars template) ↔
      ¬Braced (verbatim vars template) ∧
        ∀ pre h post, placeholderRe.pieces template = pre ++ .hit h :: post →
          vars.get h.second = none → ¬['\x7b', '\x7b'] <:+: pre.flatMap vars.fill ++ ['\x7b'] := by
  have hformed := formed_resolve (formed_pieces template) vars.entries
  -- without braces in the result the clean-up decides
  have hclear (h : ¬Braced (verbatim vars template)) :
      render template vars = .ok (verbatim vars template) ↔
        Clear ((placeholderRe.pieces template).flatMap (resolve vars.entries)) := by
    rw [render_eq vars h, ← strip_exact_iff _ hformed (Nat.le_refl _), kept_resolve]
    rfl
  constructor
  · intro hrender
    have hbraced : ¬Braced (verbatim vars template) := strip_not_braced _ (Nat.le_refl _) hrender
    exact (clear_resolve_iff vars _).mp ((hclear hbraced).mp hrender)
  · intro h
    exact (hclear h.1).mpr ((clear_resolve_iff vars _).mpr h)

end Exact

section Values

theorem letters_names (v : Text) :
    ∀ kv ∈ [(['a'], some v), (['b'], some ['x'])], ∀ c ∈ kv.1, isBrace c = false := by
  simp [mem_cons, not_mem_nil, or_false, isBrace]

/-- Some text for `a`, and `x` for `b`. -/
def letters (v : Text) : Assignment where
  entries := [(['a'], some v), (['b'], some ['x'])]
  names := letters_names v

/-- A value for `a` that reads as the placeholder of `b` is replaced, text in double braces
is cut out of it, and one that closes before it opens stops the rendering. -/
theorem value_reinterpreted :
    (verbatim (letters "\x7b\x7bb\x7d\x7d".toList) "\x7b\x7ba\x7d\x7d".toList =
        "\x7b\x7bb\x7d\x7d".toList ∧
      render "\x7b\x7ba\x7d\x7d".toList (letters "\x7b\x7bb\x7d\x7d".toList) =
        .ok "x".toList) ∧
    render "\x7b\x7ba\x7d\x7d".toList (letters "up \x7b\x7b5\x7d\x7d".toList) =
      .ok "up ".toList ∧
    render "\x7b\x7ba\x7d\x7d".toList (letters "\x7d\x7d\x7b\x7b".toList) =
      .error .valueError := by
  decide

end Values

end DbAgent.Prompt
