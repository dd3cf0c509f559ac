import Mathlib.Tactic.IntervalCases
import DbAgent.JsonValue

/-! The canonical text of a JSON value (RFC 8785), for any rendering of its
numbers. Two facts about it: a value is determined by its text, and no text of
a value starts inside a string of another one and ends with it. -/
namespace DbAgent.JsonText

open List

universe u

def isNumberChar (c : Char) : Bool :=
  c.isDigit || c == '-' || c == '+' || c == '.' || c == 'e'

structure NumberText (ν : Type) where
  text : ν → List Char
  nonempty : ∀ n, text n ≠ []
  chars : ∀ n, ∀ c ∈ text n, isNumberChar c = true
  injective : Function.Injective text

def hexDigit (n : ℕ) : Char := "0123456789abcdef".toList.getD (n%16) '0'

def escapeChar (c : Char) : List Char :=
  if c = '"' then ['\\', '"']
  else if c = '\\' then ['\\', '\\']
  else if c.toNat < 0x20 then
    if c.toNat = 0x08 then ['\\', 'b']
    else if c.toNat = 0x09 then ['\\', 't']
    else if c.toNat = 0x0A then ['\\', 'n']
    else if c.toNat = 0x0C then ['\\', 'f']
    else if c.toNat = 0x0D then ['\\', 'r']
    else ['\\', 'u', '0', '0', hexDigit (c.toNat/16), hexDigit c.toNat]
  else [c]

def stringText (s : String) : List Char :=
  '"' :: (s.toList.flatMap escapeChar ++ ['"'])

variable {ν : Type} (N : NumberText ν)

mutual
def Json.canonicalText : Json ν → List Char
  | .null => ['n', 'u', 'l', 'l']
  | .bool true => ['t', 'r', 'u', 'e']
  | .bool false => ['f', 'a', 'l', 's', 'e']
  | .num n => N.text n
  | .str s => stringText s
  | .arr xs => '[' :: Json.elementsText xs
  | .obj kvs => '{' :: Json.membersText kvs
/-- The rest of an array behind its bracket; every element but the first has a
comma in front, so the first one is told by where it stands. -/
def Json.elementsText : List (Json ν) → List Char
  | [] => [']']
  | x :: xs => Json.canonicalText x ++ Json.moreElementsText xs
def Json.moreElementsText : List (Json ν) → List Char
  | [] => [']']
  | x :: xs => ',' :: (Json.canonicalText x ++ Json.moreElementsText xs)
def Json.membersText : List (String × Json ν) → List Char
  | [] => ['}']
  | (k, v) :: kvs => stringText k ++ ':' :: (Json.canonicalText v ++ Json.moreMembersText kvs)
def Json.moreMembersText : List (String × Json ν) → List Char
  | [] => ['}']
  | (k, v) :: kvs =>
    ',' :: (stringText k ++ ':' :: (Json.canonicalText v ++ Json.moreMembersText kvs))
end

open Json

def Ends (r : List Char) : Prop := ∀ c ∈ r.head?, isNumberChar c = false

def unescapeChar : List Char → Option (Char × List Char)
  | '\\' :: 'u' :: _ :: _ :: a :: b :: r =>
    let digit (d : Char) : ℕ := if d.isDigit then d.toNat-48 else d.toNat-87
    some (Char.ofNat (digit a*16+digit b), r)
  | '\\' :: x :: r =>
    some (if x = 'b' then Char.ofNat 0x08
      else if x = 't' then Char.ofNat 0x09
      else if x = 'n' then Char.ofNat 0x0A
      else if x = 'f' then Char.ofNat 0x0C
      else if x = 'r' then Char.ofNat 0x0D
      else x, r)
  | c :: r => some (c, r)
  | [] => none

theorem unescapeChar_escapeChar (c : Char) (r : List Char) :
    unescapeChar (escapeChar c ++ r) = some (c, r) := by
  by_cases hq : c = '"'
  · subst hq
    rfl
  by_cases hb : c = '\\'
  · subst hb
    rfl
  by_cases hs : c.toNat < 0x20
  · -- one of the 32 control characters, each with a text of its own
    have hc : c = Char.ofNat c.toNat := (Char.ofNat_toNat c).symm
    generalize hn : c.toNat = n at hs hc
    subst hc
    clear hn hq hb
    interval_cases n <;> rfl
  · have he : escapeChar c = [c] := by simp [escapeChar, hq, hb, hs]
    rw [he]
    simp [unescapeChar, hb]

variable {r r' : List Char}

theorem escapeChar_append_inj (c c' : Char) (h : escapeChar c ++ r = escapeChar c' ++ r') :
    c = c' ∧ r = r' := by
  grind [unescapeChar_escapeChar]

theorem escapeChar_ne_quote (c : Char) (r r' : List Char) :
    escapeChar c ++ r ≠ '"' :: r' := by
  intro h
  unfold escapeChar at h
  split_ifs at h with h1
  all_goals simp_all

theorem stringBody_append_inj (s s' : List Char)
    (h : s.flatMap escapeChar ++ '"' :: r = s'.flatMap escapeChar ++ '"' :: r') :
    s = s' ∧ r = r' := by
  induction s generalizing s' with
  | nil =>
    cases s' with
    | nil => simpa using h
    | cons c s' => grind [append_assoc, escapeChar_ne_quote]
  | cons c s ih =>
    cases s' with
    | nil =>
      rw [flatMap_cons, append_assoc] at h
      exact absurd h (escapeChar_ne_quote c _ _)
    | cons c' s' => grind [append_assoc, escapeChar_append_inj]

theorem stringText_append_inj (s s' : String) (h : stringText s ++ r = stringText s' ++ r') :
    s = s' ∧ r = r' := by
  simp only [stringText, cons_append, append_assoc, nil_append,
    List.cons.injEq, true_and] at h
  grind [stringBody_append_inj, String.toList_inj]

theorem numberText_append_inj (n n' : ν) (hr : Ends r) (hr' : Ends r')
    (h : N.text n ++ r = N.text n' ++ r') : n = n' ∧ r = r' := by
  -- a number is the longest run of number characters at the front
  have hspan (m : ν) (t : List Char) (ht : Ends t) :
      (N.text m ++ t).takeWhile isNumberChar = N.text m := by
    rw [takeWhile_append_of_pos (N.chars m)]
    cases t with
    | nil => simp
    | cons c t => simp [ht c rfl]
  have he : N.text n = N.text n' := by rw [← hspan n r hr, h, hspan n' r' hr']
  obtain rfl := N.injective he
  exact ⟨rfl, append_cancel_left h⟩

def Json.firstChar : Json ν → Char → Prop
  | .null, c => c = 'n'
  | .bool true, c => c = 't'
  | .bool false, c => c = 'f'
  | .num _, c => isNumberChar c = true
  | .str _, c => c = '"'
  | .arr _, c => c = '['
  | .obj _, c => c = '{'

theorem canonicalText_firstChar (v : Json ν) :
    ∃ c r, canonicalText N v = c :: r ∧ v.firstChar c := by
  cases v with
  | num n =>
    obtain ⟨c, r, hc⟩ := exists_cons_of_ne_nil (N.nonempty n)
    refine ⟨c, r, by simpa [canonicalText] using hc, N.chars n c ?_⟩
    rw [hc]
    exact mem_cons_self
  | bool b => cases b <;> exact ⟨_, _, by rw [canonicalText], rfl⟩
  | null => exact ⟨_, _, by rw [canonicalText], rfl⟩
  | str s => exact ⟨_, _, by rw [canonicalText, stringText], rfl⟩
  | arr xs => exact ⟨_, _, by rw [canonicalText], rfl⟩
  | obj kvs => exact ⟨_, _, by rw [canonicalText], rfl⟩

inductive SameKind : Json ν → Json ν → Prop
  | null : SameKind .null .null
  | bool (b : Bool) : SameKind (.bool b) (.bool b)
  | num (n n' : ν) : SameKind (.num n) (.num n')
  | str (s s' : String) : SameKind (.str s) (.str s')
  | arr (xs xs' : List (Json ν)) : SameKind (.arr xs) (.arr xs')
  | obj (kvs kvs' : List (String × Json ν)) : SameKind (.obj kvs) (.obj kvs')

theorem sameKind_of_firstChar (v v' : Json ν) (c : Char) (h : v.firstChar c)
    (h' : v'.firstChar c) : SameKind v v' := by
  rcases v with _ | (_ | _) | _ | _ | _ | _ <;> rcases v' with _ | (_ | _) | _ | _ | _ | _ <;>
    simp only [firstChar] at h h' <;>
    first
    | constructor
    | (subst h; exact absurd h' (by decide))
    | (subst h'; exact absurd h (by decide))

theorem sameKind_of_text (v v' : Json ν)
    (h : canonicalText N v ++ r = canonicalText N v' ++ r') : SameKind v v' := by
  obtain ⟨c, t, hc, hf⟩ := canonicalText_firstChar N v
  obtain ⟨c', t', hc', hf'⟩ := canonicalText_firstChar N v'
  grind [sameKind_of_firstChar]

theorem ends_moreElements (xs : List (Json ν)) (r : List Char) :
    Ends (moreElementsText N xs ++ r) := by
  cases xs <;> simp [Ends, moreElementsText] <;> decide

theorem ends_moreMembers (kvs : List (String × Json ν)) (r : List Char) :
    Ends (moreMembersText N kvs ++ r) := by
  rcases kvs with _ | ⟨⟨k, v⟩, kvs⟩ <;> simp [Ends, moreMembersText] <;> decide

theorem canonicalText_ne_bracket (v : Json ν) (r r' : List Char) :
    canonicalText N v ++ r ≠ [']'] ++ r' := by
  intro h
  obtain ⟨c, t, hc, hf⟩ := canonicalText_firstChar N v
  rw [hc, cons_append, cons_append, List.cons.injEq] at h
  rw [h.1] at hf
  rcases v with _ | (_ | _) | _ | _ | _ | _ <;> simp only [firstChar] at hf <;>
    exact absurd hf (by decide)

/-! An element that is not the first has a comma in front, and else the same text. -/

variable {N} in
theorem moreElementsText_eq {xs xs' : List (Json ν)}
    (h : elementsText N xs ++ r = elementsText N xs' ++ r') :
    moreElementsText N xs ++ r = moreElementsText N xs' ++ r' := by
  match xs, xs' with
  | [], [] => exact h
  | [], x' :: xs' => grind [elementsText, append_assoc, canonicalText_ne_bracket]
  | x :: xs, [] => grind [elementsText, append_assoc, canonicalText_ne_bracket]
  | x :: xs, x' :: xs' => exact congrArg (cons ',') h

variable {N} in
theorem moreMembersText_eq {kvs kvs' : List (String × Json ν)}
    (h : membersText N kvs ++ r = membersText N kvs' ++ r') :
    moreMembersText N kvs ++ r = moreMembersText N kvs' ++ r' := by
  match kvs, kvs' with
  | [], [] => exact h
  | [], (k', v') :: kvs' => simp [membersText, stringText] at h
  | (k, v) :: kvs, [] => simp [membersText, stringText] at h
  | (k, v) :: kvs, (k', v') :: kvs' => exact congrArg (cons ',') h

mutual
theorem canonicalText_append_inj (v v' : Json ν) (r r' : List Char) (hr : Ends r)
    (hr' : Ends r') (h : canonicalText N v ++ r = canonicalText N v' ++ r') :
    v = v' ∧ r = r' := by
  match v, v', sameKind_of_text N v v' h with
  | _, _, .null => exact ⟨rfl, append_cancel_left h⟩
  | _, _, .bool b => exact ⟨rfl, append_cancel_left h⟩
  | .num n, .num n', .num _ _ => grind [canonicalText, numberText_append_inj]
  | .str s, .str s', .str _ _ => grind [canonicalText, stringText_append_inj]
  | .arr xs, .arr xs', .arr _ _ =>
    simp only [canonicalText, cons_append, List.cons.injEq, true_and] at h
    obtain ⟨rfl, he⟩ := moreElementsText_append_inj xs xs' r r' (moreElementsText_eq h)
    exact ⟨rfl, he⟩
  | .obj kvs, .obj kvs', .obj _ _ =>
    simp only [canonicalText, cons_append, List.cons.injEq, true_and] at h
    obtain ⟨rfl, he⟩ := moreMembersText_append_inj kvs kvs' r r' (moreMembersText_eq h)
    exact ⟨rfl, he⟩
theorem moreElementsText_append_inj (xs xs' : List (Json ν)) (r r' : List Char)
    (h : moreElementsText N xs ++ r = moreElementsText N xs' ++ r') :
    xs = xs' ∧ r = r' := by
  match xs, xs' with
  | [], [] => exact ⟨rfl, append_cancel_left h⟩
  | [], x' :: xs' => simp [moreElementsText] at h
  | x :: xs, [] => simp [moreElementsText] at h
  | x :: xs, x' :: xs' =>
    simp only [moreElementsText, cons_append, append_assoc, List.cons.injEq,
      true_and] at h
    obtain ⟨rfl, htail⟩ := canonicalText_append_inj x x' _ _ (ends_moreElements N xs r)
      (ends_moreElements N xs' r') h
    obtain ⟨rfl, he⟩ := moreElementsText_append_inj xs xs' r r' htail
    exact ⟨rfl, he⟩
theorem moreMembersText_append_inj (kvs kvs' : List (String × Json ν)) (r r' : List Char)
    (h : moreMembersText N kvs ++ r = moreMembersText N kvs' ++ r') :
    kvs = kvs' ∧ r = r' := by
  match kvs, kvs' with
  | [], [] => exact ⟨rfl, append_cancel_left h⟩
  | [], (k', v') :: kvs' => simp [moreMembersText] at h
  | (k, v) :: kvs, [] => simp [moreMembersText] at h
  | (k, v) :: kvs, (k', v') :: kvs' =>
    simp only [moreMembersText, cons_append, append_assoc, List.cons.injEq,
      true_and] at h
    obtain ⟨rfl, hv⟩ := stringText_append_inj k k' h
    rw [List.cons.injEq] at hv
    obtain ⟨rfl, htail⟩ := canonicalText_append_inj v v' _ _ (ends_moreMembers N kvs r)
      (ends_moreMembers N kvs' r') hv.2
    obtain ⟨rfl, he⟩ := moreMembersText_append_inj kvs kvs' r r' htail
    exact ⟨rfl, he⟩
end

theorem canonicalText_injective (v v' : Json ν)
    (h : canonicalText N v = canonicalText N v') : v = v' := by
  have hends : Ends [] := by simp [Ends]
  refine (canonicalText_append_inj N v v' [] [] hends hends ?_).1
  rw [h]

inductive Mode where
  | outside | string | escape
  deriving DecidableEq, Repr

open Mode

def Mode.next : Mode → Char → Option Mode
  | .outside, c =>
    if c = '"' then some .string
    else if c = '\\' ∨ c = '|' then none
    else some .outside
  | .string, c =>
    if c = '"' then some .outside
    else if c = '\\' then some .escape
    else some .string
  | .escape, _ => some .string

def Mode.scan : Mode → List Char → Option Mode
  | m, [] => some m
  | m, c :: cs => (m.next c).bind (fun m' => m'.scan cs)

theorem scan_append (m : Mode) (xs ys : List Char) :
    m.scan (xs ++ ys) = (m.scan xs).bind (fun m' => m'.scan ys) := by
  induction xs generalizing m with
  | nil => rfl
  | cons c xs ih =>
    simp only [cons_append, scan]
    cases m.next c with
    | none => rfl
    | some m' => exact ih m'

theorem hexDigit_ne (n : ℕ) : hexDigit n ≠ '"' ∧ hexDigit n ≠ '\\' := by
  have hn : n%16 < 16 := Nat.mod_lt n (by omega)
  unfold hexDigit
  generalize n%16 = m at hn
  interval_cases m <;> decide

theorem scan_escapeChar (c : Char) : scan .string (escapeChar c) = some .string := by
  unfold escapeChar
  split_ifs with h1 h2 h3
  all_goals first
    | rfl
    | simp [scan, Mode.next, h1, h2, hexDigit_ne]

theorem scan_stringText (s : String) : scan .outside (stringText s) = some .outside := by
  have hbody (cs : List Char) : scan .string (cs.flatMap escapeChar) = some .string := by
    induction cs with
    | nil => rfl
    | cons c cs ih => simp [scan_append, scan_escapeChar, ih]
  simp [stringText, scan, Mode.next, scan_append, hbody]

theorem scan_outside_cons (c : Char) (cs : List Char) (h : c ≠ '"' ∧ c ≠ '\\' ∧ c ≠ '|') :
    scan .outside (c :: cs) = scan .outside cs := by
  simp [scan, Mode.next, h]

theorem scan_outside_append (xs ys : List Char) (h : scan .outside xs = some .outside) :
    scan .outside (xs ++ ys) = scan .outside ys := by
  rw [scan_append, h, Option.bind_some]

theorem scan_number (n : ν) : scan .outside (N.text n) = some .outside := by
  have hplain (cs : List Char) (h : ∀ c ∈ cs, isNumberChar c = true) :
      scan .outside cs = some .outside := by
    induction cs with
    | nil => rfl
    | cons c cs ih =>
      have hc : c ≠ '"' ∧ c ≠ '\\' ∧ c ≠ '|' := by
        have hn := h c mem_cons_self
        refine ⟨?_, ?_, ?_⟩ <;>
        · rintro rfl
          exact absurd hn (by decide)
      grind [scan_outside_cons, mem_cons_of_mem]
  exact hplain (N.text n) (N.chars n)

mutual
theorem scan_canonicalText (v : Json ν) :
    scan .outside (canonicalText N v) = some .outside := by
  match v with
  | .null => rfl
  | .bool true => rfl
  | .bool false => rfl
  | .num n =>
    rw [canonicalText]
    exact scan_number N n
  | .str s =>
    rw [canonicalText]
    exact scan_stringText s
  | .arr xs =>
    rw [canonicalText, scan_outside_cons _ _ (by decide)]
    exact scan_elementsText xs
  | .obj kvs =>
    rw [canonicalText, scan_outside_cons _ _ (by decide)]
    exact scan_membersText kvs
theorem scan_elementsText (xs : List (Json ν)) :
    scan .outside (elementsText N xs) = some .outside := by
  match xs with
  | [] => rfl
  | x :: xs =>
    rw [elementsText, scan_outside_append _ _ (scan_canonicalText x)]
    exact scan_moreElementsText xs
theorem scan_moreElementsText (xs : List (Json ν)) :
    scan .outside (moreElementsText N xs) = some .outside := by
  match xs with
  | [] => rfl
  | x :: xs =>
    rw [moreElementsText, scan_outside_cons _ _ (by decide),
      scan_outside_append _ _ (scan_canonicalText x)]
    exact scan_moreElementsText xs
theorem scan_membersText (kvs : List (String × Json ν)) :
    scan .outside (membersText N kvs) = some .outside := by
  match kvs with
  | [] => rfl
  | (k, v) :: kvs =>
    rw [membersText, scan_outside_append _ _ (scan_stringText k),
      scan_outside_cons _ _ (by decide), scan_outside_append _ _ (scan_canonicalText v)]
    exact scan_moreMembersText kvs
theorem scan_moreMembersText (kvs : List (String × Json ν)) :
    scan .outside (moreMembersText N kvs) = some .outside := by
  match kvs with
  | [] => rfl
  | (k, v) :: kvs =>
    rw [moreMembersText, scan_outside_cons _ _ (by decide),
      scan_outside_append _ _ (scan_stringText k), scan_outside_cons _ _ (by decide),
      scan_outside_append _ _ (scan_canonicalText v)]
    exact scan_moreMembersText kvs
end

theorem scan_outside_ne_string (cs : List Char) (m : Mode) :
    scan .outside cs = some m → scan .string cs ≠ some m := by
  induction cs with
  | nil =>
    rintro ⟨⟩
    simp [scan]
  | cons c cs ih =>
    intro h hs
    by_cases hq : c = '"'
    · subst hq
      exact ih hs h
    by_cases hb : c = '\\'
    · subst hb
      cases h
    by_cases hp : c = '|'
    · subst hp
      cases h
    simp only [scan, Mode.next, hq, hb, hp, if_false, or_self, Option.bind_some] at h hs
    exact ih h hs

/-- A text does not end with another text that follows a separator bar: the bar
could only stand in a string, and the other text would start inside it. -/
theorem canonicalText_no_tail (v v' : Json ν) (a : List Char) :
    canonicalText N v ≠ a ++ '|' :: canonicalText N v' := by
  intro h
  have hv := scan_canonicalText N v
  have hv' := scan_canonicalText N v'
  rw [h, scan_append] at hv
  cases ha : scan .outside a with
  | none =>
    rw [ha] at hv
    cases hv
  | some m =>
    rw [ha] at hv
    cases m with
    -- the bar is read inside a string, so the other text would be read from
    -- inside and from outside to the same end
    | outside => cases hv
    | string => exact scan_outside_ne_string _ _ hv' hv
    | escape => exact scan_outside_ne_string _ _ hv' hv

end DbAgent.JsonText
