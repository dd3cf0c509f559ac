import DbAgent.RawCommand

/-! What the arguments of an accepted `curl` command ask for, by the option grammar of curl. -/
namespace DbAgent.RawCmd

open Config Shell List

section Grammar

/-- What an option is about: the method, a body, `-G` (which puts data into the URL) and its
negation, or the end of an operation (`-:`, `--next`). -/
inductive Effect where
  | method | data | form | upload | get | noGet | next | other
  deriving DecidableEq

def Effect.writes : Effect → Bool
  | .method | .data | .form | .upload => true
  | .get | .noGet | .next | .other => false

structure CurlOption where
  takesValue : Bool
  effect : Effect
  deriving DecidableEq

/-- The options of curl, with the abbreviations of long ones that it resolves. Among the short
ones only `-X`, `-d`, `-F` and `-T` set the method or a body. -/
structure Curl where
  short : Char → Option CurlOption
  long : Text → Option CurlOption
  short_effect : ∀ c o, short c = some o → c ∉ ['X', 'd', 'F', 'T'] → o.effect.writes = false

/-- How an option was written: a long one, or a short one alone in its word or with other
letters or a value behind or before it. -/
inductive Spelling where
  | long (name : Text)
  | short (c : Char) (alone : Bool)
  deriving DecidableEq

structure Use where
  spelling : Spelling
  effect : Effect
  value : Text
  deriving DecidableEq

/-- Reading arguments: an option may wait for its value, and `--` ends the options. -/
structure Reading where
  uses : List Use
  waiting : Option (Spelling × Effect)
  options : Bool

def readShort (C : Curl) (alone : Bool) : Text → Reading → Option Reading
  | [], r => some r
  | c :: cs, r =>
    match C.short c with
    | none => none
    | some o =>
      if o.takesValue then
        if cs.isEmpty then some { r with waiting := some (.short c alone, o.effect) }
        else some { r with uses := r.uses ++ [⟨.short c alone, o.effect, cs⟩] }
      -- what stands behind `:` in a word is not read
      else if o.effect = .next then
        some { r with uses := r.uses ++ [⟨.short c alone, o.effect, []⟩] }
      else readShort C alone cs { r with uses := r.uses ++ [⟨.short c alone, o.effect, []⟩] }

def readWord (C : Curl) (r : Reading) (w : Text) : Option Reading :=
  match r.waiting with
  | some x => some { r with uses := r.uses ++ [⟨x.1, x.2, w⟩], waiting := none }
  | none =>
    if !r.options || !"-".toList.isPrefixOf w || w = "-".toList then some r
    else if w = "--".toList then some { r with options := false }
    else if "--".toList.isPrefixOf w then
      match C.long (w.drop 2) with
      | none => none
      | some o =>
        if o.takesValue then some { r with waiting := some (.long (w.drop 2), o.effect) }
        else some { r with uses := r.uses ++ [⟨.long (w.drop 2), o.effect, []⟩] }
    else readShort C (decide (w.length = 2)) (w.drop 1) r

def readOptions (C : Curl) (args : List Text) : Option (List Use) :=
  match args.foldlM (readWord C) ⟨[], none, true⟩ with
  | none => none
  | some r => if r.waiting.isSome then none else some r.uses

/-- The options of each operation: what is set for one does not hold for the next. -/
def operations (us : List Use) : List (List Use) := us.splitOnP fun u => u.effect = .next

def chosenMethod (op : List Use) : Option Text :=
  (op.filter fun u => u.effect = .method).getLast?.map Use.value

/-- `-G`, if it is not taken back later. -/
def dataInUrl (op : List Use) : Bool :=
  ((op.map Use.effect).filter fun e => e = .get ∨ e = .noGet).getLast? = some .get

/-- A GET or HEAD request without body, form or upload. -/
structure OnlyReads (op : List Use) : Prop where
  method : ∀ m ∈ chosenMethod op, m ∈ readMethods
  form : ∀ u ∈ op, u.effect ≠ .form
  upload : ∀ u ∈ op, u.effect ≠ .upload
  data : (∃ u ∈ op, u.effect = .data) → dataInUrl op

def ReadOnly (us : List Use) : Prop := ∀ op ∈ operations us, OnlyReads op

end Grammar

section Slips

def forbiddenLong : List Text :=
  ["request".toList, "data".toList, "data-raw".toList, "data-binary".toList,
    "data-urlencode".toList, "form".toList, "upload-file".toList, "delete".toList]

/-- An option that the validators do not look for: a short one in a word with more letters, or
a long one that is not on the list. -/
def Use.slips (u : Use) : Bool :=
  match u.spelling with
  | .long name => !forbiddenLong.contains name
  | .short _ alone => !alone

def Use.harmless (u : Use) : Prop := u.effect.writes = false

variable {C : Curl}

structure CleanReading (r : Reading) : Prop where
  uses : ∀ u ∈ r.uses, u.slips = true ∨ u.harmless
  waiting : ∀ x ∈ r.waiting, ∀ v, (⟨x.1, x.2, v⟩ : Use).slips = true ∨
    (⟨x.1, x.2, v⟩ : Use).harmless

theorem CleanReading.push {r : Reading} (h : CleanReading r) {u : Use}
    (hu : u.slips = true ∨ u.harmless) :
    CleanReading { r with uses := r.uses ++ [u] } where
  uses := by
    intro v hv
    rcases mem_append.mp hv with hv | hv
    · exact h.uses v hv
    · grind
  waiting := h.waiting

theorem readShort_clean {alone : Bool} {cs : Text} {r r' : Reading}
    (halone : ∀ c ∈ cs, alone = true → c ∉ ['X', 'd', 'F', 'T']) (h : CleanReading r)
    (hr : readShort C alone cs r = some r') : CleanReading r' := by
  induction cs generalizing r with
  | nil =>
    rw [readShort, Option.some.injEq] at hr
    exact hr ▸ h
  | cons c cs ih =>
    obtain ⟨hc, hcs⟩ := forall_mem_cons.mp halone
    cases ho : C.short c with
    | none => simp [readShort, ho] at hr
    | some o =>
      have hslip (v : Text) : (⟨.short c alone, o.effect, v⟩ : Use).slips = true ∨
          (⟨.short c alone, o.effect, v⟩ : Use).harmless := by
        cases alone with
        | false => exact Or.inl rfl
        | true => exact Or.inr (C.short_effect c o ho (hc rfl))
      simp only [readShort, ho] at hr
      by_cases hvalue : o.takesValue = true
      · rw [if_pos hvalue] at hr
        by_cases hempty : cs.isEmpty = true
        · rw [if_pos hempty, Option.some.injEq] at hr
          subst hr
          refine ⟨h.uses, ?_⟩
          grind
        · rw [if_neg hempty, Option.some.injEq] at hr
          exact hr ▸ h.push (hslip cs)
      · rw [if_neg hvalue] at hr
        split at hr
        · exact Option.some.inj hr ▸ h.push (hslip [])
        · exact ih hcs (h.push (hslip [])) hr

def Allowed (w : Text) : Prop := flagPart w ∉ forbiddenFlags

theorem long_of_allowed {name : Text} (h : Allowed ("--".toList ++ name)) :
    name ∉ forbiddenLong := by
  intro hmem
  apply h
  have hall : forbiddenLong.all (fun n => decide (flagPart ("--".toList ++ n) ∈ forbiddenFlags)) =
      true := by decide
  grind

theorem short_of_allowed {c : Char} (h : Allowed ['-', c]) : c ∉ ['X', 'd', 'F', 'T'] := by
  intro hmem
  apply h
  have hall : ['X', 'd', 'F', 'T'].all (fun d => decide (flagPart ['-', d] ∈ forbiddenFlags)) =
      true := by decide
  grind

theorem readWord_clean {r r' : Reading} {w : Text} (hw : Allowed w) (h : CleanReading r)
    (hr : readWord C r w = some r') : CleanReading r' := by
  obtain ⟨uses, waiting, options⟩ := r
  cases waiting with
  | some x =>
    obtain rfl := Option.some.inj hr
    refine ⟨(h.push (h.waiting x rfl w)).uses, ?_⟩
    intro y hy
    cases hy
  | none =>
    simp only [readWord] at hr
    split at hr
    · rw [← Option.some.inj hr]
      exact h
    · next hdash =>
      split at hr
      · rw [← Option.some.inj hr]
        exact ⟨h.uses, h.waiting⟩
      · split at hr
        · next hlong =>
          have hname : w.drop 2 ∉ forbiddenLong := by
            obtain ⟨name, rfl⟩ := isPrefixOf_iff_prefix.mp hlong
            exact long_of_allowed hw
          have hslip (e : Effect) (v : Text) :
              (⟨.long (w.drop 2), e, v⟩ : Use).slips = true := by
            simpa [Use.slips] using hname
          cases ho : C.long (w.drop 2) with
          | none => simp [ho] at hr
          | some o =>
            simp only [ho] at hr
            split at hr
            · rw [← Option.some.inj hr]
              refine ⟨h.uses, ?_⟩
              grind
            · rw [← Option.some.inj hr]
              exact h.push (Or.inl (hslip _ _))
        · apply readShort_clean ?_ h hr
          intro c hc halone
          -- the word is a dash and this letter
          have hlen : w.length = 2 := of_decide_eq_true halone
          have hfirst : "-".toList.isPrefixOf w = true := by
            by_contra hnot
            apply hdash
            rw [Bool.eq_false_iff.mpr hnot]
            simp
          obtain ⟨rest, rfl⟩ := isPrefixOf_iff_prefix.mp hfirst
          have hrest : rest = [c] := by
            have hone : rest.length = 1 := by
              rw [length_append] at hlen
              exact Nat.add_left_cancel hlen
            obtain ⟨d, rfl⟩ := length_eq_one_iff.mp hone
            have hcd : c = d := by simpa using hc
            rw [hcd]
          subst hrest
          exact short_of_allowed hw

theorem readOptions_clean {args : List Text} (hargs : ∀ w ∈ args, Allowed w) {us : List Use}
    (h : readOptions C args = some us) : ∀ u ∈ us, u.slips = true ∨ u.harmless := by
  have hrun (r r' : Reading) (hr : CleanReading r) (h : args.foldlM (readWord C) r = some r') :
      CleanReading r' := by
    clear * - hargs hr h
    induction args generalizing r with
    | nil => grind
    | cons w args ih =>
      obtain ⟨hw, hargs⟩ := forall_mem_cons.mp hargs
      grind [Option.bind_eq_some_iff, readWord_clean]
  rw [readOptions] at h
  cases hread : args.foldlM (readWord C) ⟨[], none, true⟩ with
  | none => simp [hread] at h
  | some r =>
    simp only [hread] at h
    split at h
    · cases h
    · rw [← Option.some.inj h]
      exact (hrun _ _ ⟨forall_mem_nil _, fun x hx => (by cases hx)⟩ hread).uses

theorem allowed_of_valid {command : Text} {args : List Text}
    (hvalid : validate command = .ok ()) (hargv : argv command = "curl".toList :: args) :
    ∀ w ∈ args, Allowed w := by
  have htrim : words isSpace (trimSpace command) = argv command := words_trim isSpace command
  simp only [validate, htrim, hargv] at hvalid
  split at hvalid
  · cases hvalid
  · split at hvalid
    · cases hvalid
    · split at hvalid
      · cases hvalid
      · split at hvalid
        · cases hvalid
        · rw [if_pos trivial, validateCurl] at hvalid
          grind [Allowed, List.find?_eq_none]

end Slips

section ReadOnly

/-- A token that begins with `-x` or `-X` and goes on. -/
def attachedMethod (P : Python) (w : Text) : Bool :=
  "-x".toList.isPrefixOf (P.lower w) && w.length > 2 && !"--".toList.isPrefixOf (P.lower w)

def bodyToken (P : Python) (w : Text) : Prop :=
  P.lower w ∈ ["-d".toList, "--data".toList, "--data-raw".toList, "--data-binary".toList,
    "--data-urlencode".toList] ∨
  ("-d".toList.isPrefixOf (P.lower w) && !"--".toList.isPrefixOf (P.lower w)) = true ∨
  (w = "-F".toList || "--form".toList.isPrefixOf (P.lower w)) = true

/-- A token that it lets through: a method option or the method after it, an attached method
that only reads, or something else that is no body. -/
def Scanned (P : Python) (w : Text) : Prop :=
  P.lower w ∈ ["-x".toList, "--request".toList] ∨ P.upper w ∈ readMethods ∨
  (attachedMethod P w = true ∧ P.upper (w.drop 2) ∈ readMethods) ∨
  (attachedMethod P w = false ∧ ¬bodyToken P w)

theorem scanned_of_getOnly (P : Python) (args : List Text) (h : validateCurlGetOnly P args = []) :
    ∀ w ∈ args, Scanned P w := by
  have hreason : getOnly ≠ [] := by decide
  fun_induction validateCurlGetOnly P args with
  | case1 => exact forall_mem_nil _
  | case2 => exact absurd h hreason
  | case3 => exact absurd h hreason
  | case4 tok low hlow method args hmethod ih =>
    rw [not_not] at hmethod
    rw [forall_mem_cons, forall_mem_cons]
    exact ⟨Or.inl hlow, Or.inr (Or.inl hmethod), ih h⟩
  | case5 => exact absurd h hreason
  | case6 tok args low hlow hx hmethod ih =>
    rw [not_not] at hmethod
    rw [forall_mem_cons]
    exact ⟨Or.inr (Or.inr (Or.inl ⟨hx, hmethod⟩)), ih h⟩
  | case7 => exact absurd h hreason
  | case8 => exact absurd h hreason
  | case9 => exact absurd h hreason
  | case10 tok args low hlow hx hdata hattached hform ih =>
    rw [forall_mem_cons]
    refine ⟨Or.inr (Or.inr (Or.inr ⟨Bool.eq_false_iff.mpr hx, ?_⟩)), ih h⟩
    rintro (hbody | hbody | hbody)
    · exact hdata hbody
    · exact hattached hbody
    · exact hform hbody

theorem scanned_of_accepted {P : Python} {command : Text} {args : List Text}
    (hok : (staticValidate P command).ok = true) (hargv : argv command = "curl".toList :: args)
    (hsame : SameWords command) : ∀ w ∈ args, Scanned P w := by
  have htokens : tokens command = .ok ("curl".toList :: args) := by
    rw [eq_of_sameWords hsame, hargv]
  have hbase : baseName "curl".toList = "curl".toList := by decide
  apply scanned_of_getOnly
  by_contra hne
  simp only [staticValidate, htokens, hbase] at hok
  split at hok
  · cases hok
  · split at hok
    · cases hok
    · split at hok
      · cases hok
      · simp_all

theorem chosenMethod_slips {op : List Use} (h : ∀ u ∈ op, u.effect.writes = true → u.slips = true) :
    chosenMethod (op.filter Use.slips) = chosenMethod op := by
  have hfilter : (op.filter Use.slips).filter (fun u => u.effect = .method) =
      op.filter fun u => u.effect = .method := by
    rw [filter_filter]
    apply filter_congr
    intro u hu
    by_cases hm : u.effect = .method
    · have hs := h u hu (by rw [hm]; rfl)
      simp [hm, hs]
    · simp [hm]
  rw [chosenMethod, chosenMethod, hfilter]

/-- When an accepted command only reads: in each operation, the options that slip through decide
it. -/
theorem curl_read_only_iff (C : Curl) (P : Python) (command : Text) (args : List Text)
    (us : List Use) (hok : (staticValidate P command).ok = true)
    (hvalid : validate command = .ok ()) (hargv : argv command = "curl".toList :: args)
    (hread : readOptions C args = some us) :
    (ReadOnly us ↔ ∀ op ∈ operations us,
      (∀ m ∈ chosenMethod (op.filter Use.slips), m ∈ readMethods) ∧
      (∀ u ∈ op, u.slips = true → u.effect ≠ .form ∧ u.effect ≠ .upload) ∧
      ((∃ u ∈ op, u.slips = true ∧ u.effect = .data) → dataInUrl op)) ∧
    (SameWords command → ∀ w ∈ args, Scanned P w) := by
  refine ⟨?_, scanned_of_accepted hok hargv⟩
  apply forall₂_congr
  intro op hop
  have hslips : ∀ u ∈ op, u.effect.writes = true → u.slips = true := by
    intro u hu hwrites
    refine (readOptions_clean (allowed_of_valid hvalid hargv) hread u
      ((Lines.sublist_of_mem_splitOnP hop).subset hu)).resolve_right ?_
    rw [Use.harmless, hwrites]
    exact Bool.noConfusion
  rw [chosenMethod_slips hslips]
  constructor
  · intro h
    refine ⟨h.method, fun u hu _ => ⟨h.form u hu, h.upload u hu⟩, ?_⟩
    rintro ⟨u, hu, -, hdata⟩
    exact h.data ⟨u, hu, hdata⟩
  · rintro ⟨hmethod, hbody, hdata⟩
    refine ⟨hmethod, ?_, ?_, ?_⟩
    · intro u hu hform
      exact (hbody u hu (hslips u hu (by rw [hform]; rfl))).1 hform
    · intro u hu hupload
      exact (hbody u hu (hslips u hu (by rw [hupload]; rfl))).2 hupload
    · rintro ⟨u, hu, hd⟩
      exact hdata ⟨u, hu, hslips u hu (by rw [hd]; rfl), hd⟩

def curlShort : List (Char × CurlOption) :=
  [('X', ⟨true, .method⟩), ('d', ⟨true, .data⟩), ('F', ⟨true, .form⟩), ('T', ⟨true, .upload⟩),
    ('G', ⟨false, .get⟩), (':', ⟨false, .next⟩)] ++
  ("AbcCDeEhHKmoPQrtuUwxyYz".toList.map fun c => (c, ⟨true, .other⟩)) ++
  ("aBfgiIjJklLMnNOpqRsSvVZ#012346".toList.map fun c => (c, ⟨false, .other⟩))

def curlLong : List (Text × CurlOption) :=
  [("request".toList, ⟨true, .method⟩), ("data".toList, ⟨true, .data⟩),
    ("data-ascii".toList, ⟨true, .data⟩), ("data-raw".toList, ⟨true, .data⟩),
    ("data-binary".toList, ⟨true, .data⟩), ("data-urlencode".toList, ⟨true, .data⟩),
    ("json".toList, ⟨true, .data⟩), ("form".toList, ⟨true, .form⟩),
    ("form-string".toList, ⟨true, .form⟩), ("upload-file".toList, ⟨true, .upload⟩),
    ("get".toList, ⟨false, .get⟩), ("no-get".toList, ⟨false, .noGet⟩),
    ("next".toList, ⟨false, .next⟩), ("head".toList, ⟨false, .other⟩),
    ("silent".toList, ⟨false, .other⟩), ("header".toList, ⟨true, .other⟩),
    ("url".toList, ⟨true, .other⟩)]

def documentedCurl : Curl where
  short c := curlShort.lookup c
  long name := curlLong.lookup name
  short_effect := by
    have hall : curlShort.all (fun x => x.1 ∈ ['X', 'd', 'F', 'T'] ∨ x.2.effect.writes = false) =
        true := by decide
    intro c o ho hc
    obtain ⟨x, hx, rfl⟩ : ∃ x ∈ curlShort, x = (c, o) := by grind [lookup_eq_some_iff]
    grind

theorem curl_read_only_info : ∃ us,
    readOptions documentedCurl ["-s".toList, "http://localhost:8080/v1/info".toList] = some us ∧
      ReadOnly us := by
  refine ⟨_, rfl, ?_⟩
  have hiff := curl_read_only_iff documentedCurl asciiPython
    "curl -s http://localhost:8080/v1/info".toList
    ["-s".toList, "http://localhost:8080/v1/info".toList] _ (by decide +kernel) rfl
    (by decide +kernel) rfl
  apply hiff.1.mpr
  intro op hop
  obtain rfl := mem_singleton.mp hop
  exact ⟨by decide, by decide, by decide⟩

/-- A method in a cluster of short options: both validators accept it, and it is a POST. -/
theorem clustered_post_accepted :
    (staticValidate asciiPython
      "curl -sXPOST http://localhost:8080/v1/statement".toList).ok = true ∧
    validate "curl -sXPOST http://localhost:8080/v1/statement".toList = .ok () ∧
    argv "curl -sXPOST http://localhost:8080/v1/statement".toList =
      ["curl".toList, "-sXPOST".toList, "http://localhost:8080/v1/statement".toList] ∧
    ∃ us, readOptions documentedCurl
        ["-sXPOST".toList, "http://localhost:8080/v1/statement".toList] = some us ∧
      operations us = [us] ∧ chosenMethod us = some "POST".toList ∧ ¬ReadOnly us := by
  refine ⟨by decide +kernel, rfl, by decide +kernel, _, rfl, rfl, by decide, ?_⟩
  intro h
  exact absurd ((h _ mem_cons_self).method "POST".toList (by decide)) (by decide)

end ReadOnly

end DbAgent.RawCmd
