import DbAgent.ConfigUpdate
import DbAgent.QueryAbsence

/-! The check that the configuration playbooks run after their steps:
`check_config_key_equals` of the worker, and what its verdict says of the properties that
were asked for. -/
namespace DbAgent.Playbooks

open JsonText Py Config PyValue

section Check

variable (R : Runtime)

/-- `a or b`, where `b` may be anything. -/
def firstOf (a b : Option PyValue) : Option PyValue := (a.filter PyValue.truthy).or b

/-- `v.get(k) or v.get(k') or …`, for the names in their order. -/
def firstMember (v : PyValue) (names : List String) : Option PyValue :=
  (names.filterMap v.get).find? truthy

/-- `params["patches"][0].get`. -/
def firstPatch (patches : PyValue) : Except BuildError PyValue :=
  match patches with
  | ⟨.arr xs, h⟩ =>
    match elements xs h with
    | p :: _ => if p.items?.isSome then .ok p else .error .attributeError
    | [] => .error .keyError
  | ⟨.obj _, _⟩ => .error .keyError
  -- the first character of a string has no `get`
  | ⟨.str _, _⟩ => .error .attributeError
  | _ => .error .typeError

/-- The key and the value that the check looks for. -/
def lookedAt (params : Object Number) : Except BuildError (Option PyValue × Option PyValue) :=
  let key := firstOf (get params "config_key") (get params "key")
  let expect := firstOf (get params "config_value") (get params "value")
  if (key.filter PyValue.truthy).isSome then .ok (key, expect)
  else
    match (get params "memory_params").filter PyValue.truthy with
    | some mem => do
      let kvs ← mem.items?.elim (.error .attributeError) .ok
      -- a dict that counts as true has a first item
      let first ← (R.order kvs).head?.elim (.error .keyError) .ok
      return (some (.text first.1), some first.2)
    | none =>
      match (get params "patches").filter PyValue.truthy with
      | some patches => do
        let p ← firstPatch patches
        return (p.get "key", p.get "value")
      | none => .ok (key, expect)

def unwrapData (data : PyValue) : PyValue :=
  match data with
  | ⟨.arr _, _⟩ => data
  | ⟨.obj _, _⟩ =>
    match data.get "data" with
    | none => data
    | some inner =>
      if ["queries", "nodes", "active", "content", "text"].any fun k => (inner.get k).isSome then
        inner
      else
        match inner with
        | ⟨.arr _, _⟩ => inner
        | _ => data
  | _ => .ofObject Object.empty

/-- `str(content)`, where a dict is written out line by line. -/
def contentText : Option PyValue → String
  | none => ""
  | some v =>
    match v.items? with
    | some kvs => "\n".intercalate ((R.order kvs).map fun kv => kv.1 ++ "=" ++ R.str kv.2.json)
    | none => R.str v.json

def contentOf (data : PyValue) : String :=
  contentText R ((firstMember (unwrapData data) ["content", "text"]).or
    (firstMember data ["content", "text", "data"]))

/-- `str` of a value that may be `None`. -/
def strOf (v : Option PyValue) : String := (v.filter notNone).elim "None" fun v => R.str v.json

/-- `sub in text`. -/
def occursIn (sub text : String) : Bool := containsText text.toList sub.toList

def checkConfigKeyEquals (params : Object Number) (exitCode : ℤ) (data : PyValue) :
    Except BuildError Queries.Check := do
  let looked ← lookedAt R params
  let content := contentOf R data
  let given := (looked.1.filter notNone).isSome && (looked.2.filter notNone).isSome
  let key := strOf R looked.1
  let expect := strOf R looked.2
  let found := occursIn (key ++ "=" ++ expect) content || occursIn expect content
  return ⟨"config_key_equals", exitCode = 0 && (!given || found),
    "key=" ++ key ++ " expect=" ++ expect⟩

end Check

section Verdict

theorem occursIn_iff (sub text : String) : occursIn sub text = true ↔ sub.toList <:+: text.toList :=
  Redact.containsText_iff _ _

theorem occursIn_entry {key expect content : String}
    (h : occursIn (key ++ "=" ++ expect) content = true) : occursIn expect content = true := by
  rw [occursIn_iff] at h ⊢
  rw [String.toList_append] at h
  exact (List.suffix_append _ _).isInfix.trans h

variable {R : Runtime} {params : Object Number} {exitCode : ℤ} {data : PyValue}

/-- What the check tells: the call went through, and the value that it looks at, if there
is one with a key, occurs somewhere. -/
theorem checkConfigKeyEquals_ok_iff {looked : Option PyValue × Option PyValue}
    {check : Queries.Check} (hlooked : lookedAt R params = .ok looked)
    (hcheck : checkConfigKeyEquals R params exitCode data = .ok check) :
    check.ok = true ↔ exitCode = 0 ∧ ∀ key expect, looked.1.filter notNone = some key →
      looked.2.filter notNone = some expect →
      (R.str expect.json).toList <:+: (contentOf R data).toList := by
  rw [checkConfigKeyEquals, hlooked] at hcheck
  obtain rfl := Except.ok.inj hcheck
  rw [Bool.and_eq_true, decide_eq_true_eq]
  apply and_congr_right
  intro _
  cases hkey : looked.1.filter notNone with
  | none => simp
  | some key =>
    cases hexpect : looked.2.filter notNone with
    | none => simp
    | some expect =>
      have hstr : strOf R looked.2 = R.str expect.json := by
        rw [strOf, hexpect]
        rfl
      have hfound : (occursIn (strOf R looked.1 ++ "=" ++ strOf R looked.2) (contentOf R data) ||
          occursIn (strOf R looked.2) (contentOf R data)) =
          occursIn (strOf R looked.2) (contentOf R data) := by
        rw [Bool.or_eq_right_iff_imp]
        exact occursIn_entry
      rw [hfound, hstr, Option.isSome_some, Option.isSome_some, Bool.and_self, Bool.not_true,
        Bool.false_or, occursIn_iff]
      simp

end Verdict

section Requests

inductive ConfigPlaybook where
  | updateConfig
  | adjustMemory
  deriving DecidableEq, Repr

/-- The properties that the parameters of a playbook ask for, as its steps are built from
them. -/
def requested (R : Runtime) (params : Object Number) :
    ConfigPlaybook → Except BuildError (List (String × String))
  | .adjustMemory => memoryPatches R params
  | .updateConfig =>
    match (get params "patches").filter PyValue.truthy with
    | some patches => do
      let ps ← iterate patches
      let out ← explicitConfigPatches R ps
      return out.map fun p => (R.str p.key.json, p.value)
    | none =>
      match (get params "config_key").filter PyValue.notNone with
      | none => .ok []
      | some key => .ok [(R.str key.json, strOf R (get params "config_value"))]

def InEffect (content : String) (asked : List (String × String)) : Prop :=
  ∀ p ∈ asked, effective content.toList p.1.toList = some p.2.toList

variable (R : Runtime) (playbook : ConfigPlaybook) (params : Object Number) (exitCode : ℤ)
  (data : PyValue)

/-- When a good verdict can be trusted: unless all that was asked for is in effect, the
call of the probe has to fail, or the one value that is looked at must not occur anywhere
in the content. -/
theorem config_key_equals_sound_iff :
    (∀ asked check, requested R params playbook = .ok asked →
      checkConfigKeyEquals R params exitCode data = .ok check → check.ok = true →
      InEffect (contentOf R data) asked) ↔
    ∀ asked looked, requested R params playbook = .ok asked → lookedAt R params = .ok looked →
      InEffect (contentOf R data) asked ∨ exitCode ≠ 0 ∨
        ∃ key expect, looked.1.filter notNone = some key ∧
          looked.2.filter notNone = some expect ∧
          ¬(R.str expect.json).toList <:+: (contentOf R data).toList := by
  constructor
  · intro h asked looked hasked hlooked
    have hcheck : ∃ check, checkConfigKeyEquals R params exitCode data = .ok check := by
      rw [checkConfigKeyEquals, hlooked]
      exact ⟨_, rfl⟩
    obtain ⟨check, hcheck⟩ := hcheck
    have hiff := checkConfigKeyEquals_ok_iff hlooked hcheck
    by_cases hok : check.ok = true
    · exact .inl (h asked check hasked hcheck hok)
    · right
      rw [hiff, not_and_or] at hok
      refine hok.imp_right fun hnot => ?_
      push Not at hnot
      exact hnot
  · intro h asked check hasked hcheck hok
    have hlooked : ∃ looked, lookedAt R params = .ok looked := by
      rw [checkConfigKeyEquals] at hcheck
      obtain ⟨looked, hlooked, -⟩ := Py.bind_ok hcheck
      exact ⟨looked, hlooked⟩
    grind [checkConfigKeyEquals_ok_iff]

end Requests

def memoryParams (key value : String) : Object Number :=
  dict [("memory_params", .ofObject (dict [(key, .text value)] (List.pairwise_singleton _ _)))]
    (List.pairwise_singleton _ _)

/-- What `presto_config` returns. -/
def configData (content : String) : PyValue :=
  .ofObject (dict [("content", .text content),
    ("file_path", .text "/etc/presto/config.properties")]
    (show ["content", "file_path"].Pairwise keyLt by decide))

/-- `8GB` is asked for, `18GB` is set, and the verdict is good. -/
theorem longer_value_passes :
    requested Writes.textRuntime (memoryParams "query.max-memory" "8GB") .adjustMemory =
      .ok [("query.max-memory", "8GB")] ∧
    (∃ check, checkConfigKeyEquals Writes.textRuntime (memoryParams "query.max-memory" "8GB") 0
      (configData "query.max-memory=18GB\n") = .ok check ∧ check.ok = true) ∧
    effective (contentOf Writes.textRuntime (configData "query.max-memory=18GB\n")).toList
      "query.max-memory".toList = some "18GB".toList := by
  refine ⟨by rfl, ⟨_, rfl, ?_⟩, ?_⟩
  · decide
  · decide

end DbAgent.Playbooks
