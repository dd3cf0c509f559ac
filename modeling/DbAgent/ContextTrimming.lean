import DbAgent.CanonicalText
import DbAgent.EvidenceDelivery
import DbAgent.PyJson

/-! The variables of the RCA prompt as texts, and how `assemble_rca_context` drops the
oldest summaries of evidence until they fit into the context of the model. -/
namespace DbAgent.ContextTrim

open JsonText Py

section Dumps

/-- The texts of numbers: `repr`, as `json.dumps` writes them, and `f"{x:.4f}"`. -/
structure Formats where
  number : Number → List Char
  fixed4 : ℚ → List Char

def unicodeEscape (n : ℕ) : List Char :=
  ['\\', 'u', hexDigit (n/4096), hexDigit (n/256), hexDigit (n/16), hexDigit n]

/-- A character in a string of `json.dumps`: nothing but ASCII is written. -/
def asciiChar (c : Char) : List Char :=
  if c = '"' then ['\\', '"']
  else if c = '\\' then ['\\', '\\']
  else if c = '\n' then ['\\', 'n']
  else if c = '\r' then ['\\', 'r']
  else if c = '\t' then ['\\', 't']
  else if c.toNat = 0x0C then ['\\', 'f']
  else if c.toNat = 0x08 then ['\\', 'b']
  else if 0x20 ≤ c.toNat ∧ c.toNat ≤ 0x7E then [c]
  else (utf16 c).flatMap unicodeEscape

def quoted (s : String) : List Char := '"' :: (s.toList.flatMap asciiChar ++ ['"'])

/-- `", ".join(texts)`. -/
def joined (texts : List (List Char)) : List Char := [',', ' '].intercalate texts

variable (F : Formats)

mutual
def dumps : Json Number → List Char
  | .null => "null".toList
  | .bool true => "true".toList
  | .bool false => "false".toList
  | .num n => F.number n
  | .str s => quoted s
  | .arr xs => '[' :: (joined (dumpsList xs) ++ [']'])
  | .obj kvs => '\x7b' :: (joined (dumpsMembers kvs) ++ ['\x7d'])
def dumpsList : List (Json Number) → List (List Char)
  | [] => []
  | x :: xs => dumps x :: dumpsList xs
def dumpsMembers : List (String × Json Number) → List (List Char)
  | [] => []
  | (k, v) :: kvs => (quoted k ++ [':', ' '] ++ dumps v) :: dumpsMembers kvs
end

end Dumps

section Assembly

abbrev Dict := List (String × Json Number)

def get (d : Dict) (k : String) : Json Number := (lookup k d).getD .null

/-- `x or d`. -/
def orElse (x d : Json Number) : Json Number := if truthy x then x else d

def compactReport (report : Dict) : Json Number :=
  .obj [("status", get report "status"), ("confidence", get report "confidence"),
    ("root_cause", get report "root_cause"), ("rca_compact", get report "rca_compact"),
    ("missing_info", get report "missing_info")]

def summaryOf (ev : Dict) : Json Number :=
  .obj [("evidence_id", get ev "evidence_id"), ("tool_name", get ev "tool_name"),
    ("round", get ev "round"), ("summary", orElse (get ev "summary") (.str ""))]

def fullOf (ev : Dict) : Json Number :=
  .obj [("evidence_id", get ev "evidence_id"), ("tool_name", get ev "tool_name"),
    ("args", get ev "args"), ("payload", get ev "payload"), ("exit_code", get ev "exit_code")]

variable (I : Interpreter) (F : Formats)

/-- `int(ev.get("round") or 0)`. -/
def roundOf (ev : Dict) : Except Error ℤ := int I (orElse (get ev "round") (.num (.int 0)))

def gather (latestRound : ℤ) : List Dict → Except Error (List (Json Number) × List (Json Number))
  | [] => .ok ([], [])
  | ev :: evidence => do
    let round ← roundOf I ev
    let (summaries, latest) ← gather latestRound evidence
    return (summaryOf ev :: summaries, if round = latestRound then fullOf ev :: latest else latest)

structure Arguments where
  event : Dict
  evidence : List Dict
  reports : List Dict
  roundNum : ℤ
  maxRounds : ℤ
  spentUsd : ℚ
  platformType : String
  engineVersion : String
  budgetChars : ℤ
  approverFeedback : List String

structure Variables where
  platformType : List Char
  engineVersion : List Char
  alertEvent : List Char
  round : List Char
  maxRounds : List Char
  spent : List Char
  evidenceSummaries : List Char
  latestEvidenceFull : List Char
  previousReportsCompact : List Char
  approverFeedback : List Char

/-- `sum(len(v) for v in variables.values())`. -/
def Variables.size (v : Variables) : ℕ :=
  v.platformType.length+v.engineVersion.length+v.alertEvent.length+v.round.length+
    v.maxRounds.length+v.spent.length+v.evidenceSummaries.length+v.latestEvidenceFull.length+
    v.previousReportsCompact.length+v.approverFeedback.length

def rendered (a : Arguments) (latest summaries : List (Json Number)) : Variables where
  platformType := a.platformType.toList
  engineVersion := a.engineVersion.toList
  alertEvent := dumps F (.obj a.event)
  round := (toString a.roundNum).toList
  maxRounds := (toString a.maxRounds).toList
  spent := F.fixed4 a.spentUsd
  evidenceSummaries := dumps F (.arr summaries)
  latestEvidenceFull := dumps F (.arr latest)
  previousReportsCompact := dumps F (.arr (a.reports.map compactReport))
  approverFeedback := (Evidence.formatApproverFeedback a.approverFeedback).toList

/-- The `while` loop: the first of the summaries goes while the whole is over the budget
and there are more than `keep`. -/
def trimOldest {α : Type} (size : List α → ℕ) (budget : ℤ) (keep : ℕ) : List α → List α
  | [] => []
  | s :: rest =>
    if budget < size (s :: rest) ∧ keep < (s :: rest).length then
      trimOldest size budget keep rest
    else s :: rest

structure Result where
  vars : Variables
  assembledChars : ℕ
  latestRoundTruncated : Bool

def assembleRcaContext (a : Arguments) : Except Error Result := do
  let (summaries, latest) ← gather I a.roundNum a.evidence
  let kept := trimOldest (fun s => (rendered F a latest s).size) a.budgetChars latest.length
    summaries
  return ⟨rendered F a latest kept, (rendered F a latest kept).size, false⟩

end Assembly

section Trimming

variable {α : Type}

theorem trimOldest_spec (size : List α → ℕ) (budget : ℤ) (keep : ℕ) (l : List α) :
    ∃ k, trimOldest size budget keep l = l.drop k ∧ k ≤ l.length-keep ∧
      (∀ j < k, budget < size (l.drop j)) ∧
      (size (l.drop k) ≤ budget ∨ (l.drop k).length ≤ keep) := by
  induction l with
  | nil => exact ⟨0, rfl, Nat.zero_le _, fun j hj => absurd hj (Nat.not_lt_zero j),
      .inr (Nat.zero_le _)⟩
  | cons s rest ih =>
    rw [trimOldest]
    split
    · next hover =>
      obtain ⟨k, hk, hle, hmin, hstop⟩ := ih
      refine ⟨k+1, hk, ?_, ?_, hstop⟩
      · grind
      · intro j hj
        cases j with
        | zero => exact hover.1
        | succ j => exact hmin j (Nat.lt_of_succ_lt_succ hj)
    · next hfits =>
      refine ⟨0, rfl, Nat.zero_le _, fun j hj => absurd hj (Nat.not_lt_zero j), ?_⟩
      grind

/-- In a list that ascends to `n`, the items at `n` are the last ones. -/
theorem take_below {f : α → ℤ} {n : ℤ} {l : List α} (hsorted : l.Pairwise (fun a b => f a ≤ f b))
    (hmax : ∀ a ∈ l, f a ≤ n) {k : ℕ} (hk : k ≤ l.length-(l.filter (f · = n)).length) :
    ∀ a ∈ l.take k, f a < n := by
  induction l generalizing k with
  | nil => simp
  | cons x l ih =>
    obtain ⟨hx, hl⟩ := List.pairwise_cons.mp hsorted
    have hmax' : ∀ a ∈ l, f a ≤ n := fun a ha => hmax a (List.mem_cons_of_mem x ha)
    cases k with
    | zero => simp
    | succ k =>
      by_cases hxn : f x = n
      · -- everything behind `x` is at `n` as well, so nothing may go
        grind [List.filter_eq_self]
      · grind

theorem filter_drop_of_below {f : α → ℤ} {n : ℤ} {l : List α} {k : ℕ}
    (h : ∀ a ∈ l.take k, f a < n) : (l.drop k).filter (f · = n) = l.filter (f · = n) := by
  have hnone : (l.take k).filter (f · = n) = [] := by
    apply List.filter_eq_nil_iff.mpr
    intro a ha
    simpa using (h a ha).ne
  calc (l.drop k).filter (f · = n)
      = (l.take k).filter (f · = n) ++ (l.drop k).filter (f · = n) := by rw [hnone, List.nil_append]
    _ = (l.take k ++ l.drop k).filter (f · = n) := by rw [List.filter_append]
    _ = l.filter (f · = n) := by rw [List.take_append_drop]

variable {I : Interpreter}

theorem gather_eq {evidence : List Dict} (n : ℤ) {r : Dict → ℤ}
    (hr : ∀ ev ∈ evidence, roundOf I ev = .ok (r ev)) :
    gather I n evidence =
      .ok (evidence.map summaryOf, (evidence.filter (r · = n)).map fullOf) := by
  induction evidence with
  | nil => rfl
  | cons ev evidence ih =>
    have hrest := ih fun e he => hr e (List.mem_cons_of_mem ev he)
    rw [gather, hr ev List.mem_cons_self, Py.ok_bind, hrest, Py.ok_bind, List.filter_cons]
    by_cases hn : r ev = n
    · simp [hn]
      rfl
    · simp [hn]
      rfl

end Trimming

section Latest

/-- For evidence in the order of its rounds, none above the latest: its items are there
in full, only summaries of earlier rounds are dropped, the oldest first, and no more of
them than the budget asks for. -/
theorem trimming_keeps_latest (I : Interpreter) (F : Formats) (a : Arguments) (r : Dict → ℤ)
    (hr : ∀ ev ∈ a.evidence, roundOf I ev = .ok (r ev))
    (hsorted : a.evidence.Pairwise (fun e e' => r e ≤ r e'))
    (hmax : ∀ ev ∈ a.evidence, r ev ≤ a.roundNum) :
    let field (d : Dict) (k : String) : String × Json Number := (k, (lookup k d).getD .null)
    let latest := dumps F (.arr ((a.evidence.filter (r · = a.roundNum)).map fun ev =>
      .obj (["evidence_id", "tool_name", "args", "payload", "exit_code"].map (field ev))))
    let summaries (k : ℕ) := dumps F (.arr ((a.evidence.drop k).map fun ev =>
      .obj (["evidence_id", "tool_name", "round"].map (field ev) ++
        [("summary", if truthy (field ev "summary").2 then (field ev "summary").2 else .str "")])))
    let reports := dumps F (.arr (a.reports.map fun report => .obj
      (["status", "confidence", "root_cause", "rca_compact", "missing_info"].map (field report))))
    let feedback := (Evidence.formatApproverFeedback a.approverFeedback).toList
    let size (k : ℕ) := ([a.platformType.toList, a.engineVersion.toList, dumps F (.obj a.event),
      (toString a.roundNum).toList, (toString a.maxRounds).toList, F.fixed4 a.spentUsd,
      summaries k, latest, reports, feedback].map List.length).sum
    ∃ result k, assembleRcaContext I F a = .ok result ∧
      result.vars = ⟨a.platformType.toList, a.engineVersion.toList, dumps F (.obj a.event),
        (toString a.roundNum).toList, (toString a.maxRounds).toList, F.fixed4 a.spentUsd,
        summaries k, latest, reports, feedback⟩ ∧
      result.assembledChars = size k ∧ result.latestRoundTruncated = false ∧
      (∀ ev ∈ a.evidence.take k, r ev < a.roundNum) ∧
      (∀ j < k, a.budgetChars < size j) ∧
      (size k ≤ a.budgetChars ∨ ∀ ev ∈ a.evidence.drop k, r ev = a.roundNum) := by
  intro field latest summaries reports feedback size
  set full := (a.evidence.filter (r · = a.roundNum)).map fullOf
  -- the loop runs on the size of what is rendered, which is the sum of the ten lengths
  have hsize (k : ℕ) : (rendered F a full ((a.evidence.drop k).map summaryOf)).size = size k := by
    simp only [size, List.map_cons, List.map_nil, List.sum_cons, List.sum_nil, Nat.add_zero,
      ← Nat.add_assoc]
    rfl
  obtain ⟨k, hk, hle, hmin, hstop⟩ := trimOldest_spec (fun s => (rendered F a full s).size)
    a.budgetChars full.length (a.evidence.map summaryOf)
  have hdrop (j : ℕ) : (a.evidence.map summaryOf).drop j = (a.evidence.drop j).map summaryOf :=
    List.map_drop.symm
  have hfull : full.length = (a.evidence.filter (r · = a.roundNum)).length :=
    List.length_map _
  simp only [hdrop, hsize] at hk hmin hstop
  rw [List.length_map, hfull] at hle
  have hbelow := take_below hsorted hmax hle
  refine ⟨⟨rendered F a full ((a.evidence.drop k).map summaryOf), size k, false⟩, k, ?_, rfl, rfl,
    rfl, hbelow, hmin, ?_⟩
  · rw [assembleRcaContext, gather_eq a.roundNum hr, Py.ok_bind]
    change Except.ok (Result.mk (rendered F a full (trimOldest _ a.budgetChars full.length
      (a.evidence.map summaryOf))) _ false) = _
    rw [hk, hsize]
  · apply hstop.imp_right
    intro hlength
    -- what is left is no longer than the items of the latest round, which are all in it
    rw [List.length_map, hfull, ← filter_drop_of_below hbelow] at hlength
    have hall := List.length_filter_eq_length_iff.mp
      (Nat.le_antisymm (List.length_filter_le _ _) hlength)
    intro ev hev
    simpa using hall ev hev

def asciiDecimal (c : Char) : Option ℕ := if c.isDigit then some (c.toNat - '0'.toNat) else none

theorem asciiDecimal_digit (c : Char) (h : c.isDigit = true) :
    asciiDecimal c = some (c.toNat - '0'.toNat) := by
  rw [asciiDecimal, if_pos h]

def sampleFormats : Formats where
  number
    | .int z => (toString z).toList
    | .float _ => "0.0".toList
  fixed4 _ := "0.0000".toList

def sampleInterpreter : Interpreter where
  decodes _ := true
  float _ := none
  decimal := asciiDecimal
  decimal_digit := asciiDecimal_digit

def sampleArguments : Arguments where
  event := []
  evidence := [[("evidence_id", .str "e1"), ("round", .num (.int 1))],
    [("evidence_id", .str "e2"), ("round", .num (.int 2))]]
  reports := []
  roundNum := 2
  maxRounds := 3
  spentUsd := 0
  platformType := "presto"
  engineVersion := "0.298"
  budgetChars := 0
  approverFeedback := []

/-- The item of round 2 is kept in full and as a summary, that of round 1 is dropped. -/
theorem trimming_keeps_latest_sample :
    ∃ result, assembleRcaContext sampleInterpreter sampleFormats sampleArguments = .ok result ∧
      result.vars.latestEvidenceFull = dumps sampleFormats (.arr [.obj
        [("evidence_id", .str "e2"), ("tool_name", .null), ("args", .null), ("payload", .null),
          ("exit_code", .null)]]) ∧
      result.vars.evidenceSummaries = dumps sampleFormats (.arr [.obj
        [("evidence_id", .str "e2"), ("tool_name", .null), ("round", .num (.int 2)),
          ("summary", .str "")]]) := by
  let r : Dict → ℤ := fun ev => (roundOf sampleInterpreter ev).toOption.getD 0
  have hr : ∀ ev ∈ sampleArguments.evidence, roundOf sampleInterpreter ev = .ok (r ev) := by
    intro ev hev
    rcases List.mem_cons.mp hev with rfl | hev
    · rfl
    · obtain rfl := List.mem_singleton.mp hev
      rfl
  obtain ⟨result, k, hok, hvars, -, -, hbelow, -, hstop⟩ :=
    trimming_keeps_latest sampleInterpreter sampleFormats sampleArguments r hr (by decide)
      (by decide)
  have hk : k = 1 := by
    rcases k with _ | _ | k
    · rcases hstop with hfits | hlatest
      · exact absurd hfits (by decide +kernel)
      · exact absurd (hlatest _ List.mem_cons_self) (by decide)
    · rfl
    · exact absurd (hbelow _ (List.mem_cons_of_mem _ List.mem_cons_self)) (by decide)
  subst hk
  exact ⟨result, hok, by rw [hvars]; rfl, by rw [hvars]; rfl⟩

end Latest

end DbAgent.ContextTrim
