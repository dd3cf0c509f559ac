import Mathlib.Tactic
import DbAgent.PropertiesFile
import DbAgent.PyBuiltins
import DbAgent.ShellWords

/-! The two validators of a raw command, `static_validate` of the control plane and
`rawcmd.Validate` of the probe, and what the probe then runs. -/
namespace DbAgent.RawCmd

open Config Shell List
open Py (strip)

section ControlPlane

/-- What Python knows about characters: `\w`, the two cases of a text and its `repr`. -/
structure Python where
  isWord : Char → Bool
  lower : Text → Text
  upper : Text → Text
  repr : Text → Text

/-- The characters of `shlex` in POSIX mode. -/
def posix : Lexicon Char where
  space c := c ∈ " \t\r\n".toList
  quote c := c ∈ "'\"".toList
  escape c := c ∈ "\\".toList
  escaping c := c ∈ "\"".toList

/-- `shlex.split` of the command, without the blanks around it. -/
def tokens (command : Text) : Except LexError (List Text) := split posix (strip command)

def lexMessage : LexError → Text
  | .noClosingQuotation => "No closing quotation".toList
  | .noEscapedCharacter => "No escaped character".toList

def allowedBinaries : List Text :=
  ["cat".toList, "grep".toList, "egrep".toList, "tail".toList, "head".toList, "ls".toList,
    "ps".toList, "df".toList, "du".toList, "free".toList, "uptime".toList, "curl".toList,
    "jcmd".toList, "jstack".toList, "jmap".toList]

def forbiddenTexts : List Text :=
  [";".toList, "&&".toList, "||".toList, "|".toList, ">".toList, "<".toList, "`".toList,
    "$(".toList, "$\x7b".toList]

/-- A letter of the pattern under `re.IGNORECASE`, which adds the long s. -/
def foldsTo (x c : Char) : Bool := c == x || c == x.toUpper || (x == 's' && c == 'ſ')

/-- `\b` between two characters. -/
def boundary (P : Python) (a b : Option Char) : Bool :=
  a.elim false P.isWord != b.elim false P.isWord

/-- `\bsudo\b` somewhere in the text; `before` is the character before it. -/
def hasSudo (P : Python) (before : Option Char) : Text → Bool
  | [] => false
  | c :: cs =>
    (boundary P before (some c) && foldsTo 's' c && (cs.take 3).length == 3 &&
      (("udo".toList.zip cs).all fun x => foldsTo x.1 x.2) &&
      boundary P cs[2]? cs[3]?) || hasSudo P (some c) cs

def forbidden (P : Python) (t : Text) : Bool :=
  forbiddenTexts.any (containsText t) || hasSudo P none t

/-- `binary.rsplit("/", 1)[-1]`. -/
def baseName (binary : Text) : Text := binary.rtakeWhile (· ≠ '/')

def getOnly : Text := "curl is GET-only".toList

def readMethods : List Text := ["GET".toList, "HEAD".toList]

/-- `_validate_curl_get_only`, the reason or nothing. -/
def validateCurlGetOnly (P : Python) : List Text → Text
  | [] => []
  | tok :: args =>
    let low := P.lower tok
    if low ∈ ["-x".toList, "--request".toList] then
      match args with
      | [] => getOnly
      | method :: args =>
        if P.upper method ∉ readMethods then getOnly else validateCurlGetOnly P args
    else if "-x".toList.isPrefixOf low && tok.length > 2 && !"--".toList.isPrefixOf low then
      if P.upper (tok.drop 2) ∉ readMethods then getOnly else validateCurlGetOnly P args
    else if low ∈ ["-d".toList, "--data".toList, "--data-raw".toList, "--data-binary".toList,
        "--data-urlencode".toList] then getOnly
    else if "-d".toList.isPrefixOf low && !"--".toList.isPrefixOf low then getOnly
    else if tok = "-F".toList || "--form".toList.isPrefixOf low then getOnly
    else validateCurlGetOnly P args

structure ValidationResult where
  ok : Bool
  reason : Text

def staticValidate (P : Python) (command : Text) : ValidationResult :=
  if strip command = [] then ⟨false, "empty command".toList⟩
  else if forbidden P (strip command) then ⟨false, "forbidden shell metacharacter or sudo".toList⟩
  else
    match tokens command with
    | .error e => ⟨false, "unparseable command: ".toList ++ lexMessage e⟩
    | .ok [] => ⟨false, "empty command".toList⟩
    | .ok (binary :: args) =>
      let base := baseName binary
      if base ∉ allowedBinaries then
        ⟨false, "binary ".toList ++ P.repr base ++ " not in allowlist".toList⟩
      else if base = "curl".toList ∧ validateCurlGetOnly P args ≠ [] then
        ⟨false, validateCurlGetOnly P args⟩
      else if base = "jmap".toList ∧
          !(args.any fun t => t = "-histo".toList || "-histo:".toList.isPrefixOf t) then
        ⟨false, "jmap only allows -histo".toList⟩
      else ⟨true, []⟩

end ControlPlane

section Probe

def forbiddenSubstrings : List Text :=
  [";".toList, "&&".toList, "||".toList, "|".toList, ">".toList, "<".toList, "`".toList,
    "$(".toList, "\n".toList]

def forbiddenFlags : List Text :=
  ["-X".toList, "--request".toList, "-d".toList, "--data".toList, "--data-raw".toList,
    "--data-binary".toList, "--data-urlencode".toList, "-F".toList, "--form".toList, "-T".toList,
    "--upload-file".toList, "--delete".toList]

inductive Rejection where
  | empty
  | syntaxFound (s : Text)
  | sudo
  | binary (bin : Text)
  | curlFlag (flag : Text)
  | jmapFlag (a : Text)

/-- Its text; `%q` is the quoting of Go. -/
def Rejection.message (quoteText : Text → Text) : Rejection → Text
  | .empty => "rawcmd: empty command".toList
  | .syntaxFound s => "rawcmd: command contains forbidden syntax ".toList ++ quoteText s
  | .sudo => "rawcmd: sudo is not permitted".toList
  | .binary bin => "rawcmd: binary ".toList ++ quoteText bin ++ " is not in the allowlist".toList
  | .curlFlag flag =>
    "rawcmd: curl flag ".toList ++ quoteText flag ++ " is not permitted (GET only)".toList
  | .jmapFlag a =>
    "rawcmd: jmap flag ".toList ++ quoteText a ++ " is not permitted (only -histo)".toList

/-- The part of an argument before an `=` that is not its first character. -/
def flagPart (a : Text) : Text :=
  if (a.takeWhile (· ≠ '=')).length = 0 then a else a.takeWhile (· ≠ '=')

def validateCurl (args : List Text) : Except Rejection Unit :=
  match args.find? fun a => decide (flagPart a ∈ forbiddenFlags) with
  | some a => .error (.curlFlag (flagPart a))
  | none => .ok ()

def validateJmap (args : List Text) : Except Rejection Unit :=
  match args.find? fun a => "-".toList.isPrefixOf a && !"-histo".toList.isPrefixOf a with
  | some a => .error (.jmapFlag a)
  | none => .ok ()

def validate (command : Text) : Except Rejection Unit :=
  let trimmed := trimSpace command
  if trimmed = [] then .error .empty
  else
    match forbiddenSubstrings.find? (containsText trimmed) with
    | some s => .error (.syntaxFound s)
    | none =>
      match words isSpace trimmed with
      | [] => .error .empty
      | bin :: args =>
        if "sudo".toList ∈ bin :: args then .error .sudo
        else if bin ∉ allowedBinaries then .error (.binary bin)
        else if bin = "curl".toList then validateCurl args
        else if bin = "jmap".toList then validateJmap args
        else .ok ()

/-- `strings.Fields` of the command. -/
def argv (command : Text) : List Text := words isSpace command

structure ExecResult where
  stdout : List UInt8
  stderr : List UInt8
  exitCode : ℤ

structure Result where
  stdout : List UInt8
  stderr : List UInt8
  exitCode : ℤ
  truncated : Bool

def truncate (s : List UInt8) (maxBytes : ℤ) : List UInt8 × Bool :=
  if (s.length : ℤ) ≤ maxBytes then (s, false) else (s.take maxBytes.toNat, true)

def defaultTimeout : ℤ := 60 * 1000000000

def defaultMaxOutputBytes : ℤ := 2 ^ 20

def runArgs {ε : Type} (exec : List Text → ℤ → Except ε ExecResult) (args : List Text)
    (timeout maxOutputBytes : ℤ) : Except ε Result :=
  let timeout := if timeout ≤ 0 then defaultTimeout else timeout
  let maxOutputBytes := if maxOutputBytes ≤ 0 then defaultMaxOutputBytes else maxOutputBytes
  match exec args timeout with
  | .error e => .error e
  | .ok r =>
    let stdout := truncate r.stdout maxOutputBytes
    let stderr := truncate r.stderr maxOutputBytes
    .ok ⟨stdout.1, stderr.1, r.exitCode, stdout.2 || stderr.2⟩

/-- `Execute`, on an environment that runs a list of arguments. -/
def execute {ε : Type} (exec : List Text → ℤ → Except ε ExecResult) (command : Text)
    (timeout maxOutputBytes : ℤ) : Except (Rejection ⊕ ε) Result :=
  match validate command with
  | .error r => .error (.inl r)
  | .ok () => (runArgs exec (argv command) timeout maxOutputBytes).mapError .inr

end Probe

section Agreement

/-- The blanks that `strip` takes away. -/
def stripped (command : Text) : Text :=
  command.takeWhile Py.isSpace ++ (command.dropWhile Py.isSpace).rtakeWhile Py.isSpace

/-- A command that both sides read alike: there is nothing to unquote, the separators are those
of `shlex`, and what `strip` takes away is white space for the probe, too. -/
structure SameWords (command : Text) : Prop where
  plain : ∀ c ∈ command, c ∉ "'\"\\".toList
  blanks : ∀ c ∈ strip command, isSpace c = true → c ∈ " \t\r\n".toList
  ends : ∀ c ∈ stripped command, isSpace c = true

theorem strip_split (command : Text) : command = command.takeWhile Py.isSpace ++
    (strip command ++ (command.dropWhile Py.isSpace).rtakeWhile Py.isSpace) :=
  Trimming.split_trim Py.isSpace command

variable {command : Text} {c : Char}

theorem pySpace_of_stripped (hc : c ∈ stripped command) :
    Py.isSpace c = true := by
  rcases mem_append.mp hc with hc | hc
  · exact mem_takeWhile_imp hc
  · exact mem_takeWhile_imp (mem_reverse.mp hc)

theorem mem_command :
    c ∈ command ↔ c ∈ strip command ∨ c ∈ stripped command := by
  grind [strip_split, stripped]

theorem not_special_of_pySpace (hc : Py.isSpace c = true) : c ∉ "'\"\\".toList := by
  intro hmem
  have hall : "'\"\\".toList.all (fun d => !Py.isSpace d) = true := by decide
  grind

theorem special_iff (c : Char) : (posix.quote c = false ∧ posix.escape c = false) ↔
    c ∉ "'\"\\".toList := by
  simp [posix]
  tauto

theorem isSpace_of_posix (hc : posix.space c = true) : isSpace c = true := by
  have hall : " \t\r\n".toList.all isSpace = true := by decide
  exact all_eq_true.mp hall c (of_decide_eq_true hc)

theorem not_isSpace_of_special (hc : (posix.quote c || posix.escape c) = true) :
    (!isSpace c) = true ∧ posix.space c = false := by
  have hmem : c ∈ "'\"\\".toList := by
    by_contra hnot
    obtain ⟨h1, h2⟩ := (special_iff c).mpr hnot
    rw [h1, h2] at hc
    cases hc
  have hall : "'\"\\".toList.all (fun d => !isSpace d && !posix.space d) = true := by decide
  grind

theorem countP_command (g : Char → Bool) (command : Text) :
    command.countP g = (strip command).countP g + (stripped command).countP g := by
  grind [strip_split, stripped]

/-- Equal words mean that nothing was unquoted: the probe keeps every character that is no
white space, and `shlex` takes quotes and escapes away. -/
theorem sameWords_of_eq (h : tokens command = .ok (argv command)) :
    SameWords command := by
  let g : Char → Bool := fun c => !isSpace c
  have hargv : (argv command).flatten = command.filter g := flatten_words isSpace command
  have hcount : (argv command).flatten.countP g = command.countP g := by
    rw [hargv, countP_filter]
    simp
  have hall := countP_command g command
  have hplain := plain_of_kept (g := g) (fun c hc => not_isSpace_of_special hc) h
    (by omega)
  have hwords : argv command = words posix.space (strip command) := by
    have hsplit := split_plain hplain
    exact Except.ok.inj (h.symm.trans hsplit)
  have hkept : (argv command).flatten = (strip command).filter fun c => !posix.space c := by
    rw [hwords, flatten_words]
  refine ⟨?_, ?_, ?_⟩
  · intro c hc
    rcases mem_command.mp hc with hc | hc
    · exact (special_iff c).mp (hplain c hc)
    · exact not_special_of_pySpace (pySpace_of_stripped hc)
  · intro c hc hspace
    by_contra hnot
    have hmem : c ∈ (argv command).flatten := by
      rw [hkept, mem_filter]
      exact ⟨hc, by simpa [posix] using hnot⟩
    rw [hargv, mem_filter] at hmem
    simp [g, hspace] at hmem
  · have hless : (argv command).flatten.countP g ≤ (strip command).countP g := by
      rw [hkept]
      exact List.Sublist.countP_le filter_sublist
    have hzero : (stripped command).countP g = 0 := by omega
    intro c hc
    have hnone := countP_eq_zero.mp hzero c hc
    simpa [g] using hnone

theorem eq_of_sameWords (h : SameWords command) :
    tokens command = .ok (argv command) := by
  have hplain : ∀ c ∈ strip command, posix.quote c = false ∧ posix.escape c = false := fun c hc =>
    (special_iff c).mpr (h.plain c (mem_command.mpr (Or.inl hc)))
  have hsame : ∀ c ∈ strip command, isSpace c = posix.space c := by
    intro c hc
    rw [Bool.eq_iff_iff]
    constructor
    · intro hspace
      exact decide_eq_true (h.blanks c hc hspace)
    · exact isSpace_of_posix
  have hleft : ∀ c ∈ command.takeWhile Py.isSpace, isSpace c = true := fun c hc =>
    h.ends c (mem_append_left _ hc)
  have hright : ∀ c ∈ (command.dropWhile Py.isSpace).rtakeWhile Py.isSpace, isSpace c = true :=
    fun c hc => h.ends c (mem_append_right _ hc)
  have hargv : argv command = words isSpace (strip command) := by
    calc argv command = words isSpace (command.takeWhile Py.isSpace ++ (strip command ++
          (command.dropWhile Py.isSpace).rtakeWhile Py.isSpace)) := by rw [argv, ← strip_split]
      _ = words isSpace (strip command ++ (command.dropWhile Py.isSpace).rtakeWhile Py.isSpace) :=
        words_append_left hleft _
      _ = words isSpace (strip command) := wordsFrom_append_right hright _ _
  rw [tokens, split_plain hplain, hargv]
  exact congrArg Except.ok (wordsFrom_congr hsame []).symm

theorem execute_of_valid {ε : Type} (exec : List Text → ℤ → Except ε ExecResult)
    (timeout maxOutputBytes : ℤ) (h : validate command = .ok ()) :
    execute exec command timeout maxOutputBytes =
      (runArgs exec (argv command) timeout maxOutputBytes).mapError .inr := by
  rw [execute, h]

/-- When the arguments that are run are the tokens that were validated. -/
theorem argv_is_tokens_iff {ε : Type} (exec : List Text → ℤ → Except ε ExecResult)
    (command : Text) (timeout maxOutputBytes : ℤ) :
    (validate command = .ok () → execute exec command timeout maxOutputBytes =
      (runArgs exec (argv command) timeout maxOutputBytes).mapError .inr) ∧
    (tokens command = .ok (argv command) ↔ SameWords command) :=
  ⟨execute_of_valid exec timeout maxOutputBytes, sameWords_of_eq, eq_of_sameWords⟩

def asciiPython : Python where
  isWord c := c.isAlphanum || c == '_'
  lower t := t.map Char.toLower
  upper t := t.map Char.toUpper
  repr t := "'".toList ++ t ++ "'".toList

def quotedCommand : Text := "cat \"/etc/presto/config.properties\"".toList

/-- Both sides accept a quoted path, but the probe runs it with the quotes. -/
theorem quotes_are_run : (staticValidate asciiPython quotedCommand).ok = true ∧
    validate quotedCommand = .ok () ∧
    tokens quotedCommand = .ok ["cat".toList, "/etc/presto/config.properties".toList] ∧
    argv quotedCommand = ["cat".toList, "\"/etc/presto/config.properties\"".toList] :=
  ⟨by decide +kernel, by rfl, by rfl, by decide +kernel⟩

end Agreement

end DbAgent.RawCmd
