import Mathlib.Data.List.Infix
import Mathlib.Tactic
import DbAgent.LineSegments

/-! The output of a command in a container: the frames in which the engine sends it, the
texts that `Exec` of the probe makes of them, and the files that are read that way. -/
namespace DbAgent.Docker

open Lines List UInt8

abbrev Bytes := List UInt8

def newline : UInt8 := 10

section Client

/-- The loop of `splitNonEmptyLines`: the bytes since the last line break, and the lines so
far. -/
def splitLoop : Bytes → Bytes → List Bytes → List Bytes
  | [], line, lines => if line ≠ [] then lines ++ [line] else lines
  | c :: s, line, lines =>
    if c = newline then splitLoop s [] (if line ≠ [] then lines ++ [line] else lines)
    else splitLoop s (line ++ [c]) lines

def splitNonEmptyLines (s : Bytes) : List Bytes := splitLoop s [] []

def joinLines (lines : List Bytes) : Bytes :=
  (lines.foldl (fun (s : ℕ × Bytes) l =>
    (s.1 + 1, (if 0 < s.1 then s.2 ++ [newline] else s.2) ++ l)) (0, [])).2

def lengthOf (a b c d : UInt8) : ℕ :=
  a.toNat * 2 ^ 24 + b.toNat * 2 ^ 16 + c.toNat * 2 ^ 8 + d.toNat

def looksMultiplexed : Bytes → Bool
  | t :: x :: y :: z :: a :: b :: c :: d :: rest =>
    !(2 < t || x ≠ 0 || y ≠ 0 || z ≠ 0) && lengthOf a b c d ≤ rest.length
  | _ => false

/-- The loop of `demuxStreams` from a position on. A length that goes beyond the end is cut. -/
def demuxLoop : Bytes → List Bytes → List Bytes → List Bytes × List Bytes
  | t :: _ :: _ :: _ :: a :: b :: c :: d :: rest, stdout, stderr =>
    let length := min (lengthOf a b c d) rest.length
    let lines := splitNonEmptyLines (rest.take length)
    if t = 2 then demuxLoop (rest.drop length) stdout (stderr ++ lines)
    else demuxLoop (rest.drop length) (stdout ++ lines) stderr
  | _, stdout, stderr => (stdout, stderr)
termination_by raw => raw.length
decreasing_by
  all_goals
    grind

def demuxStreams (raw : Bytes) : List Bytes × List Bytes :=
  if looksMultiplexed raw then demuxLoop raw [] [] else (splitNonEmptyLines raw, [])

/-- The answers of the engine to the three calls of `Exec`. -/
structure ExecAnswers (ε : Type) where
  create : Except ε String
  start : String → Except ε Bytes
  inspect : String → Except ε ℤ

structure ExecOutput (ε : Type) where
  stdout : Bytes
  stderr : Bytes
  exitCode : ℤ
  err : Option ε

variable {ε : Type}

def exec (api : ExecAnswers ε) : ExecOutput ε :=
  match api.create with
  | .error e => ⟨[], [], 0, some e⟩
  | .ok id =>
    match api.start id with
    | .error e => ⟨[], [], 0, some e⟩
    | .ok body =>
      let streams := demuxStreams body
      let stdout := joinLines streams.1
      let stderr := joinLines streams.2
      match api.inspect id with
      | .error e => ⟨stdout, stderr, 0, some e⟩
      | .ok exitCode => ⟨stdout, stderr, exitCode, none⟩

inductive ReadError (ε : Type) where
  | listTargets (e : ε)
  | noRunningTask (service : String)
  | exec (e : ε)
  | exitCode (path : String) (code : ℤ) (stderr : Bytes)

/-- What `Env.ReadConfig` is called with and built on. -/
structure Reader (ε : Type) where
  workerService : String
  coordinatorService : String
  configPath : String → String
  listTargets : String → Except ε (List String)
  docker : String → List String → ExecAnswers ε

def Reader.target (R : Reader ε) (component target : String) : Except (ReadError ε) String :=
  if target = "" then
    let service := if component = "coordinator" then R.coordinatorService else R.workerService
    match R.listTargets service with
    | .error e => .error (.listTargets e)
    | .ok [] => .error (.noRunningTask service)
    | .ok (name :: _) => .ok name
  else .ok target

def Reader.readConfig (R : Reader ε) (component file target : String) :
    Except (ReadError ε) Bytes := do
  let container ← R.target component target
  let path := R.configPath file
  let out := exec (R.docker container ["cat", path])
  match out.err with
  | some e => .error (.exec e)
  | none =>
    if out.exitCode = 0 then .ok out.stdout
    else .error (.exitCode path out.exitCode out.stderr)

end Client

section Frames

inductive Stream where
  | stdin
  | stdout
  | stderr
  deriving DecidableEq, Repr

def Stream.byte : Stream → UInt8
  | .stdin => 0
  | .stdout => 1
  | .stderr => 2

structure Frame where
  stream : Stream
  payload : Bytes
  short : payload.length < 2 ^ 32

def Frame.bytes (f : Frame) : Bytes :=
  let n := f.payload.length
  f.stream.byte :: 0 :: 0 :: 0 :: ofNat (n / 2 ^ 24) :: ofNat (n / 2 ^ 16) ::
    ofNat (n / 2 ^ 8) :: ofNat n :: f.payload

def payloads (err : Bool) (fs : List Frame) : List Bytes :=
  (fs.filter fun f => (f.stream == .stderr) == err).map Frame.payload

end Frames

section Loops

theorem splitLoop_eq (s line : Bytes) (lines : List Bytes) (hline : newline ∉ line) :
    splitLoop s line lines = lines ++ nonEmpty newline (line ++ s) := by
  induction s generalizing line lines with
  | nil => grind [splitLoop, nonEmpty_of_notMem]
  | cons c s ih =>
    rw [splitLoop]
    by_cases hc : c = newline
    · subst hc
      rw [if_pos rfl, ih [] _ not_mem_nil, nil_append, nonEmpty_append_cons,
        nonEmpty_of_notMem hline]
      grind
    · grind

theorem splitNonEmptyLines_eq (s : Bytes) : splitNonEmptyLines s = nonEmpty newline s :=
  splitLoop_eq s [] [] not_mem_nil

theorem joinLoop_eq (lines : List Bytes) (n : ℕ) (out : Bytes) :
    (lines.foldl (fun (s : ℕ × Bytes) l =>
      (s.1 + 1, (if 0 < s.1 then s.2 ++ [newline] else s.2) ++ l)) (n + 1, out)).2 =
      join newline (out :: lines) := by
  induction lines generalizing n out with
  | nil => simp [join]
  | cons l lines ih =>
    rw [foldl_cons, if_pos n.succ_pos, ih]
    cases lines <;> simp [join]

theorem joinLines_eq (lines : List Bytes) : joinLines lines = join newline lines := by
  cases lines with
  | nil => rfl
  | cons l lines =>
    rw [joinLines, foldl_cons]
    exact joinLoop_eq lines 0 l

theorem lengthOf_bytes {n : ℕ} (h : n < 2 ^ 32) :
    lengthOf (ofNat (n / 2 ^ 24)) (ofNat (n / 2 ^ 16)) (ofNat (n / 2 ^ 8))
      (ofNat n) = n := by
  simp only [lengthOf, toNat_ofNat']
  omega

theorem demuxLoop_frame (f : Frame) (rest : Bytes) (stdout stderr : List Bytes) :
    demuxLoop (f.bytes ++ rest) stdout stderr =
      demuxLoop rest (stdout ++ (payloads false [f]).flatMap (nonEmpty newline))
        (stderr ++ (payloads true [f]).flatMap (nonEmpty newline)) := by
  have hlength := lengthOf_bytes f.short
  have hmin : min f.payload.length (f.payload ++ rest).length = f.payload.length := by
    rw [length_append]
    omega
  simp only [Frame.bytes, cons_append]
  rw [demuxLoop, hlength, hmin, take_left, drop_left, splitNonEmptyLines_eq]
  cases hs : f.stream <;> simp [payloads, hs, Stream.byte]

theorem payloads_cons (err : Bool) (f : Frame) (fs : List Frame) :
    payloads err (f :: fs) = payloads err [f] ++ payloads err fs := by
  rw [payloads, payloads, payloads, ← map_append, ← filter_append]
  rfl

theorem demuxLoop_frames (fs : List Frame) (stdout stderr : List Bytes) :
    demuxLoop (fs.flatMap Frame.bytes) stdout stderr =
      (stdout ++ (payloads false fs).flatMap (nonEmpty newline),
        stderr ++ (payloads true fs).flatMap (nonEmpty newline)) := by
  induction fs generalizing stdout stderr with
  | nil =>
    rw [flatMap_nil, demuxLoop]
    · simp [payloads]
    · simp
  | cons f fs ih =>
    rw [flatMap_cons, demuxLoop_frame, ih, payloads_cons false f fs,
      payloads_cons true f fs]
    simp only [flatMap_append, append_assoc]

theorem looksMultiplexed_frame (f : Frame) (rest : Bytes) :
    looksMultiplexed (f.bytes ++ rest) = true := by
  have hlength := lengthOf_bytes f.short
  have hstream : ¬2 < f.stream.byte := by
    cases f.stream <;> decide
  simp only [Frame.bytes, cons_append, looksMultiplexed, hlength, length_append]
  simp [hstream]

theorem demuxStreams_frames (fs : List Frame) :
    demuxStreams (fs.flatMap Frame.bytes) =
      ((payloads false fs).flatMap (nonEmpty newline),
        (payloads true fs).flatMap (nonEmpty newline)) := by
  cases fs with
  | nil => rfl
  | cons f fs =>
    rw [demuxStreams, if_pos]
    · exact demuxLoop_frames (f :: fs) [] []
    · rw [flatMap_cons]
      exact looksMultiplexed_frame f _

end Loops

section Texts

variable {ε : Type}

def Intact (fs : List Frame) (err : Bool) : Prop :=
  NoBlankLine newline (payloads err fs).flatten ∧ CutsAtLineEnds newline (payloads err fs)

theorem exec_texts {api : ExecAnswers ε} {id : String} {fs : List Frame}
    (hcreate : api.create = .ok id) (hstart : api.start id = .ok (fs.flatMap Frame.bytes)) :
    (exec api).stdout = join newline ((payloads false fs).flatMap (nonEmpty newline)) ∧
      (exec api).stderr = join newline ((payloads true fs).flatMap (nonEmpty newline)) := by
  grind [exec, demuxStreams_frames, joinLines_eq]

/-- The bytes of the two streams come back as they were sent, up to a line break at the end,
exactly if no line of them is empty or spread over two frames. -/
theorem exec_intact_iff (api : ExecAnswers ε) (id : String) (fs : List Frame)
    (hcreate : api.create = .ok id) (hstart : api.start id = .ok (fs.flatMap Frame.bytes)) :
    UpToBreak newline (exec api).stdout (payloads false fs).flatten ∧
      UpToBreak newline (exec api).stderr (payloads true fs).flatten ↔
    Intact fs false ∧ Intact fs true := by
  obtain ⟨hstdout, hstderr⟩ := exec_texts hcreate hstart
  rw [hstdout, hstderr, upToBreak_segments_iff, upToBreak_segments_iff]
  rfl

def ascii (s : String) : Bytes := s.toList.map fun c => ofNat c.toNat

def answerOf (fs : List Frame) : ExecAnswers Unit where
  create := .ok "exec"
  start _ := .ok (fs.flatMap Frame.bytes)
  inspect _ := .ok 0

def stdoutFrame (s : String) (h : (ascii s).length < 2 ^ 32) : Frame := ⟨.stdout, ascii s, h⟩

/-- Two frames that end with their lines. -/
theorem two_lines_intact :
    UpToBreak newline (exec (answerOf [stdoutFrame "a=1\n" (by decide),
      stdoutFrame "b=2\n" (by decide)])).stdout (ascii "a=1\nb=2\n") :=
  ((exec_intact_iff (answerOf [stdoutFrame "a=1\n" (by decide), stdoutFrame "b=2\n" (by decide)])
    "exec" _ rfl rfl).mpr ⟨⟨.inr (by decide), by decide, by decide, trivial⟩,
      ⟨.inr (by decide), trivial⟩⟩).1

def spreadFrames : List Frame :=
  [stdoutFrame "query.max-mem" (by decide), stdoutFrame "ory=1GB\n" (by decide)]

/-- A line that is spread over two frames comes back as two. -/
theorem line_spread_over_frames :
    (payloads false spreadFrames).flatten = ascii "query.max-memory=1GB\n" ∧
    (exec (answerOf spreadFrames)).stdout = ascii "query.max-mem\nory=1GB" ∧
    ¬UpToBreak newline (exec (answerOf spreadFrames)).stdout
      (payloads false spreadFrames).flatten := by
  have htexts := exec_texts (show (answerOf spreadFrames).create = .ok "exec" from rfl)
    (show (answerOf spreadFrames).start "exec" = .ok (spreadFrames.flatMap Frame.bytes) from rfl)
  rw [htexts.1]
  refine ⟨by decide, by decide, ?_⟩
  rintro (h | h)
  · exact absurd h (by decide)
  · exact absurd h (by decide)

end Texts

end DbAgent.Docker
