import Mathlib.Data.List.AList
import Mathlib.Data.List.Sort
import Mathlib.Data.Fintype.EquivFin
import Mathlib.Algebra.Order.BigOperators.Group.List
import Mathlib.Data.UInt
import Mathlib.Order.Interval.Finset.Nat
import Mathlib.Tactic.Ring

/-! A task's output on its way to the gateway: `ChunkPayload` cuts it into numbered
pieces, and `reassembleChunks` puts the pieces that have come together again. -/
namespace DbAgent.Chunks

open List UInt32

abbrev Bytes := List UInt8

def defaultChunkSize : ℕ := 256*1024

/-- `ChunkPayload`. The loop cuts at the multiples of the size below the length. -/
def chunkPayload (payload : Bytes) (chunkSize : ℤ) : List Bytes :=
  let size := if chunkSize ≤ 0 then defaultChunkSize else chunkSize.toNat
  if payload = [] then [[]]
  else (List.range ((payload.length+size-1)/size)).map fun i => (payload.drop (i*size)).take size

structure TaskOutcome where
  payload : Bytes
  exitCode : ℤ
  truncated : Bool
  redacted : Bool
  error : String

structure Chunk where
  taskId : String
  seq : UInt32
  data : Bytes
  last : Bool

structure TaskResult where
  taskId : String
  exitCode : ℤ
  truncated : Bool
  redacted : Bool
  error : String
  chunkCount : UInt32

/-- The chunk frames that `handleTaskRequest` sends. -/
def chunkFrames (taskId : String) (chunks : List Bytes) : List Chunk :=
  (List.range chunks.length).map fun i =>
    ⟨taskId, ofNat i, chunks.getD i [], decide (i = chunks.length-1)⟩

def resultFrame (taskId : String) (outcome : TaskOutcome) (chunks : List Bytes) : TaskResult where
  taskId := taskId
  exitCode := outcome.exitCode
  truncated := outcome.truncated
  redacted := outcome.redacted
  error := outcome.error
  chunkCount := ofNat chunks.length

abbrev ChunkMap := AList fun _ : UInt32 => Bytes

/-- `receiveChunk`, on the map of the task. -/
def store (m : ChunkMap) (c : Chunk) : ChunkMap := m.insert c.seq c.data

def buffer (frames : List Chunk) : ChunkMap := frames.foldl store ∅

/-- `ErrChunkIntegrity` with its detail. -/
def chunkIntegrity (detail : String) : String :=
  "gwserver: chunk_count mismatch on reassembly: " ++ detail

def firstGap : ℕ → List UInt32 → Option ℕ
  | _, [] => none
  | i, seq :: seqs => if ofNat i ≠ seq then some i else firstGap (i+1) seqs

def reassembleChunks (m : ChunkMap) (expectedCount : UInt32) : Except String Bytes :=
  if ofNat m.keys.length ≠ expectedCount then
    .error (chunkIntegrity ("got " ++ m.keys.length.repr ++ " chunks, expected " ++
      expectedCount.toNat.repr))
  else
    let seqs := m.keys.insertionSort (· ≤ ·)
    match firstGap 0 seqs with
    | some i => .error (chunkIntegrity ("missing chunk seq " ++ i.repr))
    | none => .ok (seqs.flatMap fun seq => (m.lookup seq).getD [])

section Cutting

theorem flatten_pieces {α : Type*} (size n : ℕ) (xs : List α) :
    ((List.range n).map fun i => (xs.drop (i*size)).take size).flatten = xs.take (n*size) := by
  induction n with
  | zero => simp
  | succ n ih =>
    rw [range_succ, map_append, flatten_append, ih]
    simp only [map_cons, map_nil, flatten_cons, flatten_nil, append_nil]
    rw [Nat.succ_mul, take_add]

theorem chunkPayload_flatten (payload : Bytes) (chunkSize : ℤ) :
    (chunkPayload payload chunkSize).flatten = payload := by
  unfold chunkPayload
  generalize hsize : (if chunkSize ≤ 0 then defaultChunkSize else chunkSize.toNat) = size
  have hpos : 0 < size := by
    rw [← hsize]
    split
    · decide
    · omega
  dsimp only
  by_cases h : payload = []
  · rw [if_pos h, h]
    rfl
  · rw [if_neg h, flatten_pieces]
    apply take_of_length_le
    have hdiv := Nat.div_add_mod (payload.length+size-1) size
    have hmod := Nat.mod_lt (payload.length+size-1) hpos
    rw [Nat.mul_comm] at hdiv
    omega

end Cutting

section Sequences

theorem ofNat_inj {i j n : ℕ} (hn : n ≤ 2^32) (hi : i < n) (hj : j < n)
    (h : ofNat i = ofNat j) : i = j := by
  have h' := congrArg toNat h
  rw [toNat_ofNat_of_lt' (by simp only [size]; omega),
    toNat_ofNat_of_lt' (by simp only [size]; omega)] at h'
  exact h'

def seqRange (n : ℕ) : List UInt32 := (List.range n).map ofNat

theorem seqRange_nodup (n : ℕ) (hn : n ≤ 2^32) : (seqRange n).Nodup := by
  apply List.Nodup.map_on _ nodup_range
  intro i hi j hj h
  exact ofNat_inj hn (mem_range.mp hi) (mem_range.mp hj) h

theorem seqRange_sorted (n : ℕ) (hn : n ≤ 2^32) : (seqRange n).Pairwise (· ≤ ·) := by
  rw [seqRange, pairwise_map]
  apply List.Pairwise.imp_of_mem _ pairwise_lt_range
  intro i j hi hj hij
  rw [mem_range] at hi hj
  rw [le_iff_toNat_le, toNat_ofNat_of_lt' (by simp only [size]; omega),
    toNat_ofNat_of_lt' (by simp only [size]; omega)]
  exact hij.le

theorem firstGap_none (seqs : List UInt32) (i : ℕ) :
    firstGap i seqs = none ↔ seqs = (List.range' i seqs.length).map ofNat := by
  induction seqs generalizing i with
  | nil => simp [firstGap]
  | cons seq seqs ih =>
    rw [firstGap, length_cons, List.range'_succ, map_cons]
    grind

theorem firstGap_zero (seqs : List UInt32) :
    firstGap 0 seqs = none ↔ seqs = seqRange seqs.length := by
  rw [firstGap_none, seqRange, range_eq_range']

end Sequences

section Buffer

theorem mem_buffer_foldl (frames : List Chunk) (m : ChunkMap) (seq : UInt32) :
    seq ∈ frames.foldl store m ↔ seq ∈ m ∨ ∃ c ∈ frames, c.seq = seq := by
  induction frames generalizing m with
  | nil => simp
  | cons c frames ih =>
    rw [foldl_cons, ih, store, AList.mem_insert]
    grind

theorem mem_buffer (frames : List Chunk) (seq : UInt32) :
    seq ∈ buffer frames ↔ ∃ c ∈ frames, c.seq = seq := by
  rw [buffer, mem_buffer_foldl]
  simp

theorem buffer_concat (frames : List Chunk) (c : Chunk) :
    buffer (frames ++ [c]) = store (buffer frames) c := by
  rw [buffer, foldl_append]
  rfl

theorem lookup_foldl_of_notMem (frames : List Chunk) (m : ChunkMap) (seq : UInt32)
    (h : ∀ c ∈ frames, c.seq ≠ seq) : (frames.foldl store m).lookup seq = m.lookup seq := by
  induction frames generalizing m with
  | nil => rfl
  | cons c frames ih =>
    rw [foldl_cons, ih _ fun c' hc' => h c' (mem_cons_of_mem _ hc'), store,
      AList.lookup_insert_ne (h c mem_cons_self).symm]

theorem lookup_buffer (frames : List Chunk) (hn : (frames.map Chunk.seq).Nodup) (c : Chunk)
    (hc : c ∈ frames) : (buffer frames).lookup c.seq = some c.data := by
  obtain ⟨before, after, rfl⟩ := append_of_mem hc
  have hlate : ∀ c' ∈ after, c'.seq ≠ c.seq := by
    rw [map_append, map_cons] at hn
    have hcons := (nodup_append.mp hn).2.1
    intro c' hc' heq
    exact (nodup_cons.mp hcons).1 (mem_map.mpr ⟨c', hc', heq⟩)
  rw [buffer, foldl_append, foldl_cons, lookup_foldl_of_notMem after _ _ hlate, store,
    AList.lookup_insert]

end Buffer

theorem sorted_keys (m : ChunkMap) (n : ℕ) (hn : n ≤ 2^32)
    (hkeys : ∀ seq, seq ∈ m ↔ seq ∈ seqRange n) :
    m.keys.insertionSort (· ≤ ·) = seqRange n := by
  have hperm : m.keys.Perm (seqRange n) := by
    rw [perm_ext_iff_of_nodup m.keys_nodup (seqRange_nodup n hn)]
    intro seq
    rw [← AList.mem_keys, hkeys]
  exact List.Perm.eq_of_pairwise' (pairwise_insertionSort _ _) (seqRange_sorted n hn)
    ((perm_insertionSort _ _).trans hperm)

theorem reassembleChunks_complete (m : ChunkMap) (chunks : List Bytes)
    (hn : chunks.length ≤ 2^32) (hkeys : ∀ seq, seq ∈ m ↔ seq ∈ seqRange chunks.length)
    (hdata : ∀ i, i < chunks.length → m.lookup (ofNat i) = some (chunks.getD i [])) :
    reassembleChunks m (ofNat chunks.length) = .ok chunks.flatten := by
  have hsorted := sorted_keys m chunks.length hn hkeys
  have hlen : m.keys.length = chunks.length := by
    grind [length_insertionSort, seqRange]
  have hgap : firstGap 0 (seqRange chunks.length) = none := by
    rw [firstGap_zero]
    simp only [seqRange, length_map, length_range]
  have hall : (seqRange chunks.length).flatMap (fun seq => (m.lookup seq).getD []) =
      chunks.flatten := by
    have hmap : (List.range chunks.length).map
        (fun i => (m.lookup (ofNat i)).getD []) = chunks := by
      apply ext_getElem
      · rw [length_map, length_range]
      · grind
    rw [seqRange, flatMap_map, flatMap_def, hmap]
  unfold reassembleChunks
  grind

theorem reassemble_payload (taskId : String) (chunks : List Bytes) (hn : chunks.length ≤ 2^32)
    (frames : List Chunk) (hperm : frames.Perm (chunkFrames taskId chunks)) :
    reassembleChunks (buffer frames) (ofNat chunks.length) = .ok chunks.flatten := by
  have hseqs : (chunkFrames taskId chunks).map Chunk.seq = seqRange chunks.length := by
    simp only [chunkFrames, map_map, seqRange]
    rfl
  have hnodup : (frames.map Chunk.seq).Nodup := by
    rw [(hperm.map Chunk.seq).nodup_iff, hseqs]
    exact seqRange_nodup _ hn
  apply reassembleChunks_complete _ chunks hn
  · intro seq
    rw [mem_buffer, ← mem_map, (hperm.map Chunk.seq).mem_iff, hseqs]
  · intro i hi
    have hmem : (⟨taskId, ofNat i, chunks.getD i [], decide (i = chunks.length-1)⟩ :
        Chunk) ∈ frames := by
      rw [hperm.mem_iff, chunkFrames, mem_map]
      exact ⟨i, mem_range.mpr hi, rfl⟩
    exact lookup_buffer frames hnodup _ hmem

theorem seqs_length_le (seqs : List UInt32) (h : seqs.Nodup) : seqs.length ≤ 2^32 := by
  have hnodup : (seqs.map UInt32.toFin).Nodup := by
    apply h.map
    intro a b hab
    exact UInt32.toFin_inj.mp hab
  have hcard := hnodup.length_le_card
  simp_all

theorem keys_length_lt (m : ChunkMap) (seq : UInt32) (h : seq ∉ m) : m.keys.length < 2^32 := by
  have hcons : (seq :: m.keys).Nodup := nodup_cons.mpr ⟨h, m.keys_nodup⟩
  exact seqs_length_le _ hcons

theorem reassembleChunks_keys (m : ChunkMap) (expectedCount : UInt32) (data : Bytes)
    (hlen : m.keys.length < 2^32) (h : reassembleChunks m expectedCount = .ok data) (seq : UInt32) :
    seq ∈ m ↔ seq < expectedCount := by
  unfold reassembleChunks at h
  split at h
  · cases h
  next hcount =>
  dsimp only at h
  split at h
  · cases h
  next hgap =>
  have hsorted := (firstGap_zero _).mp hgap
  rw [length_insertionSort] at hsorted
  have hexpected : expectedCount.toNat = m.keys.length := by
    rw [← not_not.mp hcount, UInt32.toNat_ofNat_of_lt' (by simp only [UInt32.size]; omega)]
  rw [AList.mem_keys, ← mem_insertionSort (· ≤ ·), hsorted, seqRange, mem_map,
    UInt32.lt_iff_toNat_lt, hexpected]
  constructor
  · rintro ⟨i, hi, rfl⟩
    rw [mem_range] at hi
    rw [UInt32.toNat_ofNat_of_lt' (by simp only [UInt32.size]; omega)]
    exact hi
  · intro hlt
    exact ⟨seq.toNat, mem_range.mpr hlt, UInt32.ofNat_toNat⟩

theorem reassembleChunks_integrity (m : ChunkMap) (expectedCount : UInt32)
    (hlen : m.keys.length < 2^32) (h : ¬∀ seq, seq ∈ m ↔ seq < expectedCount) :
    ∃ detail, reassembleChunks m expectedCount = .error (chunkIntegrity detail) := by
  cases hr : reassembleChunks m expectedCount with
  | ok data => exact absurd (reassembleChunks_keys m expectedCount data hlen hr) h
  | error e => grind [reassembleChunks]

theorem reassemble_wrapped (taskId : String) (chunks : List Bytes)
    (hlen : chunks.length = 2^32+1) :
    ∃ detail, reassembleChunks (buffer (chunkFrames taskId chunks))
      (ofNat chunks.length) = .error (chunkIntegrity detail) := by
  have hmem (i : ℕ) (hi : i < chunks.length) :
      ofNat i ∈ (buffer (chunkFrames taskId chunks)).keys := by
    rw [← AList.mem_keys, mem_buffer]
    exact ⟨_, mem_map.mpr ⟨i, mem_range.mpr hi, rfl⟩, rfl⟩
  generalize buffer (chunkFrames taskId chunks) = m at hmem ⊢
  have hle : m.keys.length ≤ 2^32 := seqs_length_le _ m.keys_nodup
  have htwo : 2 ≤ m.keys.length := by
    have hpair : [ofNat 0, ofNat 1] ⊆ m.keys := by
      intro seq hseq
      simp only [mem_cons, not_mem_nil, or_false] at hseq
      rcases hseq with rfl | rfl
      · exact hmem 0 (by omega)
      · exact hmem 1 (by omega)
    exact (subperm_of_subset (by decide) hpair).length_le
  have hne : ofNat m.keys.length ≠ ofNat chunks.length := by
    intro heq
    have htoNat := congrArg toNat heq
    simp only [toNat_ofNat', hlen] at htoNat
    omega
  unfold reassembleChunks
  rw [if_pos hne]
  exact ⟨_, rfl⟩

def bytes (m : ChunkMap) : ℕ := (m.entries.map fun entry => entry.2.length).sum

theorem bytes_store (m : ChunkMap) (c : Chunk) : bytes (store m c) ≤ bytes m+c.data.length := by
  have hrest : ((m.entries.kerase c.seq).map fun entry => entry.2.length).sum ≤ bytes m := by
    apply List.Sublist.sum_le_sum
    · exact (kerase_sublist _ _).map _
    · intro a _
      exact Nat.zero_le a
  have hinsert : bytes (store m c) =
      c.data.length+((m.entries.kerase c.seq).map fun entry => entry.2.length).sum := rfl
  omega

theorem bytes_buffer (frames : List Chunk) :
    bytes (buffer frames) ≤ (frames.map fun c => c.data.length).sum := by
  induction frames using List.reverseRecOn with
  | nil => exact Nat.le_refl 0
  | append_singleton frames c ih =>
    have hstore := bytes_store (buffer frames) c
    rw [buffer_concat, map_append, sum_append]
    grind

end DbAgent.Chunks
