import PackedIndex.Bytes
/-! # The content of a file

A file has a size and holds runs of bytes that were written to it; every other byte below its size is
zero, so that a file which is only made longer costs no space. `Content.byteAt` is the view of a
content: each operation has one equation for the size and one for the byte at a place.
-/
namespace PackedIndex

/-- Bytes at consecutive places of a file. -/
structure Run where
  offset : Nat
  data : ByteArray

namespace Run

def stop (run : Run) : Nat :=
  run.offset + run.data.size

/-- What is left of a run without the places `start ..< stop`. -/
def outside (start stop : Nat) (run : Run) : List Run :=
  if run.stop ≤ start ∨ stop ≤ run.offset then [run]
  else
    (if run.offset < start then [⟨run.offset, run.data.extract 0 (start - run.offset)⟩] else []) ++
      if stop < run.stop then [⟨stop, run.data.extract (stop - run.offset) run.data.size⟩] else []

def without (start stop : Nat) (runs : List Run) : List Run :=
  runs.flatMap (outside start stop)

/-- Some runs together with `data` from `offset` on: behind the run that stops there, or as a run of
its own. -/
def place (offset : Nat) (data : ByteArray) : List Run → List Run
  | [] => [⟨offset, data⟩]
  | run :: runs =>
    if run.stop = offset then { run with data := run.data ++ data } :: runs
    else run :: place offset data runs

def byteAt : List Run → Nat → UInt8
  | [], _ => 0
  | run :: runs, i =>
    if run.offset ≤ i ∧ i < run.stop then Bytes.byteAt run.data (i - run.offset) else byteAt runs i

/-- The bytes of a file from `offset` on, with those of a run put in their places. -/
def copyTo (run : Run) (offset : Nat) (bytes : ByteArray) : ByteArray :=
  if max offset run.offset < min (offset + bytes.size) run.stop then
    Bytes.overlay bytes (run.offset - offset)
      (run.data.extract (offset - run.offset) (offset + bytes.size - run.offset))
  else bytes

theorem stop_le_of_mem_outside {start stop : Nat} {run piece : Run}
    (h : piece ∈ outside start stop run) : piece.stop ≤ run.stop := by
  unfold outside at h
  split at h
  · exact List.mem_singleton.mp h ▸ Nat.le_refl _
  · rcases List.mem_append.mp h with h | h
    · split at h
      · rw [List.mem_singleton.mp h]
        simp only [Run.stop, ByteArray.size_extract]
        omega
      · exact absurd h List.not_mem_nil
    · split at h
      · rw [List.mem_singleton.mp h]
        simp only [Run.stop, ByteArray.size_extract] at *
        omega
      · exact absurd h List.not_mem_nil

theorem apart_of_mem_outside {start stop : Nat} {run piece : Run}
    (h : piece ∈ outside start stop run) : piece.stop ≤ start ∨ stop ≤ piece.offset := by
  unfold outside at h
  split at h
  · rename_i apart
    rw [List.mem_singleton.mp h]
    exact apart
  · rcases List.mem_append.mp h with h | h
    · split at h
      · rw [List.mem_singleton.mp h]
        simp only [Run.stop, ByteArray.size_extract]
        omega
      · exact absurd h List.not_mem_nil
    · split at h
      · rw [List.mem_singleton.mp h]
        exact Or.inr (Nat.le_refl _)
      · exact absurd h List.not_mem_nil

theorem byteAt_append_of_outside (start stop : Nat) (run : Run) (runs : List Run) (i : Nat) :
    byteAt (outside start stop run ++ runs) i =
      if run.offset ≤ i ∧ i < run.stop ∧ ¬ (start ≤ i ∧ i < stop) then
        Bytes.byteAt run.data (i - run.offset)
      else byteAt runs i := by
  unfold outside
  split
  · rename_i apart
    simp only [List.singleton_append, byteAt]
    by_cases h : run.offset ≤ i ∧ i < run.stop
    · rw [if_pos h, if_pos (by omega)]
    · rw [if_neg h, if_neg (by omega)]
  · rename_i apart
    simp only [Run.stop] at apart ⊢
    by_cases before : run.offset < start <;>
      by_cases behind : stop < run.offset + run.data.size <;>
      simp only [before, behind, if_true, if_false, List.nil_append, List.append_nil,
        List.cons_append, byteAt, Run.stop, ByteArray.size_extract,
        Bytes.byteAt_extract] <;>
      grind

theorem byteAt_without (start stop : Nat) (runs : List Run) (i : Nat) :
    byteAt (without start stop runs) i = if start ≤ i ∧ i < stop then 0 else byteAt runs i := by
  induction runs with
  | nil => simp [without, byteAt]
  | cons run runs ih =>
    rw [without, List.flatMap_cons, byteAt_append_of_outside, ← without, ih, byteAt]
    by_cases inside : start ≤ i ∧ i < stop
    · simp [inside]
    · by_cases covered : run.offset ≤ i ∧ i < run.stop
      · rw [if_pos ⟨covered.1, covered.2, inside⟩, if_neg inside, if_pos covered]
      · rw [if_neg fun h => covered ⟨h.1, h.2.1⟩, if_neg covered]

theorem byteAt_eq_zero {runs : List Run} {i : Nat}
    (h : ∀ run ∈ runs, ¬ (run.offset ≤ i ∧ i < run.stop)) : byteAt runs i = 0 := by
  induction runs with
  | nil => rfl
  | cons run runs ih =>
    rw [byteAt, if_neg (h run List.mem_cons_self)]
    exact ih fun other hm => h other (List.mem_cons_of_mem _ hm)

theorem byteAt_place {offset : Nat} {data : ByteArray} {runs : List Run}
    (apart : ∀ run ∈ runs, run.stop ≤ offset ∨ offset + data.size ≤ run.offset) (i : Nat) :
    byteAt (place offset data runs) i =
      if offset ≤ i ∧ i < offset + data.size then Bytes.byteAt data (i - offset)
      else byteAt runs i := by
  induction runs with
  | nil => rfl
  | cons run runs ih =>
    have away := apart run List.mem_cons_self
    have rest := ih fun other hm => apart other (List.mem_cons_of_mem _ hm)
    simp only [place]
    split
    · rename_i behind
      simp only [Run.stop] at behind away
      simp only [byteAt, Run.stop, ByteArray.size_append, Bytes.byteAt_append]
      grind
    · simp only [byteAt, rest]
      by_cases inside : offset ≤ i ∧ i < offset + data.size
      · rw [if_neg (by omega), if_pos inside, if_pos inside]
      · rw [if_neg inside, if_neg inside]

theorem mem_place {offset : Nat} {data : ByteArray} {runs : List Run} {run : Run}
    (h : run ∈ place offset data runs) : run ∈ runs ∨ run.stop = offset + data.size := by
  induction runs with
  | nil =>
    rw [List.mem_singleton.mp h]
    exact Or.inr rfl
  | cons first runs ih =>
    simp only [place] at h
    split at h
    · rename_i behind
      rcases List.mem_cons.mp h with rfl | h
      · right
        simp only [Run.stop, ByteArray.size_append] at behind ⊢
        omega
      · exact Or.inl (List.mem_cons_of_mem _ h)
    · rcases List.mem_cons.mp h with rfl | h
      · exact Or.inl List.mem_cons_self
      · rcases ih h with h | h
        · exact Or.inl (List.mem_cons_of_mem _ h)
        · exact Or.inr h

@[simp] theorem size_copyTo (run : Run) (offset : Nat) (bytes : ByteArray) :
    (run.copyTo offset bytes).size = bytes.size := by
  unfold copyTo
  split
  · rw [Bytes.size_overlay, ByteArray.size_extract]
    simp only [Run.stop] at *
    omega
  · rfl

theorem byteAt_copyTo (run : Run) (offset : Nat) (bytes : ByteArray) {i : Nat}
    (h : i < bytes.size) :
    Bytes.byteAt (run.copyTo offset bytes) i =
      if run.offset ≤ offset + i ∧ offset + i < run.stop then
        Bytes.byteAt run.data (offset + i - run.offset)
      else Bytes.byteAt bytes i := by
  unfold copyTo
  split
  · rw [Bytes.byteAt_overlay, ByteArray.size_extract, Bytes.byteAt_extract]
    grind [Run.stop]
  · grind [Run.stop]

end Run

/-- The bytes of a file: those in its runs, and zeros elsewhere below its size. -/
structure Content where
  runs : List Run
  size : Nat
  stop_le : ∀ run ∈ runs, run.stop ≤ size

namespace Content

def empty : Content :=
  ⟨[], 0, fun _ h => absurd h List.not_mem_nil⟩

def ofBytes (data : ByteArray) : Content :=
  { runs := [⟨0, data⟩]
    size := data.size
    stop_le := by simp [Run.stop] }

def byteAt (content : Content) (i : Nat) : UInt8 :=
  Run.byteAt content.runs i

def read (content : Content) (offset count : Nat) : ByteArray :=
  content.runs.foldr (fun run bytes => run.copyTo offset bytes)
    (Bytes.zeros (min (offset + count) content.size - offset))

def toBytes (content : Content) : ByteArray :=
  content.read 0 content.size

/-- The content after `data` was written at `offset`. Writing no bytes does not lengthen a file. -/
def write (content : Content) (offset : Nat) (data : ByteArray) : Content :=
  if data.size = 0 then content
  else
    { runs := Run.place offset data (Run.without offset (offset + data.size) content.runs)
      size := max content.size (offset + data.size)
      stop_le := by
        intro run h
        rcases Run.mem_place h with h | h
        · obtain ⟨whole, hm, hp⟩ := List.mem_flatMap.mp h
          have := Run.stop_le_of_mem_outside hp
          have := content.stop_le whole hm
          omega
        · omega }

def setLength (content : Content) (size : Nat) : Content :=
  { runs := Run.without size (content.size + 1) content.runs
    size
    stop_le := by
      intro run h
      obtain ⟨whole, hm, hp⟩ := List.mem_flatMap.mp h
      have below := Run.stop_le_of_mem_outside hp
      have within := content.stop_le whole hm
      have start : run.offset ≤ run.stop := Nat.le_add_right ..
      rcases Run.apart_of_mem_outside hp with apart | apart
      · exact apart
      · omega }

theorem byteAt_of_size_le {content : Content} {i : Nat} (h : content.size ≤ i) :
    content.byteAt i = 0 :=
  Run.byteAt_eq_zero fun run hm covered => by
    have := content.stop_le run hm
    omega

@[simp] theorem size_write (content : Content) (offset : Nat) (data : ByteArray) :
    (content.write offset data).size =
      if data.size = 0 then content.size else max content.size (offset + data.size) := by
  unfold write
  split <;> rfl

theorem byteAt_write (content : Content) (offset : Nat) (data : ByteArray) (i : Nat) :
    (content.write offset data).byteAt i =
      if offset ≤ i ∧ i < offset + data.size then Bytes.byteAt data (i - offset)
      else content.byteAt i := by
  unfold write
  split
  · rw [if_neg (by omega)]
  · simp only [byteAt]
    rw [Run.byteAt_place, Run.byteAt_without]
    · split <;> rfl
    · intro run h
      obtain ⟨whole, _, hp⟩ := List.mem_flatMap.mp h
      exact Run.apart_of_mem_outside hp

@[simp] theorem size_setLength (content : Content) (size : Nat) :
    (content.setLength size).size = size :=
  rfl

theorem byteAt_setLength (content : Content) (size i : Nat) :
    (content.setLength size).byteAt i = if i < size then content.byteAt i else 0 := by
  rw [byteAt, setLength, Run.byteAt_without, ← byteAt]
  by_cases below : i < size
  · rw [if_neg (by omega), if_pos below]
  · rw [if_neg below]
    split
    · rfl
    · exact byteAt_of_size_le (by omega)

@[simp] theorem size_read (content : Content) (offset count : Nat) :
    (content.read offset count).size = min (offset + count) content.size - offset := by
  unfold read
  induction content.runs with
  | nil => simp
  | cons run runs ih => rw [List.foldr_cons, Run.size_copyTo, ih]

theorem byteAt_read (content : Content) (offset count i : Nat) :
    Bytes.byteAt (content.read offset count) i =
      if i < count then content.byteAt (offset + i) else 0 := by
  have size := content.size_read offset count
  by_cases inside : i < min (offset + count) content.size - offset
  · rw [if_pos (by omega), byteAt]
    unfold read at size ⊢
    revert size
    induction content.runs with
    | nil => simp [Run.byteAt]
    | cons run runs ih =>
      intro size
      rw [List.foldr_cons, Run.size_copyTo] at size
      rw [List.foldr_cons, Run.byteAt_copyTo _ _ _ (by omega), Run.byteAt, ih size]
  · rw [Bytes.byteAt_of_size_le (by omega)]
    split
    · exact (byteAt_of_size_le (by omega)).symm
    · rfl

end PackedIndex.Content
