import PackedIndex.Volume.Request
import PackedIndex.Proofs.Bytes
/-! # Reading back what was written

A read does not notice writes elsewhere, finds what was written in its place, and falls into the
reads of its parts. `applyAll` carries out a list of requests that all succeed, `cutShort` stops
within one.
-/
namespace PackedIndex.Content

theorem read_eq {file : Content} {offset : ℕ} {data : ByteArray}
    (hsize : offset + data.size ≤ file.size)
    (h : ∀ i < data.size, file.byteAt (offset + i) = Bytes.byteAt data i) :
    file.read offset data.size = data := by
  apply Bytes.ext_byteAt (by rw [size_read]; omega)
  intro i hi
  rw [size_read] at hi
  rw [byteAt_read, if_pos (by omega), h i (by omega)]

theorem read_congr {file other : Content} {offset count : ℕ} (hsize : offset + count ≤ file.size)
    (hother : offset + count ≤ other.size)
    (h : ∀ i, offset ≤ i → i < offset + count → file.byteAt i = other.byteAt i) :
    file.read offset count = other.read offset count := by
  apply Bytes.ext_byteAt (by rw [size_read, size_read]; omega)
  intro i hi
  rw [size_read] at hi
  rw [byteAt_read, byteAt_read, if_pos (by omega), if_pos (by omega), h _ (by omega) (by omega)]

@[simp] theorem size_toBytes (file : Content) : file.toBytes.size = file.size := by
  rw [toBytes, size_read]
  omega

theorem byteAt_toBytes (file : Content) (i : ℕ) : Bytes.byteAt file.toBytes i = file.byteAt i := by
  rw [toBytes, byteAt_read, Nat.zero_add]
  split_ifs with hi
  · rfl
  · exact (byteAt_of_size_le (not_lt.mp hi)).symm

@[simp] theorem toBytes_ofBytes (data : ByteArray) : (ofBytes data).toBytes = data := by
  apply Bytes.ext_byteAt (size_toBytes _)
  intro i hi
  rw [size_toBytes] at hi
  have hin : i < data.size := hi
  rw [byteAt_toBytes, byteAt, ofBytes, Run.byteAt, if_pos ⟨Nat.zero_le i, by simpa [Run.stop]⟩,
    Nat.sub_zero]

theorem read_write_self (file : Content) (offset : ℕ) (data : ByteArray) :
    (file.write offset data).read offset data.size = data := by
  rcases Nat.eq_zero_or_pos data.size with hzero | hpos
  · rw [ByteArray.size_eq_zero_iff.mp hzero, ← ByteArray.size_eq_zero_iff, size_read]
    simp
  · apply read_eq (by rw [size_write, if_neg (by omega)]; omega)
    intro i hi
    rw [byteAt_write, if_pos (by omega), Nat.add_sub_cancel_left]

theorem read_write_apart {file : Content} {offset count place : ℕ} {data : ByteArray}
    (hsize : offset + count ≤ file.size)
    (h : offset + count ≤ place ∨ place + data.size ≤ offset) :
    (file.write place data).read offset count = file.read offset count := by
  apply read_congr (by rw [size_write]; split_ifs <;> omega) hsize
  intro i hi hi'
  rw [byteAt_write, if_neg (by omega)]

theorem read_setLength {file : Content} {size offset count : ℕ} (hsize : offset + count ≤ file.size)
    (h : offset + count ≤ size) :
    (file.setLength size).read offset count = file.read offset count := by
  apply read_congr (by simpa using h) hsize
  intro i _ hi
  rw [byteAt_setLength, if_pos (by omega)]

theorem read_setLength_behind {file : Content} {size offset count : ℕ}
    (hsize : file.size ≤ offset) (h : offset + count ≤ size) :
    (file.setLength size).read offset count = Bytes.zeros count := by
  have hcount : (Bytes.zeros count).size = count := Bytes.size_zeros count
  conv_lhs => rw [← hcount]
  apply read_eq (by simpa using h)
  intro i hi
  rw [byteAt_setLength, if_pos (by omega), byteAt_of_size_le (by omega), Bytes.byteAt_zeros]

theorem read_append {file : Content} {offset count more : ℕ}
    (h : offset + count + more ≤ file.size) :
    file.read offset (count + more) =
      file.read offset count ++ file.read (offset + count) more := by
  apply Bytes.ext_byteAt (by simp only [size_read, ByteArray.size_append]; omega)
  intro i hi
  rw [size_read] at hi
  simp only [Bytes.byteAt_append, byteAt_read, size_read]
  split_ifs <;> first | omega | rfl | (congr 1; omega)

theorem read_tile {file : Content} {offset width : ℕ} {piece : ℕ → ByteArray} {count : ℕ}
    (hsize : offset + count * width ≤ file.size)
    (h : ∀ i < count, file.read (offset + i * width) width = piece i) :
    file.read offset (count * width) = Bytes.tile count piece := by
  induction count with
  | zero => simp [← ByteArray.size_eq_zero_iff]
  | succ count ih =>
    rw [Nat.succ_mul] at hsize ⊢
    rw [read_append (by omega), ih (by omega) fun i hi => h i (by omega), h count (by omega),
      Bytes.tile_succ]

theorem extract_read {file : Content} {offset count start stop : ℕ} (hstop : stop ≤ count)
    (hsize : offset + count ≤ file.size) :
    (file.read offset count).extract start stop = file.read (offset + start) (stop - start) := by
  apply Bytes.ext_byteAt (by simp only [size_read, ByteArray.size_extract]; omega)
  intro i hi
  simp only [size_read, ByteArray.size_extract] at hi
  simp only [Bytes.byteAt_extract, byteAt_read]
  split_ifs <;> first | omega | rfl | (congr 1; omega)

theorem extract_toBytes {file : Content} {start stop : ℕ} (hstop : stop ≤ file.size) :
    file.toBytes.extract start stop = file.read start (stop - start) := by
  rw [toBytes, extract_read hstop (by omega), Nat.zero_add]

structure Has (file : Content) (offset : ℕ) (data : ByteArray) : Prop where
  size_le : offset + data.size ≤ file.size
  read_eq : file.read offset data.size = data

theorem Has.congr {file other : Content} {offset : ℕ} {data : ByteArray} (h : file.Has offset data)
    (hsize : offset + data.size ≤ other.size)
    (hbytes : ∀ i, offset ≤ i → i < offset + data.size → other.byteAt i = file.byteAt i) :
    other.Has offset data :=
  ⟨hsize, (read_congr hsize h.size_le hbytes).trans h.read_eq⟩

theorem Has.setLength {file : Content} {offset : ℕ} {data : ByteArray} (h : file.Has offset data)
    {size : ℕ} (hsize : offset + data.size ≤ size) : (file.setLength size).Has offset data :=
  ⟨hsize, (read_setLength h.size_le hsize).trans h.read_eq⟩

theorem Has.extract {file : Content} {offset : ℕ} {data : ByteArray} (h : file.Has offset data)
    {start stop : ℕ} (hstart : start ≤ stop) (hstop : stop ≤ data.size) :
    file.Has (offset + start) (data.extract start stop) := by
  have hsize := h.size_le
  have hextract : (data.extract start stop).size = stop - start := by
    rw [ByteArray.size_extract]
    omega
  refine ⟨by omega, ?_⟩
  rw [hextract, ← extract_read hstop hsize, h.read_eq]

theorem Has.part {file : Content} {offset : ℕ} {front middle back : ByteArray}
    (h : file.Has offset (front ++ (middle ++ back))) : file.Has (offset + front.size) middle := by
  have hend : front.size + middle.size ≤ (front ++ (middle ++ back)).size := by
    simp only [ByteArray.size_append]
    omega
  have hmiddle := h.extract (Nat.le_add_right front.size middle.size) hend
  rwa [Bytes.extract_middle] at hmiddle

theorem Has.left {file : Content} {offset : ℕ} {front back : ByteArray}
    (h : file.Has offset (front ++ back)) : file.Has offset front := by
  rw [← ByteArray.empty_append (b := front ++ back)] at h
  exact h.part

theorem Has.right {file : Content} {offset : ℕ} {front back : ByteArray}
    (h : file.Has offset (front ++ back)) : file.Has (offset + front.size) back := by
  rw [← ByteArray.append_empty (b := back)] at h
  exact h.part

def applyAll (file : Content) (requests : List Request) : Content :=
  requests.foldl Content.apply file

@[simp] theorem applyAll_nil (file : Content) : file.applyAll [] = file := rfl

@[simp] theorem applyAll_cons (file : Content) (request : Request) (requests : List Request) :
    file.applyAll (request :: requests) = (file.apply request).applyAll requests := rfl

@[simp] theorem applyAll_append (file : Content) (front back : List Request) :
    file.applyAll (front ++ back) = (file.applyAll front).applyAll back :=
  List.foldl_append

/-- The content after `count` requests and the first `written` bytes of the next one. -/
def cutShort (file : Content) (requests : List Request) (count written : ℕ) : Content :=
  (requests[count]?).elim (file.applyAll requests) fun request =>
    (file.applyAll (requests.take count)).applyFailed written request

theorem cutShort_of_length_le (file : Content) {requests : List Request} {count : ℕ}
    (h : requests.length ≤ count) (written : ℕ) :
    file.cutShort requests count written = file.applyAll requests := by
  rw [cutShort, List.getElem?_eq_none h]
  rfl

@[simp] theorem cutShort_cons_zero (file : Content) (request : Request) (requests : List Request)
    (written : ℕ) :
    file.cutShort (request :: requests) 0 written = file.applyFailed written request := rfl

@[simp] theorem cutShort_cons_succ (file : Content) (request : Request) (requests : List Request)
    (count written : ℕ) :
    file.cutShort (request :: requests) (count + 1) written =
      (file.apply request).cutShort requests count written := by
  simp [cutShort]

/-- Requests that are never reached do not matter. -/
theorem cutShort_append {file : Content} {front back : List Request} {count : ℕ}
    (h : count < front.length) (written : ℕ) :
    file.cutShort (front ++ back) count written = file.cutShort front count written := by
  rw [cutShort, cutShort, List.getElem?_append_left h, List.take_append_of_le_length h.le,
    List.getElem?_eq_getElem h]
  rfl

theorem cutShort_append_add (file : Content) (front back : List Request) (count written : ℕ) :
    file.cutShort (front ++ back) (front.length + count) written =
      (file.applyAll front).cutShort back count written := by
  induction front generalizing file with
  | nil => simp
  | cons request front ih =>
    rw [List.cons_append, List.length_cons, Nat.add_right_comm, cutShort_cons_succ, ih,
      applyAll_cons]

def CutWithin (start : Content) (requests : List Request) (file : Content) : Prop :=
  ∃ count < requests.length, ∃ written, file = start.cutShort requests count written

theorem cutWithin_head (start : Content) (request : Request) (requests : List Request)
    (written : ℕ) : start.CutWithin (request :: requests) (start.applyFailed written request) :=
  ⟨0, Nat.succ_pos _, written, rfl⟩

theorem CutWithin.append {start file : Content} {front : List Request}
    (h : start.CutWithin front file) (back : List Request) :
    start.CutWithin (front ++ back) file := by
  obtain ⟨count, hcount, written, hcut⟩ := h
  refine ⟨count, ?_, written, ?_⟩
  · rw [List.length_append]
    omega
  · rw [cutShort_append hcount, hcut]

theorem CutWithin.behind {start file : Content} {front back : List Request}
    (h : (start.applyAll front).CutWithin back file) : start.CutWithin (front ++ back) file := by
  obtain ⟨count, hcount, written, hcut⟩ := h
  refine ⟨front.length + count, ?_, written, ?_⟩
  · rw [List.length_append]
    omega
  · rw [cutShort_append_add, hcut]

theorem applyFailed_zero (file : Content) (request : Request) :
    file.applyFailed 0 request = file := by
  cases request with
  | write offset data => exact if_pos (by rw [ByteArray.size_extract]; omega)
  | setLength size => rfl
  | sync => rfl
  | status => rfl

/-- What an empty file can hold while requests are carried out on it: the first of them, and a part
of the next. -/
def Snapshot (requests : List Request) (file : Content) : Prop :=
  ∃ count written, file = Content.empty.cutShort requests count written

theorem snapshot_applyAll (requests : List Request) :
    Snapshot requests (Content.empty.applyAll requests) :=
  ⟨requests.length, 0, (cutShort_of_length_le _ le_rfl 0).symm⟩

theorem CutWithin.snapshot {requests : List Request} {file : Content}
    (h : Content.empty.CutWithin requests file) : Snapshot requests file := by
  obtain ⟨count, -, written, hcut⟩ := h
  exact ⟨count, written, hcut⟩

theorem Snapshot.append {file : Content} {front : List Request} (h : Snapshot front file)
    (back : List Request) : Snapshot (front ++ back) file := by
  obtain ⟨count, written, rfl⟩ := h
  rcases Nat.lt_or_ge count front.length with hlt | hge
  · exact ⟨count, written, (cutShort_append hlt written).symm⟩
  · refine ⟨front.length + 0, 0, ?_⟩
    rw [cutShort_of_length_le _ hge, cutShort_append_add]
    cases back with
    | nil => rfl
    | cons request back => rw [cutShort_cons_zero, applyFailed_zero]

end PackedIndex.Content
