import PackedIndex.Reader
import PackedIndex.Proofs.Header
/-! # Torn headers

Requests behind the first page leave the header in it alone. Where the final header is written in
part over the provisional one, the file is either still provisional, or its checksum gives it
away, or it is complete.
-/
namespace PackedIndex

/-- A request that leaves the first `limit` bytes of a file alone. -/
def Request.Behind (limit : ℕ) : Request → Prop
  | .write offset _ => limit ≤ offset
  | .setLength size => limit ≤ size
  | .sync | .status => True

namespace Content

variable {file other : Content} {front : ByteArray} {request : Request} {requests : List Request}

theorem toBytes_congr (hsize : file.size = other.size)
    (h : ∀ i < file.size, file.byteAt i = other.byteAt i) : file.toBytes = other.toBytes := by
  unfold toBytes
  rw [← hsize]
  exact read_congr (by omega) (by omega) fun i _ hi => h i (by omega)

theorem read_eq_extract {data : ByteArray} {offset count : ℕ} (hsize : offset + count ≤ file.size)
    (hdata : offset + count ≤ data.size)
    (h : ∀ i, offset ≤ i → i < offset + count → file.byteAt i = Bytes.byteAt data i) :
    file.read offset count = data.extract offset (offset + count) := by
  apply Bytes.ext_byteAt (by rw [size_read, ByteArray.size_extract]; omega)
  intro i hi
  rw [size_read] at hi
  rw [byteAt_read, if_pos (by omega), Bytes.byteAt_extract, if_pos (by omega),
    h _ (by omega) (by omega)]

theorem Has.byteAt_eq (h : file.Has 0 front) {i : ℕ} (hi : i < front.size) :
    file.byteAt i = Bytes.byteAt front i := by
  have hread := byteAt_read file 0 front.size i
  rw [h.read_eq, if_pos hi, Nat.zero_add] at hread
  exact hread.symm

theorem Has.write (h : file.Has 0 front) {offset : ℕ} (hoffset : front.size ≤ offset)
    (data : ByteArray) : (file.write offset data).Has 0 front := by
  have hsize := h.size_le
  constructor
  · rw [size_write]
    split_ifs <;> omega
  · rw [read_write_apart hsize (Or.inl (by omega)), h.read_eq]

theorem Has.apply (h : file.Has 0 front) (hbehind : request.Behind front.size) :
    (file.apply request).Has 0 front := by
  cases request with
  | write offset data => exact h.write hbehind data
  | setLength size =>
    have hlength : 0 + front.size ≤ size := by
      rw [Nat.zero_add]
      exact hbehind
    exact h.setLength hlength
  | sync => exact h
  | status => exact h

theorem Has.applyFailed (h : file.Has 0 front) (hbehind : request.Behind front.size)
    (written : ℕ) : (file.applyFailed written request).Has 0 front := by
  cases request with
  | write offset data => exact h.write hbehind _
  | setLength size => exact h
  | sync => exact h
  | status => exact h

theorem Has.applyAll (h : file.Has 0 front)
    (hbehind : ∀ request ∈ requests, request.Behind front.size) :
    (file.applyAll requests).Has 0 front := by
  induction requests generalizing file with
  | nil => exact h
  | cons request requests ih =>
    rw [List.forall_mem_cons] at hbehind
    exact ih (h.apply hbehind.1) hbehind.2

theorem Has.cutShort (h : file.Has 0 front)
    (hbehind : ∀ request ∈ requests, request.Behind front.size) (count written : ℕ) :
    (file.cutShort requests count written).Has 0 front := by
  induction requests generalizing file count with
  | nil => exact h
  | cons request requests ih =>
    rw [List.forall_mem_cons] at hbehind
    cases count with
    | zero => exact h.applyFailed hbehind.1 written
    | succ count =>
      rw [cutShort_cons_succ]
      exact ih (h.apply hbehind.1) hbehind.2 count

theorem cutShort_idle (hidle : ∀ request ∈ requests, request = .sync ∨ request = .status)
    (count written : ℕ) :
    file.cutShort requests count written = file ∧ file.applyAll requests = file := by
  induction requests generalizing count with
  | nil => exact ⟨rfl, rfl⟩
  | cons request requests ih =>
    rw [List.forall_mem_cons] at hidle
    have happly : file.apply request = file ∧ file.applyFailed written request = file := by
      rcases hidle.1 with rfl | rfl <;> exact ⟨rfl, rfl⟩
    cases count with
    | zero =>
      rw [cutShort_cons_zero, applyAll_cons, happly.1]
      exact ⟨happly.2, (ih hidle.2 0).2⟩
    | succ count =>
      rw [cutShort_cons_succ, applyAll_cons, happly.1]
      exact ih hidle.2 count

/-! ## Pages written in part -/

section

variable {page : ByteArray} (h : file.Has 0 front) (hsize : page.size = front.size) {written : ℕ}
include h hsize

theorem byteAt_torn {i : ℕ} (hi : i < front.size) :
    (file.write 0 (page.extract 0 written)).byteAt i =
      if i < written then Bytes.byteAt page i else Bytes.byteAt front i := by
  rw [byteAt_write, ByteArray.size_extract, Nat.sub_zero, Nat.zero_add, Bytes.byteAt_extract,
    Nat.sub_zero, Nat.zero_add]
  split_ifs <;> first | omega | rfl | exact h.byteAt_eq hi

/-- A page that is written in part is complete when all its bytes are there. -/
theorem toBytes_torn
    (hpage : ∀ i < front.size,
      (file.write 0 (page.extract 0 written)).byteAt i = Bytes.byteAt page i) :
    (file.write 0 (page.extract 0 written)).toBytes = (file.write 0 page).toBytes := by
  have hfile := h.size_le
  apply toBytes_congr
  · rw [size_write, size_write, ByteArray.size_extract]
    split_ifs <;> omega
  · intro i _
    rw [byteAt_write file 0 page i, Nat.zero_add, Nat.sub_zero]
    by_cases hi : i < page.size
    · rw [if_pos ⟨Nat.zero_le i, hi⟩]
      exact hpage i (by omega)
    · rw [if_neg fun h => hi h.2, byteAt_write, if_neg]
      rw [ByteArray.size_extract]
      omega

end

end Content

open Outcome

theorem Reader.ofContent_eq_ok {path : String} {file : Content} {order : KeyOrder} {reader : Reader}
    (h : Reader.ofContent path file order = .ok reader) :
    Size.header ≤ file.size ∧
      Header.decode (file.read 0 Size.header) = .ok reader.header ∧
      reader.header.flags.provisional = false ∧ reader.layout.leafEnd ≤ file.size ∧
      reader.file = file ∧ reader.order = order := by
  unfold Reader.ofContent at h
  obtain ⟨hsize, h⟩ := guard_eq_ok.mp h
  obtain ⟨header, hdecode, h⟩ := bind_eq_ok.mp h
  obtain ⟨hfinal, h⟩ := guard_eq_ok.mp h
  obtain ⟨hleaves, h⟩ := guard_eq_ok.mp h
  cases h
  refine ⟨not_lt.mp hsize, hdecode, ?_, not_lt.mp hleaves, rfl, rfl⟩
  simpa [Header.isFinalized] using hfinal

namespace Header

variable {header : Header} {file : Content} {path : String} {order : KeyOrder} {reader : Reader}

theorem stores_encodePage (hlevels : header.layout.numLevels ≤ Size.mostLevels)
    (hwide : Size.header ≤ header.layout.pageSize) : Stores header.encodePage header := by
  have hsize := size_encode hlevels
  rw [encodePage, Bytes.resize_of_le (by omega)]
  exact stores_encode hlevels _

theorem Stores.flags_eq {data : ByteArray} (h : Stores data header) :
    data.extract 12 (12 + 4) = BigEndian.encode 4 header.flags.bits.toNat :=
  h.extract_field (i := 2) rfl (by simp [fields]) (BigEndian.size_encode _ _) (by decide)

/-- A file that starts like a provisional header is refused. -/
theorem refused_of_provisional (hlevels : header.layout.numLevels ≤ Size.mostLevels)
    (hwide : Size.header ≤ header.layout.pageSize) (hflags : header.flags.provisional = true)
    (hbytes : ∀ i < 16, file.byteAt i = Bytes.byteAt header.encodePage i) :
    Reader.ofContent path file order ≠ .ok reader := by
  intro h
  obtain ⟨hsize, hdecode, hfinal, -⟩ := Reader.ofContent_eq_ok h
  obtain ⟨-, -, hread, -⟩ := decode_eq_ok hdecode
  have hstores := stores_encodePage hlevels hwide
  have hpage := hstores.size_le
  have hwidth : Size.header = 636 := rfl
  have hfield : (file.read 0 Size.header).extract 12 (12 + 4) =
      BigEndian.encode 4 header.flags.bits.toNat := by
    rw [← hstores.flags_eq, Content.extract_read (by omega) (by omega), Nat.zero_add,
      Nat.add_sub_cancel_left]
    exact Content.read_eq_extract (by omega) (by omega) fun i _ hi => hbytes i hi
  have hbits : BigEndian.read (file.read 0 Size.header) 12 4 = header.flags.bits.toNat :=
    BigEndian.read_eq hfield rfl header.flags.bits.toNat_lt
  rw [hbits, Nat.toUInt32_eq, UInt32.ofNat_toNat, Flags.ofBits?_bits, Option.some.injEq] at hread
  rw [← hread, hflags] at hfinal
  cases hfinal

/-- A file that is opened holds the checksum of its header. -/
theorem byteAt_of_accepted (hlevels : header.layout.numLevels ≤ Size.mostLevels)
    (hwide : Size.header ≤ header.layout.pageSize)
    (hbytes : ∀ i < checksumPosition, file.byteAt i = Bytes.byteAt header.encodePage i)
    (h : Reader.ofContent path file order = .ok reader) :
    ∀ i < Size.header, file.byteAt i = Bytes.byteAt header.encodePage i := by
  obtain ⟨hsize, hdecode, -⟩ := Reader.ofContent_eq_ok h
  obtain ⟨-, hchecksum, -⟩ := decode_eq_ok hdecode
  have hstores := stores_encodePage hlevels hwide
  have hpage := hstores.size_le
  have hposition : checksumPosition + 4 = Size.header := rfl
  have hbody : (file.read 0 Size.header).extract 0 checksumPosition = header.encodeBody := by
    rw [← hstores.body_eq, Content.extract_read (by omega) (by omega), Nat.zero_add, Nat.sub_zero]
    have hread : file.read 0 checksumPosition =
        header.encodePage.extract 0 (0 + checksumPosition) :=
      Content.read_eq_extract (by omega) (by omega) fun i _ hi => hbytes i (by omega)
    rwa [Nat.zero_add] at hread
  have hstored : (file.read 0 Size.header).extract checksumPosition (checksumPosition + 4) =
      header.encodePage.extract checksumPosition (checksumPosition + 4) := by
    rw [hbody] at hchecksum
    rw [hstores.checksum_eq, ← hchecksum]
    exact BigEndian.extract_eq_encode (by rw [Content.size_read]; omega)
  intro i hi
  by_cases hfront : i < checksumPosition
  · exact hbytes i hfront
  · have hbyte := congrArg (Bytes.byteAt · (i - checksumPosition)) hstored
    rw [Bytes.byteAt_extract, if_pos (by omega), Bytes.byteAt_extract, if_pos (by omega),
      Content.byteAt_read, if_pos (by omega), Nat.zero_add, Nat.add_sub_cancel' (by omega)] at hbyte
    exact hbyte

/-- A final header page that is written in part over the provisional one is refused, or it is
complete. -/
theorem toBytes_of_torn (hlevels : header.layout.numLevels ≤ Size.mostLevels)
    (hwide : Size.header ≤ header.layout.pageSize) (hflags : header.flags.provisional = true)
    (hfile : file.Has 0 header.encodePage) {written : ℕ}
    (h : Reader.ofContent path (file.write 0 (header.finalize.encodePage.extract 0 written)) order =
      .ok reader) :
    (file.write 0 (header.finalize.encodePage.extract 0 written)).toBytes =
      (file.write 0 header.finalize.encodePage).toBytes := by
  have hsame : ∀ i, i ≠ 15 → i < checksumPosition ∨ Size.header ≤ i →
      Bytes.byteAt header.finalize.encodePage i = Bytes.byteAt header.encodePage i :=
    fun i => byteAt_encodePage_finalize hlevels
  have hsize : header.encodePage.size = header.layout.pageSize := size_encodePage header
  have hsize' : header.finalize.encodePage.size = header.encodePage.size := by
    rw [size_encodePage, size_encodePage]
    rfl
  have hwidth : checksumPosition + 4 = Size.header := rfl
  have hposition : checksumPosition = 632 := rfl
  have hbyte : ∀ i < header.encodePage.size,
      (file.write 0 (header.finalize.encodePage.extract 0 written)).byteAt i =
        if i < written then Bytes.byteAt header.finalize.encodePage i
        else Bytes.byteAt header.encodePage i :=
    fun i hi => Content.byteAt_torn hfile hsize' hi
  rcases Nat.lt_or_ge written 16 with hshort | hlong
  · -- the flags are still the provisional ones
    refine absurd h (refused_of_provisional hlevels hwide hflags ?_)
    intro i hi
    rw [hbyte i (by omega)]
    split_ifs with hi'
    · exact hsame i (by omega) (Or.inl (by omega))
    · rfl
  · -- the flags are the final ones, and only the checksum can be the provisional one
    have hbody : ∀ i < checksumPosition,
        (file.write 0 (header.finalize.encodePage.extract 0 written)).byteAt i =
          Bytes.byteAt header.finalize.encodePage i := by
      intro i hi
      rw [hbyte i (by omega)]
      split_ifs with hi'
      · rfl
      · exact (hsame i (by omega) (Or.inl hi)).symm
    have hlevels' : header.finalize.layout.numLevels ≤ Size.mostLevels := hlevels
    have hheader := byteAt_of_accepted hlevels' hwide hbody h
    apply Content.toBytes_torn hfile hsize'
    intro i hi
    by_cases hi' : i < Size.header
    · exact hheader i hi'
    · rw [hbyte i hi, hsame i (by omega) (Or.inr (not_lt.mp hi')), ite_self]

end Header

/-! ## Requests cut short -/

/-- Requests that write a page at the start of a file and then leave it alone. -/
def Request.Fronted (page : ByteArray) (requests : List Request) : Prop :=
  ∃ rest, requests = .write 0 page :: rest ∧ ∀ request ∈ rest, request.Behind page.size

namespace Request.Fronted

variable {page : ByteArray} {requests more : List Request}

theorem append (h : Fronted page requests) (hmore : ∀ request ∈ more, request.Behind page.size) :
    Fronted page (requests ++ more) := by
  obtain ⟨rest, rfl, hrest⟩ := h
  refine ⟨rest ++ more, rfl, ?_⟩
  intro request hrequest
  exact (List.mem_append.mp hrequest).elim (hrest request) (hmore request)

theorem has_write_empty (page : ByteArray) : (Content.empty.write 0 page).Has 0 page := by
  refine ⟨?_, Content.read_write_self _ _ _⟩
  rw [Content.size_write]
  split_ifs <;> omega

theorem has_applyAll (h : Fronted page requests) :
    (Content.empty.applyAll requests).Has 0 page := by
  obtain ⟨rest, rfl, hrest⟩ := h
  exact (has_write_empty page).applyAll hrest

end Request.Fronted

namespace Header

variable {header : Header} {path : String} {order : KeyOrder} {reader : Reader}
  {requests back : List Request} {count written : ℕ}

theorem refused_of_fronted (hlevels : header.layout.numLevels ≤ Size.mostLevels)
    (hwide : Size.header ≤ header.layout.pageSize) (hflags : header.flags.provisional = true)
    (hfront : Request.Fronted header.encodePage requests) (count written : ℕ) :
    Reader.ofContent path (Content.empty.cutShort requests count written) order ≠ .ok reader := by
  obtain ⟨rest, rfl, hrest⟩ := hfront
  have hpage : header.encodePage.size = header.layout.pageSize := size_encodePage header
  have hwidth : Size.header = 636 := rfl
  intro h
  refine refused_of_provisional hlevels hwide hflags ?_ h
  cases count with
  | zero =>
    have hsize := (Reader.ofContent_eq_ok h).1
    intro i hi
    rw [Content.cutShort_cons_zero, Content.applyFailed] at hsize ⊢
    rw [Content.size_write, ByteArray.size_extract] at hsize
    have hempty : Content.empty.size = 0 := rfl
    rw [Content.byteAt_write, ByteArray.size_extract, Bytes.byteAt_extract]
    split_ifs at hsize ⊢ <;> first | omega | simp
  | succ count =>
    rw [Content.cutShort_cons_succ]
    have hhas := (Request.Fronted.has_write_empty header.encodePage).cutShort hrest count written
    intro i hi
    exact hhas.byteAt_eq (by omega)

/-- A file that is published by its final header and opened is complete. -/
theorem toBytes_of_published (hlevels : header.layout.numLevels ≤ Size.mostLevels)
    (hwide : Size.header ≤ header.layout.pageSize) (hflags : header.flags.provisional = true)
    (hfront : Request.Fronted header.encodePage requests)
    (hback : ∀ request ∈ back, request = .sync ∨ request = .status)
    (h : Reader.ofContent path (Content.empty.cutShort
      (requests ++ .write 0 header.finalize.encodePage :: back) count written) order = .ok reader) :
    (Content.empty.cutShort (requests ++ .write 0 header.finalize.encodePage :: back) count
        written).toBytes =
      (Content.empty.applyAll
        (requests ++ .write 0 header.finalize.encodePage :: back)).toBytes := by
  have hall : Content.empty.applyAll (requests ++ .write 0 header.finalize.encodePage :: back) =
      (Content.empty.applyAll requests).write 0 header.finalize.encodePage := by
    rw [Content.applyAll_append, Content.applyAll_cons]
    exact (Content.cutShort_idle hback 0 0).2
  rw [hall]
  rcases Nat.lt_or_ge count requests.length with hlt | hge
  · rw [Content.cutShort_append hlt] at h
    exact absurd h (refused_of_fronted hlevels hwide hflags hfront count written)
  · obtain ⟨more, rfl⟩ := Nat.exists_eq_add_of_le hge
    rw [Content.cutShort_append_add] at h ⊢
    cases more with
    | zero =>
      rw [Content.cutShort_cons_zero] at h ⊢
      exact toBytes_of_torn hlevels hwide hflags hfront.has_applyAll h
    | succ more =>
      rw [Content.cutShort_cons_succ]
      exact congrArg Content.toBytes (Content.cutShort_idle hback more written).1

end Header

end PackedIndex
