import Mathlib.Data.List.DropRight
import Mathlib.Data.List.TakeWhile
import PackedIndex.Load
import PackedIndex.Proofs.Content
import PackedIndex.Proofs.Outcome
import PackedIndex.Proofs.Utf8
/-! # What a stream of lines says

The lines of a stream do not depend on how its bytes are fetched. A line says a key and a value
when it is a text with a comma behind a key, and then it says only these.
-/
namespace PackedIndex

/-! ## The lines of a stream -/

namespace Load

/-- The lines of a stream, without the line feeds that end them. The last line may lack one. -/
def lines : List UInt8 → List (List UInt8)
  | [] => []
  | byte :: data =>
    if byte = 10 then [] :: lines data
    else
      match lines data with
      | [] => [[byte]]
      | line :: more => (byte :: line) :: more

def bareLine (data : List UInt8) : List UInt8 :=
  data.takeWhile (· ≠ 10)

def firstLine (data : List UInt8) : List UInt8 :=
  data.take ((bareLine data).length + 1)

def behindLine (data : List UInt8) : List UInt8 :=
  data.drop ((bareLine data).length + 1)

theorem bareLine_cons {byte : UInt8} (h : byte ≠ 10) (data : List UInt8) :
    bareLine (byte :: data) = byte :: bareLine data :=
  List.takeWhile_cons_of_pos (decide_eq_true h)

theorem behindLine_cons {byte : UInt8} (h : byte ≠ 10) (data : List UInt8) :
    behindLine (byte :: data) = behindLine data := by
  rw [behindLine, bareLine_cons h]
  rfl

theorem lines_cons {byte : UInt8} (h : byte ≠ 10) (data : List UInt8) :
    lines (byte :: data) =
      match lines data with
      | [] => [[byte]]
      | line :: more => (byte :: line) :: more :=
  if_neg h

theorem lines_eq {data : List UInt8} (h : data ≠ []) :
    lines data = bareLine data :: lines (behindLine data) := by
  induction data with
  | nil => exact absurd rfl h
  | cons byte data ih =>
    by_cases hfeed : byte = 10
    · rw [hfeed]
      rfl
    · rw [lines_cons hfeed, bareLine_cons hfeed, behindLine_cons hfeed]
      cases data with
      | nil => rfl
      | cons next data => rw [ih (List.cons_ne_nil _ _)]

theorem firstLine_eq (data : List UInt8) :
    firstLine data = bareLine data ∨ firstLine data = bareLine data ++ [10] := by
  induction data with
  | nil => exact Or.inl rfl
  | cons byte data ih =>
    by_cases hfeed : byte = 10
    · rw [hfeed]
      exact Or.inr rfl
    · rw [firstLine, bareLine_cons hfeed, List.length_cons, List.take_succ_cons]
      exact ih.imp (congrArg _) (congrArg _)

theorem firstLine_eq_nil {data : List UInt8} : firstLine data = [] ↔ data = [] := by
  simp [firstLine]

theorem bareLine_append_of_lt {front : List UInt8} (h : (bareLine front).length < front.length)
    (back : List UInt8) : bareLine (front ++ back) = bareLine front := by
  unfold bareLine at h ⊢
  rw [List.takeWhile_append, if_neg h.ne]

theorem bareLine_append_of_all {front : List UInt8} (h : ∀ byte ∈ front, byte ≠ 10)
    (back : List UInt8) : bareLine (front ++ back) = front ++ bareLine back :=
  List.takeWhile_append_of_pos fun byte hbyte => decide_eq_true (h byte hbyte)

theorem ne_of_length_le_bareLine {data : List UInt8} (h : data.length ≤ (bareLine data).length) :
    ∀ byte ∈ data, byte ≠ 10 := by
  have hall : bareLine data = data := (List.takeWhile_prefix _).eq_of_length_le h
  intro byte hbyte
  exact of_decide_eq_true (List.takeWhile_eq_self_iff.mp hall byte hbyte)

theorem firstLine_of_length_le {data : List UInt8} (h : data.length ≤ (bareLine data).length) :
    firstLine data = data :=
  List.take_of_length_le (h.trans (Nat.le_succ _))

theorem behindLine_of_length_le {data : List UInt8} (h : data.length ≤ (bareLine data).length) :
    behindLine data = [] :=
  List.drop_of_length_le (h.trans (Nat.le_succ _))

end Load

/-! ## Fetching -/

namespace Bytes

theorem toList_extract (data : ByteArray) (start stop : ℕ) :
    (data.extract start stop).data.toList =
      (data.data.toList.drop start).take (stop - start) := by
  rw [ByteArray.data_extract, Array.toList_extract, List.extract_eq_take_drop]

theorem extract_eq (data : ByteArray) (start stop : ℕ) :
    data.extract start stop =
      ((data.data.toList.drop start).take (stop - start)).toByteArray := by
  rw [← toList_extract]
  exact ByteArray.ext (by rw [List.data_toByteArray, Array.toArray_toList])

theorem extract_size_eq (data : ByteArray) (start : ℕ) :
    data.extract start data.size = (data.data.toList.drop start).toByteArray := by
  rw [extract_eq, List.take_of_length_le]
  exact (List.length_drop ..).le

end Bytes

theorem Content.toList_read (file : Content) (offset count : ℕ) :
    (file.read offset count).data.toList = (file.toBytes.data.toList.drop offset).take count := by
  have hread : file.read offset count = file.toBytes.extract offset (offset + count) := by
    apply Bytes.ext_byteAt
    · rw [size_read, ByteArray.size_extract, size_toBytes]
    · intro i _
      rw [byteAt_read, Bytes.byteAt_extract, byteAt_toBytes]
      split_ifs <;> first | rfl | omega
  rw [hread, Bytes.toList_extract, Nat.add_sub_cancel_left]

namespace Input

open Load Bytes

variable {volume other : Volume} {input : Input} {data : List UInt8} {file : FileId}

/-- The bytes that a stream has not given yet. -/
def rest (volume : Volume) (input : Input) : Option (List UInt8) :=
  match input.source with
  | none => some (input.fetched.data.toList.drop input.taken)
  | some (.file file, offset) =>
    some (input.fetched.data.toList.drop input.taken ++
      (volume.content file).toBytes.data.toList.drop offset)
  | some (.directory, _) => none

/-- A stream that does not come from a file. -/
def Apart (input : Input) (file : FileId) : Prop :=
  ∀ offset, input.source ≠ some (.file file, offset)

theorem rest_ofBytes (volume : Volume) (data : ByteArray) :
    (ofBytes data).rest volume = some data.data.toList := rfl

theorem apart_of_fetched (fetched : ByteArray) (taken : ℕ) (file : FileId) :
    (Input.mk fetched taken none).Apart file :=
  fun _ => Option.some_ne_none _ ∘ Eq.symm

/-- A file that is opened is a stream of its bytes. -/
theorem rest_openPath {path : String} {bytes : ByteArray} (h : openPath volume path = .ok input)
    (hread : volume.read path = .ok bytes) : input.rest volume = some bytes.data.toList := by
  unfold openPath at h
  unfold Volume.read at hread
  rcases hentry : volume.existing path with cause | ⟨_ | file⟩
  · rw [hentry] at h
    cases h
  · rw [hentry] at hread
    cases hread
  · rw [hentry] at h hread
    cases h
    cases hread
    rfl

/-- A stream goes on alike while its own file stays as it is. -/
theorem rest_congr (hapart : input.Apart file)
    (h : ∀ source ≠ file, other.content source = volume.content source) :
    input.rest other = input.rest volume := by
  unfold rest
  rcases hsource : input.source with _ | ⟨_ | source, offset⟩
  · rfl
  · rfl
  · dsimp only
    rw [h source]
    rintro rfl
    exact hapart offset hsource

theorem lineFeed?_eq (data : ByteArray) (i : ℕ) :
    lineFeed? data i =
      if i + (bareLine (data.data.toList.drop i)).length < data.size then
        some (i + (bareLine (data.data.toList.drop i)).length)
      else none := by
  fun_induction lineFeed? data i with
  | case1 i h hfeed =>
    have hdrop : data.data.toList.drop i = data[i] :: data.data.toList.drop (i + 1) :=
      List.drop_eq_getElem_cons h
    rw [hdrop, bareLine, List.takeWhile_cons_of_neg (by simp [hfeed]), List.length_nil,
      Nat.add_zero, if_pos h]
  | case2 i h hfeed ih =>
    have hdrop : data.data.toList.drop i = data[i] :: data.data.toList.drop (i + 1) :=
      List.drop_eq_getElem_cons h
    rw [ih, hdrop, bareLine, bareLine, List.takeWhile_cons_of_pos (by simp [hfeed]),
      List.length_cons]
    simp only [Nat.add_assoc, Nat.add_comm 1]
  | case3 i h =>
    have hdrop : data.data.toList.drop i = [] := List.drop_eq_nil_of_le (not_lt.mp h)
    rw [hdrop, bareLine, List.takeWhile_nil, List.length_nil, Nat.add_zero, if_neg h]

theorem lineFeed?_of_clear {fetched : ByteArray} {clear : ℕ}
    (hclear : ∀ byte ∈ fetched.data.toList.take clear, byte ≠ 10) (hle : clear ≤ fetched.size) :
    lineFeed? fetched clear =
      if (bareLine fetched.data.toList).length < fetched.size then
        some (bareLine fetched.data.toList).length
      else none := by
  have hlength : (fetched.data.toList.take clear).length = clear := List.length_take_of_le hle
  have hline := bareLine_append_of_all hclear (fetched.data.toList.drop clear)
  rw [List.take_append_drop] at hline
  rw [lineFeed?_eq, hline, List.length_append, hlength]

/-- A line is taken in full, from however many blocks, and no byte behind it is lost. -/
theorem lineOfFile_spec (content : Content) (file : FileId) (fetched : ByteArray) (clear offset : ℕ)
    (hclear : ∀ byte ∈ fetched.data.toList.take clear, byte ≠ 10) (hle : clear ≤ fetched.size)
    (hdata : fetched.data.toList ++ content.toBytes.data.toList.drop offset = data) :
    ∃ next after, lineOfFile content file fetched clear offset =
        ((firstLine data).toByteArray, next) ∧
      next.source = some (.file file, after) ∧
      next.fetched.data.toList.drop next.taken ++ content.toBytes.data.toList.drop after =
        behindLine data := by
  fun_induction lineOfFile content file fetched clear offset with
  | case1 fetched clear offset input i hfeed =>
    -- the line ends in what was fetched
    rw [lineFeed?_of_clear hclear hle] at hfeed
    split_ifs at hfeed with hlt
    cases hfeed
    subst hdata
    refine ⟨⟨fetched, (bareLine fetched.data.toList).length + 1, some (.file file, offset)⟩,
      offset, ?_, rfl, ?_⟩
    · unfold firstLine
      rw [bareLine_append_of_lt hlt, List.take_append_of_le_length hlt]
      exact congrArg (·, _) (extract_eq _ _ _)
    · unfold behindLine
      rw [bareLine_append_of_lt hlt, List.drop_append_of_le_length hlt]
  | case2 fetched clear offset input hnone block hblock =>
    -- the file has ended, and the line with it
    rw [lineFeed?_of_clear hclear hle] at hnone
    split_ifs at hnone with hlt
    have hread : (content.read offset blockSize).data.toList = [] :=
      List.eq_nil_of_length_eq_zero hblock
    rw [Content.toList_read, List.take_eq_nil_iff] at hread
    have hempty := hread.resolve_left (by decide)
    rw [hempty, List.append_nil] at hdata
    subst hdata
    refine ⟨⟨fetched, fetched.size, some (.file file, offset)⟩, offset, ?_, rfl, ?_⟩
    · rw [firstLine_of_length_le (not_lt.mp hlt)]
      exact congrArg (·, _) (extract_size_eq fetched 0)
    · rw [behindLine_of_length_le (not_lt.mp hlt), hempty, List.append_nil]
      exact List.drop_of_length_le (Nat.le_refl fetched.size)
  | case3 fetched clear offset hnone block hblock ih =>
    -- another block is fetched, and nothing before it is a line feed
    rw [lineFeed?_of_clear hclear hle] at hnone
    split_ifs at hnone with hlt
    have hread : block.data.toList = (content.toBytes.data.toList.drop offset).take blockSize :=
      content.toList_read offset blockSize
    have hmore : (fetched ++ block).data.toList = fetched.data.toList ++ block.data.toList := by
      rw [ByteArray.data_append, Array.toList_append]
    have hsplit := List.prefix_iff_eq_append.mp
      (List.take_prefix blockSize (content.toBytes.data.toList.drop offset))
    rw [← hread, List.drop_drop] at hsplit
    apply ih
    · rw [hmore, List.take_left' (show fetched.data.toList.length = fetched.size from rfl)]
      exact ne_of_length_le_bareLine (not_lt.mp hlt)
    · rw [ByteArray.size_append]
      exact Nat.le_add_right _ _
    · rw [hmore, List.append_assoc]
      exact (congrArg _ hsplit).trans hdata

theorem line_of_fetched (volume : Volume) (fetched : ByteArray) (taken : ℕ) :
    ∃ stop, (Input.mk fetched taken none).line volume =
        (.ok (firstLine (fetched.data.toList.drop taken)).toByteArray, ⟨fetched, stop, none⟩) ∧
      fetched.data.toList.drop stop = behindLine (fetched.data.toList.drop taken) := by
  have hlength : (fetched.data.toList.drop taken).length = fetched.size - taken :=
    List.length_drop ..
  unfold line
  dsimp only
  rw [lineFeed?_eq]
  split_ifs with hlt
  · refine ⟨_, congrArg (fun line => (Except.ok line, _)) ((extract_eq _ _ _).trans ?_), ?_⟩
    · rw [Option.elim_some, Nat.add_assoc, Nat.add_sub_cancel_left, firstLine]
    · rw [Option.elim_some, Nat.add_assoc, ← List.drop_drop, behindLine]
  · refine ⟨_, congrArg (fun line => (Except.ok line, _)) ((extract_size_eq _ _).trans ?_), ?_⟩
    · rw [firstLine_of_length_le (by omega)]
    · rw [behindLine_of_length_le (by omega)]
      exact List.drop_of_length_le (Nat.le_refl fetched.size)

/-- A line of a stream is its first one, and the bytes behind it are still to come. -/
theorem line_spec (h : input.rest volume = some data) :
    ∃ next, input.line volume = (.ok (firstLine data).toByteArray, next) ∧
      next.rest volume = some (behindLine data) ∧
      ∀ file, input.Apart file → next.Apart file := by
  obtain ⟨fetched, taken, source⟩ := input
  rcases source with _ | ⟨_ | file, offset⟩
  · cases h
    obtain ⟨stop, hline, hrest⟩ := line_of_fetched volume fetched taken
    exact ⟨_, hline, congrArg some hrest, fun file _ => apart_of_fetched _ _ file⟩
  · cases h
  · cases h
    have hfront : (fetched.extract taken fetched.size).data.toList =
        fetched.data.toList.drop taken := by
      rw [extract_size_eq, List.data_toByteArray]
    obtain ⟨next, after, hline, hsource, hrest⟩ := lineOfFile_spec (volume.content file) file
      (fetched.extract taken fetched.size) 0 offset (by simp) (Nat.zero_le _)
      (congrArg (· ++ _) hfront)
    refine ⟨next, ?_, ?_, fun other hapart further hnext => ?_⟩
    · unfold line
      dsimp only
      rw [hline]
    · unfold rest
      rw [hsource]
      exact congrArg some hrest
    · rw [hsource] at hnext
      cases hnext
      exact hapart offset rfl

end Input

/-! ## What a line says -/

namespace Load

open Utf8

/-- A line in its parts: a key, a comma, spaces, a value, and what ends the line. -/
structure Parts (line key spaces value ending : List UInt8) : Prop where
  line_eq : line = key ++ 44 :: (spaces ++ (value ++ ending))
  key_ne_nil : key ≠ []
  comma_notMem : 44 ∉ key
  of_mem_spaces : ∀ byte ∈ spaces, byte = 32
  head_ne : value.head? ≠ some 32
  last_ne : ∀ byte ∈ value.getLast?, byte ≠ 10 ∧ byte ≠ 13
  of_mem_ending : ∀ byte ∈ ending, byte = 10 ∨ byte = 13

/-- A line that says a key and a value. It has to be a text. -/
def Says (line : List UInt8) (entry : ByteArray × ByteArray) : Prop :=
  IsText line ∧ ∃ key spaces value ending, Parts line key spaces value ending ∧
    entry = (key.toByteArray, value.toByteArray)

def trimmed (line : List UInt8) : List UInt8 :=
  line.rdropWhile fun byte => byte = 10 ∨ byte = 13

theorem trimmed_append {ending : List UInt8} (h : ∀ byte ∈ ending, byte = 10 ∨ byte = 13)
    (line : List UInt8) : trimmed (line ++ ending) = trimmed line := by
  unfold trimmed List.rdropWhile
  rw [List.reverse_append, List.dropWhile_append_of_pos]
  intro byte hbyte
  exact decide_eq_true (h byte (List.mem_reverse.mp hbyte))

theorem trimmed_eq_self {line : List UInt8} (h : ∀ byte ∈ line.getLast?, byte ≠ 10 ∧ byte ≠ 13) :
    trimmed line = line := by
  refine List.rdropWhile_eq_self_iff.mpr fun hne => ?_
  have hlast := h _ (List.getLast?_eq_getLast_of_ne_nil hne)
  simpa using hlast

theorem last_trimmed_ne (line : List UInt8) :
    ∀ byte ∈ (trimmed line).getLast?, byte ≠ 10 ∧ byte ≠ 13 := by
  intro byte hbyte
  have hne : trimmed line ≠ [] := List.ne_nil_of_mem (List.mem_of_getLast? hbyte)
  have hlast := List.rdropWhile_last_not _ line hne
  rw [Option.mem_def, List.getLast?_eq_getLast_of_ne_nil hne, Option.some.injEq] at hbyte
  rw [← hbyte]
  simpa [trimmed] using hlast

theorem trimmed_chomp (line : List UInt8) : trimmed (chomp line) = trimmed line := by
  unfold chomp
  split
  · rename_i rest hreverse
    have hline : line = rest.reverse ++ [13, 10] := by
      rw [← line.reverse_reverse, hreverse]
      simp
    rw [hline, trimmed_append (by simp)]
  · rename_i rest _ hreverse
    have hline : line = rest.reverse ++ [10] := by
      rw [← line.reverse_reverse, hreverse]
      simp
    rw [hline, trimmed_append (by simp)]
  · rfl

theorem splitLine_eq (line : List UInt8) :
    splitLine line =
      match (trimmed line).dropWhile (· ≠ 44) with
      | [] => none
      | _ :: value =>
        if ((trimmed line).takeWhile (· ≠ 44)).isEmpty then none
        else some (((trimmed line).takeWhile (· ≠ 44)).toByteArray,
          (value.dropWhile (· = 32)).toByteArray) := rfl

theorem Parts.splitLine_eq {line key spaces value ending : List UInt8}
    (h : Parts line key spaces value ending) :
    splitLine line = some (key.toByteArray, value.toByteArray) := by
  have hkey : ∀ byte ∈ key, decide (byte ≠ 44) = true := by
    intro byte hbyte
    exact decide_eq_true (ne_of_mem_of_not_mem hbyte h.comma_notMem)
  have htrimmed : trimmed line = key ++ 44 :: (spaces ++ value) := by
    have hline : line = key ++ 44 :: (spaces ++ value) ++ ending := by
      rw [h.line_eq]
      simp
    rw [hline, trimmed_append h.of_mem_ending, trimmed_eq_self]
    intro byte hbyte
    rcases hvalue : value.getLast? with _ | last
    · rw [List.getLast?_eq_none_iff.mp hvalue, List.append_nil,
        List.getLast?_append_of_ne_nil _ (List.cons_ne_nil _ _)] at hbyte
      rcases List.mem_cons.mp (List.mem_of_getLast? hbyte) with rfl | hspace
      · decide
      · rw [h.of_mem_spaces byte hspace]
        decide
    · have hback : (key ++ 44 :: (spaces ++ value)).getLast? = some last := by
        rw [← List.cons_append, ← List.append_assoc, List.getLast?_append, hvalue, Option.some_or]
      rw [hback] at hbyte
      exact h.last_ne byte (hvalue.trans hbyte)
  have hspaces : (spaces ++ value).dropWhile (· = 32) = value := by
    rw [List.dropWhile_append_of_pos fun byte hbyte => decide_eq_true (h.of_mem_spaces byte hbyte)]
    rcases value with _ | ⟨byte, value⟩
    · rfl
    · exact List.dropWhile_cons_of_neg (by simpa using h.head_ne)
  rw [Load.splitLine_eq, htrimmed, List.dropWhile_append_of_pos hkey,
    List.takeWhile_append_of_pos hkey, List.dropWhile_cons_of_neg (by decide),
    List.takeWhile_cons_of_neg (by decide), List.append_nil]
  dsimp only
  rw [hspaces, if_neg (by simpa using h.key_ne_nil)]

theorem exists_parts {line : List UInt8} {entry : ByteArray × ByteArray}
    (h : splitLine line = some entry) : ∃ key spaces value ending,
      Parts line key spaces value ending ∧ entry = (key.toByteArray, value.toByteArray) := by
  have hwhole := (trimmed line).takeWhile_append_dropWhile (p := (· ≠ 44))
  have hline : trimmed line ++ line.rtakeWhile (fun byte => byte = 10 ∨ byte = 13) = line :=
    List.rdropWhile_append_rtakeWhile
  rw [splitLine_eq] at h
  rcases hback : (trimmed line).dropWhile (· ≠ 44) with _ | ⟨comma, value⟩
  · rw [hback] at h
    cases h
  rw [hback] at h hwhole
  dsimp only at h
  split_ifs at h with hempty
  cases h
  -- nothing but a comma ends the scan for one
  have hcomma : comma = 44 := by
    have hhead := List.head?_dropWhile_not (fun byte : UInt8 => decide (byte ≠ 44)) (trimmed line)
    rw [hback] at hhead
    simpa using hhead
  subst hcomma
  have hvalue := value.takeWhile_append_dropWhile (p := (· = 32))
  refine ⟨(trimmed line).takeWhile (· ≠ 44), value.takeWhile (· = 32), value.dropWhile (· = 32),
    line.rtakeWhile fun byte => byte = 10 ∨ byte = 13, ⟨?_, ?_, ?_, ?_, ?_, ?_, ?_⟩, rfl⟩
  · conv_lhs => rw [← hline]
    rw [← List.append_assoc, hvalue, ← List.cons_append, ← List.append_assoc, hwhole]
  · simpa using hempty
  · intro hmem
    simpa using List.mem_takeWhile_imp hmem
  · intro byte hbyte
    simpa using List.mem_takeWhile_imp hbyte
  · intro hspace
    have hhead := List.head?_dropWhile_not (fun byte : UInt8 => decide (byte = 32)) value
    rw [hspace] at hhead
    cases hhead
  · intro byte hbyte
    refine last_trimmed_ne line byte ?_
    rw [← hwhole, ← hvalue, ← List.cons_append, ← List.append_assoc, List.getLast?_append,
      Option.mem_def.mp hbyte]
    rfl
  · intro byte hbyte
    simpa using List.mem_rtakeWhile_imp hbyte

theorem says_iff {line : List UInt8} {entry : ByteArray × ByteArray} :
    Says line entry ↔ IsText line ∧ splitLine line = some entry := by
  refine and_congr_right fun _ => ⟨?_, exists_parts⟩
  rintro ⟨key, spaces, value, ending, hparts, rfl⟩
  exact hparts.splitLine_eq

theorem Says.unique {line : List UInt8} {entry other : ByteArray × ByteArray}
    (h : Says line entry) (h' : Says line other) : entry = other := by
  have hsplit := (says_iff.mp h).2
  rw [(says_iff.mp h').2] at hsplit
  exact (Option.some.inj hsplit).symm

theorem parseLine_eq_ok {number : ℕ} {line : List UInt8} {entry : ByteArray × ByteArray} :
    parseLine number line.toByteArray = .ok entry ↔
      IsText line ∧ splitLine line = some entry := by
  have hchomp : splitLine (chomp line) = splitLine line := by
    rw [splitLine_eq, trimmed_chomp, ← splitLine_eq]
  unfold parseLine
  rw [← isSome_strict?, List.data_toByteArray]
  dsimp only
  rw [hchomp]
  rcases strict? line.toByteArray with _ | text
  · simp
  · rcases splitLine line with _ | parts <;> simp

theorem parseLine_firstLine {number : ℕ} {data : List UInt8} {entry : ByteArray × ByteArray} :
    parseLine number (firstLine data).toByteArray = .ok entry ↔ Says (bareLine data) entry := by
  rw [parseLine_eq_ok, says_iff]
  rcases firstLine_eq data with hline | hline
  · rw [hline]
  · have htext : IsText (bareLine data ++ [10]) ↔ IsText (bareLine data) := by
      rw [isText_append_cons (by decide)]
      exact and_iff_left ⟨"", rfl⟩
    rw [hline, htext, splitLine_eq, trimmed_append (by simp), ← splitLine_eq]

theorem parseLine_eq_ok_iff {number : ℕ} {line : List UInt8}
    {entry : ByteArray × ByteArray} :
    parseLine number line.toByteArray = .ok entry ↔ Says line entry :=
  parseLine_eq_ok.trans says_iff.symm

theorem says_firstLine {data : List UInt8} {entry : ByteArray × ByteArray} :
    Says (firstLine data) entry ↔ Says (bareLine data) entry :=
  (@parseLine_eq_ok_iff 0 _ _).symm.trans parseLine_firstLine

theorem Says.isText {line : List UInt8} {entry : ByteArray × ByteArray} (h : Says line entry) :
    IsText entry.1.data.toList ∧ IsText entry.2.data.toList := by
  obtain ⟨htext, key, spaces, value, ending, hparts, rfl⟩ := h
  rw [hparts.line_eq, isText_append_cons (by decide)] at htext
  rw [List.data_toByteArray, List.data_toByteArray]
  refine ⟨htext.1, ?_⟩
  have hspaces : ∀ byte ∈ spaces, byte.toNat < 0x80 := by
    intro byte hbyte
    rw [hparts.of_mem_spaces byte hbyte]
    decide
  have hending : ∀ byte ∈ ending, byte.toNat < 0x80 := by
    intro byte hbyte
    rcases hparts.of_mem_ending byte hbyte with rfl | rfl <;> decide
  have hvalue := (isText_append_right hspaces).mp htext.2
  exact (isText_append_left hending).mp hvalue

end Load

end PackedIndex
