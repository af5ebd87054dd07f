import PackedIndex.Proofs.Build
import PackedIndex.Proofs.Lookup
/-! # From a run to its readers

What a run that went through leaves at its path: the bytes of its file, the answers to look-ups, and
the records in file order.
-/
namespace PackedIndex

namespace Reader.Pass

def run : ℕ → Pass → List (Except Damage Record) × Pass
  | 0, pass => ([], pass)
  | count + 1, pass =>
    match pass.next? with
    | none => ([], pass)
    | some (item, rest) => (item :: (run count rest).1, (run count rest).2)

/-- A pass goes on behind each of its items, damaged or not, until all of them are answered. -/
theorem run_eq (count : ℕ) (pass : Pass) :
    pass.run count =
      (pass.toList.take count, { pass with next := pass.next + min count pass.remaining }) := by
  induction count generalizing pass with
  | zero => simp [run]
  | succ count ih =>
    unfold run next?
    by_cases hnext : pass.next < pass.reader.layout.recordCount
    · have hremaining : pass.remaining =
          Pass.remaining { pass with next := pass.next + 1 } + 1 := by
        simp only [remaining]
        omega
      have hlist : pass.toList =
          pass.reader.recordAt pass.next :: Pass.toList { pass with next := pass.next + 1 } := by
        rw [toList, hremaining, List.range'_succ, List.map_cons]
        rfl
      rw [if_pos hnext]
      dsimp only
      rw [ih, hlist, List.take_succ_cons, hremaining, Nat.add_min_add_right, Nat.add_assoc,
        Nat.add_comm 1]
    · have hremaining : pass.remaining = 0 := Nat.sub_eq_zero_of_le (not_lt.mp hnext)
      rw [if_neg hnext, toList, hremaining]
      simp

end Reader.Pass

namespace Finished

variable {attributes : Attributes} {layout : Layout} {records : List Record} {file : Content}
  {order : KeyOrder} {path : String}

theorem recordAt_eq (h : Finished attributes layout records file) (hsize : file.size < Size.limit)
    {index : ℕ} (hindex : index < records.length) :
    (reader attributes layout path file order).recordAt index =
      .ok (records[index].padded layout.keySize) := by
  have hl := h.planned
  have hcount : index < layout.recordCount := h.length_eq ▸ hindex
  have hsplit : index / layout.recordsPerLeafPage * layout.recordsPerLeafPage +
      index % layout.recordsPerLeafPage = index := Nat.div_add_mod' _ _
  have hread := h.decodeLeaf_eq hsize (hl.leafPage_lt hcount) (hl.slot_lt hcount)
    (by rw [hsplit]; exact hindex)
  simp only [hsplit] at hread
  exact hread

theorem toList_eq (h : Finished attributes layout records file) (hsize : file.size < Size.limit)
    (path : String) (order : KeyOrder) (next : ℕ) :
    (Reader.Pass.mk (reader attributes layout path file order) next).toList =
      (records.drop next).map fun record => .ok (record.padded layout.keySize) := by
  unfold Reader.Pass.toList Reader.Pass.remaining
  dsimp only
  rw [layout_reader, ← h.length_eq]
  apply List.ext_getElem (by simp)
  intro index hindex _
  simp only [List.length_map, List.length_range'] at hindex
  simp [h.recordAt_eq hsize (show next + index < records.length by omega)]

/-- A pass that starts at a position answers the records from there on. -/
theorem run_eq (h : Finished attributes layout records file) (hsize : file.size < Size.limit)
    (path : String) (order : KeyOrder) (count next : ℕ) :
    Reader.Pass.run count ⟨reader attributes layout path file order, next⟩ =
      (((records.drop next).take count).map fun record => .ok (record.padded layout.keySize),
        ⟨reader attributes layout path file order, next + min count (records.length - next)⟩) := by
  rw [Reader.Pass.run_eq, h.toList_eq hsize, List.map_take, h.length_eq]
  rfl

theorem records_eq (h : Finished attributes layout records file) (hsize : file.size < Size.limit) :
    (reader attributes layout path file order).records =
      records.map fun record => .ok (record.padded layout.keySize) :=
  h.toList_eq hsize path order 0

end Finished

namespace Writer

def Built.keys (built : Built) (keySize : ℕ) : List ByteArray :=
  built.accepted.map fun record => Bytes.resize record.key keySize

/-- Whether the key of the record at a position is equal to another key, both in full width. -/
def Built.EqualAt (built : Built) (keySize : ℕ) (order : KeyOrder) (key : ByteArray) (index : ℕ) :
    Prop :=
  ∃ stored, (built.keys keySize)[index]? = some stored ∧
    order (Bytes.resize key keySize) stored = .eq

theorem Built.EqualAt.unique {built : Built} {keySize : ℕ} {order : KeyOrder} {key : ByteArray}
    {first second : ℕ} (horder : order.IsPreorder keySize)
    (hkeys : order.Increasing (built.keys keySize))
    (hfirst : built.EqualAt keySize order key first)
    (hsecond : built.EqualAt keySize order key second) : first = second := by
  obtain ⟨_, hfound, hequal⟩ := hfirst
  obtain ⟨_, hfound', hequal'⟩ := hsecond
  obtain ⟨hlt, rfl⟩ := List.getElem?_eq_some_iff.mp hfound
  obtain ⟨hlt', rfl⟩ := List.getElem?_eq_some_iff.mp hfound'
  refine hkeys.unique horder ?_ (Bytes.size_resize _ _) hlt hlt' hequal hequal'
  intro stored hstored
  obtain ⟨record, -, rfl⟩ := List.mem_map.mp hstored
  exact Bytes.size_resize _ _

section

variable {volume after : Volume} {path : String} {attributes : Attributes} {options : Options}
  {calls : List Call} {built : Built} {file : FileId}

namespace Leaves

theorem keySize_eq (h : Leaves volume path attributes options built after file) :
    built.layout.keySize = attributes.keySize :=
  h.finished.planned.keySize_eq

theorem keys_eq (h : Leaves volume path attributes options built after file) :
    Image.keys built.layout built.accepted = built.keys attributes.keySize := by
  rw [Image.keys, Built.keys, h.keySize_eq]

theorem openPath_eq (h : Leaves volume path attributes options built after file)
    (hsize : built.size < Size.limit) (order : KeyOrder) :
    Reader.openPath after path order =
      .ok (Finished.reader attributes built.layout path (after.content file) order) := by
  unfold Reader.openPath
  rw [h.existing_eq]
  exact h.finished.ofContent_eq (h.size_eq ▸ hsize) path order

theorem read_eq (h : Leaves volume path attributes options built after file) :
    after.read path = .ok (Image.bytes built.layout built.accepted attributes) := by
  unfold Volume.read
  rw [h.existing_eq, Outcome.ok_bind, ← h.finished.toBytes_eq]
  rfl

/-- Keys that were checked by a lawful order increase in it. -/
theorem increasing (h : Leaves volume path attributes options built after file)
    (horder : built.order.IsPreorder attributes.keySize) (hverify : options.verifyOrder = true) :
    built.order.Increasing (built.keys attributes.keySize) := by
  rw [← h.keys_eq]
  apply List.isChain_iff_getElem.mpr
  intro index hindex
  rw [Image.getElem_keys, Image.getElem_keys]
  have hgt := h.ascending hverify index (by simpa [Image.length_keys] using hindex)
  have hwidth : ∀ index, (Image.key built.layout built.accepted index).size = attributes.keySize :=
    fun index => (Image.size_key index).trans h.keySize_eq
  rw [horder.swap _ _ (hwidth (index + 1)) (hwidth index), hgt]
  rfl

theorem equalAt_iff (h : Leaves volume path attributes options built after file) {order : KeyOrder}
    {key : ByteArray} {index : ℕ} :
    built.EqualAt attributes.keySize order key index ↔ index < built.accepted.length ∧
      order (Bytes.resize key built.layout.keySize)
        (Image.key built.layout built.accepted index) = .eq := by
  unfold Built.EqualAt
  rw [← h.keys_eq, ← h.keySize_eq]
  constructor
  · rintro ⟨stored, hstored, hequal⟩
    obtain ⟨hindex, rfl⟩ := List.getElem?_eq_some_iff.mp hstored
    rw [Image.getElem_keys] at hequal
    exact ⟨by simpa [Image.length_keys] using hindex, hequal⟩
  · rintro ⟨hindex, hequal⟩
    have hkeys : index < (Image.keys built.layout built.accepted).length := by
      rwa [Image.length_keys]
    exact ⟨_, List.getElem?_eq_getElem hkeys, by rwa [Image.getElem_keys]⟩

end Leaves

/-- The file of a run depends on the attributes, the page size and the records that were taken, and
on nothing else. -/
theorem build_bytes (h : build volume path attributes options calls = (.ok built, after)) :
    Layout.plan attributes (pageSize volume options) = .ok built.layout ∧
      after.read path = .ok (Image.bytes built.layout built.accepted attributes) := by
  obtain ⟨file, hleaves⟩ := build_spec h
  constructor
  · rw [← hleaves.pageSize_eq]
    exact hleaves.finished.plan_eq
  · exact hleaves.read_eq

theorem build_bytes_sample : ∃ built after,
    build Sample.volume "t" Sample.attributes Sample.options Sample.calls = (.ok built, after) ∧
      after.read "t" = .ok (Image.bytes Sample.layout Sample.records Sample.attributes) := by
  obtain ⟨built, after, hbuild, haccepted, hlayout, -⟩ := Sample.exists_build
  have hbytes := (build_bytes hbuild).2
  rw [haccepted, hlayout] at hbytes
  exact ⟨built, after, hbuild, hbytes⟩

/-- The file of a run can be opened under any order and gives back all records that were taken, in
the order in which they were. -/
theorem records_build (h : build volume path attributes options calls = (.ok built, after))
    (hsize : built.size < Size.limit) (order : KeyOrder) :
    ∃ reader, Reader.openPath after path order = .ok reader ∧
      reader.header.attributes = attributes ∧ reader.layout = built.layout ∧
      reader.header.flags = ⟨false, built.layout.inlineBlock⟩ ∧ reader.file.size = built.size ∧
      built.accepted.length = attributes.recordCount ∧
      reader.records =
        built.accepted.map (fun record => .ok (record.padded attributes.keySize)) ∧
      ∀ count,
        (reader.pass.run count).1 = reader.records.take count ∧
        (reader.pass.run count).2.remaining = attributes.recordCount - count := by
  obtain ⟨file, hleaves⟩ := build_spec h
  have hfile : (after.content file).size < Size.limit := hleaves.size_eq ▸ hsize
  have hlength : built.accepted.length = attributes.recordCount :=
    hleaves.finished.length_eq.trans hleaves.finished.planned.recordCount_eq
  refine ⟨_, hleaves.openPath_eq hsize order, rfl, rfl, rfl, hleaves.size_eq.symm, hlength, ?_, ?_⟩
  · rw [hleaves.finished.records_eq hfile, hleaves.keySize_eq]
  · intro count
    have hrun := hleaves.finished.run_eq hfile path order count 0
    rw [Reader.pass, hrun, hleaves.finished.records_eq hfile]
    constructor
    · rw [List.drop_zero, List.map_take]
    · change built.layout.recordCount - (0 + min count (built.accepted.length - 0)) = _
      rw [← hleaves.finished.length_eq, hlength]
      omega

theorem records_build_sample : ∃ built after reader,
    build Sample.volume "t" Sample.attributes Sample.options Sample.calls = (.ok built, after) ∧
      Reader.openPath after "t" KeyOrder.reverse = .ok reader ∧ reader.layout = Sample.layout ∧
      reader.records = Sample.records.map fun record => .ok (record.padded 300) := by
  obtain ⟨built, after, hbuild, haccepted, hlayout, hsize⟩ := Sample.exists_build
  obtain ⟨reader, hopen, -, hplanned, -, -, -, hrecords, -⟩ :=
    records_build hbuild hsize KeyOrder.reverse
  rw [haccepted] at hrecords
  exact ⟨built, after, reader, hbuild, hopen, hplanned.trans hlayout, hrecords⟩

/-- The file of a run can be opened under an order in which the keys that were taken ascend, and a
look-up answers a record that was taken under an equal key, if there is one. Checked keys increase,
so that no two records can answer. -/
theorem get_build {order : KeyOrder}
    (h : build volume path attributes options calls = (.ok built, after))
    (hsize : built.size < Size.limit) (horder : order.IsPreorder attributes.keySize)
    (hsorted : order.Ascending (built.keys attributes.keySize) ∨
      options.verifyOrder = true ∧ built.order = order) :
    ∃ reader, Reader.openPath after path order = .ok reader ∧
      (∀ key : ByteArray, attributes.keySize < key.size →
        reader.get key = .error (.invalidArgument (.keyTooLong key.size attributes.keySize))) ∧
      (∀ key : ByteArray, key.size ≤ attributes.keySize →
        (∃ index record, built.accepted[index]? = some record ∧
          built.EqualAt attributes.keySize order key index ∧
          reader.get key = .ok (record.padded attributes.keySize)) ∨
        (∀ index, ¬built.EqualAt attributes.keySize order key index) ∧
          reader.get key = .error (.notFound (.key key))) ∧
      (options.verifyOrder = true ∧ built.order = order →
        order.Increasing (built.keys attributes.keySize)) ∧
      (order.Increasing (built.keys attributes.keySize) → ∀ key first second,
        built.EqualAt attributes.keySize order key first →
        built.EqualAt attributes.keySize order key second → first = second) := by
  obtain ⟨file, hleaves⟩ := build_spec h
  have hfile : (after.content file).size < Size.limit := hleaves.size_eq ▸ hsize
  have hkeySize := hleaves.keySize_eq
  have hincreasing : options.verifyOrder = true ∧ built.order = order →
      order.Increasing (built.keys attributes.keySize) := by
    rintro ⟨hverify, rfl⟩
    exact hleaves.increasing horder hverify
  have hascending : order.Ascending (built.keys attributes.keySize) :=
    hsorted.elim id fun hverified => (hincreasing hverified).ascending
  refine ⟨_, hleaves.openPath_eq hsize order, ?_, ?_, hincreasing, ?_⟩
  · intro key hkey
    rw [← hkeySize] at hkey ⊢
    exact Reader.get_of_size_gt _ hkey
  · intro key hkey
    rw [← hkeySize] at hkey horder
    rw [← hleaves.keys_eq] at hascending
    rcases hleaves.finished.get_of_sorted hfile horder hascending hkey path with
      ⟨index, hindex, hequal, hget⟩ | ⟨hnone, hget⟩
    · left
      refine ⟨index, _, List.getElem?_eq_getElem hindex,
        hleaves.equalAt_iff.mpr ⟨hindex, hequal⟩, ?_⟩
      rw [hget, hkeySize]
    · right
      refine ⟨?_, hget⟩
      intro index hequal
      obtain ⟨hindex, hequal⟩ := hleaves.equalAt_iff.mp hequal
      exact hnone index hindex hequal
  · intro hkeys key first second hfirst hsecond
    exact Built.EqualAt.unique horder hkeys hfirst hsecond

theorem get_build_sample : ∃ built after reader,
    build Sample.volume "t" Sample.attributes Sample.options Sample.calls = (.ok built, after) ∧
      Reader.openPath after "t" KeyOrder.bytewise = .ok reader ∧
      reader.get [2].toByteArray = .ok (.blob (Bytes.resize [2].toByteArray 300) [9].toByteArray) ∧
      reader.get [4].toByteArray = .error (.notFound (.key [4].toByteArray)) := by
  obtain ⟨built, after, hbuild, haccepted, -, hsize⟩ := Sample.exists_build
  have hkeys : built.keys 300 =
      [[1].toByteArray, [2].toByteArray, [3].toByteArray].map fun key => Bytes.resize key 300 := by
    rw [Built.keys, haccepted]
    rfl
  have hincreasing : KeyOrder.bytewise.Increasing (built.keys 300) := by
    rw [hkeys]
    simp only [KeyOrder.Increasing, List.map_cons, List.map_nil]
    decide +kernel
  have hsecond : built.EqualAt 300 KeyOrder.bytewise [2].toByteArray 1 := by
    refine ⟨Bytes.resize [2].toByteArray 300, ?_, ?_⟩
    · rw [hkeys]
      rfl
    · decide +kernel
  have hfourth : ∀ index, ¬built.EqualAt 300 KeyOrder.bytewise [4].toByteArray index := by
    rintro index ⟨stored, hstored, hequal⟩
    have hne : ∀ key ∈ [[1].toByteArray, [2].toByteArray, [3].toByteArray],
        KeyOrder.bytewise (Bytes.resize [4].toByteArray 300) (Bytes.resize key 300) ≠ .eq := by
      decide +kernel
    rw [hkeys] at hstored
    obtain ⟨key, hkey, rfl⟩ := List.mem_map.mp (List.mem_of_getElem? hstored)
    exact hne key hkey hequal
  obtain ⟨reader, hopen, -, hget, -, hunique⟩ :=
    get_build hbuild hsize (KeyOrder.bytewise_isPreorder 300) (Or.inl hincreasing.ascending)
  refine ⟨built, after, reader, hbuild, hopen, ?_, ?_⟩
  · rcases hget [2].toByteArray (by decide) with
      ⟨index, record, hrecord, hequal, hfound⟩ | ⟨hnone, -⟩
    · obtain rfl := hunique hincreasing _ _ _ hequal hsecond
      rw [haccepted] at hrecord
      cases hrecord
      exact hfound
    · exact absurd hsecond (hnone 1)
  · rcases hget [4].toByteArray (by decide) with ⟨index, -, -, hequal, -⟩ | ⟨-, hnone⟩
    · exact absurd hequal (hfourth index)
    · exact hnone

/-- The file of a run does not look damaged under any order, whatever the order of its keys. A
look-up answers a record that was taken and is equal to the query, or that there is none, and every
item of a pass is a record that was taken. -/
theorem undamaged_build (h : build volume path attributes options calls = (.ok built, after))
    (hsize : built.size < Size.limit) (order : KeyOrder) :
    ∃ reader, Reader.openPath after path order = .ok reader ∧
      (∀ key : ByteArray, key.size ≤ attributes.keySize →
        (∃ index record, built.accepted[index]? = some record ∧
          built.EqualAt attributes.keySize order key index ∧
          reader.get key = .ok (record.padded attributes.keySize)) ∨
        reader.get key = .error (.notFound (.key key))) ∧
      (∀ item ∈ reader.records,
        ∃ record ∈ built.accepted, item = .ok (record.padded attributes.keySize)) ∧
      ∀ count, ∀ item ∈ (reader.pass.run count).1,
        ∃ record ∈ built.accepted, item = .ok (record.padded attributes.keySize) := by
  obtain ⟨file, hleaves⟩ := build_spec h
  have hfile : (after.content file).size < Size.limit := hleaves.size_eq ▸ hsize
  have hkeySize := hleaves.keySize_eq
  refine ⟨_, hleaves.openPath_eq hsize order, ?_, ?_, ?_⟩
  · intro key hkey
    rw [← hkeySize] at hkey ⊢
    rcases hleaves.finished.get_of_any_order hfile hkey path order with
      ⟨index, hindex, hequal, hget⟩ | hnone
    · left
      refine ⟨index, _, List.getElem?_eq_getElem hindex, ?_, hget⟩
      rw [hkeySize]
      exact hleaves.equalAt_iff.mpr ⟨hindex, hequal⟩
    · exact Or.inr hnone
  · intro item hitem
    rw [hleaves.finished.records_eq hfile, hkeySize] at hitem
    obtain ⟨record, hrecord, rfl⟩ := List.mem_map.mp hitem
    exact ⟨record, hrecord, rfl⟩
  · intro count item hitem
    rw [Reader.pass, hleaves.finished.run_eq hfile, hkeySize] at hitem
    obtain ⟨record, hrecord, rfl⟩ := List.mem_map.mp hitem
    exact ⟨record, List.mem_of_mem_drop (List.mem_of_mem_take hrecord), rfl⟩

namespace Sample

/-- Keys are taken in any order, and more than once. -/
def unchecked : Options := { pageSize := some 636, verifyOrder := false }

/-- A key that descends and one that is repeated. -/
def shuffled : List Record :=
  [.blob [3].toByteArray [7].toByteArray, .blob [1].toByteArray [9].toByteArray,
    .blob [1].toByteArray ByteArray.empty]

theorem exists_build_shuffled : ∃ built after,
    build Sample.volume "t" Sample.attributes unchecked [.putMany shuffled] = (.ok built, after) ∧
      built.accepted = shuffled ∧ built.layout = layout ∧ built.size < Size.limit := by
  apply exists_build_of
  · rfl
  · rfl
  · decide +kernel
  · rfl
  · decide +kernel

end Sample

theorem undamaged_build_sample : ∃ built after reader,
    build Sample.volume "t" Sample.attributes Sample.unchecked [.putMany Sample.shuffled] =
      (.ok built, after) ∧
    Reader.openPath after "t" KeyOrder.reverse = .ok reader ∧
    ((∃ record ∈ Sample.shuffled, reader.get [1].toByteArray = .ok (record.padded 300)) ∨
      reader.get [1].toByteArray = .error (.notFound (.key [1].toByteArray))) := by
  obtain ⟨built, after, hbuild, haccepted, -, hsize⟩ := Sample.exists_build_shuffled
  obtain ⟨reader, hopen, hget, -, -⟩ := undamaged_build hbuild hsize KeyOrder.reverse
  refine ⟨built, after, reader, hbuild, hopen, ?_⟩
  rcases hget [1].toByteArray (by decide) with ⟨index, record, hrecord, -, hfound⟩ | hnone
  · rw [haccepted] at hrecord
    exact Or.inl ⟨record, List.mem_of_getElem? hrecord, hfound⟩
  · exact Or.inr hnone

end

end Writer

end PackedIndex
