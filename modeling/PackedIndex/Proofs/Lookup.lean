import PackedIndex.Proofs.KeyOrder
import PackedIndex.Proofs.Reading
import PackedIndex.Proofs.Search
/-! # Looking up a key

In a finished file every live child pointer leads to the child that the geometry expects, so that
a descent goes through under any comparison of keys. Under an order in which the records are
sorted, it ends at a record equal to the query when there is one.
-/
namespace PackedIndex

namespace Layout.Planned

variable {attributes : Attributes} {layout : Layout} (hl : layout.Planned attributes)
include hl

theorem separatorsIn_lt (level page : ℕ) :
    layout.separatorsIn level page < layout.branchingFactor := by
  have htwo := hl.two_le_branchingFactor
  unfold separatorsIn
  omega

theorem separators_room (level page : ℕ) :
    layout.separatorsIn level page * layout.keySize ≤ layout.pageSize := by
  have hlt := hl.separatorsIn_lt level page
  have hroom := hl.index_room
  have hkeys : layout.separatorsIn level page * layout.keySize ≤
      (layout.branchingFactor - 1) * layout.keySize := Nat.mul_le_mul_right _ (by omega)
  unfold pointerPosition at hroom
  omega

theorem separator_end_le {level page slot : ℕ} (hslot : slot < layout.separatorsIn level page) :
    slot * layout.keySize + layout.keySize ≤ layout.pointerPosition 0 := by
  have hlt := hl.separatorsIn_lt level page
  rw [pointerPosition, Nat.zero_mul, Nat.add_zero, ← Nat.succ_mul]
  exact Nat.mul_le_mul_right _ (by omega)

theorem child_lt {level page slot : ℕ} (hlevel : level < layout.numLevels)
    (hpage : page < (layout.region level).pages) (hslot : slot ≤ layout.separatorsIn level page) :
    page * layout.branchingFactor + slot < (layout.region (level + 1)).pages := by
  have hfirst := (hl.lt_pages_succ_iff hlevel page).mp hpage
  have htwo := hl.two_le_branchingFactor
  simp only [separatorsIn, childRegion] at hslot
  omega

theorem childOffset_lt {level page slot : ℕ} (hlevel : level < layout.numLevels)
    (hpage : page < (layout.region level).pages) (hslot : slot ≤ layout.separatorsIn level page) :
    layout.childOffset level (page * layout.branchingFactor + slot) < Size.limit := by
  have hchild := hl.child_lt hlevel hpage hslot
  have hend := hl.page_end_le_leafEnd (Nat.add_one_le_of_lt hlevel) hchild
  have hlimit := hl.leafEnd_lt
  rw [childOffset_eq]
  omega

/-- A child pointer is followed when it leads to its child, and is damage otherwise. -/
theorem childPage_eq {level page slot : ℕ} (hlevel : level < layout.numLevels)
    (hpage : page < (layout.region level).pages) (hslot : slot ≤ layout.separatorsIn level page)
    (pointer : ℕ) :
    Reader.childPage layout level page slot pointer =
      if pointer = layout.childOffset level (page * layout.branchingFactor + slot) then
        .ok (page * layout.branchingFactor + slot)
      else .error (.childPointer pointer level page slot
        (layout.childOffset level (page * layout.branchingFactor + slot))) := by
  have hchild := not_le.mpr (hl.child_lt hlevel hpage hslot)
  unfold Reader.childPage
  dsimp only
  split_ifs with hbad hpointer hpointer
  · exact absurd hpointer (hbad.resolve_left hchild)
  · rfl
  · rfl
  · exact absurd (Or.inr hpointer) hbad

end Layout.Planned

theorem padKey_of_size_le {key : ByteArray} {keySize : ℕ} (h : key.size ≤ keySize) :
    padKey key keySize = .ok (Bytes.resize key keySize) :=
  if_neg (not_lt.mpr h)

theorem padKey_of_lt_size {key : ByteArray} {keySize : ℕ} (h : keySize < key.size) :
    padKey key keySize = .error (.keyTooLong key.size keySize) :=
  if_pos h

theorem Reader.get_eq (reader : Reader) {key : ByteArray} (hkey : key.size ≤ reader.layout.keySize) :
    reader.get key =
      match reader.lookup (Bytes.resize key reader.layout.keySize) with
      | .ok (some record) => .ok record
      | .ok none => .error (.notFound (.key key))
      | .error damage => .error (.corruption damage) := by
  unfold Reader.get
  rw [padKey_of_size_le hkey, Outcome.mapError_ok, Outcome.ok_bind]
  rcases reader.lookup (Bytes.resize key reader.layout.keySize) with damage | ⟨⟨⟩ | record⟩
  · rfl
  · rfl
  · rfl

theorem Reader.get_of_size_gt (reader : Reader) {key : ByteArray}
    (hkey : reader.layout.keySize < key.size) :
    reader.get key = .error (.invalidArgument (.keyTooLong key.size reader.layout.keySize)) := by
  unfold Reader.get
  rw [padKey_of_lt_size hkey]
  rfl

namespace Finished

variable {attributes : Attributes} {layout : Layout} {records : List Record} {file : Content}

def reader (attributes : Attributes) (layout : Layout) (path : String) (file : Content)
    (order : KeyOrder) : Reader :=
  ⟨path, file, header attributes layout, order⟩

section

variable (attributes layout) (path : String) (file) (order : KeyOrder)

@[simp] theorem layout_reader : (reader attributes layout path file order).layout = layout := rfl

@[simp] theorem file_reader : (reader attributes layout path file order).file = file := rfl

@[simp] theorem order_reader : (reader attributes layout path file order).order = order := rfl

@[simp] theorem attributes_reader :
    (reader attributes layout path file order).header.attributes = attributes := rfl

end

/-- The slot of the child that a query goes down to from an index page. -/
def childSlot (layout : Layout) (records : List Record) (order : KeyOrder) (query : ByteArray)
    (level page : ℕ) : ℕ :=
  Search.findChild order query
    (Image.indexPage layout records level page (layout.separatorsIn level page)) layout.keySize
    (layout.separatorsIn level page)

theorem childSlot_le (h : Finished attributes layout records file) (order : KeyOrder)
    (query : ByteArray) (level page : ℕ) :
    childSlot layout records order query level page ≤ layout.separatorsIn level page := by
  apply Search.findChild_le h.planned.keySize_pos
  rw [Image.size_indexPage]
  exact h.planned.separators_room level page

variable {order : KeyOrder} {query : ByteArray} {path : String}

theorem descend_succ (h : Finished attributes layout records file) {remaining page : ℕ}
    (hremaining : remaining < layout.numLevels)
    (hpage : page < (layout.region (layout.numLevels - (remaining + 1))).pages) :
    (reader attributes layout path file order).descend query (remaining + 1) page =
      (reader attributes layout path file order).descend query remaining
        (page * layout.branchingFactor +
          childSlot layout records order query (layout.numLevels - (remaining + 1)) page) := by
  have hl := h.planned
  have hlevel : layout.numLevels - (remaining + 1) < layout.numLevels := by omega
  generalize hlevels : layout.numLevels - (remaining + 1) = level at hpage hlevel ⊢
  have hslot := h.childSlot_le order query level page
  have hin := h.has_page hlevel.le hpage
  rw [Image.page, if_pos hlevel] at hin
  have hpointer : BigEndian.read
      (Image.indexPage layout records level page (layout.separatorsIn level page))
      (layout.pointerPosition (childSlot layout records order query level page)) Size.pointer =
      layout.childOffset level
        (page * layout.branchingFactor + childSlot layout records order query level page) :=
    BigEndian.read_eq (Image.extract_pointer hslot (hl.separatorsIn_lt level page) hl.index_room)
      rfl (hl.childOffset_lt hlevel hpage hslot)
  rw [Reader.descend]
  dsimp only
  rw [layout_reader, file_reader, order_reader, hlevels,
    extent_eq hin (Image.size_indexPage _ _ _), Outcome.ok_bind, ← childSlot, hpointer,
    hl.childPage_eq hlevel hpage hslot, if_pos rfl, Outcome.ok_bind]

/-- A descent goes through, and what each step down preserves is true of the leaf page. -/
theorem descend_spec (h : Finished attributes layout records file) (path : String)
    (order : KeyOrder) (query : ByteArray) {P : ℕ → ℕ → Prop}
    (hstep : ∀ level < layout.numLevels, ∀ page < (layout.region level).pages, P level page →
      P (level + 1)
        (page * layout.branchingFactor + childSlot layout records order query level page))
    {remaining page : ℕ} (hremaining : remaining ≤ layout.numLevels)
    (hpage : page < (layout.region (layout.numLevels - remaining)).pages)
    (hP : P (layout.numLevels - remaining) page) :
    ∃ leaf < layout.leafPages,
      (reader attributes layout path file order).descend query remaining page = .ok leaf ∧
        P layout.numLevels leaf := by
  induction remaining generalizing page with
  | zero =>
    rw [Nat.sub_zero] at hpage hP
    rw [Layout.region_numLevels] at hpage
    exact ⟨page, hpage, rfl, hP⟩
  | succ remaining ih =>
    have hlevel : layout.numLevels - (remaining + 1) < layout.numLevels := by omega
    have hnext : layout.numLevels - (remaining + 1) + 1 = layout.numLevels - remaining := by omega
    have hchild := h.planned.child_lt hlevel hpage (h.childSlot_le order query _ page)
    have hP' := hstep _ hlevel page hpage hP
    rw [hnext] at hchild hP'
    rw [h.descend_succ hremaining hpage]
    exact ih (Nat.le_of_succ_le hremaining) hchild hP'

def leafSlot (layout : Layout) (records : List Record) (order : KeyOrder) (query : ByteArray)
    (leaf : ℕ) : Option ℕ :=
  Search.findInLeaf order query
    (Image.leafPage layout records leaf (layout.recordsInLeaf leaf)) layout.leafRecordSize
    layout.keySize (layout.recordsInLeaf leaf)

theorem recordsInLeaf_room (h : Finished attributes layout records file) (leaf : ℕ) :
    layout.recordsInLeaf leaf * layout.leafRecordSize ≤
      (Image.leafPage layout records leaf (layout.recordsInLeaf leaf)).size := by
  have hcount : layout.recordsInLeaf leaf ≤ layout.recordsPerLeafPage := Nat.min_le_right _ _
  rw [Image.size_leafPage]
  exact (Nat.mul_le_mul_right _ hcount).trans h.planned.leaf_room

theorem leafSlot_lt (h : Finished attributes layout records file) {leaf slot : ℕ}
    (hslot : leafSlot layout records order query leaf = some slot) :
    slot < layout.recordsInLeaf leaf := by
  rcases Search.findInLeaf_spec order query layout.keySize
    h.planned.leafRecordSize_pos (h.recordsInLeaf_room leaf) with
    ⟨found, hfound, -, -, heq⟩ | ⟨-, -, -, -, heq⟩
  · rw [leafSlot, heq] at hslot
    cases hslot
    exact hfound
  · rw [leafSlot, heq] at hslot
    cases hslot

theorem index_lt (h : Finished attributes layout records file) {leaf slot : ℕ}
    (hslot : slot < layout.recordsInLeaf leaf) :
    leaf * layout.recordsPerLeafPage + slot < records.length := by
  have hlength := h.length_eq
  unfold Layout.recordsInLeaf at hslot
  omega

/-- A look-up ends on a leaf page and answers the record found there. -/
theorem lookup_spec (h : Finished attributes layout records file) (hsize : file.size < Size.limit)
    (path : String) (order : KeyOrder) (query : ByteArray) {P : ℕ → ℕ → Prop} (hroot : P 0 0)
    (hstep : ∀ level < layout.numLevels, ∀ page < (layout.region level).pages, P level page →
      P (level + 1)
        (page * layout.branchingFactor + childSlot layout records order query level page)) :
    ∃ leaf < layout.leafPages, P layout.numLevels leaf ∧
      (reader attributes layout path file order).lookup query =
        .ok ((leafSlot layout records order query leaf).bind fun slot =>
          (records[leaf * layout.recordsPerLeafPage + slot]?).map (·.padded layout.keySize)) := by
  have hl := h.planned
  have hpage : 0 < (layout.region (layout.numLevels - layout.numLevels)).pages := by
    rw [Nat.sub_self, hl.pages_zero]
    exact Nat.one_pos
  obtain ⟨leaf, hleaf, hdescend, hP⟩ := h.descend_spec path order query hstep le_rfl hpage
    (by rw [Nat.sub_self]; exact hroot)
  refine ⟨leaf, hleaf, hP, ?_⟩
  have hin := h.has_leafPage hleaf
  unfold Reader.lookup
  dsimp only
  rw [layout_reader, hdescend, Outcome.ok_bind, file_reader, order_reader, attributes_reader,
    extent_eq hin (Image.size_leafPage _ _), Outcome.ok_bind, ← leafSlot]
  cases hslot : leafSlot layout records order query leaf with
  | none => rfl
  | some slot =>
    have hlt := h.leafSlot_lt hslot
    have hindex := h.index_lt hlt
    dsimp only
    rw [h.decodeLeaf_eq hsize hleaf hlt hindex, Outcome.ok_bind, Option.bind_some,
      List.getElem?_eq_getElem hindex]
    rfl

theorem keyAt_leafPage (h : Finished attributes layout records file) {leaf slot : ℕ}
    (hslot : slot < layout.recordsInLeaf leaf) :
    Search.keyAt (Image.leafPage layout records leaf (layout.recordsInLeaf leaf))
        layout.leafRecordSize layout.keySize slot =
      Image.key layout records (leaf * layout.recordsPerLeafPage + slot) := by
  have hindex := h.index_lt hslot
  have hroom := h.recordsInLeaf_room leaf
  rw [Image.size_leafPage] at hroom
  have hrecord := Image.extract_leafPage hslot
    (fun other hother => h.size_leaf (h.index_lt hother)) hroom
  have hkey := congrArg (fun bytes : ByteArray => bytes.extract 0 layout.keySize) hrecord
  rw [ByteArray.extract_extract, Nat.add_zero,
    Nat.min_eq_left (Nat.add_le_add_left h.planned.keySize_le _), Image.leaf_eq hindex,
    Encoding.extract_leaf, ← Image.key_eq hindex] at hkey
  exact hkey

theorem leafSlot_eq (h : Finished attributes layout records file) {leaf slot : ℕ}
    (hslot : leafSlot layout records order query leaf = some slot) :
    order query (Image.key layout records (leaf * layout.recordsPerLeafPage + slot)) = .eq := by
  have hlt := h.leafSlot_lt hslot
  rcases Search.findInLeaf_spec order query layout.keySize
    h.planned.leafRecordSize_pos (h.recordsInLeaf_room leaf) with
    ⟨found, -, -, hcompare, heq⟩ | ⟨-, -, -, -, heq⟩
  · rw [leafSlot, heq] at hslot
    cases hslot
    rwa [h.keyAt_leafPage hlt] at hcompare
  · rw [leafSlot, heq] at hslot
    cases hslot

/-- Under any order a key that fits is answered by a record equal to it, or by none. -/
theorem get_of_any_order (h : Finished attributes layout records file)
    (hsize : file.size < Size.limit) {key : ByteArray} (hkey : key.size ≤ layout.keySize)
    (path : String) (order : KeyOrder) :
    (∃ index, ∃ hindex : index < records.length,
      order (Bytes.resize key layout.keySize) (Image.key layout records index) = .eq ∧
      (reader attributes layout path file order).get key =
        .ok (records[index].padded layout.keySize)) ∨
    (reader attributes layout path file order).get key = .error (.notFound (.key key)) := by
  obtain ⟨leaf, -, -, hlookup⟩ := h.lookup_spec hsize path order
    (Bytes.resize key layout.keySize) (P := fun _ _ => True) trivial fun _ _ _ _ _ => trivial
  rw [Reader.get_eq _ hkey, layout_reader, hlookup]
  cases hslot : leafSlot layout records order (Bytes.resize key layout.keySize) leaf with
  | some slot =>
    have hindex := h.index_lt (h.leafSlot_lt hslot)
    refine Or.inl ⟨_, hindex, h.leafSlot_eq hslot, ?_⟩
    rw [Option.bind_some, List.getElem?_eq_getElem hindex, Option.map_some]
  | none => exact Or.inr rfl

/-! ## Sorted records -/

/-- The separators of an index page are the first keys of its children but the first. -/
theorem keyAt_indexPage (h : Finished attributes layout records file) {level page slot : ℕ}
    (hslot : slot < layout.separatorsIn level page) :
    Search.keyAt (Image.indexPage layout records level page (layout.separatorsIn level page))
        layout.keySize layout.keySize slot =
      Image.separator layout records level (page * layout.branchingFactor + slot + 1) :=
  Image.extract_separator hslot (h.planned.separatorsIn_lt level page) h.planned.index_room

/-- Whether a record equal to the query is under a page. -/
def Matches (layout : Layout) (records : List Record) (order : KeyOrder) (query : ByteArray)
    (level page : ℕ) : Prop :=
  ∃ index < records.length,
    layout.openPage level (index / layout.recordsPerLeafPage) = page ∧
      order query (Image.key layout records index) = .eq

theorem key_isLE (hsorted : order.Ascending (Image.keys layout records))
    (horder : order.IsPreorder layout.keySize) {first second : ℕ} (hle : first ≤ second)
    (hsecond : second < records.length) :
    (order (Image.key layout records first) (Image.key layout records second)).isLE := by
  have hin : second < (Image.keys layout records).length := by
    rw [Image.length_keys]
    exact hsecond
  have hkeys := hsorted.isLE horder (fun _ h => Image.size_of_mem_keys h) hle hin
  rwa [Image.getElem_keys, Image.getElem_keys] at hkeys

/-- A key that the query is greater than is in front of those equal to the query. -/
theorem lt_of_key_gt (hsorted : order.Ascending (Image.keys layout records))
    (horder : order.IsPreorder layout.keySize) (hquery : query.size = layout.keySize)
    {index other : ℕ} (hother : other < records.length)
    (hequal : order query (Image.key layout records index) = .eq)
    (hgt : order query (Image.key layout records other) = .gt) : other < index := by
  by_contra hnot
  have hcontra := horder.gt_of_isLE hquery (Image.size_key _) (Image.size_key _) hgt
    (key_isLE hsorted horder (not_lt.mp hnot) hother)
  rw [hequal] at hcontra
  cases hcontra

theorem lt_of_key_lt (hsorted : order.Ascending (Image.keys layout records))
    (horder : order.IsPreorder layout.keySize) (hquery : query.size = layout.keySize)
    {index other : ℕ} (hindex : index < records.length)
    (hequal : order query (Image.key layout records index) = .eq)
    (hlt : order query (Image.key layout records other) = .lt) : index < other := by
  by_contra hnot
  have hcontra := horder.lt_of_isLE hquery (Image.size_key _) (Image.size_key _) hlt
    (key_isLE hsorted horder (not_lt.mp hnot) hindex)
  rw [hequal] at hcontra
  cases hcontra

theorem separator_first (h : Finished attributes layout records file) {level page slot : ℕ}
    (hlevel : level < layout.numLevels) (hpage : page < (layout.region level).pages)
    (hslot : slot < layout.separatorsIn level page) :
    ∃ index < records.length,
      Image.separator layout records level (page * layout.branchingFactor + slot + 1) =
        Image.key layout records index ∧
      layout.openPage (level + 1) (index / layout.recordsPerLeafPage) =
        page * layout.branchingFactor + slot + 1 ∧
      ∀ other, layout.openPage (level + 1) (other / layout.recordsPerLeafPage) <
          page * layout.branchingFactor + slot + 1 ↔ other < index := by
  have hl := h.planned
  have hchild := hl.child_lt hlevel hpage hslot
  have hpower := hl.power_pos (layout.numLevels - (level + 1))
  have hroom := hl.recordsPerLeafPage_pos
  refine ⟨_, ?_, rfl, ?_, ?_⟩
  · have hleaf := (hl.lt_pages_iff (Nat.add_one_le_of_lt hlevel) _).mp hchild
    rw [hl.leafPages_eq, Size.lt_ceilDiv_iff hroom, ← h.length_eq] at hleaf
    exact hleaf
  · rw [Nat.mul_div_cancel _ hroom, Layout.openPage, Nat.mul_div_cancel _ hpower]
  · intro other
    unfold Layout.openPage
    rw [Nat.div_lt_iff_lt_mul hpower, Nat.div_lt_iff_lt_mul hroom]

/-- A record that is equal to the query is not in front of the child of a separator passed. -/
theorem lt_openPage_of_gt (h : Finished attributes layout records file)
    (horder : order.IsPreorder layout.keySize)
    (hsorted : order.Ascending (Image.keys layout records))
    (hquery : query.size = layout.keySize) {level page slot index : ℕ}
    (hlevel : level < layout.numLevels) (hpage : page < (layout.region level).pages)
    (hslot : slot < layout.separatorsIn level page)
    (hequal : order query (Image.key layout records index) = .eq)
    (hgt : order query (Search.keyAt (Image.indexPage layout records level page
      (layout.separatorsIn level page)) layout.keySize layout.keySize slot) = .gt) :
    page * layout.branchingFactor + slot <
      layout.openPage (level + 1) (index / layout.recordsPerLeafPage) := by
  obtain ⟨first, hfirst, hkey, -, hbelow⟩ := h.separator_first hlevel hpage hslot
  rw [h.keyAt_indexPage hslot, hkey] at hgt
  have hless := lt_of_key_gt hsorted horder hquery hfirst hequal hgt
  have hnot := mt (hbelow index).mp (not_lt.mpr hless.le)
  exact not_lt.mp hnot

theorem openPage_le_of_lt (h : Finished attributes layout records file)
    (horder : order.IsPreorder layout.keySize)
    (hsorted : order.Ascending (Image.keys layout records))
    (hquery : query.size = layout.keySize) {level page slot index : ℕ}
    (hlevel : level < layout.numLevels) (hpage : page < (layout.region level).pages)
    (hslot : slot < layout.separatorsIn level page) (hindex : index < records.length)
    (hequal : order query (Image.key layout records index) = .eq)
    (hlt : order query (Search.keyAt (Image.indexPage layout records level page
      (layout.separatorsIn level page)) layout.keySize layout.keySize slot) = .lt) :
    layout.openPage (level + 1) (index / layout.recordsPerLeafPage) ≤
      page * layout.branchingFactor + slot := by
  obtain ⟨first, -, hkey, -, hbelow⟩ := h.separator_first hlevel hpage hslot
  rw [h.keyAt_indexPage hslot, hkey] at hlt
  have hless := lt_of_key_lt hsorted horder hquery hindex hequal hlt
  exact Nat.le_of_lt_succ ((hbelow index).mpr hless)

/-- A descent does not lose the records equal to the query. -/
theorem matches_childSlot (h : Finished attributes layout records file)
    (horder : order.IsPreorder layout.keySize)
    (hsorted : order.Ascending (Image.keys layout records))
    (hquery : query.size = layout.keySize) {level page : ℕ} (hlevel : level < layout.numLevels)
    (hpage : page < (layout.region level).pages)
    (hmatch : Matches layout records order query level page) :
    Matches layout records order query (level + 1)
      (page * layout.branchingFactor + childSlot layout records order query level page) := by
  have hl := h.planned
  have hroom : layout.separatorsIn level page * layout.keySize ≤
      (Image.indexPage layout records level page (layout.separatorsIn level page)).size := by
    rw [Image.size_indexPage]
    exact hl.separators_room level page
  obtain ⟨index, hindex, hopen, hequal⟩ := hmatch
  obtain ⟨slot, hslot, hpasses, hcase⟩ :=
    Search.findChild_spec order query hl.keySize_pos hroom
  have hchild :=
    hl.openPage_lt (Nat.add_one_le_of_lt hlevel) (hl.leafPage_lt (h.length_eq ▸ hindex))
  have hparent := layout.openPage_mul_add hlevel (index / layout.recordsPerLeafPage)
  have hslots := hl.openSlots_lt level (index / layout.recordsPerLeafPage)
  rw [hopen] at hparent
  -- the record is not in front of the child, as the separator there is passed
  have hleast : page * layout.branchingFactor + slot ≤
      layout.openPage (level + 1) (index / layout.recordsPerLeafPage) := by
    cases slot with
    | zero => omega
    | succ slot =>
      exact h.lt_openPage_of_gt horder hsorted hquery hlevel hpage hslot hequal
        (hpasses slot (Nat.lt_succ_self slot))
  unfold childSlot
  rcases hcase with ⟨hlast, hfound⟩ | ⟨hlt, hcompare, hfound⟩ | ⟨hlt, hcompare, hfound⟩
  · -- every separator is passed
    rw [hfound]
    refine ⟨index, hindex, ?_, hequal⟩
    simp only [Layout.separatorsIn, Layout.childRegion] at hlast
    omega
  · -- the separator is equal to the query, and so is the record it was taken from
    obtain ⟨first, hfirst, hkey, hplace, -⟩ := h.separator_first hlevel hpage hlt
    rw [h.keyAt_indexPage hlt, hkey] at hcompare
    rw [hfound]
    exact ⟨first, hfirst, hplace, hcompare⟩
  · -- the separator is not passed, so the record is not behind the child either
    rw [hfound]
    have hmost := h.openPage_le_of_lt horder hsorted hquery hlevel hpage hlt hindex hequal hcompare
    exact ⟨index, hindex, Nat.le_antisymm hmost hleast, hequal⟩

/-- On the leaf page of a record equal to the query such a record is found. -/
theorem leafSlot_of_matches (h : Finished attributes layout records file)
    (horder : order.IsPreorder layout.keySize)
    (hsorted : order.Ascending (Image.keys layout records))
    (hquery : query.size = layout.keySize) {leaf : ℕ}
    (hmatch : Matches layout records order query layout.numLevels leaf) :
    (leafSlot layout records order query leaf).isSome := by
  obtain ⟨index, hindex, hopen, hequal⟩ := hmatch
  rw [Layout.openPage_numLevels] at hopen
  have hroom := h.planned.recordsPerLeafPage_pos
  have hsplit := Nat.div_add_mod' index layout.recordsPerLeafPage
  have hmod := Nat.mod_lt index hroom
  have hlength := h.length_eq
  have hslot : index % layout.recordsPerLeafPage < layout.recordsInLeaf leaf := by
    unfold Layout.recordsInLeaf
    rw [← hopen]
    omega
  rcases Search.findInLeaf_spec order query layout.keySize
    h.planned.leafRecordSize_pos (h.recordsInLeaf_room leaf) with
    ⟨found, -, -, -, hfound⟩ | ⟨stop, hstop, hpasses, hless, -⟩
  · rw [leafSlot, hfound]
    rfl
  · -- the scan has neither passed the record nor stopped in front of it
    exfalso
    rw [← hopen] at hslot hstop hpasses hless
    rcases Nat.lt_or_ge (index % layout.recordsPerLeafPage) stop with hbefore | hbehind
    · have hgt := hpasses _ hbefore
      rw [h.keyAt_leafPage hslot, hsplit, hequal] at hgt
      cases hgt
    · have hlt := hless (by omega)
      rw [h.keyAt_leafPage (by omega)] at hlt
      have hbelow := lt_of_key_lt hsorted horder hquery hindex hequal hlt
      omega

/-- Among sorted records a look-up finds one that is equal to the query, if there is any. -/
theorem lookup_of_sorted (h : Finished attributes layout records file)
    (hsize : file.size < Size.limit) (horder : order.IsPreorder layout.keySize)
    (hsorted : order.Ascending (Image.keys layout records)) (hquery : query.size = layout.keySize)
    (path : String) :
    (∃ index, ∃ hindex : index < records.length,
      order query (Image.key layout records index) = .eq ∧
      (reader attributes layout path file order).lookup query =
        .ok (some (records[index].padded layout.keySize))) ∨
    ((∀ index < records.length, order query (Image.key layout records index) ≠ .eq) ∧
      (reader attributes layout path file order).lookup query = .ok none) := by
  have hl := h.planned
  -- what every step of the descent keeps
  let P := fun level page =>
    (∃ index < records.length, order query (Image.key layout records index) = .eq) →
      Matches layout records order query level page
  have hroot : P 0 0 := by
    rintro ⟨index, hindex, hequal⟩
    exact ⟨index, hindex, hl.openPage_zero (hl.leafPage_lt (h.length_eq ▸ hindex)), hequal⟩
  have hstep : ∀ level < layout.numLevels, ∀ page < (layout.region level).pages, P level page →
      P (level + 1)
        (page * layout.branchingFactor + childSlot layout records order query level page) := by
    intro level hlevel page hpage hP hany
    exact h.matches_childSlot horder hsorted hquery hlevel hpage (hP hany)
  obtain ⟨leaf, -, hP, hlookup⟩ := h.lookup_spec hsize path order query hroot hstep
  rw [hlookup]
  cases hslot : leafSlot layout records order query leaf with
  | some slot =>
    have hindex := h.index_lt (h.leafSlot_lt hslot)
    refine Or.inl ⟨_, hindex, h.leafSlot_eq hslot, ?_⟩
    rw [Option.bind_some, List.getElem?_eq_getElem hindex, Option.map_some]
  | none =>
    refine Or.inr ⟨?_, rfl⟩
    intro index hindex hequal
    have hsome := h.leafSlot_of_matches horder hsorted hquery (hP ⟨index, hindex, hequal⟩)
    rw [hslot] at hsome
    cases hsome

theorem get_of_sorted (h : Finished attributes layout records file)
    (hsize : file.size < Size.limit) (horder : order.IsPreorder layout.keySize)
    (hsorted : order.Ascending (Image.keys layout records)) {key : ByteArray}
    (hkey : key.size ≤ layout.keySize) (path : String) :
    (∃ index, ∃ hindex : index < records.length,
      order (Bytes.resize key layout.keySize) (Image.key layout records index) = .eq ∧
      (reader attributes layout path file order).get key =
        .ok (records[index].padded layout.keySize)) ∨
    ((∀ index < records.length,
        order (Bytes.resize key layout.keySize) (Image.key layout records index) ≠ .eq) ∧
      (reader attributes layout path file order).get key = .error (.notFound (.key key))) := by
  rw [Reader.get_eq _ hkey, layout_reader]
  rcases h.lookup_of_sorted hsize horder hsorted (Bytes.size_resize key _) path with
    ⟨index, hindex, hequal, hlookup⟩ | ⟨hnone, hlookup⟩
  · rw [hlookup]
    exact Or.inl ⟨index, hindex, hequal, rfl⟩
  · rw [hlookup]
    exact Or.inr ⟨hnone, rfl⟩

end Finished

end PackedIndex
