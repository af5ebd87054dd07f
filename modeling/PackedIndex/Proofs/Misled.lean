import PackedIndex.Proofs.Kept
/-! # One damaged child pointer

The pointer in a child slot is compared with the place that the geometry gives the child. So a
damaged pointer is never followed: the look-ups that go down by its slot end with damage, and no
other look-up comes across it. Which look-ups these are depends only on the leaf page that they end
on in the whole file, as `openPage` says which pages are over a leaf page.
-/
namespace PackedIndex

namespace Layout

theorem openPage_of_child {layout : Layout} {level page slot leaf : ℕ}
    (hlevel : level < layout.numLevels) (hslot : slot < layout.branchingFactor)
    (hchild : layout.openPage (level + 1) leaf = page * layout.branchingFactor + slot) :
    layout.openPage level leaf = page := by
  rw [layout.openPage_eq_div hlevel, hchild, (Size.div_mod_mul_add page hslot).1]

/-- The page and the slot of a child are determined by its number. -/
theorem child_inj {layout : Layout} {page slot page' slot' : ℕ}
    (hslot : slot < layout.branchingFactor) (hslot' : slot' < layout.branchingFactor)
    (h : page * layout.branchingFactor + slot = page' * layout.branchingFactor + slot') :
    page = page' ∧ slot = slot' := by
  obtain ⟨hpage, hrest⟩ := Size.div_mod_mul_add page hslot
  obtain ⟨hpage', hrest'⟩ := Size.div_mod_mul_add page' hslot'
  exact ⟨hpage.symm.trans (h ▸ hpage'), hrest.symm.trans (h ▸ hrest')⟩

end Layout

namespace Finished

variable {attributes : Attributes} {layout : Layout} {records : List Record}
  {file whole : Content} {level page slot : ℕ}

/-- A finished file in which at most the bytes of one live child pointer are different. -/
structure Overwritten (layout : Layout) (whole : Content) (level page slot : ℕ) (file : Content) :
    Prop where
  level_lt : level < layout.numLevels
  page_lt : page < (layout.region level).pages
  slot_le : slot ≤ layout.separatorsIn level page
  size_eq : file.size = whole.size
  byteAt_eq : ∀ i, i < layout.pointerOffset level page slot ∨
    layout.pointerOffset level page slot + Size.pointer ≤ i → file.byteAt i = whole.byteAt i

namespace Overwritten

variable (hover : Overwritten layout whole level page slot file)
  (h : Finished attributes layout records whole)
include hover

theorem has_of_apart {offset : ℕ} {data : ByteArray} (hin : whole.Has offset data)
    (happart : offset + data.size ≤ layout.pointerOffset level page slot ∨
      layout.pointerOffset level page slot + Size.pointer ≤ offset) : file.Has offset data :=
  hin.congr (hover.size_eq ▸ hin.size_le) fun i _ _ => hover.byteAt_eq i (by omega)

include h

theorem has_of_page {level' page' offset : ℕ} {data : ByteArray} (hin : whole.Has offset data)
    (hlevel' : level' ≤ layout.numLevels) (hpage' : page' < (layout.region level').pages)
    (hne : ¬(level = level' ∧ page = page')) (hstart : layout.pageOffset level' page' ≤ offset)
    (hend : offset + data.size ≤ layout.pageOffset level' page' + layout.pageSize) :
    file.Has offset data := by
  obtain ⟨hfront, hback⟩ := h.planned.pointerOffset_mem hover.slot_le
  have hpages := h.planned.pages_apart hover.level_lt.le hlevel' hover.page_lt hpage' hne
  exact has_of_apart hover hin (by omega)

theorem keeps : Keeps attributes layout records file := by
  have hl := h.planned
  have hkeeps := h.keeps
  obtain ⟨hfront, hback⟩ := h.planned.pointerOffset_mem hover.slot_le
  refine ⟨hover.size_eq ▸ hkeeps.leafEnd_le, ?_, ?_, ?_⟩
  · refine has_of_apart hover hkeeps.has_header (Or.inl ?_)
    have hpage := hl.pageSize_le_pageOffset level page
    have hwide := h.header_le
    rw [Header.size_encode hl.numLevels_le]
    omega
  · intro level' hlevel' page' hpage' slot' hslot'
    have hin := hkeeps.has_separator level' hlevel' page' hpage' slot' hslot'
    have hend := hl.separator_end_le hslot'
    have hroom := hl.pointer_room hl.branchingFactor_pos
    have hwidth : (Image.separator layout records level'
        (page' * layout.branchingFactor + slot' + 1)).size = layout.keySize :=
      Image.size_separator _ _
    by_cases hsame : level = level' ∧ page = page'
    · obtain ⟨rfl, rfl⟩ := hsame
      exact has_of_apart hover hin (Or.inl (by omega))
    · exact has_of_page hover h hin hlevel'.le hpage' hsame (Nat.le_add_right _ _) (by omega)
  · intro leaf hleaf slot' hslot'
    have hin := hkeeps.has_leaf leaf hleaf slot' hslot'
    have hwidth := h.size_leaf (h.index_lt hslot')
    have hroom := hl.slot_room (hslot'.trans_le (Nat.min_le_right _ _))
    rw [Layout.leafPageOffset_eq] at hin ⊢
    refine has_of_page hover h hin le_rfl (layout.pages_numLevels ▸ hleaf) ?_
      (Nat.le_add_right _ _) (by omega)
    exact fun hsame => hover.level_lt.ne hsame.1

theorem keepsPointer {level' page' slot' : ℕ} (hlevel' : level' < layout.numLevels)
    (hpage' : page' < (layout.region level').pages)
    (hslot' : slot' ≤ layout.separatorsIn level' page')
    (hne : ¬(level = level' ∧ page = page' ∧ slot = slot')) :
    KeepsPointer layout file level' page' slot' := by
  have hin := h.keepsPointer hlevel' hpage' hslot'
  have hwidth := BigEndian.size_encode Size.pointer
    (layout.childOffset level' (page' * layout.branchingFactor + slot'))
  by_cases hsame : level = level' ∧ page = page'
  · obtain ⟨rfl, rfl⟩ := hsame
    have hslot : slot ≠ slot' := fun hslot => hne ⟨rfl, rfl, hslot⟩
    refine has_of_apart hover hin ?_
    simp only [Layout.pointerOffset, Layout.pointerPosition, Size.pointer] at hwidth ⊢
    omega
  · obtain ⟨hfront, hback⟩ := h.planned.pointerOffset_mem hslot'
    exact has_of_page hover h hin hlevel'.le hpage' hsame (Nat.le_add_right _ _) (by omega)

theorem keepsEntries : KeepsEntries layout records file := by
  intro index hindex hregion
  obtain ⟨-, hback⟩ := h.planned.pointerOffset_mem hover.slot_le
  have hend := h.planned.page_end_le_leafEnd hover.level_lt.le hover.page_lt
  have hplace : layout.leafEnd ≤ Image.pointer layout records index := by
    rw [Image.pointer, if_pos hregion, h.planned.valueOffset_eq, if_pos hregion]
    exact Nat.le_add_right _ _
  exact has_of_apart hover (h.has_entry hindex hregion) (Or.inr (by omega))

/-- A descent ends as in the whole file, unless its leaf page is under the child of the pointer and
it still has to come by the pointer. -/
theorem descend_eq {path : String} (origin : String) {order : KeyOrder} {pointer : ℕ}
    (hpointer : (reader attributes layout path file order).childPointer level page slot = pointer)
    (hlost : pointer ≠ layout.childOffset level (page * layout.branchingFactor + slot))
    (query : ByteArray) {remaining current : ℕ} (hremaining : remaining ≤ layout.numLevels)
    (hcurrent : current < (layout.region (layout.numLevels - remaining)).pages) :
    ∃ leaf,
      (reader attributes layout origin whole order).descend query remaining current = .ok leaf ∧
      layout.openPage (layout.numLevels - remaining) leaf = current ∧
      (reader attributes layout path file order).descend query remaining current =
        if layout.numLevels - remaining ≤ level ∧
            layout.openPage (level + 1) leaf = page * layout.branchingFactor + slot then
          .error (.childPointer pointer level page slot
            (layout.childOffset level (page * layout.branchingFactor + slot)))
        else .ok leaf := by
  have hl := h.planned
  have hkeeps := keeps hover h
  induction remaining generalizing current with
  | zero =>
    have hlow := hover.level_lt
    refine ⟨current, rfl, ?_, ?_⟩
    · rw [Nat.sub_zero, Layout.openPage_numLevels]
    · rw [if_neg (by omega)]
      rfl
  | succ remaining ih =>
    have hnext : layout.numLevels - (remaining + 1) + 1 = layout.numLevels - remaining := by omega
    have hhigh : layout.numLevels - (remaining + 1) < layout.numLevels := by omega
    have hwhole : (reader attributes layout origin whole order).descend query (remaining + 1)
        current = _ := h.descend_succ hremaining hcurrent
    generalize hlevel : layout.numLevels - (remaining + 1) = above at hnext hhigh hcurrent hwhole ⊢
    have hle := h.childSlot_le order query above current
    have hroom := hle.trans_lt (hl.separatorsIn_lt above current)
    have hchild := hl.child_lt hhigh hcurrent hle
    generalize htaken : childSlot layout records order query above current = taken
      at hle hroom hchild hwhole
    rw [hnext] at hchild
    obtain ⟨leaf, hleaf, hopen, hfile⟩ := ih (Nat.le_of_succ_le hremaining) hchild
    rw [← hnext] at hopen hfile
    refine ⟨leaf, hwhole.trans hleaf, Layout.openPage_of_child hhigh hroom hopen, ?_⟩
    by_cases hsame : level = above ∧ page = current ∧ slot = taken
    · -- the descent comes by the pointer
      obtain ⟨rfl, rfl, rfl⟩ := hsame
      rw [hkeeps.descend_of_lost h query hremaining hlevel hcurrent htaken hpointer hlost,
        if_pos ⟨le_rfl, hopen⟩]
    · -- it goes on, and the child of the pointer is not the one it goes down to
      have hkept := keepsPointer hover h hhigh hcurrent hle hsame
      rw [hkeeps.descend_of_kept h query hremaining hlevel hcurrent
          (htaken.symm ▸ h.childPointer_eq hhigh hcurrent hle hkept path order), htaken, hfile]
      refine if_congr (and_congr_left fun hunder => ⟨Nat.le_of_succ_le, fun hbelow => ?_⟩) rfl rfl
      rcases Nat.lt_or_eq_of_le hbelow with hlt | rfl
      · exact hlt
      · have hslot := hover.slot_le.trans_lt (hl.separatorsIn_lt above page)
        obtain ⟨rfl, rfl⟩ := Layout.child_inj hroom hslot (hopen.symm.trans hunder)
        exact absurd ⟨rfl, rfl, rfl⟩ hsame

/-- A look-up ends with damage if its leaf page is under the child of the pointer, and answers as in
the whole file otherwise. -/
theorem get_spec (hsize : whole.size < Size.limit) {path : String} (origin : String)
    {order : KeyOrder} {pointer : ℕ}
    (hpointer : (reader attributes layout path file order).childPointer level page slot = pointer)
    (hlost : pointer ≠ layout.childOffset level (page * layout.branchingFactor + slot))
    {key : ByteArray} (hkey : key.size ≤ layout.keySize) :
    ∃ leaf,
      (reader attributes layout origin whole order).descend (Bytes.resize key layout.keySize)
        layout.numLevels 0 = .ok leaf ∧
      (layout.openPage (level + 1) leaf = page * layout.branchingFactor + slot →
        (reader attributes layout path file order).get key =
          .error (.corruption (.childPointer pointer level page slot
            (layout.childOffset level (page * layout.branchingFactor + slot))))) ∧
      (layout.openPage (level + 1) leaf ≠ page * layout.branchingFactor + slot →
        (reader attributes layout path file order).get key =
          (reader attributes layout origin whole order).get key) := by
  have hkeeps := keeps hover h
  have hroot := h.planned.pages_pos (Nat.sub_le layout.numLevels layout.numLevels)
  obtain ⟨leaf, hwhole, -, hfile⟩ := descend_eq hover h origin hpointer hlost
    (Bytes.resize key layout.keySize) le_rfl hroot
  rw [Nat.sub_self] at hfile
  refine ⟨leaf, hwhole, fun hunder => ?_, fun hapart => ?_⟩
  · rw [if_pos ⟨Nat.zero_le _, hunder⟩] at hfile
    rw [(hkeeps.accepted h path order).get_eq_locate hkey, Reader.locate, layout_reader, hfile]
    rfl
  · rw [if_neg fun hunder => hapart hunder.2] at hfile
    exact hkeeps.get_eq h hsize (keepsEntries hover h) (hfile.trans hwhole.symm)

end Overwritten

theorem overwritten_of_overlay (h : Finished attributes layout records whole)
    (hlevel : level < layout.numLevels) (hpage : page < (layout.region level).pages)
    (hslot : slot ≤ layout.separatorsIn level page) {value : ByteArray}
    (hvalue : value.size = Size.pointer)
    (hfile : file.toBytes =
      Bytes.overlay whole.toBytes (layout.pointerOffset level page slot) value) :
    Overwritten layout whole level page slot file ∧
      file.read (layout.pointerOffset level page slot) Size.pointer = value := by
  have hend := (h.keepsPointer hlevel hpage hslot).size_le
  rw [BigEndian.size_encode] at hend
  have hsize : file.size = whole.size := by
    rw [← Content.size_toBytes, hfile, Bytes.size_overlay, Content.size_toBytes, hvalue]
    omega
  have hbyteAt : ∀ i, file.byteAt i =
      if layout.pointerOffset level page slot ≤ i ∧
          i < layout.pointerOffset level page slot + Size.pointer then
        Bytes.byteAt value (i - layout.pointerOffset level page slot)
      else whole.byteAt i := by
    intro i
    rw [← Content.byteAt_toBytes, hfile, Bytes.byteAt_overlay, hvalue, Content.byteAt_toBytes]
  refine ⟨⟨hlevel, hpage, hslot, hsize, fun i hi => ?_⟩, ?_⟩
  · rw [hbyteAt, if_neg (by omega)]
  · rw [← hvalue]
    refine Content.read_eq (by omega) fun i hi => ?_
    rw [hbyteAt, if_pos (by omega), Nat.add_sub_cancel_left]

end Finished

namespace Writer

variable {volume after : Volume} {path : String} {attributes : Attributes} {options : Options}
  {calls : List Call} {built : Built}

/-- When any live child pointer in the file of a run is overwritten by something else, the file
still opens. The look-ups that end under the child of that pointer answer with its damage, under any
order, and the others and every pass answer as before. -/
theorem misled_build (h : build volume path attributes options calls = (.ok built, after))
    (hsize : built.size < Size.limit) :
    ∃ bytes, after.read path = .ok bytes ∧ bytes.size = built.size ∧
      ∀ level < built.layout.numLevels, ∀ page < (built.layout.region level).pages,
      ∀ slot ≤ built.layout.separatorsIn level page,
        built.layout.pointerOffset level page slot + Size.pointer ≤ bytes.size ∧
        ∀ value : ByteArray, value.size = Size.pointer →
          value ≠ bytes.extract (built.layout.pointerOffset level page slot)
            (built.layout.pointerOffset level page slot + Size.pointer) →
          ∀ (disk : Volume) (name : String), disk.read name =
              .ok (Bytes.overlay bytes (built.layout.pointerOffset level page slot) value) →
            ∀ order, ∃ reader damaged,
              Reader.openPath after path order = .ok reader ∧
              Reader.openPath disk name order = .ok damaged ∧
              (∀ key : ByteArray, key.size ≤ attributes.keySize → ∃ leaf,
                reader.descend (Bytes.resize key attributes.keySize)
                  built.layout.numLevels 0 = .ok leaf ∧
                (leaf / built.layout.branchingFactor ^ (built.layout.numLevels - (level + 1)) =
                    page * built.layout.branchingFactor + slot →
                  damaged.get key = .error (.corruption (.childPointer (BigEndian.decode value)
                    level page slot (built.layout.childOffset level
                      (page * built.layout.branchingFactor + slot))))) ∧
                (leaf / built.layout.branchingFactor ^ (built.layout.numLevels - (level + 1)) ≠
                    page * built.layout.branchingFactor + slot →
                  damaged.get key = reader.get key)) ∧
              (∀ key : ByteArray, attributes.keySize < key.size →
                damaged.get key = reader.get key) ∧
              damaged.records = reader.records := by
  obtain ⟨file, hleaves⟩ := build_spec h
  have hfinished := hleaves.finished
  have hwhole : (after.content file).size < Size.limit := hleaves.size_eq ▸ hsize
  refine ⟨_, hleaves.read_eq, ?_, ?_⟩
  · rw [← hfinished.toBytes_eq, Content.size_toBytes, hleaves.size_eq]
  rw [← hfinished.toBytes_eq]
  intro level hlevel page hpage slot hslot
  have hstored := hfinished.extract_pointer hlevel hpage hslot
  have hend := (hfinished.keepsPointer hlevel hpage hslot).size_le
  rw [BigEndian.size_encode] at hend
  refine ⟨hend.trans (Content.size_toBytes _).ge, ?_⟩
  intro value hvalue hne disk name hread order
  obtain ⟨content, hcontent, hopen⟩ := Volume.openPath_of_read hread
  obtain ⟨hover, hpointer⟩ :=
    hfinished.overwritten_of_overlay hlevel hpage hslot hvalue hcontent
  have hkeeps := hover.keeps hfinished
  have hlost : BigEndian.decode value ≠
      built.layout.childOffset level (page * built.layout.branchingFactor + slot) := by
    intro heq
    rw [hstored, ← heq, ← hvalue, BigEndian.encode_decode] at hne
    exact hne rfl
  refine ⟨_, _, hleaves.openPath_eq hsize order,
    (hopen order).trans (hkeeps.ofContent_eq hfinished hwhole name order), ?_, ?_, ?_⟩
  · intro key hkey
    rw [← hleaves.keySize_eq] at hkey ⊢
    exact hover.get_spec hfinished hwhole path (congrArg BigEndian.decode hpointer) hlost hkey
  · intro key hkey
    rw [← hleaves.keySize_eq] at hkey
    exact Finished.get_eq_of_size_gt hkey
  · exact hkeeps.records_eq hfinished hwhole (hover.keepsEntries hfinished) name path order

namespace Sample

theorem childSlot_last {file : Content} (h : Finished attributes layout records file) :
    Finished.childSlot layout records KeyOrder.bytewise (Bytes.resize [3].toByteArray 300) 0 0 =
      1 := by
  have hroom : layout.separatorsIn 0 0 * layout.keySize ≤
      (Image.indexPage layout records 0 0 (layout.separatorsIn 0 0)).size := by
    rw [Image.size_indexPage]
    decide
  obtain ⟨slot, -, -, hcase⟩ := Search.findChild_spec KeyOrder.bytewise
    (Bytes.resize [3].toByteArray 300) h.planned.keySize_pos hroom
  unfold Finished.childSlot
  rcases hcase with ⟨hlast, hfound⟩ | ⟨hlt, -, hfound⟩ | ⟨hlt, hless, hfound⟩
  · exact hfound.trans hlast
  · have hfirst : slot = 0 := Nat.lt_one_iff.mp hlt
    rw [hfound, hfirst]
  · -- a key is not in front of itself
    have hfirst : slot = 0 := Nat.lt_one_iff.mp hlt
    rw [h.keyAt_indexPage hlt, hfirst] at hless
    have hsame : Image.separator layout records 0 (0 * layout.branchingFactor + 0 + 1) =
        Bytes.resize [3].toByteArray 300 := rfl
    rw [hsame, (KeyOrder.bytewise_isPreorder 300).refl (Bytes.size_resize _ _)] at hless
    cases hless

theorem descend_last {file : Content} (h : Finished attributes layout records file)
    (path : String) :
    (Finished.reader attributes layout path file KeyOrder.bytewise).descend
      (Bytes.resize [3].toByteArray 300) layout.numLevels 0 = .ok 1 := by
  have hlevels : 0 < layout.numLevels := by decide
  have hpages : 0 < (layout.region (layout.numLevels - (0 + 1))).pages := by decide
  have hzero : layout.numLevels - (0 + 1) = 0 := rfl
  refine (h.descend_succ hlevels hpages).trans ?_
  rw [hzero, childSlot_last h]
  rfl

end Sample

theorem misled_build_sample : ∃ built after bytes disk damaged,
    build Sample.volume "t" Sample.attributes Sample.options Sample.calls = (.ok built, after) ∧
      after.read "t" = .ok bytes ∧
      disk.read "t" = .ok (Bytes.overlay bytes (Sample.layout.pointerOffset 0 0 1)
        (Bytes.zeros Size.pointer)) ∧
      Reader.openPath disk "t" KeyOrder.bytewise = .ok damaged ∧
      damaged.get [3].toByteArray = .error (.corruption (.childPointer 0 0 0 1 1908)) ∧
      damaged.records = Sample.records.map fun record => .ok (record.padded 300) := by
  obtain ⟨built, after, hbuild, haccepted, hlayout, hlimit⟩ := Sample.exists_build
  obtain ⟨bytes, hread, -, hdamage⟩ := misled_build hbuild hlimit
  obtain ⟨file, hleaves⟩ := build_spec hbuild
  have hfinished := hleaves.finished
  have hopenwhole := hleaves.openPath_eq hlimit KeyOrder.bytewise
  have hbytes : bytes = (after.content file).toBytes := by
    rw [hleaves.read_eq, ← hfinished.toBytes_eq] at hread
    exact (Except.ok.inj hread).symm
  rw [hlayout, haccepted] at hfinished
  rw [hlayout] at hdamage hopenwhole
  have hlevel : 0 < Sample.layout.numLevels := by decide
  have hpage : 0 < (Sample.layout.region 0).pages := by decide
  have hslot : 1 ≤ Sample.layout.separatorsIn 0 0 := by decide
  have hne : Bytes.zeros Size.pointer ≠ bytes.extract (Sample.layout.pointerOffset 0 0 1)
      (Sample.layout.pointerOffset 0 0 1 + Size.pointer) := by
    rw [hbytes, hfinished.extract_pointer hlevel hpage hslot]
    decide +kernel
  have hdisk := Volume.read_modify hleaves.existing_eq (Bytes.overlay bytes
    (Sample.layout.pointerOffset 0 0 1) (Bytes.zeros Size.pointer))
  obtain ⟨reader, damaged, hopen, hopened, hget, -, hrecords⟩ :=
    (hdamage 0 hlevel 0 hpage 1 hslot).2 _ (Bytes.size_zeros _) hne _ "t" hdisk KeyOrder.bytewise
  rw [hopenwhole, Except.ok.injEq] at hopen
  subst hopen
  refine ⟨built, after, bytes, _, damaged, hbuild, hread, hdisk, hopened, ?_, ?_⟩
  · obtain ⟨leaf, hleaf, hunder, -⟩ := hget [3].toByteArray (by decide)
    have hlast := hleaf.symm.trans (Sample.descend_last hfinished "t")
    cases hlast
    rw [hunder rfl]
    decide +kernel
  · rw [hrecords, hfinished.records_eq (Sample.size_lt hfinished)]
    rfl

end Writer

end PackedIndex
