import Mathlib.Data.List.DropRight
import PackedIndex.Proofs.Batch
import PackedIndex.Proofs.Lookup
/-! # Padded keys

Short keys stand for themselves with zeros behind them. Padding to one width orders keys as they are
without the zeros they end in, so that it never turns two keys around, and makes two of them the same
only when they differ in such zeros alone.
-/
namespace PackedIndex

namespace Bytes

/-- The bytes of a key without the zeros that it ends in. -/
def significant (key : ByteArray) : List UInt8 :=
  key.data.toList.rdropWhile (· = 0)

/-- One of two keys is the other with zeros behind it. -/
def SameButZeros (a b : ByteArray) : Prop :=
  ∃ count, b = a ++ zeros count ∨ a = b ++ zeros count

/-! ## Lists of bytes without the zeros they end in -/

theorem rdropWhile_cons (byte : UInt8) (rest : List UInt8) :
    (byte :: rest).rdropWhile (· = 0) =
      if rest.rdropWhile (· = 0) = [] ∧ byte = 0 then [] else byte :: rest.rdropWhile (· = 0) := by
  induction rest using List.reverseRecOn with
  | nil => simp [List.rdropWhile_singleton]
  | append_singleton front last ih =>
    rw [← List.cons_append, List.rdropWhile_concat, List.rdropWhile_concat, ih]
    split_ifs <;> simp_all

theorem rdropWhile_append_replicate (front : List UInt8) (count : ℕ) :
    (front ++ List.replicate count 0).rdropWhile (· = 0) = front.rdropWhile (· = 0) := by
  induction count with
  | zero => simp
  | succ count ih =>
    rw [List.replicate_succ', ← List.append_assoc, List.rdropWhile_concat_pos _ _ _ (by simp), ih]

theorem compare_zero {byte : UInt8} (h : byte ≠ 0) :
    compare 0 byte = .lt ∧ compare byte 0 = .gt := by
  rw [Std.compare_eq_lt, Std.compare_eq_gt]
  exact ⟨UInt8.pos_iff_ne_zero.mpr h, UInt8.pos_iff_ne_zero.mpr h⟩

theorem compare_rdropWhile_cons (x y : UInt8) (first second : List UInt8) :
    compare ((x :: first).rdropWhile (· = 0)) ((y :: second).rdropWhile (· = 0)) =
      (compare x y).then
        (compare (first.rdropWhile (· = 0)) (second.rdropWhile (· = 0))) := by
  rw [rdropWhile_cons, rdropWhile_cons]
  generalize first.rdropWhile (· = 0) = first
  generalize second.rdropWhile (· = 0) = second
  -- zero is the least byte, so a list that ends comes where one that goes on with zeros would
  by_cases hx : x = 0 <;> by_cases hy : y = 0
  · cases first <;> cases second <;> simp [hx, hy, List.compare_cons_cons]
  · cases first <;> simp [hx, hy, compare_zero, List.compare_cons_cons]
  · cases second <;> simp [hx, hy, compare_zero, List.compare_cons_cons]
  · simp [hx, hy, List.compare_cons_cons]

/-- Lists of one length are ordered as they are without the zeros at their ends. -/
theorem compare_rdropWhile {first second : List UInt8} (h : first.length = second.length) :
    compare (first.rdropWhile (· = 0)) (second.rdropWhile (· = 0)) = compare first second := by
  induction first generalizing second with
  | nil =>
    cases second with
    | nil => rfl
    | cons => simp at h
  | cons x first ih =>
    cases second with
    | nil => simp at h
    | cons y second =>
      rw [compare_rdropWhile_cons, List.compare_cons_cons, ih (by simpa using h)]

theorem isLE_compare_rdropWhile {first second : List UInt8} (h : (compare first second).isLE) :
    (compare (first.rdropWhile (· = 0)) (second.rdropWhile (· = 0))).isLE := by
  induction first generalizing second with
  | nil => cases hstripped : second.rdropWhile (· = 0) <;> simp [List.rdropWhile_nil]
  | cons x first ih =>
    cases second with
    | nil => simp at h
    | cons y second =>
      rw [List.compare_cons_cons] at h
      rw [compare_rdropWhile_cons]
      cases hcompare : compare x y with
      | lt => rfl
      | eq =>
        rw [hcompare] at h
        exact ih h
      | gt => simp [hcompare] at h

/-! ## Keys of one width -/

variable {a b : ByteArray} {size : ℕ}

theorem significant_resize (h : a.size ≤ size) : significant (resize a size) = significant a := by
  rw [significant, toList_resize h, rdropWhile_append_replicate, significant]

/-- Keys that are padded to one width are ordered by their significant bytes. -/
theorem bytewise_resize (ha : a.size ≤ size) (hb : b.size ≤ size) :
    KeyOrder.bytewise (resize a size) (resize b size) = compare (significant a) (significant b) := by
  have hlength : (resize a size).data.toList.length = (resize b size).data.toList.length := by
    rw [Array.length_toList, Array.length_toList]
    exact (size_resize a size).trans (size_resize b size).symm
  rw [KeyOrder.bytewise_eq, ← compare_rdropWhile hlength, ← significant_resize ha,
    ← significant_resize hb, significant, significant]

theorem isLE_bytewise_resize (ha : a.size ≤ size) (hb : b.size ≤ size)
    (h : (KeyOrder.bytewise a b).isLE) :
    (KeyOrder.bytewise (resize a size) (resize b size)).isLE := by
  rw [bytewise_resize ha hb]
  rw [KeyOrder.bytewise_eq] at h
  exact isLE_compare_rdropWhile h

theorem eq_append_zeros_of_resize_eq (h : resize a size = resize b size) (hb : b.size ≤ size)
    (hle : a.size ≤ b.size) : b = a ++ zeros (b.size - a.size) := by
  rw [← resize_of_le hle]
  apply ext_byteAt (by simp)
  intro i hi
  have hbyte := congrArg (fun key => byteAt key i) h
  simp only [byteAt_resize, if_pos (hi.trans_le hb)] at hbyte
  rw [byteAt_resize, if_pos hi, hbyte]

/-- Padding merges exactly the keys that differ in nothing but zeros at the end. -/
theorem resize_eq_iff (ha : a.size ≤ size) (hb : b.size ≤ size) :
    resize a size = resize b size ↔ SameButZeros a b := by
  constructor
  · intro h
    rcases le_total a.size b.size with hle | hle
    · exact ⟨_, Or.inl (eq_append_zeros_of_resize_eq h hb hle)⟩
    · exact ⟨_, Or.inr (eq_append_zeros_of_resize_eq h.symm ha hle)⟩
  · rintro ⟨count, rfl | rfl⟩
    · exact (resize_append_zeros a count size).symm
    · exact resize_append_zeros b count size

instance decidableSameButZeros (a b : ByteArray) : Decidable (SameButZeros a b) :=
  decidable_of_iff (resize a (max a.size b.size) = resize b (max a.size b.size))
    (resize_eq_iff (le_max_left _ _) (le_max_right _ _))

end Bytes

namespace KeyOrder

variable {a b : ByteArray} {keySize : ℕ}

theorem bytewise_eq_eq_iff : bytewise a b = .eq ↔ a = b := by
  rw [bytewise_eq, Std.LawfulEqOrd.compare_eq_iff_eq, Array.toList_inj, ByteArray.ext_iff]

theorem Increasing.resize {keys : List ByteArray} (h : bytewise.Increasing keys)
    (hsize : ∀ key ∈ keys, key.size ≤ keySize)
    (hapart : keys.Pairwise fun a b => ¬Bytes.SameButZeros a b) :
    bytewise.Increasing (keys.map fun key => Bytes.resize key keySize) := by
  have hpairwise := h.pairwise (bytewise_isPreorderOn Set.univ) fun _ _ => trivial
  apply List.Pairwise.isChain
  rw [List.pairwise_map]
  apply (hpairwise.and hapart).imp_of_mem
  rintro a b ha hb ⟨hlt, hother⟩
  have hle := Bytes.isLE_bytewise_resize (hsize a ha) (hsize b hb) (Ordering.isLE_of_eq_lt hlt)
  have hne : bytewise (Bytes.resize a keySize) (Bytes.resize b keySize) ≠ .eq := by
    intro heq
    exact hother ((Bytes.resize_eq_iff (hsize a ha) (hsize b hb)).mp (bytewise_eq_eq_iff.mp heq))
  exact (Ordering.isLE_iff_eq_lt_or_eq_eq.mp hle).resolve_right hne

end KeyOrder

namespace Writer

variable {volume created : Volume} {path : String} {attributes : Attributes} {options : Options}
  {writer : Writer} {session : Session} {records : List Record}

/-- Records that a session can go on with under the bytewise order, judged by their keys as they are
given: all its keys increase, and no two of them are the same but for zeros. -/
structure Session.CanTake (attributes : Attributes) (session : Session) (records : List Record) :
    Prop where
  order_eq : session.writer.order = KeyOrder.bytewise
  room : session.accepted.length + records.length ≤ attributes.recordCount
  suits : ∀ record ∈ records, Suits attributes record
  increasing : KeyOrder.bytewise.Increasing ((session.accepted ++ records).map Record.key)
  apart : ((session.accepted ++ records).map Record.key).Pairwise fun a b =>
    ¬Bytes.SameButZeros a b

theorem Session.putMany_of_canTake
    (hcreate : create volume path attributes options = (.ok writer, created)) (calls : List Call)
    (hcalls : Session.calls ⟨[], writer, created⟩ calls = session)
    (h : session.CanTake attributes records) :
    session.answer (.putMany records) = .ok () ∧
        (session.putMany records).accepted = session.accepted ++ records ∨
      volume.faults ≠ FaultPlan.none ∧ (session.putMany records).writer.state = .failed := by
  obtain ⟨layout, file, opened, -, hopened, hl, -, hsound, hsession⟩ := calls_of_create hcreate calls
  rw [hcalls] at hsession
  generalize (Journal.start path file attributes layout options).calls calls = journal
    at hsound hsession
  rw [← hopened.faults_eq]
  rcases hsession with habreast | hstopped
  · have hprogress : Progress attributes options layout journal.accepted journal.writer
        journal.file := hsound
    have haccepted := habreast.accepted_eq
    have hsize : ∀ key ∈ (session.accepted ++ records).map Record.key,
        key.size ≤ attributes.keySize := by
      intro key hkey
      obtain ⟨record, hrecord, rfl⟩ := List.mem_map.mp hkey
      rcases List.mem_append.mp hrecord with hbefore | hnew
      · exact ((suits_iff hl).mpr (hprogress.valid record (haccepted ▸ hbefore))).key_le
      · exact (h.suits record hnew).key_le
    -- padded keys increase as well, which is what the writer checks
    have hpadded := h.increasing.resize hsize h.apart
    rw [List.map_map] at hpadded
    have htaken : (journal.putMany records).accepted = journal.accepted ++ records := by
      apply Journal.accepted_putMany hl hsound (haccepted ▸ h.room) h.suits
      intro _
      rw [← habreast.writer_eq, h.order_eq, ← haccepted]
      exact isChain_gt_of_increasing hpadded
    rcases habreast.putMany hl hsound hopened.file_lt records with hdone | hfailed
    · rw [← hdone.accepted_eq, ← haccepted] at htaken
      exact Or.inl ⟨(session.accepted_putMany_iff records).mp htaken, htaken⟩
    · exact Or.inr ⟨hfailed.faults_ne, hfailed.state_eq⟩
  · have hfailed := hstopped.call (.putMany records)
    exact Or.inr ⟨hfailed.faults_ne, hfailed.state_eq⟩

end Writer

/-- A key and its padded form are answered alike, but for the key that is named when it is not
there. -/
theorem Reader.get_resize (reader : Reader) {key : ByteArray}
    (h : key.size ≤ reader.layout.keySize) :
    reader.get (Bytes.resize key reader.layout.keySize) =
      match reader.get key with
      | .error (.notFound _) =>
        .error (.notFound (.key (Bytes.resize key reader.layout.keySize)))
      | answer => answer := by
  have hwidth := Bytes.size_resize key reader.layout.keySize
  rw [reader.get_eq hwidth.le, reader.get_eq h, Bytes.resize_of_size_eq hwidth]
  rcases reader.lookup (Bytes.resize key reader.layout.keySize) with damage | ⟨⟨⟩ | record⟩
  · rfl
  · rfl
  · rfl

/-- Padding keeps the bytewise order. Padded keys are ordered by their significant bytes, so that no
two are turned around, and are the same exactly when the keys differ in zeros at the end alone. So a
session under the bytewise order takes keys that increase as they are given and do not differ in such
zeros alone, and in any open file a key and its padded form are answered alike, but for the key that
is named when it is not there. -/
theorem KeyOrder.kept_by_padding :
    (∀ (keySize : ℕ) (a b : ByteArray), a.size ≤ keySize → b.size ≤ keySize →
      ∃ first second, padKey a keySize = .ok first ∧ padKey b keySize = .ok second ∧
        bytewise first second = compare (Bytes.significant a) (Bytes.significant b) ∧
        (first = second ↔ Bytes.SameButZeros a b) ∧
        ((bytewise a b).isLE → (bytewise first second).isLE)) ∧
    (∀ (volume created : Volume) (path : String) (attributes : Attributes) (options : Options)
      (writer : Writer), Writer.create volume path attributes options = (.ok writer, created) →
      ∀ calls session, Writer.Session.calls ⟨[], writer, created⟩ calls = session →
      ∀ records, session.CanTake attributes records →
        session.answer (.putMany records) = .ok () ∧
            (session.putMany records).accepted = session.accepted ++ records ∨
          volume.faults ≠ FaultPlan.none ∧ (session.putMany records).writer.state = .failed) ∧
    ∀ (reader : Reader) (key : ByteArray), key.size ≤ reader.layout.keySize →
      ∃ padded, padKey key reader.layout.keySize = .ok padded ∧
        reader.get padded =
          match reader.get key with
          | .error (.notFound _) => .error (.notFound (.key padded))
          | answer => answer := by
  refine ⟨?_, ?_, ?_⟩
  · intro keySize a b ha hb
    exact ⟨_, _, padKey_of_size_le ha, padKey_of_size_le hb, Bytes.bytewise_resize ha hb,
      Bytes.resize_eq_iff ha hb, Bytes.isLE_bytewise_resize ha hb⟩
  · intro volume created path attributes options writer hcreate calls session hcalls records h
    exact Writer.Session.putMany_of_canTake hcreate calls hcalls h
  · intro reader key h
    exact ⟨_, padKey_of_size_le h, reader.get_resize h⟩

theorem Writer.Sample.canTake {writer : Writer} {created : Volume}
    (horder : writer.order = KeyOrder.bytewise) :
    Session.CanTake attributes ⟨[], writer, created⟩ records := by
  refine ⟨horder, le_refl 3, ?_, ?_, ?_⟩
  · have hsuits : ∀ key value : ByteArray, key.size ≤ 300 → value.size < Size.blobLimit →
        Suits attributes (.blob key value) := fun _ _ hkey hvalue => ⟨rfl, hkey, hvalue⟩
    simp only [records, List.forall_mem_cons]
    exact ⟨hsuits _ _ (by decide) (by decide), hsuits _ _ (by decide) (by decide),
      hsuits _ _ (by decide) (by decide), List.forall_mem_nil _⟩
  · change List.IsChain _ (records.map Record.key)
    decide +kernel
  · change List.Pairwise _ (records.map Record.key)
    decide +kernel

/-- Two keys that padding merges, three that a new writer takes, and a query in both forms to the
file that a run leaves. -/
theorem KeyOrder.kept_by_padding_sample :
    (∃ padded, padKey [1].toByteArray 3 = .ok padded ∧ padKey [1, 0].toByteArray 3 = .ok padded) ∧
    (∃ writer created, Writer.create Writer.Sample.volume "t" Writer.Sample.attributes
        Writer.Sample.options = (.ok writer, created) ∧
      (Writer.Session.putMany ⟨[], writer, created⟩ Writer.Sample.records).accepted =
        Writer.Sample.records) ∧
    ∃ built after reader padded,
      Writer.build Writer.Sample.volume "t" Writer.Sample.attributes Writer.Sample.options
        Writer.Sample.calls = (.ok built, after) ∧
      Reader.openPath after "t" bytewise = .ok reader ∧ padKey [2].toByteArray 300 = .ok padded ∧
      ∀ record, reader.get [2].toByteArray = .ok record → reader.get padded = .ok record := by
  obtain ⟨hkeys, htakes, hget⟩ := KeyOrder.kept_by_padding
  obtain ⟨built, after, hbuild, -, hlayout, hsize⟩ := Writer.Sample.exists_build
  refine ⟨?_, ?_, ?_⟩
  · obtain ⟨first, second, hfirst, hsecond, -, hmerged, -⟩ :=
      hkeys 3 [1].toByteArray [1, 0].toByteArray (by decide) (by decide)
    obtain rfl : first = second := hmerged.mpr (by decide +kernel)
    exact ⟨first, hfirst, hsecond⟩
  · obtain ⟨writer, created, hcreate, -⟩ := Writer.session_of_build hbuild
    obtain ⟨-, -, horder, -⟩ := Writer.create_frame Writer.Sample.openEmpty_eq hcreate
    rcases htakes _ _ _ _ _ _ hcreate [] _ rfl _ (Writer.Sample.canTake horder) with
      ⟨-, htaken⟩ | ⟨hfaults, -⟩
    · exact ⟨writer, created, hcreate, htaken⟩
    · exact absurd rfl hfaults
  · obtain ⟨file, hleaves⟩ := Writer.build_spec hbuild
    have hkeySize : built.layout.keySize = 300 := congrArg Layout.keySize hlayout
    obtain ⟨padded, hpadded, hsame⟩ :=
      hget (Finished.reader Writer.Sample.attributes built.layout "t" (after.content file) bytewise)
        [2].toByteArray (by rw [Finished.layout_reader, hkeySize]; decide)
    rw [Finished.layout_reader, hkeySize] at hpadded
    refine ⟨built, after, _, padded, hbuild, hleaves.openPath_eq hsize bytewise, hpadded, ?_⟩
    intro record hfound
    rw [hfound] at hsame
    exact hsame

end PackedIndex
