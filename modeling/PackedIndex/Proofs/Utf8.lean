import Mathlib.Tactic
import PackedIndex.Text.Utf8
/-! # Bytes that are text

The bytes that `strict?` takes are exactly the encodings of texts, and `lossy` gives back the text
of such bytes. Text can be cut in front of and behind an ASCII byte: the parts are texts again.
-/
namespace PackedIndex.Utf8

/-! ## One character -/

abbrev InRanges (taken : List UInt8) (ranges : List (UInt8 × UInt8)) : Prop :=
  List.Forall₂ (fun byte range => range.1 ≤ byte ∧ byte ≤ range.2) taken ranges

/-- The scalar value of the bits of a lead and the bytes behind it. -/
def assemble (bits : ℕ) (taken : List UInt8) : ℕ :=
  taken.foldl (fun bits byte => bits * 64 + byte.toNat % 64) bits

theorem follow_append {taken : List UInt8} {ranges : List (UInt8 × UInt8)}
    (h : InRanges taken ranges) (bits : ℕ) (rest : List UInt8) :
    follow ranges bits (taken ++ rest) = (some (assemble bits taken), rest) := by
  induction h generalizing bits with
  | nil => rfl
  | cons hbyte _ ih =>
    rw [List.cons_append, follow, if_pos hbyte, ih]
    rfl

theorem of_follow {ranges : List (UInt8 × UInt8)} {bits value : ℕ} {bytes rest : List UInt8}
    (h : follow ranges bits bytes = (some value, rest)) :
    ∃ taken, bytes = taken ++ rest ∧ InRanges taken ranges ∧ value = assemble bits taken := by
  induction ranges generalizing bits bytes with
  | nil =>
    cases h
    exact ⟨[], rfl, .nil, rfl⟩
  | cons range ranges ih =>
    cases bytes with
    | nil => cases h
    | cons byte bytes =>
      rw [follow] at h
      split_ifs at h with hbyte
      · obtain ⟨taken, rfl, hin, rfl⟩ := ih h
        exact ⟨byte :: taken, rfl, .cons hbyte hin, rfl⟩
      · cases h

theorem continuations_eq (lead : UInt8) : continuations lead =
    if lead.toNat < 0x80 then some []
    else if lead.toNat < 0xC2 then none
    else if lead.toNat < 0xE0 then some [(0x80, 0xBF)]
    else if lead.toNat = 0xE0 then some [(0xA0, 0xBF), (0x80, 0xBF)]
    else if lead.toNat = 0xED then some [(0x80, 0x9F), (0x80, 0xBF)]
    else if lead.toNat < 0xF0 then some [(0x80, 0xBF), (0x80, 0xBF)]
    else if lead.toNat = 0xF0 then some [(0x90, 0xBF), (0x80, 0xBF), (0x80, 0xBF)]
    else if lead.toNat < 0xF4 then some [(0x80, 0xBF), (0x80, 0xBF), (0x80, 0xBF)]
    else if lead.toNat = 0xF4 then some [(0x80, 0x8F), (0x80, 0xBF), (0x80, 0xBF)]
    else none := by
  simp only [continuations, UInt8.lt_iff_toNat_lt, ← UInt8.toNat_inj]
  rfl

/-- A lead and the bytes that have to follow it, with the scalar value that they carry. -/
def Spells (lead : UInt8) (taken : List UInt8) (value : ℕ) : Prop :=
  ∃ ranges, continuations lead = some ranges ∧ InRanges taken ranges ∧
    value = assemble (leadBits lead ranges.length) taken

theorem leadBits_one (lead : UInt8) : leadBits lead 1 = lead.toNat % 32 := rfl

theorem leadBits_two (lead : UInt8) : leadBits lead 2 = lead.toNat % 16 := rfl

theorem leadBits_three (lead : UInt8) : leadBits lead 3 = lead.toNat % 8 := rfl

theorem spells_one {v : ℕ} (h : v ≤ 0x7F) : Spells (.ofNat v) [] v := by
  have hlead : continuations (.ofNat v) = some [] := by
    rw [continuations_eq, UInt8.toNat_ofNat', if_pos (by omega)]
  refine ⟨_, hlead, .nil, ?_⟩
  change v = (UInt8.ofNat v).toNat
  rw [UInt8.toNat_ofNat']
  omega

theorem spells_two {v : ℕ} (h : 0x7F < v) (h' : v ≤ 0x7FF) :
    Spells (.ofNat (v / 64 % 32 + 192)) [.ofNat (v % 64 + 128)] v := by
  have hlead : continuations (.ofNat (v / 64 % 32 + 192)) = some [(0x80, 0xBF)] := by
    rw [continuations_eq, UInt8.toNat_ofNat', if_neg (by omega), if_neg (by omega),
      if_pos (by omega)]
  refine ⟨_, hlead, ?_, ?_⟩
  · simp only [InRanges, List.forall₂_cons, UInt8.le_iff_toNat_le, UInt8.toNat_ofNat',
      UInt8.reduceToNat, List.Forall₂.nil, and_true]
    omega
  · change v = leadBits _ 1 * 64 + (UInt8.ofNat _).toNat % 64
    rw [leadBits_one, UInt8.toNat_ofNat', UInt8.toNat_ofNat']
    omega

/-- The second byte tells the shortest form and the surrogates from others. -/
theorem spells_three {v : ℕ} (h : 0x7FF < v) (h' : v ≤ 0xFFFF)
    (hvalid : v < 0xD800 ∨ 0xDFFF < v) :
    Spells (.ofNat (v / 4096 % 16 + 224)) [.ofNat (v / 64 % 64 + 128), .ofNat (v % 64 + 128)]
      v := by
  have hlead : ∃ second, continuations (.ofNat (v / 4096 % 16 + 224)) =
      some [second, (0x80, 0xBF)] ∧ second.1.toNat ≤ v / 64 % 64 + 128 ∧
        v / 64 % 64 + 128 ≤ second.2.toNat := by
    rw [continuations_eq, UInt8.toNat_ofNat', if_neg (by omega), if_neg (by omega),
      if_neg (by omega)]
    split_ifs
    · exact ⟨_, rfl, by simp; omega⟩
    · exact ⟨_, rfl, by simp; omega⟩
    · exact ⟨_, rfl, by simp; omega⟩
    all_goals omega
  obtain ⟨second, hlead, hlow, hhigh⟩ := hlead
  refine ⟨_, hlead, ?_, ?_⟩
  · simp only [InRanges, List.forall₂_cons, UInt8.le_iff_toNat_le, UInt8.toNat_ofNat',
      UInt8.reduceToNat, List.Forall₂.nil, and_true]
    omega
  · change v = (leadBits _ 2 * 64 + (UInt8.ofNat _).toNat % 64) * 64 + (UInt8.ofNat _).toNat % 64
    rw [leadBits_two, UInt8.toNat_ofNat', UInt8.toNat_ofNat', UInt8.toNat_ofNat']
    omega

theorem spells_four {v : ℕ} (h : 0xFFFF < v) (h' : v < 0x110000) :
    Spells (.ofNat (v / 262144 % 8 + 240))
      [.ofNat (v / 4096 % 64 + 128), .ofNat (v / 64 % 64 + 128), .ofNat (v % 64 + 128)] v := by
  have hlead : ∃ second, continuations (.ofNat (v / 262144 % 8 + 240)) =
      some [second, (0x80, 0xBF), (0x80, 0xBF)] ∧ second.1.toNat ≤ v / 4096 % 64 + 128 ∧
        v / 4096 % 64 + 128 ≤ second.2.toNat := by
    rw [continuations_eq, UInt8.toNat_ofNat', if_neg (by omega), if_neg (by omega),
      if_neg (by omega), if_neg (by omega), if_neg (by omega), if_neg (by omega)]
    split_ifs
    · exact ⟨_, rfl, by simp; omega⟩
    · exact ⟨_, rfl, by simp; omega⟩
    · exact ⟨_, rfl, by simp; omega⟩
    · omega
  obtain ⟨second, hlead, hlow, hhigh⟩ := hlead
  refine ⟨_, hlead, ?_, ?_⟩
  · simp only [InRanges, List.forall₂_cons, UInt8.le_iff_toNat_le, UInt8.toNat_ofNat',
      UInt8.reduceToNat, List.Forall₂.nil, and_true]
    omega
  · change v = ((leadBits _ 3 * 64 + (UInt8.ofNat _).toNat % 64) * 64 +
      (UInt8.ofNat _).toNat % 64) * 64 + (UInt8.ofNat _).toNat % 64
    rw [leadBits_three, UInt8.toNat_ofNat', UInt8.toNat_ofNat', UInt8.toNat_ofNat',
      UInt8.toNat_ofNat']
    omega

theorem spells_encode (c : Char) : ∃ lead taken, String.utf8EncodeChar c = lead :: taken ∧
    Spells lead taken c.toNat := by
  have hvalid : c.val.toNat < 0xD800 ∨ 0xDFFF < c.val.toNat ∧ c.val.toNat < 0x110000 := c.valid
  unfold String.utf8EncodeChar Char.toNat
  generalize c.val.toNat = v at hvalid ⊢
  dsimp only
  split_ifs with hone htwo hthree
  · exact ⟨_, _, rfl, spells_one hone⟩
  · exact ⟨_, _, rfl, spells_two (not_le.mp hone) htwo⟩
  · exact ⟨_, _, rfl, spells_three (not_le.mp htwo) hthree (hvalid.imp_right And.left)⟩
  · exact ⟨_, _, rfl, spells_four (not_le.mp hthree) (by omega)⟩

theorem eq_ofNat {byte : UInt8} {n : ℕ} (h : byte.toNat = n % 256) : UInt8.ofNat n = byte := by
  rw [← UInt8.toNat_inj, UInt8.toNat_ofNat', h]

theorem toNat_char_ofNat {n : ℕ} (h : n < 0xD800 ∨ 0xDFFF < n ∧ n < 0x110000) :
    (Char.ofNat n).toNat = n := by
  have hvalid : n.isValidChar := h
  rw [Char.ofNat, dif_pos hvalid]
  rfl

theorem encode_one {a : UInt8} {c : Char} (ha : a.toNat < 0x80) (hc : c.toNat = a.toNat) :
    String.utf8EncodeChar c = [a] := by
  change c.val.toNat = _ at hc
  unfold String.utf8EncodeChar
  dsimp only
  rw [hc, if_pos (by omega), List.cons.injEq]
  exact ⟨eq_ofNat (by omega), rfl⟩

theorem encode_two {a b : UInt8} {c : Char} (ha : 0xC2 ≤ a.toNat ∧ a.toNat < 0xE0)
    (hb : 0x80 ≤ b.toNat ∧ b.toNat ≤ 0xBF) (hc : c.toNat = a.toNat % 32 * 64 + b.toNat % 64) :
    String.utf8EncodeChar c = [a, b] := by
  change c.val.toNat = _ at hc
  unfold String.utf8EncodeChar
  dsimp only
  rw [hc, if_neg (by omega), if_pos (by omega), List.cons.injEq, List.cons.injEq]
  exact ⟨eq_ofNat (by omega), eq_ofNat (by omega), rfl⟩

theorem encode_three {a b b' : UInt8} {c : Char} (ha : 0xE0 ≤ a.toNat ∧ a.toNat < 0xF0)
    (hb : (if a.toNat = 0xE0 then 0xA0 else 0x80) ≤ b.toNat ∧ b.toNat ≤ 0xBF)
    (hb' : 0x80 ≤ b'.toNat ∧ b'.toNat ≤ 0xBF)
    (hc : c.toNat = (a.toNat % 16 * 64 + b.toNat % 64) * 64 + b'.toNat % 64) :
    String.utf8EncodeChar c = [a, b, b'] := by
  change c.val.toNat = _ at hc
  unfold String.utf8EncodeChar
  dsimp only
  split_ifs at hb <;>
  · rw [hc, if_neg (by omega), if_neg (by omega), if_pos (by omega), List.cons.injEq,
      List.cons.injEq, List.cons.injEq]
    exact ⟨eq_ofNat (by omega), eq_ofNat (by omega), eq_ofNat (by omega), rfl⟩

theorem encode_four {a b b' b'' : UInt8} {c : Char} (ha : 0xF0 ≤ a.toNat ∧ a.toNat ≤ 0xF4)
    (hb : (if a.toNat = 0xF0 then 0x90 else 0x80) ≤ b.toNat ∧ b.toNat ≤ 0xBF)
    (hb' : 0x80 ≤ b'.toNat ∧ b'.toNat ≤ 0xBF) (hb'' : 0x80 ≤ b''.toNat ∧ b''.toNat ≤ 0xBF)
    (hc : c.toNat =
      ((a.toNat % 8 * 64 + b.toNat % 64) * 64 + b'.toNat % 64) * 64 + b''.toNat % 64) :
    String.utf8EncodeChar c = [a, b, b', b''] := by
  change c.val.toNat = _ at hc
  unfold String.utf8EncodeChar
  dsimp only
  split_ifs at hb <;>
  · rw [hc, if_neg (by omega), if_neg (by omega), if_neg (by omega), List.cons.injEq,
      List.cons.injEq, List.cons.injEq, List.cons.injEq]
    exact ⟨eq_ofNat (by omega), eq_ofNat (by omega), eq_ofNat (by omega), eq_ofNat (by omega), rfl⟩

theorem encode_of_two_more {lead : UInt8} {taken : List UInt8} {low high : UInt8}
    (hlead : 0xE0 ≤ lead.toNat ∧ lead.toNat < 0xF0)
    (hin : InRanges taken [(low, high), (0x80, 0xBF)])
    (hlow : low.toNat = if lead.toNat = 0xE0 then 0xA0 else 0x80)
    (hhigh : high.toNat = if lead.toNat = 0xED then 0x9F else 0xBF) :
    String.utf8EncodeChar (Char.ofNat (assemble (leadBits lead 2) taken)) = lead :: taken := by
  obtain ⟨b, last, hb, hlast, rfl⟩ := List.forall₂_cons_right_iff.mp hin
  obtain ⟨b', none, hb', hnone, rfl⟩ := List.forall₂_cons_right_iff.mp hlast
  obtain rfl := List.forall₂_nil_right_iff.mp hnone
  have hvalue : assemble (leadBits lead 2) [b, b'] =
      (lead.toNat % 16 * 64 + b.toNat % 64) * 64 + b'.toNat % 64 := rfl
  simp only [UInt8.le_iff_toNat_le, hlow, hhigh, UInt8.reduceToNat] at hb hb'
  rw [hvalue]
  refine encode_three hlead ⟨hb.1, ?_⟩ hb' (toNat_char_ofNat ?_)
  · split_ifs at hb <;> omega
  · split_ifs at hb <;> omega

theorem encode_of_three_more {lead : UInt8} {taken : List UInt8} {low high : UInt8}
    (hlead : 0xF0 ≤ lead.toNat ∧ lead.toNat ≤ 0xF4)
    (hin : InRanges taken [(low, high), (0x80, 0xBF), (0x80, 0xBF)])
    (hlow : low.toNat = if lead.toNat = 0xF0 then 0x90 else 0x80)
    (hhigh : high.toNat = if lead.toNat = 0xF4 then 0x8F else 0xBF) :
    String.utf8EncodeChar (Char.ofNat (assemble (leadBits lead 3) taken)) = lead :: taken := by
  obtain ⟨b, rest, hb, hrest, rfl⟩ := List.forall₂_cons_right_iff.mp hin
  obtain ⟨b', last, hb', hlast, rfl⟩ := List.forall₂_cons_right_iff.mp hrest
  obtain ⟨b'', none, hb'', hnone, rfl⟩ := List.forall₂_cons_right_iff.mp hlast
  obtain rfl := List.forall₂_nil_right_iff.mp hnone
  have hvalue : assemble (leadBits lead 3) [b, b', b''] =
      ((lead.toNat % 8 * 64 + b.toNat % 64) * 64 + b'.toNat % 64) * 64 + b''.toNat % 64 := rfl
  simp only [UInt8.le_iff_toNat_le, hlow, hhigh, UInt8.reduceToNat] at hb hb' hb''
  rw [hvalue]
  refine encode_four hlead ⟨hb.1, ?_⟩ hb' hb'' (toNat_char_ofNat ?_)
  · split_ifs at hb <;> omega
  · split_ifs at hb <;> omega

/-- What is spelled is the encoding of a character. -/
theorem encode_of_spells {lead : UInt8} {taken : List UInt8} {v : ℕ} (h : Spells lead taken v) :
    String.utf8EncodeChar (Char.ofNat v) = lead :: taken := by
  obtain ⟨ranges, hlead, hin, rfl⟩ := h
  rw [continuations_eq] at hlead
  split_ifs at hlead <;> obtain rfl := Option.some.inj hlead
  · obtain rfl := List.forall₂_nil_right_iff.mp hin
    have hvalue : assemble (leadBits lead 0) [] = lead.toNat := rfl
    rw [List.length_nil, hvalue]
    exact encode_one (by omega) (toNat_char_ofNat (by omega))
  · obtain ⟨b, none, hb, hnone, rfl⟩ := List.forall₂_cons_right_iff.mp hin
    obtain rfl := List.forall₂_nil_right_iff.mp hnone
    have hvalue : assemble (leadBits lead 1) [b] = lead.toNat % 32 * 64 + b.toNat % 64 := rfl
    simp only [UInt8.le_iff_toNat_le, UInt8.reduceToNat] at hb
    rw [List.length_singleton, hvalue]
    exact encode_two (by omega) hb (toNat_char_ofNat (by omega))
  · exact encode_of_two_more (by omega) hin (by simp [*]) (by simp [*])
  · exact encode_of_two_more (by omega) hin (by simp [*]) (by simp [*])
  · exact encode_of_two_more (by omega) hin (by simp [*]) (by simp [*])
  · exact encode_of_three_more (by omega) hin (by simp [*]) (by simp [*])
  · exact encode_of_three_more (by omega) hin (by simp [*]) (by simp [*]; omega)
  · exact encode_of_three_more (by omega) hin (by simp [*]) (by simp [*])

/-! ## Texts -/

theorem units_encode (c : Char) (rest : List UInt8) :
    units (String.utf8EncodeChar c ++ rest) = some c :: units rest := by
  obtain ⟨lead, taken, hencode, ranges, hlead, hin, hvalue⟩ := spells_encode c
  rw [hencode, List.cons_append, units, hlead]
  dsimp only
  rw [follow_append hin, ← hvalue, Option.map_some, Char.ofNat_toNat]

theorem units_flatMap (text : List Char) :
    units (text.flatMap String.utf8EncodeChar) = text.map some := by
  induction text with
  | nil => simp [units]
  | cons c text ih => rw [List.flatMap_cons, units_encode, ih, List.map_cons]

theorem eq_flatMap_of_units {text : List Char} {bytes : List UInt8}
    (h : units bytes = text.map some) : bytes = text.flatMap String.utf8EncodeChar := by
  induction text generalizing bytes with
  | nil =>
    cases bytes with
    | nil => rfl
    | cons lead rest =>
      rw [units] at h
      split at h <;> cases h
  | cons c text ih =>
    cases bytes with
    | nil =>
      rw [units] at h
      cases h
    | cons lead rest =>
      rw [units] at h
      cases hlead : continuations lead with
      | none =>
        rw [hlead] at h
        cases h
      | some ranges =>
        rw [hlead] at h
        dsimp only at h
        rcases hfollow : follow ranges (leadBits lead ranges.length) rest with ⟨⟨⟩ | v, behind⟩
        · rw [hfollow] at h
          cases h
        · rw [hfollow, Option.map_some, List.map_cons, List.cons.injEq, Option.some.injEq] at h
          obtain ⟨rfl, hbehind⟩ := h
          -- the lead and the bytes taken spell the first character
          obtain ⟨taken, rfl, hin, hvalue⟩ := of_follow hfollow
          rw [List.flatMap_cons, encode_of_spells ⟨ranges, hlead, hin, hvalue⟩, ← ih hbehind]
          rfl

theorem mapM_id_eq_some {l : List (Option α)} {r : List α} :
    l.mapM id = some r ↔ l = r.map some := by
  induction l generalizing r with
  | nil => cases r <;> simp
  | cons a l ih =>
    cases a with
    | none => cases r <;> simp
    | some a =>
      cases r <;> simp [Option.bind_eq_some_iff, ih, and_comm]

/-- `strict?` reads exactly the encodings of texts. -/
theorem strict?_eq_some {data : ByteArray} {text : String} :
    strict? data = some text ↔ text.toByteArray = data := by
  rw [strict?, Option.map_eq_some_iff]
  constructor
  · rintro ⟨chars, hunits, rfl⟩
    rw [String.toByteArray_ofList, List.utf8Encode,
      ← eq_flatMap_of_units (mapM_id_eq_some.mp hunits)]
    ext1
    simp
  · rintro rfl
    refine ⟨text.toList, mapM_id_eq_some.mpr ?_, String.ofList_toList⟩
    rw [← String.utf8Encode_toList, List.utf8Encode, List.toList_data_toByteArray, units_flatMap]

theorem lossy_toByteArray (text : String) : lossy text.toByteArray = text := by
  have hshow : text.toList.map (fun c => (some c).getD '\uFFFD') = text.toList :=
    List.map_id text.toList
  rw [lossy, ← String.utf8Encode_toList, List.utf8Encode, List.toList_data_toByteArray,
    units_flatMap, List.map_map]
  exact (congrArg String.ofList hshow).trans String.ofList_toList

/-! ## Parts of texts -/

def IsText (bytes : List UInt8) : Prop :=
  ∃ text : String, text.toByteArray = bytes.toByteArray

theorem isText_iff {bytes : List UInt8} :
    IsText bytes ↔ ∃ text : List Char, text.flatMap String.utf8EncodeChar = bytes := by
  constructor
  · rintro ⟨text, htext⟩
    refine ⟨text.toList, ?_⟩
    rw [← String.utf8Encode_toList, List.utf8Encode] at htext
    simpa using congrArg (fun data : ByteArray => data.data.toList) htext
  · rintro ⟨text, rfl⟩
    exact ⟨String.ofList text, String.toByteArray_ofList⟩

theorem isSome_strict? {bytes : List UInt8} :
    (strict? bytes.toByteArray).isSome ↔ IsText bytes := by
  simp only [Option.isSome_iff_exists, strict?_eq_some]
  rfl

theorem encode_of_mem {c : Char} {b : UInt8} (hmem : b ∈ String.utf8EncodeChar c)
    (hb : b.toNat < 0x80) : String.utf8EncodeChar c = [b] := by
  unfold String.utf8EncodeChar at hmem ⊢
  generalize c.val.toNat = v at hmem ⊢
  dsimp only at hmem ⊢
  split_ifs at hmem ⊢ with hone htwo hthree
  · rw [List.mem_singleton.mp hmem]
  all_goals
    simp only [List.mem_cons, List.not_mem_nil, or_false, ← UInt8.toNat_inj,
      UInt8.toNat_ofNat'] at hmem
    omega

/-- A text can be cut at an ASCII byte. -/
theorem isText_append_cons {front back : List UInt8} {b : UInt8} (hb : b.toNat < 0x80) :
    IsText (front ++ b :: back) ↔ IsText front ∧ IsText back := by
  simp only [isText_iff]
  constructor
  · rintro ⟨text, htext⟩
    induction text generalizing front with
    | nil => simp at htext
    | cons c text ih =>
      rw [List.flatMap_cons, List.append_eq_append_iff] at htext
      rcases htext with ⟨more, rfl, htext⟩ | ⟨more, hencode, htext⟩
      · obtain ⟨⟨first, rfl⟩, hback⟩ := ih htext
        exact ⟨⟨c :: first, List.flatMap_cons⟩, hback⟩
      · cases more with
        | nil =>
          rw [List.append_nil] at hencode
          obtain ⟨-, hback⟩ := @ih [] htext.symm
          exact ⟨⟨[c], by rw [List.flatMap_singleton, hencode]⟩, hback⟩
        | cons b' more =>
          obtain ⟨rfl, rfl⟩ := List.cons.inj htext
          -- the byte is in the encoding of one character, and so it is all of that encoding
          have hwhole := encode_of_mem (c := c) (by rw [hencode]; simp) hb
          rw [hencode, List.append_eq_singleton_iff] at hwhole
          rcases hwhole with ⟨rfl, hmore⟩ | ⟨-, hmore⟩
          · obtain rfl := (List.cons.inj hmore).2
            exact ⟨⟨[], rfl⟩, ⟨text, rfl⟩⟩
          · cases hmore
  · rintro ⟨⟨first, rfl⟩, ⟨second, rfl⟩⟩
    have hencode : String.utf8EncodeChar (Char.ofNat b.toNat) = [b] :=
      encode_one hb (toNat_char_ofNat (by omega))
    exact ⟨first ++ Char.ofNat b.toNat :: second, by simp [hencode]⟩

theorem isText_nil : IsText [] := ⟨"", rfl⟩

theorem isText_append_left {front back : List UInt8} (h : ∀ b ∈ back, b.toNat < 0x80) :
    IsText (front ++ back) ↔ IsText front := by
  induction back generalizing front with
  | nil => rw [List.append_nil]
  | cons b back ih =>
    rw [List.forall_mem_cons] at h
    have hback : IsText back := (@ih [] h.2).mpr isText_nil
    rw [isText_append_cons h.1]
    exact and_iff_left hback

theorem isText_append_right {front back : List UInt8} (h : ∀ b ∈ front, b.toNat < 0x80) :
    IsText (front ++ back) ↔ IsText back := by
  induction front with
  | nil => rw [List.nil_append]
  | cons b front ih =>
    rw [List.forall_mem_cons] at h
    rw [List.cons_append, ← List.nil_append (b :: (front ++ back)), isText_append_cons h.1, ih h.2]
    exact and_iff_right isText_nil

end PackedIndex.Utf8
