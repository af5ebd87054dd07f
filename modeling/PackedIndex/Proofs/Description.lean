import Mathlib.Tactic
import PackedIndex.Description
import PackedIndex.Proofs.Outcome
/-! # Reading a description

A JSON document is read by the names of its members. The description of a file lists the records
that it was asked for, one item each and in their order, and has no such list where it was not
asked.
-/
namespace PackedIndex

namespace Json

def Items.toList : Items → List Json
  | .nil => []
  | .cons item items => item :: items.toList

def Members.toList : Members → List (String × Json)
  | .nil => []
  | .cons name value members => (name, value) :: members.toList

def items? : Json → Option (List Json)
  | .array items => some items.toList
  | _ => none

def member? (json : Json) (name : String) : Option Json :=
  match json with
  | .object members => members.toList.lookup name
  | _ => none

/-- The value that some names lead to, each naming a member of the value before. -/
def at? (json : Json) : List String → Option Json
  | [] => some json
  | name :: names => (json.member? name).bind fun value => value.at? names

def itemsAt? (json : Json) (names : List String) : Option (List Json) :=
  (json.at? names).bind items?

@[simp] theorem Items.toList_ofList (items : List Json) : (Items.ofList items).toList = items := by
  induction items with
  | nil => rfl
  | cons item items ih => simp [Items.ofList, Items.toList, ih]

@[simp] theorem Members.toList_ofList (members : List (String × Json)) :
    (Members.ofList members).toList = members := by
  induction members with
  | nil => rfl
  | cons member members ih => simp [Members.ofList, Members.toList, ih]

@[simp] theorem items?_list (items : List Json) : (list items).items? = some items := by
  simp [list, items?]

@[simp] theorem member?_fields (members : List (String × Json)) (name : String) :
    (fields members).member? name = members.lookup name := by
  simp [fields, member?]

end Json

namespace Reader

open Outcome

variable {reader : Reader}

/-- A document lists the records that it is about, and only where there are any to list. -/
theorem itemsAt?_document (records : Option (List Record)) :
    (reader.document records).itemsAt? ["pagetree", "records"] =
      records.map (List.map describeRecord) := by
  cases records <;> simp [Json.itemsAt?, Json.at?, document, List.lookup_cons]

theorem mapM_id_eq_ok {answers : List (Except Damage Record)} {records : List Record} :
    answers.mapM id = .ok records ↔ answers = records.map .ok := by
  induction answers generalizing records with
  | nil => cases records <;> simp [pure, Except.pure]
  | cons answer answers ih =>
    rw [List.mapM_cons, bind_eq_ok]
    constructor
    · rintro ⟨record, rfl, h⟩
      obtain ⟨behind, hbehind, h⟩ := bind_eq_ok.mp h
      cases h
      simp [ih.mp hbehind]
    · intro h
      cases records with
      | nil => simp at h
      | cons record records =>
        obtain ⟨rfl, hbehind⟩ := List.cons.inj h
        exact ⟨record, rfl, bind_eq_ok.mpr ⟨records, ih.mpr hbehind, rfl⟩⟩

theorem describe_eq_ok_iff {described : Json} :
    reader.describe true = .ok described ↔
      ∃ records, reader.records = records.map .ok ∧
        described = reader.document (some records) := by
  unfold describe
  rw [if_pos rfl, bind_eq_ok]
  refine exists_congr fun records => and_congr mapM_id_eq_ok ?_
  rw [pure_eq_ok, eq_comm]

end Reader

end PackedIndex
