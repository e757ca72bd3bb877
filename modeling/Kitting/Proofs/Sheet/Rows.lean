import Kitting.Proofs.Json.Number
import Kitting.Proofs.Knowledge.Stores
import Kitting.Sheet.Table

namespace Kitting

open Text

theorem trim_of_visible {s : String} (h : Json.Visible s.toList) : trim s = s :=
  trim_eq_self_iff.2 (trimChars_eq_self fun _ => h.not_isBlank)

namespace Double

theorem write_ne_empty (style : DecimalStyle) (n : Nat) (k : Int) : style.write n k ≠ "" := by
  rw [DecimalStyle.write]
  split
  · split
    · simp
    split <;> simp
  · simp

theorem text_ne_empty (x : Double) : x.text ≠ "" := by
  cases x with
  | nan => decide
  | infinity negative => cases negative <;> decide
  | finite negative m e =>
    simp only [text, writeWith, ne_eq, String.append_eq_empty_iff, not_and_or]
    right
    split
    · decide
    · exact write_ne_empty _ _ _

end Double

namespace Cell

theorem trimmed_float (x : Double) : (toJson (float x)).trimmed = x.text :=
  trim_of_visible (Json.visible_writeWith .plain x)

theorem trimmed_int (n : Int) : (toJson (int n)).trimmed = toString n := trim_of_visible (Json.visible_int n)

theorem trim_value (c : Cell) : trim c.value = c.value := by
  cases c with
  | float x =>
    rw [value]
    split
    · exact trim_of_visible (Json.visible_int _)
    · exact trim_of_visible (Json.visible_writeWith _ x)
  | empty => exact Json.trim_trimmed .null
  | bool b => exact Json.trim_trimmed (.bool b)
  | int n => exact Json.trim_trimmed (.int n)
  | text s => exact Json.trim_trimmed (.str s)

def IsBlank : Cell → Prop
  | empty => True
  | text s => ∀ c ∈ s.toList, isBlank c
  | bool _ | int _ | float _ => False

instance : DecidablePred IsBlank
  | empty => inferInstanceAs (Decidable True)
  -- named, since the instance that is found first may go through all characters there are
  | text s => s.toList.decidableBAll (isBlank ·)
  | bool _ | int _ | float _ => inferInstanceAs (Decidable False)

theorem toString_int_ne_empty (n : Int) : toString n ≠ "" := by
  cases n with
  | ofNat n => exact mt String.toList_eq_nil_iff.2 (repr_ne_nil n)
  | negSucc n =>
    change "-" ++ Nat.repr (n + 1) ≠ ""
    simp

theorem value_eq_empty_iff (c : Cell) : c.value = "" ↔ c.IsBlank := by
  cases c with
  | empty => exact iff_of_true rfl trivial
  | bool b => cases b <;> exact iff_of_false (by decide) id
  | int n =>
    refine iff_of_false ?_ id
    change (toJson (int n)).trimmed ≠ ""
    rw [trimmed_int]
    exact toString_int_ne_empty n
  | float x =>
    refine iff_of_false ?_ id
    rw [value]
    split
    · exact toString_int_ne_empty _
    · exact x.text_ne_empty
  | text s => exact trim_eq_empty_iff

end Cell

def Row.IsBlank (row : Row) : Prop := ∀ c ∈ row, c.IsBlank

instance : DecidablePred Row.IsBlank := fun row => inferInstanceAs (Decidable (∀ c ∈ row, c.IsBlank))

theorem Row.all_isVacant_iff (row : Row) : row.all Cell.isVacant ↔ row.IsBlank := by
  simp only [List.all_eq_true, Cell.isVacant, String.isEmpty_iff, Cell.value_eq_empty_iff, IsBlank]

namespace Table

theorem trim_text (row : Row) (column : Option Nat) : trim (text row column) = text row column :=
  Cell.trim_value _

theorem ofRows_cons (header : Row) (body : List Row) :
    ofRows (header :: body) = ⟨header.map Cell.value, body.filter (¬Row.IsBlank ·)⟩ := by
  rw [ofRows]
  congr 1
  refine List.filter_congr fun row _ => ?_
  rw [Bool.eq_iff_iff, Bool.not_eq_true', ← Bool.not_eq_true, Row.all_isVacant_iff, decide_eq_true_eq]

theorem mem_of_mem_rows {row : Row} {sheet : List Row} (h : row ∈ (ofRows sheet).rows) : row ∈ sheet := by
  cases sheet with
  | nil => exact h
  | cons header rows => exact List.mem_cons_of_mem header (List.mem_of_mem_filter h)

end Table

end Kitting
