namespace Kitting.Text

def after? : (pat : List Char) → List Char → Option (List Char)
  | [], cs => some cs
  | _ :: _, [] => none
  | p :: ps, c :: cs => if p = c then after? ps cs else none

theorem after?_eq_some_iff {pat cs r : List Char} : after? pat cs = some r ↔ cs = pat ++ r := by
  induction pat generalizing cs with
  | nil => simp [after?, eq_comm]
  | cons p ps ih =>
    cases cs with
    | nil => simp [after?]
    | cons c cs =>
      by_cases h : p = c
      · simp [after?, h, ih]
      · simp [after?, h, eq_comm]

def occursIn (pat : List Char) : List Char → Bool
  | [] => pat.isEmpty
  | c :: cs => (after? pat (c :: cs)).isSome || occursIn pat cs

theorem occursIn_iff_infix {pat cs : List Char} : occursIn pat cs ↔ pat <:+: cs := by
  induction cs with
  | nil => simp [occursIn]
  | cons c cs ih =>
    rw [occursIn, Bool.or_eq_true, ih, List.infix_cons_iff, Option.isSome_iff_exists]
    simp only [after?_eq_some_iff]
    exact or_congr_left ⟨fun ⟨r, h⟩ => ⟨r, h.symm⟩, fun ⟨r, h⟩ => ⟨r, h.symm⟩⟩

def contains (s pat : String) : Bool := occursIn pat.toList s.toList

def replaceFirst (pat new : List Char) : List Char → List Char
  | [] => if pat.isEmpty then new else []
  | c :: cs => match after? pat (c :: cs) with
    | some r => new ++ r
    | none => c :: replaceFirst pat new cs

/-- Cuts a text at every character `sep`; neighbours give an empty field. -/
def fieldsOf (sep : Char) : List Char → List (List Char)
  | [] => [[]]
  | c :: cs =>
    if c = sep then [] :: fieldsOf sep cs
    else match fieldsOf sep cs with
      | [] => [[c]]
      | w :: ws => (c :: w) :: ws

end Kitting.Text
