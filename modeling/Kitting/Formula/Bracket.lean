import Kitting.Text.Search

namespace Kitting.Formula

inductive Segment
  | char (c : Char)
  | span (inner : List Char)
  deriving DecidableEq, Repr

/-- `pending` holds what stands behind an opening character not yet closed, last character first. -/
def segmentsFrom (opening closing : Char) : (pending : Option (List Char)) → List Char → List Segment
  | none, [] => []
  | some p, [] => (opening :: p.reverse).map .char
  | none, c :: cs =>
    if c = opening then segmentsFrom opening closing (some []) cs
    else .char c :: segmentsFrom opening closing none cs
  | some p, c :: cs =>
    if c = closing then .span p.reverse :: segmentsFrom opening closing none cs
    else segmentsFrom opening closing (some (c :: p)) cs

def segments (opening closing : Char) (cs : List Char) : List Segment :=
  segmentsFrom opening closing none cs

namespace Segment

def text (opening closing : Char) : Segment → List Char
  | char c => [c]
  | span inner => opening :: inner ++ [closing]

def blanked : Segment → List Char
  | char c => [c]
  | span _ => [' ']

def inner? : Segment → Option (List Char)
  | char _ => none
  | span inner => some inner

end Segment

def spans (opening closing : Char) (cs : List Char) : List (List Char) :=
  (segments opening closing cs).filterMap Segment.inner?

def blankSpans (opening closing : Char) (cs : List Char) : List Char :=
  (segments opening closing cs).flatMap Segment.blanked

/-- The text from which each span in turn was taken out, where it is first found. -/
def dropSpans (opening closing : Char) (cs : List Char) : List Char :=
  (spans opening closing cs).foldl
    (fun working inner => Text.replaceFirst (opening :: inner ++ [closing]) [' '] working) cs

theorem segmentsFrom_text (opening closing : Char) (pending : Option (List Char)) (cs : List Char) :
    (segmentsFrom opening closing pending cs).flatMap (Segment.text opening closing)
      = (match pending with | none => cs | some p => opening :: p.reverse ++ cs) := by
  induction cs generalizing pending with
  | nil =>
    cases pending with
    | none => rfl
    | some p =>
      simp only [segmentsFrom, List.flatMap_map, Segment.text, List.append_nil]
      induction opening :: p.reverse with
      | nil => rfl
      | cons c cs ih => simp [ih]
  | cons c cs ih =>
    cases pending with
    | none =>
      by_cases h : c = opening
      · simp [segmentsFrom, h, ih]
      · simp [segmentsFrom, h, ih, Segment.text]
    | some p =>
      by_cases h : c = closing
      · simp [segmentsFrom, h, ih, Segment.text]
      · simp [segmentsFrom, h, ih]

@[simp] theorem segments_text (opening closing : Char) (cs : List Char) :
    (segments opening closing cs).flatMap (Segment.text opening closing) = cs :=
  segmentsFrom_text opening closing none cs

end Kitting.Formula
