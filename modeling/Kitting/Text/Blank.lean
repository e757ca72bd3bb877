namespace Kitting.Text

/-- White space of every script: the Unicode property `White_Space`. -/
def isSpace (c : Char) : Bool :=
  let n := c.toNat
  (0x9 ≤ n && n ≤ 0xd) || n == 0x20 || n == 0x85 || n == 0xa0 || n == 0x1680
    || (0x2000 ≤ n && n ≤ 0x200a) || n == 0x2028 || n == 0x2029 || n == 0x202f || n == 0x205f
    || n == 0x3000

/-- White space and the four separators U+001C to U+001F. -/
def isBlank (c : Char) : Bool := isSpace c || (0x1c ≤ c.toNat && c.toNat ≤ 0x1f)

theorem isBlank_of_isSpace {c : Char} (h : isSpace c) : isBlank c := by simp [isBlank, h]

def dropEndWhile (p : Char → Bool) : List Char → List Char
  | [] => []
  | c :: cs => match dropEndWhile p cs with
    | [] => if p c then [] else [c]
    | d :: ds => c :: d :: ds

def trimBy (p : Char → Bool) (cs : List Char) : List Char := dropEndWhile p (cs.dropWhile p)

def trimChars (cs : List Char) : List Char := trimBy isBlank cs

def trim (s : String) : String := .ofList (trimChars s.toList)

/-- The maximal runs of characters that are no separators, in order. -/
def pieces (sep : Char → Bool) : List Char → List (List Char)
  | [] => []
  | c :: cs =>
    if sep c then pieces sep cs
    else match cs with
      | [] => [[c]]
      | d :: _ =>
        if sep d then [c] :: pieces sep cs
        else match pieces sep cs with
          | [] => [[c]]
          | w :: ws => (c :: w) :: ws

@[simp] theorem pieces_nil (sep : Char → Bool) : pieces sep [] = [] := rfl

theorem pieces_cons_sep {sep : Char → Bool} {c : Char} (h : sep c) (cs : List Char) :
    pieces sep (c :: cs) = pieces sep cs := by
  simp [pieces, h]

def wordChars (cs : List Char) : List (List Char) := pieces isBlank cs

def words (s : String) : List String := (wordChars s.toList).map .ofList

def isVacant (s : String) : Bool := s.toList.all isBlank

end Kitting.Text
