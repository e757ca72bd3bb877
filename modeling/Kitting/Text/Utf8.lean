namespace Kitting.Text.Utf8

inductive Fault
  | badStart
  | badContinuation
  | cutOff
  deriving DecidableEq, Repr

/-- A character of `size` bytes, or a fault of `size` bytes that starts with `first`: a byte that starts no character,
a sequence broken by a byte that cannot continue it, or one that the end of the text cuts off. -/
inductive Piece
  | char (c : Char) (size : Nat)
  | fault (cause : Fault) (first : UInt8) (size : Nat)
  deriving DecidableEq, Repr

def Piece.size : Piece → Nat
  | char _ n => n
  | fault _ _ n => n

def isContinuation (b : UInt8) : Bool := 0x80 ≤ b && b ≤ 0xbf

/-- How many bytes a character starting with this one has; 0 for a byte that starts none. -/
def lengthOf (b : UInt8) : Nat :=
  if b < 0x80 then 1 else if b < 0xc2 then 0 else if b < 0xe0 then 2 else if b < 0xf0 then 3
  else if b < 0xf5 then 4 else 0

/-- Whether `b` may be the second byte after `a`; this keeps out surrogates, overlong forms and code
points that are too large. -/
def mayFollow (a b : UInt8) : Bool :=
  if a = 0xe0 then 0xa0 ≤ b && b ≤ 0xbf
  else if a = 0xed then 0x80 ≤ b && b ≤ 0x9f
  else if a = 0xf0 then 0x90 ≤ b && b ≤ 0xbf
  else if a = 0xf4 then 0x80 ≤ b && b ≤ 0x8f
  else isContinuation b

def low (b : UInt8) : Nat := b.toNat % 0x40

def scan : List UInt8 → List Piece
  | [] => []
  | a :: as =>
    match lengthOf a with
    | 0 => .fault .badStart a 1 :: scan as
    | 1 => .char (Char.ofNat a.toNat) 1 :: scan as
    | 2 => match as with
      | [] => [.fault .cutOff a 1]
      | b :: bs =>
        if mayFollow a b then .char (Char.ofNat (a.toNat % 0x20 * 0x40 + low b)) 2 :: scan bs
        else .fault .badContinuation a 1 :: scan (b :: bs)
    | 3 => match as with
      | [] => [.fault .cutOff a 1]
      | b :: bs =>
        if mayFollow a b then match bs with
          | [] => [.fault .cutOff a 2]
          | c :: cs =>
            if isContinuation c then
              .char (Char.ofNat ((a.toNat % 0x10 * 0x40 + low b) * 0x40 + low c)) 3 :: scan cs
            else .fault .badContinuation a 2 :: scan (c :: cs)
        else .fault .badContinuation a 1 :: scan (b :: bs)
    | _ => match as with
      | [] => [.fault .cutOff a 1]
      | b :: bs =>
        if mayFollow a b then match bs with
          | [] => [.fault .cutOff a 2]
          | c :: cs =>
            if isContinuation c then match cs with
              | [] => [.fault .cutOff a 3]
              | d :: ds =>
                if isContinuation d then
                  .char (Char.ofNat
                    (((a.toNat % 0x8 * 0x40 + low b) * 0x40 + low c) * 0x40 + low d)) 4 :: scan ds
                else .fault .badContinuation a 3 :: scan (d :: ds)
            else .fault .badContinuation a 2 :: scan (c :: cs)
        else .fault .badContinuation a 1 :: scan (b :: bs)

def encode (cs : List Char) : List UInt8 := cs.flatMap String.utf8EncodeChar

structure Stop where
  position : Nat
  cause : Fault
  first : UInt8
  size : Nat
  deriving DecidableEq, Repr

def charsFrom (position : Nat) : List Piece → Except Stop (List Char)
  | [] => .ok []
  | .char c n :: ps => (charsFrom (position + n) ps).map (c :: ·)
  | .fault cause first n :: _ => .error ⟨position, cause, first, n⟩

def decode (bytes : List UInt8) : Except Stop (List Char) := charsFrom 0 (scan bytes)

def decodeLossy (bytes : List UInt8) : List Char :=
  (scan bytes).map fun
    | .char c _ => c
    | .fault .. => '\ufffd'

def Fault.text : Fault → String
  | badStart => "invalid start byte"
  | badContinuation => "invalid continuation byte"
  | cutOff => "unexpected end of data"

end Kitting.Text.Utf8
