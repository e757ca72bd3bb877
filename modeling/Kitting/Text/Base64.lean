namespace Kitting.Text.Base64

def alphabet : List Char :=
  "ABCDEFGHIJKLMNOPQRSTUVWXYZabcdefghijklmnopqrstuvwxyz0123456789+/".toList

def digit (n : Nat) : Char := alphabet.getD n 'A'

def encodeBytes : List UInt8 → List Char
  | [] => []
  | [a] => let n := a.toNat * 0x10; [digit (n / 64), digit (n % 64), '=', '=']
  | [a, b] =>
    let n := (a.toNat * 0x100 + b.toNat) * 4
    [digit (n / 4096), digit (n / 64 % 64), digit (n % 64), '=']
  | a :: b :: c :: rest =>
    let n := (a.toNat * 0x100 + b.toNat) * 0x100 + c.toNat
    digit (n / 262144) :: digit (n / 4096 % 64) :: digit (n / 64 % 64) :: digit (n % 64)
      :: encodeBytes rest

def encode (bytes : List UInt8) : String := .ofList (encodeBytes bytes)

def value (c : Char) : Nat := (alphabet.idxOf? c).getD 0

def byte (n : Nat) : UInt8 := UInt8.ofNat n

def decodeChars : List Char → List UInt8
  | a :: b :: c :: d :: rest =>
    let n := ((value a * 64 + value b) * 64 + value c) * 64 + value d
    if c = '=' then [byte (n / 65536)]
    else if d = '=' then [byte (n / 65536), byte (n / 256 % 256)]
    else byte (n / 65536) :: byte (n / 256 % 256) :: byte (n % 256) :: decodeChars rest
  | _ => []

def decode (s : String) : List UInt8 := decodeChars s.toList

end Kitting.Text.Base64
