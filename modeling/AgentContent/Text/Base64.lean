/-!
# AgentContent.Text.Base64

Bytes written with the standard alphabet of 64 characters, filled to groups of four.

* `Base64.encode`: three bytes a group.
* `Base64.decode?`: refuses characters outside the alphabet, groups that are not full, and unused
  bits that are not zero.
-/

namespace AgentContent
namespace Base64

def alphabet : List Char :=
  "ABCDEFGHIJKLMNOPQRSTUVWXYZabcdefghijklmnopqrstuvwxyz0123456789+/".toList

/-- The character of six bits. -/
def digit (n : Nat) : Char :=
  alphabet.getD (n % 64) 'A'

/-- The six bits of a character. -/
def value? (c : Char) : Option Nat :=
  alphabet.idxOf? c

def encode : List UInt8 → List Char
  | [] => []
  | [a] =>
    let n := a.toNat * 16
    [digit (n / 64), digit n, '=', '=']
  | [a, b] =>
    let n := (a.toNat * 256 + b.toNat) * 4
    [digit (n / 4096), digit (n / 64), digit n, '=']
  | a :: b :: c :: rest =>
    let n := (a.toNat * 256 + b.toNat) * 256 + c.toNat
    digit (n / 262144) :: digit (n / 4096) :: digit (n / 64) :: digit n :: encode rest

def decode? : List Char → Option (List UInt8)
  | [] => some []
  | [a, b, '=', '='] =>
    match value? a, value? b with
    | some a, some b =>
      let n := a * 64 + b
      if n % 16 = 0 then some [UInt8.ofNat (n / 16)] else none
    | _, _ => none
  | [a, b, c, '='] =>
    match value? a, value? b, value? c with
    | some a, some b, some c =>
      let n := (a * 64 + b) * 64 + c
      if n % 4 = 0 then some [UInt8.ofNat (n / 1024), UInt8.ofNat (n / 4)] else none
    | _, _, _ => none
  | a :: b :: c :: d :: rest =>
    match value? a, value? b, value? c, value? d with
    | some a, some b, some c, some d =>
      let n := ((a * 64 + b) * 64 + c) * 64 + d
      match decode? rest with
      | none => none
      | some bytes =>
        some (UInt8.ofNat (n / 65536) :: UInt8.ofNat (n / 256) :: UInt8.ofNat n :: bytes)
    | _, _, _, _ => none
  | _ => none

end Base64
end AgentContent
