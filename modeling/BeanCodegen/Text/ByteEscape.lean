/-! # Escaped bytes

Default values of bytes fields are written with backslash escapes: a letter escape (`\n`,
`\t`, `\\`, `\'`, …), up to three octal digits, or `\x` with up to two hexadecimal digits.
Reading keeps every byte that does not start an escape. An escape that does not form a byte
passes through as written: `\x` without digits, an octal number above 255, and a backslash
before any other character.
-/

namespace BeanCodegen.Text

/-- The byte a letter escape stands for. -/
def letterEscape (b : UInt8) : Option UInt8 :=
  match b.toNat with
  | 0x61 => some 0x07
  | 0x62 => some 0x08
  | 0x66 => some 0x0c
  | 0x6e => some 0x0a
  | 0x72 => some 0x0d
  | 0x74 => some 0x09
  | 0x76 => some 0x0b
  | 0x5c => some 0x5c
  | 0x22 => some 0x22
  | 0x27 => some 0x27
  | 0x3f => some 0x3f
  | _ => none

/-- Whether a byte is an ASCII octal digit. -/
def isOctalByte (b : UInt8) : Bool := 0x30 ≤ b && b ≤ 0x37

/-- The value of an ASCII hexadecimal digit, if the byte is one. -/
def hexValue (b : UInt8) : Option Nat :=
  if 0x30 ≤ b && b ≤ 0x39 then some (b.toNat - 0x30)
  else if 0x61 ≤ b && b ≤ 0x66 then some (b.toNat - 0x61 + 10)
  else if 0x41 ≤ b && b ≤ 0x46 then some (b.toNat - 0x41 + 10)
  else none

/-- The number that a list of digits in base `base` spells, most significant first. -/
def digitsValue (base : Nat) (digit : UInt8 → Nat) (ds : List UInt8) : Nat :=
  ds.foldl (fun acc d => acc * base + digit d) 0

/-- Reads the escapes of a byte string. -/
def unescapeBytes : List UInt8 → List UInt8
  | [] => []
  | b :: rest =>
    if b = 0x5c then
      match rest with
      | [] => [b]
      | e :: tail =>
        match letterEscape e with
        | some v => v :: unescapeBytes tail
        | none =>
          if e = 0x78 || e = 0x58 then
            let ds := (tail.take 2).takeWhile fun d => (hexValue d).isSome
            if ds.isEmpty then b :: e :: unescapeBytes tail
            else
              (digitsValue 16 (fun d => (hexValue d).getD 0) ds).toUInt8 ::
                unescapeBytes (tail.drop ds.length)
          else if isOctalByte e then
            let ds := ((e :: tail).take 3).takeWhile isOctalByte
            let v := digitsValue 8 (fun d => d.toNat - 0x30) ds
            (if v ≤ 255 then [v.toUInt8] else b :: ds) ++
              unescapeBytes ((e :: tail).drop ds.length)
          else b :: unescapeBytes (e :: tail)
    else b :: unescapeBytes rest
termination_by l => l.length
decreasing_by all_goals (simp only [List.length_drop, List.length_cons]; omega)

end BeanCodegen.Text
