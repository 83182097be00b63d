import KeyCustody.Bytes.Basic
/-! # UTF-8

The bytes of a text, and the text of a byte string if it is well formed: shortest forms only, no
surrogates, nothing above U+10FFFF. -/

namespace KeyCustody.Text

def utf8 (s : String) : Bytes := s.toList.flatMap String.utf8EncodeChar

/-- The six low bits of a continuation byte. -/
def continuation? (b : UInt8) : Option Nat :=
  if 0x80 ≤ b ∧ b < 0xC0 then some (b.toNat - 0x80) else none

/-- A character by its number, no smaller than `least`. -/
def scalar? (least n : Nat) : Option Char :=
  if least ≤ n ∧ n.isValidChar then some (Char.ofNat n) else none

def decodeChars : Bytes → Option (List Char)
  | [] => some []
  | a :: rest =>
    if a < 0x80 then do
      let tail ← decodeChars rest
      return Char.ofNat a.toNat :: tail
    else
      match rest with
      | [] => none
      | b :: rest => do
        let y ← continuation? b
        if 0xC0 ≤ a ∧ a < 0xE0 then
          let c ← scalar? 0x80 ((a.toNat - 0xC0) * 64 + y)
          let tail ← decodeChars rest
          return c :: tail
        else
          match rest with
          | [] => none
          | c :: rest => do
            let z ← continuation? c
            if 0xE0 ≤ a ∧ a < 0xF0 then
              let c ← scalar? 0x800 (((a.toNat - 0xE0) * 64 + y) * 64 + z)
              let tail ← decodeChars rest
              return c :: tail
            else
              match rest with
              | [] => none
              | d :: rest => do
                let w ← continuation? d
                if 0xF0 ≤ a ∧ a < 0xF8 then
                  let c ← scalar? 0x10000 ((((a.toNat - 0xF0) * 64 + y) * 64 + z) * 64 + w)
                  let tail ← decodeChars rest
                  return c :: tail
                else none

def ofUtf8? (b : Bytes) : Option String := (decodeChars b).map String.ofList

@[simp] theorem utf8_append (s t : String) : utf8 (s ++ t) = utf8 s ++ utf8 t := by
  simp [utf8]

end KeyCustody.Text
