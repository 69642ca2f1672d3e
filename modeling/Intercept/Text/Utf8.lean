/-!
UTF-8. A body is decoded octet by octet into characters; every maximal part that no character's
encoding begins with is marked, and each reader decides what the mark stands for.
-/

namespace Intercept

/-- The body of a message. -/
abbrev Body := List UInt8

namespace Utf8

/-- A character of which some octets are still to come. -/
structure Partial where
  /-- The bits read so far. -/
  bits : Nat
  /-- The number of octets to come after the next one. -/
  more : Nat
  /-- The least octet that may come next. -/
  low : Nat
  /-- The greatest octet that may come next. -/
  high : Nat

/-- What an octet means between characters: a character of its own, the begin of a longer one, or
neither. -/
inductive Lead where
  | single (c : Char)
  | begins (p : Partial)
  | invalid

/-- Classifies an octet that stands between characters. The bounds on the second octet keep out
overlong forms, surrogates and code points above the last one. -/
def lead (b : Nat) : Lead :=
  if b < 0x80 then .single (Char.ofNat b)
  else if b < 0xC2 then .invalid
  else if b < 0xE0 then .begins ⟨b - 0xC0, 0, 0x80, 0xBF⟩
  else if b = 0xE0 then .begins ⟨0, 1, 0xA0, 0xBF⟩
  else if b = 0xED then .begins ⟨b - 0xE0, 1, 0x80, 0x9F⟩
  else if b < 0xF0 then .begins ⟨b - 0xE0, 1, 0x80, 0xBF⟩
  else if b = 0xF0 then .begins ⟨0, 2, 0x90, 0xBF⟩
  else if b < 0xF4 then .begins ⟨b - 0xF0, 2, 0x80, 0xBF⟩
  else if b = 0xF4 then .begins ⟨b - 0xF0, 2, 0x80, 0x8F⟩
  else .invalid

/-- Decodes from within a character, if one has begun: `none` marks a part that is not UTF-8. -/
def decodeFrom : Option Partial → Body → List (Option Char)
  | none, [] => []
  | some _, [] => [none]
  | within, b :: rest =>
    let fresh (_ : Unit) := match lead b.toNat with
      | .single c => some c :: decodeFrom none rest
      | .begins p => decodeFrom (some p) rest
      | .invalid => none :: decodeFrom none rest
    match within with
    | none => fresh ()
    | some p =>
      if p.low ≤ b.toNat && b.toNat ≤ p.high then
        let bits := p.bits * 64 + b.toNat % 64
        match p.more with
        | 0 => some (Char.ofNat bits) :: decodeFrom none rest
        | more + 1 => decodeFrom (some ⟨bits, more, 0x80, 0xBF⟩) rest
      else none :: fresh ()

def decode (body : Body) : List (Option Char) := decodeFrom none body

/-- The text of a body that is UTF-8. -/
def strict? (body : Body) : Option String :=
  ((decode body).mapM id).map String.ofList

/-- The text of any body: the replacement character stands for each part that is not UTF-8. -/
def lossy (body : Body) : String :=
  String.ofList ((decode body).map (·.getD '\ufffd'))

def encode (s : String) : Body := s.toUTF8.toList

end Utf8
end Intercept
