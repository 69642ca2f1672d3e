import Intercept.Json.Reader

/-!
Skipping a JSON value. Only the syntax is checked: a skipped string may hold octets that are not
UTF-8 and lone surrogates, a skipped number may be of any size, and there is no bound on nesting.
-/

namespace Intercept.Json

/-- Skips a string up to its closing quotation mark. -/
def skipChars : (fuel : Nat) → Symbols → Option Symbols
  | 0, _ => none
  | fuel + 1, s =>
    match s with
    | some '"' :: s => some s
    | some '\\' :: some 'u' :: s => do
      let (_, s) ← readHex4 s
      skipChars fuel s
    | some '\\' :: some c :: s => do
      guard (shortEscape? c).isSome
      skipChars fuel s
    | some '\\' :: _ => none
    | some c :: s => do
      guard (0x20 ≤ c.toNat)
      skipChars fuel s
    | none :: s => skipChars fuel s
    | [] => none

/-- Skips a string after its opening quotation mark. -/
def skipString (s : Symbols) : Option Symbols := skipChars (s.length + 1) s

mutual
def skipValue : (fuel : Nat) → Symbols → Option Symbols
  | 0, _ => none
  | fuel + 1, s =>
    match skipBlanks s with
    | some '[' :: s =>
      match skipBlanks s with
      | some ']' :: s => some s
      | s => skipItems fuel s
    | some '\x7b' :: s =>
      match skipBlanks s with
      | some '\x7d' :: s => some s
      | s => skipMembers fuel s
    | some '"' :: s => skipString s
    | some 'n' :: s => afterWord? "ull".toList s
    | some 't' :: s => afterWord? "rue".toList s
    | some 'f' :: s => afterWord? "alse".toList s
    | s => (readNumeral s).map (·.2)

/-- Skips the items of an array and the closing bracket. -/
def skipItems : (fuel : Nat) → Symbols → Option Symbols
  | 0, _ => none
  | fuel + 1, s => do
    let s ← skipValue fuel s
    match skipBlanks s with
    | some ',' :: s => skipItems fuel s
    | some ']' :: s => some s
    | _ => none

/-- Skips the members of an object and the closing brace. -/
def skipMembers : (fuel : Nat) → Symbols → Option Symbols
  | 0, _ => none
  | fuel + 1, s => do
    let some '"' :: s := skipBlanks s | none
    let s ← skipString s
    let some ':' :: s := skipBlanks s | none
    let s ← skipValue fuel s
    match skipBlanks s with
    | some ',' :: s => skipMembers fuel s
    | some '\x7d' :: s => some s
    | _ => none
end

end Intercept.Json
