import LinProg.Text.CaseTable
import LinProg.Text.LowercaseTable

/-!
Lowercase of a whole text, by the full Unicode mapping and without regard to a language.
-/

namespace LinProg.Text

/-- The lowercase of one character outside any word. Only the dotted capital I has two characters. -/
def lowercaseChar (c : Char) : List Char :=
  if c = 'İ' then ['i', '\u0307']
  else
    match lowercaseRuns.find? (·.holds c.toNat) with
    | some run => [Char.ofNat (c.toNat + run.shift).toNat]
    | none => [c]

/-- The first character that is not passed over is cased. -/
def cased? (cs : List Char) : Bool := ((cs.dropWhile isCaseIgnorable).head?.map isCased).getD false

/-- A sigma ends a word if a cased letter stands before it and none after it. -/
def lowercaseSigma (before after : List Char) : Char :=
  if cased? before && !cased? after then 'ς' else 'σ'

/-- Lowercase of `rest`, where `before` holds the characters in front of it, the last one first. -/
def lowercaseFrom (before : List Char) : List Char → List Char
  | [] => []
  | c :: rest =>
    (if c = 'Σ' then [lowercaseSigma before rest] else lowercaseChar c)
      ++ lowercaseFrom (c :: before) rest

def lowercase (text : String) : String := String.ofList (lowercaseFrom [] text.toList)

end LinProg.Text
