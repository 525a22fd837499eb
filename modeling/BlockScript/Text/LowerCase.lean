import BlockScript.Text.CaseTable

/-!
Lower case of whole texts. Each character is replaced by its lower-case form; a capital sigma at the
end of a word takes its final form, which depends on its neighbours.
-/
namespace BlockScript.Text

/-- The character has case and is not passed over. -/
def isCased (c : Char) : Bool := casedRanges.any (CodeRange.covers · c.toNat)

/-- The character is passed over when looking for a cased neighbour. -/
def isCaseIgnorable (c : Char) : Bool := ignorableRanges.any (CodeRange.covers · c.toNat)

/-- The first character that is not passed over exists and has case. -/
def startsCased (cs : List Char) : Bool := ((cs.dropWhile isCaseIgnorable).head?.map isCased).getD false

/-- The lower-case form of a character outside context. -/
def lowerChar (c : Char) : List Char :=
  if c.toNat = 0x130 then ['i', Char.ofNat 0x307]
  else match lowerRuns.find? (CaseRun.covers · c.toNat) with
    | some r => [Char.ofNat ((c.toNat : Int) + r.shift).toNat]
    | none => [c]

/-- A capital sigma between what comes before it, nearest first, and what follows. -/
def lowerSigma (before after : List Char) : Char :=
  Char.ofNat (if startsCased before && !startsCased after then 0x3c2 else 0x3c3)

/-- Lower case of the characters after `before`, which is kept nearest first. -/
def lowerFrom (before : List Char) : List Char → List Char
  | [] => []
  | c :: rest =>
    (if c.toNat = 0x3a3 then [lowerSigma before rest] else lowerChar c) ++ lowerFrom (c :: before) rest

def lower (s : String) : String := String.ofList (lowerFrom [] s.toList)

/-- The capital letter that a character is a form of, for the letters A to Z; the dotless i and the
long s are forms of I and S. -/
def capital (c : Char) : Char :=
  if c.toNat = 0x131 then 'I' else if c.toNat = 0x17f then 'S' else c.toUpper

/-- Whether a text is the given word of capital letters A to Z, letter case apart. -/
def spellsWord (word s : String) : Bool := s.toList.map capital == word.toList

end BlockScript.Text
