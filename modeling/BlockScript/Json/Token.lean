import BlockScript.Json.NumberToken

/-!
Tokens of JSON texts. Numbers and words are runs of the characters that can stand in them; texts are
read escape by escape, and one with half of a surrogate pair is a token without content.
-/
namespace BlockScript
namespace Json

/-- The tokens of a text. A number or a text that cannot be read is one too. -/
inductive Token where
  | openArray | closeArray | openObject | closeObject | comma | colon
  | null
  | bool (b : Bool)
  | number (n : Option JsonNumber)
  | text (s : Option String)

def isGap (c : Char) : Bool := c == ' ' || c == '\n' || c == '\t' || c == '\r'

def isNumberChar (c : Char) : Bool :=
  c.isDigit || c == '-' || c == '+' || c == '.' || c == 'e' || c == 'E'

def hex4? (a b c d : Char) : Option Nat := Number.readDigits? 16 [a, b, c, d]

/-- What a text contains: characters and halves of surrogate pairs. -/
inductive TextUnit where
  | char (c : Char)
  | surrogate (code : Nat)

def TextUnit.ofCode (code : Nat) : TextUnit :=
  if 0xd800 ≤ code ∧ code < 0xe000 then .surrogate code else .char (Char.ofNat code)

/-- The character of an escape other than a code. -/
def escaped? : Char → Option Char
  | '"' => some '"'
  | '\\' => some '\\'
  | '/' => some '/'
  | 'b' => some '\x08'
  | 'f' => some '\x0c'
  | 'n' => some '\n'
  | 'r' => some '\r'
  | 't' => some '\t'
  | _ => none

/-- The content of a text after its opening quote, and what follows the closing one. -/
def scanText (done : List TextUnit) : List Char → Option (List TextUnit × List Char)
  | [] => none
  | '"' :: rest => some (done.reverse, rest)
  | '\\' :: 'u' :: a :: b :: c :: d :: rest =>
    match hex4? a b c d with
    | some code => scanText (.ofCode code :: done) rest
    | none => none
  | '\\' :: e :: rest =>
    match escaped? e with
    | some c => scanText (.char c :: done) rest
    | none => none
  | c :: rest => if c.toNat < 0x20 || c == '\\' then none else scanText (.char c :: done) rest

/-- Joins surrogate pairs; nothing if a half stands alone. -/
def joinUnits : List TextUnit → Option (List Char)
  | [] => some []
  | .char c :: rest => (joinUnits rest).map (c :: ·)
  | .surrogate high :: .surrogate low :: rest =>
    if high < 0xdc00 ∧ 0xdc00 ≤ low then
      (joinUnits rest).map (Char.ofNat (0x10000 + (high - 0xd800) * 0x400 + (low - 0xdc00)) :: ·)
    else none
  | .surrogate _ :: _ => none

def word? (cs : List Char) : Option Token :=
  if cs = "null".toList then some .null
  else if cs = "true".toList then some (.bool true)
  else if cs = "false".toList then some (.bool false)
  else none

def mark? : Char → Option Token
  | '[' => some .openArray
  | ']' => some .closeArray
  | '\x7b' => some .openObject
  | '\x7d' => some .closeObject
  | ',' => some .comma
  | ':' => some .colon
  | _ => none

theorem scanText_length {done : List TextUnit} {cs : List Char} {units : List TextUnit} {rest : List Char}
    (h : scanText done cs = some (units, rest)) : rest.length < cs.length := by
  fun_induction scanText done cs with
  | case1 => cases h
  | case2 => cases h; simp
  | case3 done a b c d rest code _ ih => have := ih h; simp only [List.length_cons]; omega
  | case4 => cases h
  | case5 done e rest _ c _ ih => have := ih h; simp only [List.length_cons]; omega
  | case6 => cases h
  | case7 => cases h
  | case8 done c rest _ _ _ _ ih => have := ih h; simp only [List.length_cons]; omega

theorem length_dropWhile_le (p : Char → Bool) (cs : List Char) : (cs.dropWhile p).length ≤ cs.length :=
  (List.dropWhile_sublist p).length_le

/-- The tokens of a text, last first, up to the first part that is no token, and whether there is no
such part. -/
def scan (done : List Token) (cs : List Char) : List Token × Bool :=
  match cs with
  | [] => (done, true)
  | c :: rest =>
    if isGap c then scan done rest
    else if c == '"' then
      match _h : scanText [] rest with
      | some (units, after) => scan (.text ((joinUnits units).map String.ofList) :: done) after
      | none => (done, false)
    else if isNumberChar c then
      match NumberToken.ofChars? (c :: rest.takeWhile isNumberChar) with
      | some t => scan (.number t.value? :: done) (rest.dropWhile isNumberChar)
      | none => (done, false)
    else match mark? c with
      | some t => scan (t :: done) rest
      | none =>
        match word? (c :: rest.takeWhile Char.isAlpha) with
        | some t => scan (t :: done) (rest.dropWhile Char.isAlpha)
        | none => (done, false)
termination_by cs.length
decreasing_by
  · simp
  · have := scanText_length _h; simp only [List.length_cons]; omega
  · have := length_dropWhile_le isNumberChar rest; simp only [List.length_cons]; omega
  · simp
  · have := length_dropWhile_le Char.isAlpha rest; simp only [List.length_cons]; omega

/-- The tokens of a text in order, up to the first part that is no token, and whether there is no such
part. -/
def tokens (s : String) : List Token × Bool :=
  let (done, isAll) := scan [] s.toList
  (done.reverse, isAll)

end Json
end BlockScript
