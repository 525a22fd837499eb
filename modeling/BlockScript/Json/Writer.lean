import BlockScript.Json.Basic

/-!
Writing JSON values on one line. Controls and the characters that end a line somewhere are written
by their codes; all other text is written as it is.
-/
namespace BlockScript
namespace Json

def hex4 (n : Nat) : List Char :=
  let digits := Nat.toDigits 16 n
  List.replicate (4 - digits.length) '0' ++ digits

def escapeChar (c : Char) : List Char :=
  match c with
  | '"' => ['\\', '"']
  | '\\' => ['\\', '\\']
  | '\n' => ['\\', 'n']
  | '\r' => ['\\', 'r']
  | '\t' => ['\\', 't']
  | _ =>
    let n := c.toNat
    if n < 0x20 ∨ (0x7f ≤ n ∧ n ≤ 0x9f) ∨ n = 0x2028 ∨ n = 0x2029 then '\\' :: 'u' :: hex4 n else [c]

def renderText (s : String) : String := "\"" ++ String.ofList (s.toList.flatMap escapeChar) ++ "\""

def renderNumber : JsonNumber → String
  | .whole n => toString n
  | .real x => x.text

mutual
/-- The JSON text of a value; what denotes nothing is written as null. -/
def render : Json → String
  | .null => "null"
  | .bool b => if b then "true" else "false"
  | .number n => renderNumber n
  | .text s => renderText s
  | .array items => "[" ++ renderItems items ++ "]"
  | .object members => "\x7b" ++ renderMembers members ++ "\x7d"
  | .unreadable | .cut _ => "null"
def renderItems : List Json → String
  | [] => ""
  | [j] => render j
  | j :: rest => render j ++ "," ++ renderItems rest
def renderMembers : List (String × Json) → String
  | [] => ""
  | [(k, j)] => renderText k ++ ":" ++ render j
  | (k, j) :: rest => renderText k ++ ":" ++ render j ++ "," ++ renderMembers rest
end

end Json
end BlockScript
