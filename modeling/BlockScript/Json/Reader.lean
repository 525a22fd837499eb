import BlockScript.Json.Token

/-!
Reading JSON texts. The reader goes through the tokens once and keeps the open containers on a
stack, so nesting costs nothing but stack entries. An object is cut at its first unreadable key, and
where the text breaks off all open containers are cut.
-/
namespace BlockScript
namespace Json

/-- An open container with what it holds so far, last first. -/
inductive Opened where
  | array (items : List Json)
  | object (members : List (Option String × Json))
  | member (members : List (Option String × Json)) (key : Option String)

/-- What may come next. -/
inductive Expected where
  | value
  | valueOrClose
  | key
  | keyOrClose
  | colon
  | commaOrClose
  | nothing
  deriving DecidableEq

/-- How far a value has been read. -/
structure Reading where
  stack : List Opened
  expected : Expected
  /-- The whole value, once it is complete. -/
  result : Json

namespace Reading

def start : Reading := { stack := [], expected := .value, result := .null }

/-- The members before the first unreadable key. -/
def readableMembers (members : List (Option String × Json)) : List (String × Json) :=
  (members.takeWhile (·.1.isSome)).filterMap fun m => m.1.map fun k => (k, m.2)

/-- The object of some members, last first, cut at an unreadable key. -/
def closeMembers (members : List (Option String × Json)) : Json :=
  let object := Json.object (readableMembers members.reverse)
  if members.all (·.1.isSome) then object else .cut object

def place (r : Reading) (j : Json) : Option Reading :=
  match r.stack with
  | [] => some { r with expected := .nothing, result := j }
  | .array items :: below => some { r with stack := .array (j :: items) :: below, expected := .commaOrClose }
  | .member members key :: below =>
    some { r with stack := .object ((key, j) :: members) :: below, expected := .commaOrClose }
  | .object _ :: _ => none

def startValue (r : Reading) : Token → Option Reading
  | .openArray => some { r with stack := .array [] :: r.stack, expected := .valueOrClose }
  | .openObject => some { r with stack := .object [] :: r.stack, expected := .keyOrClose }
  | .null => r.place .null
  | .bool b => r.place (.bool b)
  | .number (some n) => r.place (.number n)
  | .number none => r.place .unreadable
  | .text (some s) => r.place (.text s)
  | .text none => r.place .unreadable
  | _ => none

/-- Closes the innermost container if the token is its closing mark. -/
def close (r : Reading) (t : Token) : Option Reading :=
  match t, r.stack with
  | .closeArray, .array items :: below => { r with stack := below }.place (.array items.reverse)
  | .closeObject, .object members :: below => { r with stack := below }.place (closeMembers members)
  | _, _ => none

def startMember (r : Reading) (t : Token) : Option Reading :=
  match t, r.stack with
  | .text key, .object members :: below =>
    some { r with stack := .member members key :: below, expected := .colon }
  | _, _ => none

def step (r : Reading) (t : Token) : Option Reading :=
  match r.expected with
  | .value => r.startValue t
  | .valueOrClose => (r.close t).orElse fun _ => r.startValue t
  | .key => r.startMember t
  | .keyOrClose => (r.close t).orElse fun _ => r.startMember t
  | .colon => match t with
    | .colon => some { r with expected := .value }
    | _ => none
  | .commaOrClose => match t with
    | .comma => match r.stack with
      | .array _ :: _ => some { r with expected := .value }
      | _ => some { r with expected := .key }
    | _ => r.close t
  | .nothing => none

/-- Reads tokens as far as they fit, and tells whether all do. -/
def steps (r : Reading) : List Token → Reading × Bool
  | [] => (r, true)
  | t :: rest => match r.step t with
    | some r => r.steps rest
    | none => (r, false)

/-- Puts a beginning where it belongs in the open containers, innermost first, and cuts them all. -/
def cutAll (beginning : Json) : List Opened → Json
  | [] => beginning
  | .array items :: below => cutAll (.cut (.array (beginning :: items).reverse)) below
  | .object members :: below => cutAll (.cut (.object (readableMembers members.reverse))) below
  | .member members key :: below =>
    cutAll (.cut (.object (readableMembers ((key, beginning) :: members).reverse))) below

/-- The value read, cut if some container is still open. -/
def soFar (r : Reading) : Json :=
  if r.expected = .nothing then r.result else cutAll .unreadable r.stack

end Reading

/-- A JSON text as far as it can be read, and whether that is the whole text. -/
def parseFar (s : String) : Json × Bool :=
  let (ts, isAll) := tokens s
  let (r, fit) := Reading.start.steps ts
  (r.soFar, isAll && fit && r.expected = .nothing)

/-- The value of a JSON text, with unreadable parts marked. -/
def parse? (s : String) : Option Json :=
  match parseFar s with
  | (j, true) => some j
  | (_, false) => none

/-- The value of a JSON text all of which is readable. -/
def read? (s : String) : Option Json := (parse? s).filter (isReadable maxDepth)

end Json
end BlockScript
