import BlockScript.Json.Basic
import BlockScript.Value

/-!
Small decoders for JSON values. Each gives nothing where the value does not fit.
-/
namespace BlockScript
namespace Json

def string? : Json → Option String
  | .text s => some s
  | _ => none

def bool? : Json → Option Bool
  | .bool b => some b
  | _ => none

def number? : Json → Option Number
  | .number n => some n.toNumber
  | _ => none

/-- A whole-number token within 32 bits with a sign. -/
def int32? : Json → Option Int
  | .number (.whole n) => if -(twoPow 31 : Int) ≤ n ∧ n < twoPow 31 then some n else none
  | _ => none

/-- A whole-number token within 64 bits without a sign. -/
def nat64? : Json → Option Nat
  | .number (.whole n) => if 0 ≤ n ∧ n < twoPow 64 then some n.toNat else none
  | _ => none

/-- A whole-number token within 32 bits without a sign. -/
def nat32? (j : Json) : Option Nat := j.nat64?.filter (· < twoPow 32)

def array? : Json → Option (List Json)
  | .array items => some items
  | _ => none

def object? : Json → Option (List (String × Json))
  | .object members => some members
  | _ => none

/-- A decoder in which null stands for absence. -/
def optional? {α : Type} (decode : Json → Option α) : Json → Option (Option α)
  | .null => some none
  | j => (decode j).map some

def listOf? {α : Type} (decode : Json → Option α) (j : Json) : Option (List α) :=
  j.array?.bind (·.mapM decode)

/-- An object whose member values all fit, the last of a repeated key counting. -/
def mapOf? {α : Type} (decode : Json → Option α) (j : Json) : Option (List (String × α)) :=
  j.object?.bind fun ms => (ms.mapM fun m => (decode m.2).map fun a => (m.1, a)).map lastMembers

/-- A value of scripts: a number, a text, a truth value or null. -/
def value? : Json → Option Value
  | .number n => some (.number n.toNumber)
  | .text s => some (.text s)
  | .bool b => some (.boolean b)
  | .null => some .empty
  | _ => none

/-- The fields of a record, given as an object without repeated fields, where other keys are passed
over, or as an array of the first fields in order. -/
def fields? (names : List String) : Json → Option (String → Option Json)
  | .object members =>
    if names.any (fun n => 1 < (members.filter (·.1 == n)).length) then none
    else some fun n => lookup? n members
  | .array items =>
    if names.length < items.length then none
    else some fun n => ((names.zip items).find? (·.1 == n)).map (·.2)
  | _ => none

def required? {α : Type} (fields : String → Option Json) (name : String) (decode : Json → Option α) : Option α :=
  (fields name).bind decode

def defaulted? {α : Type} (fields : String → Option Json) (name : String) (fallback : α)
    (decode : Json → Option α) : Option α :=
  match fields name with
  | some j => decode j
  | none => some fallback

end Json
end BlockScript
