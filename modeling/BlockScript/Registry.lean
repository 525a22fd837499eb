import BlockScript.Text.Quoted
import BlockScript.Log

/-!
Tables of operation codes. Registering several codes goes one by one and stops at the first that is
already there; that one is overwritten all the same.
-/
namespace BlockScript

/-- Why a registration is refused. -/
inductive RegistryError where
  | duplicateOpcode (opcode table : String)
  deriving DecidableEq

def RegistryError.message : RegistryError → String
  | .duplicateOpcode opcode table => s!"op-code `{opcode}` is registered twice in the {table} table"

/-- What each operation code of one table stands for. -/
structure Registry (α : Type) where
  table : String
  entries : List (String × α)

namespace Registry

variable {α : Type}

def empty (table : String) : Registry α := ⟨table, []⟩

def contains (r : Registry α) (opcode : String) : Bool := r.entries.any (·.1 == opcode)

/-- The code as registered and what it stands for. -/
def resolve? (r : Registry α) (opcode : String) : Option (String × α) :=
  r.entries.find? (·.1 == opcode)

/-- Puts an entry, replacing an earlier one of the same code. -/
def insert (r : Registry α) (opcode : String) (a : α) : Registry α :=
  { r with entries := (r.entries.filter (·.1 != opcode)) ++ [(opcode, a)] }

/-- Puts entries until one is already there. -/
def register (r : Registry α) : List String → α → Registry α × Except RegistryError Unit
  | [], _ => (r, .ok ())
  | opcode :: rest, a =>
    if r.contains opcode then (r.insert opcode a, .error (.duplicateOpcode opcode r.table))
    else (r.insert opcode a).register rest a

def size (r : Registry α) : Nat := r.entries.length

def isEmpty (r : Registry α) : Bool := r.entries.isEmpty

/-- The codes in order of code points. -/
def opcodes (r : Registry α) : List String := sortTexts (r.entries.map (·.1))

/-- The table with its codes, for people. -/
def listing (r : Registry α) : String :=
  "Registry \x7b table: " ++ Text.quote r.table ++ ", opcodes: [" ++
    ", ".intercalate (r.opcodes.map Text.quote) ++ "] \x7d"

end Registry
end BlockScript
