/-!
Log records: a level and a message.
-/
namespace BlockScript

/-- How grave a record is. -/
inductive LogLevel where
  | error | warn | info
  deriving DecidableEq

def LogLevel.name : LogLevel → String
  | .error => "error"
  | .warn => "warn"
  | .info => "info"

/-- One record of the log. -/
structure LogRecord where
  level : LogLevel
  message : String
  deriving DecidableEq

namespace LogRecord

def error (message : String) : LogRecord := ⟨.error, message⟩
def warn (message : String) : LogRecord := ⟨.warn, message⟩
def info (message : String) : LogRecord := ⟨.info, message⟩

/-- By the name of the level, then by message. -/
def before (a b : LogRecord) : Bool :=
  a.level.name < b.level.name || (a.level.name == b.level.name && !(b.message < a.message))

end LogRecord

/-- Records by level and message, for runs whose scripts interleave in no particular order. -/
def sortRecords (records : List LogRecord) : List LogRecord := records.mergeSort LogRecord.before

/-- Texts in order of code points. -/
def sortTexts (texts : List String) : List String := texts.mergeSort fun a b => !(b < a)

theorem sortTexts_perm (texts : List String) : (sortTexts texts).Perm texts := List.mergeSort_perm _ _

theorem pairwise_sortTexts (texts : List String) : (sortTexts texts).Pairwise (· ≤ ·) := by
  have sorted : (sortTexts texts).Pairwise fun a b => (!decide (b < a)) = true := by
    refine List.pairwise_mergeSort (fun a b c hab hbc => ?_) (fun a b => ?_) texts
    · simp only [Bool.not_eq_true', decide_eq_false_iff_not, String.not_lt] at hab hbc ⊢
      exact String.le_trans hab hbc
    · simp only [Bool.or_eq_true, Bool.not_eq_true', decide_eq_false_iff_not, String.not_lt]
      exact String.le_total a b
  refine sorted.imp fun h => ?_
  rwa [Bool.not_eq_true', decide_eq_false_iff_not, String.not_lt] at h

end BlockScript
