import BlockScript.Script.Substack

/-!
The life of a substack. It is a plain list while it can be edited, and a fixed one from the first time that it is
frozen or executed. What it holds after any operations is told by the edits before that time alone; an edit that is
refused changes nothing, and neither does any operation later on.
-/
namespace BlockScript
namespace Substack

variable {α σ : Type}

/-- What can be done to a substack. An execution brings a scope, blocks that do something and a state to start from. -/
inductive Operation (α σ : Type) where
  | push (block : α)
  | insert (index : Nat) (block : α)
  | remove (index : Nat)
  | freeze
  | execute (cancelled : σ → Bool) (run : α → σ → σ × Option RunError) (record : α → RunError → LogRecord) (state : σ)

/-- What an operation answers. -/
inductive Reply (α σ : Type) where
  | accepted
  | removed (block : α)
  | refused (e : SubstackError)
  | sequence (blocks : List α)
  | ran (state : σ) (records : List LogRecord)

namespace Operation

/-- Whether the operation changes the sequence of blocks. -/
def isEdit : Operation α σ → Bool
  | .push _ | .insert .. | .remove _ => true
  | .freeze | .execute .. => false

/-- What an edit makes of a plain list; one that does not fit leaves it alone. -/
def onList (blocks : List α) : Operation α σ → List α
  | .push block => blocks ++ [block]
  | .insert index block => if index ≤ blocks.length then blocks.insertIdx index block else blocks
  | .remove index => blocks.eraseIdx index
  | _ => blocks

end Operation

/-- An operation on a substack, which stays as it is where the operation is refused. -/
def perform (s : Substack α) : Operation α σ → Substack α × Reply α σ
  | .push block =>
    match s.push block with
    | .ok s => (s, .accepted)
    | .error e => (s, .refused e)
  | .insert index block =>
    match s.insert index block with
    | .ok s => (s, .accepted)
    | .error e => (s, .refused e)
  | .remove index =>
    match s.remove index with
    | .ok (s, block) => (s, .removed block)
    | .error e => (s, .refused e)
  | .freeze => (s.freeze, .sequence s.freeze.blocks)
  | .execute cancelled run record state =>
    let (s, state, records) := s.execute cancelled run record state
    (s, .ran state records)

/-- The substack after operations in order. -/
def after (s : Substack α) (ops : List (Operation α σ)) : Substack α := ops.foldl (fun s op => (s.perform op).1) s

/-- A new substack, or one that was built with blocks. -/
def started : Option (List α) → Substack α
  | none => .empty
  | some blocks => .frozen blocks

/-! ### One operation -/

theorem take_append_drop_eq_insertIdx (block : α) {blocks : List α} {index : Nat} (h : index ≤ blocks.length) :
    blocks.take index ++ block :: blocks.drop index = blocks.insertIdx index block := by
  induction blocks generalizing index with
  | nil =>
    obtain rfl := Nat.le_zero.mp h
    rfl
  | cons first blocks ih =>
    cases index with
    | zero => rfl
    | succ index => exact congrArg (first :: ·) (ih (Nat.le_of_succ_le_succ h))

section
variable {s : Substack α} {op : Operation α σ}

/-- While it can be edited a substack is a plain list. -/
theorem perform_edit (h : s.isFrozen = false) (edit : op.isEdit = true) : (s.perform op).1 = ⟨op.onList s.blocks, false⟩ := by
  obtain ⟨blocks, isFrozen⟩ := s
  obtain rfl : isFrozen = false := h
  cases op with
  | push block => rfl
  | insert index block =>
    by_cases hindex : index ≤ blocks.length
    · simp [perform, Substack.insert, size, Operation.onList, hindex, take_append_drop_eq_insertIdx]
    · simp [perform, Substack.insert, size, Operation.onList, hindex]
  | remove index =>
    by_cases hindex : index < blocks.length
    · simp [perform, Substack.remove, Operation.onList, hindex]
    · have hlength : blocks.length ≤ index := Nat.le_of_not_lt hindex
      simp [perform, Substack.remove, Operation.onList, hlength, List.eraseIdx_of_length_le]
  | freeze => cases edit
  | execute cancelled run record state => cases edit

theorem perform_frozen (h : s.isFrozen = true) (edit : op.isEdit = true) : s.perform op = (s, .refused .notEditable) := by
  cases op with
  | push block => simp [perform, Substack.push, h]
  | insert index block => simp [perform, Substack.insert, h]
  | remove index => simp [perform, Substack.remove, h]
  | freeze => cases edit
  | execute cancelled run record state => cases edit

theorem perform_fix (s : Substack α) (fix : op.isEdit = false) : (s.perform op).1 = ⟨s.blocks, true⟩ := by
  cases op with
  | push block => cases fix
  | insert index block => cases fix
  | remove index => cases fix
  | freeze => rfl
  | execute cancelled run record state => rfl

/-- What is refused changes nothing. -/
theorem perform_refused {e : SubstackError} (h : (s.perform op).2 = .refused e) : (s.perform op).1 = s := by
  cases op with
  | push block =>
    simp only [perform] at h ⊢
    split at h
    · cases h
    · rfl
  | insert index block =>
    simp only [perform] at h ⊢
    split at h
    · cases h
    · rfl
  | remove index =>
    simp only [perform] at h ⊢
    split at h
    · cases h
    · rfl
  | freeze => cases h
  | execute cancelled run record state => cases h

theorem insert_reply (h : s.isFrozen = false) (index : Nat) (block : α) :
    (s.perform (.insert index block : Operation α σ)).2 =
      if index ≤ s.size then .accepted else .refused (.outOfBounds index s.size) := by
  by_cases hindex : index ≤ s.size <;> simp [perform, Substack.insert, h, hindex]

theorem remove_reply (h : s.isFrozen = false) (index : Nat) :
    (s.perform (.remove index : Operation α σ)).2 =
      if hindex : index < s.blocks.length then .removed (s.blocks.get ⟨index, hindex⟩)
      else .refused (.outOfBounds index s.size) := by
  by_cases hindex : index < s.blocks.length
  · simp [perform, Substack.remove, h, hindex]
  · simp [perform, Substack.remove, h, hindex]

end

/-! ### Many operations -/

/-- Nothing is done to a frozen substack. -/
theorem after_frozen {s : Substack α} (h : s.isFrozen = true) (ops : List (Operation α σ)) : s.after ops = s := by
  induction ops with
  | nil => rfl
  | cons op ops ih =>
    have step : (s.perform op).1 = s := by
      cases edit : op.isEdit with
      | true => rw [perform_frozen h edit]
      | false => rw [perform_fix s edit, ← h]
    show (s.perform op).1.after ops = s
    rw [step, ih]

/-- The edits before the first operation that freezes a substack tell what it holds. -/
theorem after_editable (blocks : List α) (ops : List (Operation α σ)) :
    (Substack.mk blocks false).after ops =
      ⟨(ops.takeWhile (·.isEdit)).foldl Operation.onList blocks, ops.any (!·.isEdit)⟩ := by
  induction ops generalizing blocks with
  | nil => rfl
  | cons op ops ih =>
    show ((Substack.mk blocks false).perform op).1.after ops = _
    cases edit : op.isEdit with
    | true =>
      rw [perform_edit rfl edit, ih]
      simp [edit]
    | false =>
      rw [perform_fix _ edit, after_frozen rfl]
      simp [edit]

/-- The life of a substack that is new or was built with blocks, after any operations. What it holds is told by the
edits before the first freezing or execution, and it is frozen from then on. While it can be edited it takes edits as a
plain list does, an insertion up to its end and a removal before it; once frozen it refuses all edits, whatever their
index. What is refused changes nothing; freezing and execution keep the blocks, and freezing returns them; and no later
operations change a frozen substack. -/
theorem life_cycle (first : Option (List α)) (ops : List (Operation α σ)) :
    let s := (started first).after ops
    s.blocks = first.getD ((ops.takeWhile (·.isEdit)).foldl Operation.onList []) ∧
    s.isFrozen = (first.isSome || ops.any (!·.isEdit)) ∧
    (s.isFrozen = false →
      (∀ op : Operation α σ, op.isEdit = true → (s.perform op).1 = ⟨op.onList s.blocks, false⟩) ∧
      (∀ block, (s.perform (.push block : Operation α σ)).2 = .accepted) ∧
      (∀ index block, (s.perform (.insert index block : Operation α σ)).2 =
        if index ≤ s.size then .accepted else .refused (.outOfBounds index s.size)) ∧
      ∀ index, (s.perform (.remove index : Operation α σ)).2 =
        if hindex : index < s.blocks.length then .removed (s.blocks.get ⟨index, hindex⟩)
        else .refused (.outOfBounds index s.size)) ∧
    (s.isFrozen = true → ∀ op : Operation α σ, op.isEdit = true → s.perform op = (s, .refused .notEditable)) ∧
    (∀ (op : Operation α σ) e, (s.perform op).2 = .refused e → (s.perform op).1 = s) ∧
    (∀ op : Operation α σ, op.isEdit = false → (s.perform op).1 = ⟨s.blocks, true⟩) ∧
    (s.perform (.freeze : Operation α σ)).2 = .sequence s.blocks ∧
    (s.isFrozen = true → ∀ later : List (Operation α σ), s.after later = s) := by
  intro s
  have holds : s.blocks = first.getD ((ops.takeWhile (·.isEdit)).foldl Operation.onList []) ∧
      s.isFrozen = (first.isSome || ops.any (!·.isEdit)) := by
    cases first with
    | none =>
      have hs : s = ⟨_, _⟩ := after_editable [] ops
      simp [hs]
    | some blocks =>
      have hs : s = ⟨_, _⟩ := after_frozen rfl ops
      simp [hs]
  refine ⟨holds.1, holds.2, fun editable => ⟨fun op => perform_edit editable, fun block => ?_, insert_reply editable,
    remove_reply editable⟩, fun frozen op => perform_frozen frozen, fun op e => perform_refused,
    fun op => perform_fix s, rfl, after_frozen⟩
  simp [perform, Substack.push, editable]

end Substack
end BlockScript
