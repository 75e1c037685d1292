/-
Partial edits of what a block says.

A patch may set the message, set or clear the variable, and replace the options.
What does not apply to the kind of the block is ignored.  Options may come
without ids: `normalize?` gives every option an id of its own, keeping the ids
that were supplied where they are not empty and not taken by an earlier option.
A list of options that is empty or longer than five is refused, and with it the
whole patch.

`length_assign` and `labels_assign` say that giving ids neither adds nor drops
nor relabels an option; `normalize?_eq_none_iff` says which lists are refused.
-/
import Parley.Block.Content
import Parley.IdSupply
import Parley.Json.Value

namespace Parley

/-- An option that may still lack an id. -/
structure Draft where
  id : Option String
  label : String
deriving DecidableEq

/-- An option as a draft with its own id. -/
def Choice.toDraft (c : Choice) : Draft := ⟨some c.id, c.label⟩

namespace Draft

/-- The fewest and the most options of a Buttons block. -/
def fewest : Nat := 1
def most : Nat := 5

/-- The label of generated option ids. -/
def idLabel : String := "btn"

/-- The id that a draft may keep when `seen` were kept before it. -/
def kept? (seen : List String) (d : Draft) : Option String :=
  d.id.filter fun id => id != "" && !seen.contains id

/-- Ids for a list of drafts, `seen` being kept already. -/
def assign (seen : List String) (supply : IdSupply) : List Draft → List Choice × IdSupply
  | [] => ([], supply)
  | d :: ds =>
    match d.kept? seen with
    | some id =>
      let (cs, supply) := assign (id :: seen) supply ds
      (⟨id, d.label⟩ :: cs, supply)
    | none =>
      let (id, supply) := supply.draw idLabel
      let (cs, supply) := assign seen supply ds
      (⟨id, d.label⟩ :: cs, supply)

/-- The options that a list of drafts stands for, if it has one to five. -/
def normalize? (supply : IdSupply) (ds : List Draft) : Option (List Choice × IdSupply) :=
  if fewest ≤ ds.length ∧ ds.length ≤ most then some (assign [] supply ds) else none

theorem kept?_eq_some_iff {seen : List String} {d : Draft} {id : String} :
    d.kept? seen = some id ↔ d.id = some id ∧ id ≠ "" ∧ id ∉ seen := by
  simp [kept?, Option.filter_eq_some_iff]

theorem labels_assign (seen : List String) (supply : IdSupply) (ds : List Draft) :
    (assign seen supply ds).1.map (·.label) = ds.map (·.label) := by
  induction ds generalizing seen supply with
  | nil => rfl
  | cons d ds ih => unfold assign; split <;> simp [ih]

theorem length_assign (seen : List String) (supply : IdSupply) (ds : List Draft) :
    (assign seen supply ds).1.length = ds.length := by
  simpa using congrArg List.length (labels_assign seen supply ds)

theorem normalize?_eq_none_iff {supply : IdSupply} {ds : List Draft} :
    normalize? supply ds = none ↔ ds.length < fewest ∨ most < ds.length := by
  unfold normalize?
  split <;> simp <;> omega

end Draft

namespace Block

/-- A partial edit.  `binds := some none` clears the variable. -/
structure Patch where
  message : Option String := none
  binds : Option (Option String) := none
  choices : Option (List Draft) := none
deriving DecidableEq

namespace Patch

/-- A content with the patch merged in; `none` when the options are refused. -/
def merge? (p : Patch) (supply : IdSupply) : Content → Option (Content × IdSupply)
  | .welcome m => some (.welcome (p.message.getD m), supply)
  | .message m => some (.message (p.message.getD m), supply)
  | .goodbye m => some (.goodbye (p.message.getD m), supply)
  | .question m b => some (.question (p.message.getD m) (p.binds.getD b), supply)
  | .buttons m b cs =>
    match p.choices with
    | none => some (.buttons (p.message.getD m) (p.binds.getD b) cs, supply)
    | some ds => (Draft.normalize? supply ds).map fun (cs, supply) =>
      (.buttons (p.message.getD m) (p.binds.getD b) cs, supply)
  | .field b => some (.field ((p.binds.getD none).getD b), supply)

/-- A patch never changes the kind. -/
theorem kind_merge? {p : Patch} {s s' : IdSupply} {c c' : Content}
    (h : p.merge? s c = some (c', s')) : c'.kind = c.kind := by
  cases c with
  | buttons m b cs =>
    simp only [merge?] at h
    split at h
    · cases h; rfl
    · obtain ⟨⟨cs', s''⟩, _, h⟩ := Option.map_eq_some_iff.1 h
      cases h; rfl
  | _ => cases h; rfl

open Json

/-- What a value is, with its article. -/
def describe : Value → String
  | .null => "null"
  | .bool _ => "a boolean"
  | .number _ => "a number"
  | .string _ => "a string"
  | .array _ => "an array"
  | .object _ => "an object"
  | .unreadable => "an unreadable value"

/-- An absent field is read as absent, and so is `null`. -/
def optional (fields : List (String × Value)) (key : String) (read : Value → Option α) :
    Option (Option α) :=
  match lastField? fields key with
  | none => some none
  | some v => v.nullable read

/-- An option as an edit has it: an object, or its two fields in an array. -/
def draftOfJson? : Value → Option Draft
  | .object fields => do
    return ⟨← optional fields "id" Value.string?, ← (← lastField? fields "text").string?⟩
  | .array [id, label] => do
    return ⟨← id.nullable Value.string?, ← label.string?⟩
  | _ => none

/-- The patch that the fields of an object are; fields of other names are ignored. -/
def ofFields? (fields : List (String × Value)) : Option Patch := do
  let message ← optional fields "message" Value.string?
  let binds ← match lastField? fields "variableName" with
    | none => some none
    | some v => (v.nullable Value.string?).map some
  let choices ← optional fields "options" fun v => do (← v.items?).mapM draftOfJson?
  return { message, binds, choices }

/-- The patch that a value is. -/
def ofJson? : Value → Except PatchError Patch
  | .object fields => match ofFields? fields with
    | some p => .ok p
    | none => .error .malformed
  | v => .error (.notAnObject (describe v))

end Patch

end Block

end Parley
