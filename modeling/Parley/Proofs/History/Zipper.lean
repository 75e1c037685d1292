/-
# A history is a zipper

A history keeps its entries in one row and the place of the current one as a number.
Seen from the current entry there are three things instead, and no numbers:

    past       the entries before it, the nearest first
    present    the current entry
    future     the entries behind it, the nearest first

On these the operations say what they mean:

|            | past               | present       | future               |
| :--------- | :----------------- | :------------ | :------------------- |
| commit `g` | `present :: past`  | `g`           | `[]`                 |
| undo       | `past` less one    | the one taken | `present :: future`  |
| redo       | `present :: past`  | the one taken | `future` less one    |

A history `Shows` a zipper if its row is the zipper laid out and its index the length
of the past.  Each operation keeps this (`Shows.commit`, `Shows.undo?`, `Shows.redo?`),
so it holds after any list of moves, and a history is all determined by what it shows.
What goes back and forth is then read off the zipper, where it is one step of an
induction.
-/
import Parley.Proofs.History

namespace Parley

/-- A graph with those before and those behind it, the nearest first. -/
structure Zipper where
  past : List Graph
  present : Graph
  future : List Graph

namespace History

/-- What is done to a history. -/
inductive Move where
  | commit (g : Graph)
  | undo
  | redo

/-- A step that is not possible leaves the history as it is. -/
def move (h : History) : Move → History
  | .commit g => h.commit g
  | .undo => h.undo?.getD h
  | .redo => h.redo?.getD h

def moveAll (h : History) (ms : List Move) : History := ms.foldl move h

end History

namespace Zipper

open History (Move)

def start (g : Graph) : Zipper := ⟨[], g, []⟩

def commit (z : Zipper) (g : Graph) : Zipper := ⟨z.present :: z.past, g, []⟩

def undo? : Zipper → Option Zipper
  | ⟨[], _, _⟩ => none
  | ⟨g :: past, present, future⟩ => some ⟨past, g, present :: future⟩

def redo? : Zipper → Option Zipper
  | ⟨_, _, []⟩ => none
  | ⟨past, present, g :: future⟩ => some ⟨present :: past, g, future⟩

def move (z : Zipper) : Move → Zipper
  | .commit g => z.commit g
  | .undo => z.undo?.getD z
  | .redo => z.redo?.getD z

def moveAll (z : Zipper) (ms : List Move) : Zipper := ms.foldl move z

/-- The graphs of a zipper in the order they were committed. -/
def row (z : Zipper) : List Graph := z.past.reverse ++ z.present :: z.future

variable {z z' : Zipper}

/-! ## Back and forth on a zipper

A step never changes a row, and the first entry of a row is never dropped.  As many steps on
as back lead to where one was, for what a step back puts into the future is what a step on
takes from it. -/

theorem row_of_undo? (h : z.undo? = some z') : z'.row = z.row := by
  obtain ⟨past, present, future⟩ := z
  cases past with
  | nil => cases h
  | cons g past =>
      cases h
      simp [row]

theorem row_of_redo? (h : z.redo? = some z') : z'.row = z.row := by
  obtain ⟨past, present, future⟩ := z
  cases future with
  | nil => cases h
  | cons g future =>
      cases h
      simp [row]

theorem head?_row_move (z : Zipper) (m : Move) : (z.move m).row.head? = z.row.head? := by
  cases m with
  | commit g =>
      obtain ⟨past, present, future⟩ := z
      simp only [move, commit, row, List.reverse_cons, List.append_assoc]
      cases past.reverse <;> rfl
  | undo =>
      rw [move]
      cases h : z.undo? with
      | none => rfl
      | some z' => exact congrArg List.head? (row_of_undo? h)
  | redo =>
      rw [move]
      cases h : z.redo? with
      | none => rfl
      | some z' => exact congrArg List.head? (row_of_redo? h)

theorem head?_row_moveAll (ms : List Move) (z : Zipper) :
    (z.moveAll ms).row.head? = z.row.head? := by
  induction ms generalizing z with
  | nil => rfl
  | cons m ms ih => exact (ih (z.move m)).trans (head?_row_move z m)

/-- As many steps on as back lead to where one was. -/
theorem moveAll_undo_redo (k : Nat) (z : Zipper) (hk : k ≤ z.past.length) :
    z.moveAll (List.replicate k .undo ++ List.replicate k .redo) = z := by
  induction k generalizing z with
  | zero => rfl
  | succ k ih =>
      obtain ⟨past, present, future⟩ := z
      cases past with
      | nil => cases hk
      | cons g past =>
          -- the last step on takes back the first step back, and the rest lies between them
          have hback := ih ⟨past, g, present :: future⟩ (Nat.le_of_succ_le_succ hk)
          rw [List.replicate_succ, List.replicate_succ', ← List.append_assoc]
          show List.foldl move _ _ = _
          rw [List.foldl_append]
          exact congrArg (fun z => z.move .redo) hback

theorem past_moveAll_undo (z : Zipper) :
    (z.moveAll (List.replicate z.past.length .undo)).past = [] := by
  obtain ⟨past, present, future⟩ := z
  induction past generalizing present future with
  | nil => rfl
  | cons g past ih => exact ih g (present :: future)

end Zipper

namespace History

variable {h h' : History} {z : Zipper} {g : Graph}

/-! ## What a history shows -/

/-- The history is the zipper, laid out in a row. -/
structure Shows (h : History) (z : Zipper) : Prop where
  entries : h.entries = z.row
  index : h.index = z.past.length

theorem shows_start (g : Graph) : Shows (start g) (.start g) := ⟨rfl, rfl⟩

/-- A history is determined by what it shows. -/
theorem Shows.unique (hz : Shows h z) (hz' : Shows h' z) : h = h' :=
  eq_of_entries (hz.entries.trans hz'.entries.symm) (hz.index.trans hz'.index.symm)

theorem Shows.getElem?_index (hz : Shows h z) : h.entries[h.index]? = some z.present := by
  rw [hz.entries, hz.index, Zipper.row, List.getElem?_append_right (by simp)]
  simp

theorem Shows.current (hz : Shows h z) : h.current = z.present :=
  Option.some.inj (h.getElem?_index.symm.trans hz.getElem?_index)

theorem Shows.size (hz : Shows h z) : h.size = z.past.length + 1 + z.future.length := by
  rw [History.size, hz.entries, Zipper.row]
  simp
  omega

theorem Shows.canUndo (hz : Shows h z) : h.canUndo ↔ z.past ≠ [] := by
  simp [History.canUndo, hz.index, List.length_pos_iff]

theorem Shows.canRedo (hz : Shows h z) : h.canRedo ↔ z.future ≠ [] := by
  have hsize : h.entries.length = z.past.length + 1 + z.future.length := hz.size
  rw [← List.length_pos_iff, History.canRedo, decide_eq_true_iff, hz.index, hsize]
  omega

/-! ## One move

A commit, a step back and a step on each do one thing to the row and one to the index.  That
the index is the length of the past is what makes the two agree, at the ends of the row as
well, where a step is not possible. -/

theorem Shows.commit (hz : Shows h z) (g : Graph) : Shows (h.commit g) (z.commit g) := by
  constructor
  · have hkept : z.row.take (z.past.length + 1) = z.past.reverse ++ [z.present] := by
      rw [Zipper.row, ← List.length_reverse, List.take_length_add_append]
      rfl
    rw [entries_commit, hz.entries, hz.index, hkept]
    simp [Zipper.row, Zipper.commit]
  · simp [Zipper.commit, hz.index]

theorem Shows.undo? (hz : Shows h z) : Option.Rel Shows h.undo? z.undo? := by
  obtain ⟨past, present, future⟩ := z
  have hindex : h.index = past.length := hz.index
  cases past with
  | nil =>
      cases hback : h.undo? with
      | none => exact .none
      | some h' =>
          have hbefore := (undo?_eq_some hback).2
          rw [hindex] at hbefore
          cases hbefore
  | cons g past =>
      obtain ⟨h', hback⟩ := exists_undo? (h := h) (hindex ▸ Nat.succ_pos _)
      obtain ⟨hentries, hbefore⟩ := undo?_eq_some hback
      rw [hback]
      refine .some ⟨?_, Nat.succ.inj (hbefore.trans hindex)⟩
      rw [hentries, hz.entries]
      exact (Zipper.row_of_undo? rfl).symm

theorem Shows.redo? (hz : Shows h z) : Option.Rel Shows h.redo? z.redo? := by
  obtain ⟨past, present, future⟩ := z
  have hindex : h.index = past.length := hz.index
  have hsize : h.entries.length = past.length + 1 + future.length := hz.size
  cases future with
  | nil =>
      cases hon : h.redo? with
      | none => exact .none
      | some h' =>
          obtain ⟨hentries, hafter⟩ := redo?_eq_some hon
          have hlt := h'.index_lt
          rw [hentries, hafter, hindex, hsize] at hlt
          exact absurd hlt (Nat.lt_irrefl _)
  | cons g future =>
      have hlt : h.index + 1 < h.entries.length := by
        rw [hindex, hsize, List.length_cons]
        omega
      obtain ⟨h', hon⟩ := exists_redo? hlt
      obtain ⟨hentries, hafter⟩ := redo?_eq_some hon
      rw [hon]
      refine .some ⟨?_, by rw [hafter, hindex, List.length_cons]⟩
      rw [hentries, hz.entries]
      exact (Zipper.row_of_redo? rfl).symm

theorem Shows.getD {x : Option History} {y : Option Zipper} (hz : Shows h z)
    (hxy : Option.Rel Shows x y) : Shows (x.getD h) (y.getD z) := by
  cases hxy with
  | none => exact hz
  | some hshows => exact hshows

theorem Shows.move (hz : Shows h z) (m : Move) : Shows (h.move m) (z.move m) := by
  cases m with
  | commit g => exact hz.commit g
  | undo => exact hz.getD hz.undo?
  | redo => exact hz.getD hz.redo?

/-! ## Lists of moves -/

theorem Shows.moveAll (ms : List Move) (hz : Shows h z) : Shows (h.moveAll ms) (z.moveAll ms) := by
  induction ms generalizing h z with
  | nil => exact hz
  | cons m ms ih => exact ih (hz.move m)

/-- As many steps on as back restore a history. -/
theorem Shows.returns (hz : Shows h z) {k : Nat} (hk : k ≤ h.index) :
    h.moveAll (List.replicate k .undo ++ List.replicate k .redo) = h := by
  have hthere := hz.moveAll (List.replicate k .undo ++ List.replicate k .redo)
  rw [z.moveAll_undo_redo k (hz.index ▸ hk)] at hthere
  exact hthere.unique hz

theorem Shows.reaches (hz : Shows h z) :
    let back := h.moveAll (List.replicate h.index .undo)
    back.index = 0 ∧ some back.current = h.entries.head? := by
  intro back
  have hback : Shows back (z.moveAll (List.replicate z.past.length .undo)) := by
    rw [← hz.index]
    exact hz.moveAll _
  have hpast := z.past_moveAll_undo
  have hfirst := z.head?_row_moveAll (List.replicate z.past.length .undo)
  constructor
  · rw [hback.index, hpast]
    rfl
  · rw [hback.current, hz.entries, ← hfirst, Zipper.row, hpast]
    rfl

/-- All that a history and a zipper have in common, `base` being where they started. -/
structure Zipped (base : Graph) (h : History) (z : Zipper) : Prop where
  entries : h.entries = z.past.reverse ++ z.present :: z.future
  index : h.index = z.past.length
  size : h.size = z.past.length + 1 + z.future.length
  /-- There is an entry at the index. -/
  current : h.entries[h.index]? = some h.current ∧ h.current = z.present
  canUndo : h.canUndo ↔ z.past ≠ []
  canRedo : h.canRedo ↔ z.future ≠ []
  undo : Option.Rel Shows h.undo? z.undo?
  redo : Option.Rel Shows h.redo? z.redo?
  returns : ∀ k ≤ h.index, h.moveAll (List.replicate k .undo ++ List.replicate k .redo) = h
  first : h.entries.head? = some base
  reaches : (h.moveAll (List.replicate h.index .undo)).index = 0 ∧
    (h.moveAll (List.replicate h.index .undo)).current = base

/-- **A history is a zipper.**  After any list of commits, undos and redos from any graph it
shows what the zipper shows that was moved likewise. -/
theorem zipped_moveAll (g : Graph) (ms : List Move) :
    Zipped g ((start g).moveAll ms) ((Zipper.start g).moveAll ms) := by
  have hz := (shows_start g).moveAll ms
  have hfirst : ((start g).moveAll ms).entries.head? = some g := by
    rw [hz.entries, Zipper.head?_row_moveAll]
    rfl
  obtain ⟨hindex, hcurrent⟩ := hz.reaches
  refine ⟨hz.entries, hz.index, hz.size, ⟨getElem?_index _, hz.current⟩, hz.canUndo, hz.canRedo,
    hz.undo?, hz.redo?, fun k hk => hz.returns hk, hfirst, hindex, ?_⟩
  exact Option.some.inj (hcurrent.trans hfirst)

end History

end Parley
