import Mathlib.Logic.Basic
import ManagementScript.Command.Script
import ManagementScript.Proofs.Text.Json

/-!
The text form of commands. Quoting does not touch the characters of a text, so that the text form of a
command goes over several lines exactly where one of the texts in it does.
-/

namespace ManagementScript

namespace Text

/-- The lines of a text: what stands between its line breaks. -/
def lines (s : String) : List String := (s.toList.splitOn '\n').map String.ofList

/-- A line break stands in the text. -/
def Breaks (s : String) : Prop := '\n' ∈ s.toList

instance (s : String) : Decidable (Breaks s) := inferInstanceAs (Decidable (_ ∈ _))

@[simp] theorem breaks_append {s t : String} : Breaks (s ++ t) ↔ Breaks s ∨ Breaks t := by
  simp [Breaks]

@[simp] theorem breaks_push {s : String} {c : Char} : Breaks (s.push c) ↔ Breaks s ∨ c = '\n' := by
  simp [Breaks, eq_comm]

@[simp] theorem not_breaks_repr (n : Int) : ¬Breaks n.repr := by
  intro h
  have hnumeric := (Json.toList_toString_int n).2 _ h
  revert hnumeric
  decide

/-- No piece of a list that is cut at an item has this item. -/
theorem notMem_of_mem_splitOn [DecidableEq α] {x : α} {xs : List α} {piece : List α}
    (h : piece ∈ xs.splitOn x) : x ∉ piece := by
  induction xs generalizing piece with
  | nil =>
    rw [List.splitOn_nil, List.mem_singleton] at h
    exact h ▸ List.not_mem_nil
  | cons y xs ih =>
    rw [List.splitOn_cons_eq_if_modifyHead] at h
    split at h
    · cases h with
      | head => exact List.not_mem_nil
      | tail _ h => exact ih h
    · next hy =>
      cases hs : xs.splitOn x with
      | nil => exact absurd hs (List.splitOn_ne_nil x xs)
      | cons first pieces =>
        rw [hs] at h ih
        cases h with
        | head =>
          rw [List.mem_cons, not_or]
          exact ⟨fun he => hy (beq_iff_eq.2 he.symm), ih (List.mem_cons_self ..)⟩
        | tail _ h => exact ih (List.mem_cons_of_mem _ h)

theorem not_breaks_of_mem_lines {s line : String} (h : line ∈ lines s) : ¬Breaks line := by
  obtain ⟨cs, hcs, rfl⟩ := List.mem_map.1 h
  rw [Breaks, String.toList_ofList]
  exact notMem_of_mem_splitOn hcs

/-- Joined lines are told by the lines of the whole exactly where none of them has a line break. -/
theorem lines_intercalate_iff {ls : List String} (hne : ls ≠ []) :
    lines ("\n".intercalate ls) = ls ↔ ∀ line ∈ ls, ¬Breaks line := by
  apply Iff.intro
  · intro h line hline
    rw [← h] at hline
    exact not_breaks_of_mem_lines hline
  · intro h
    have hseparator : "\n".toList = ['\n'] := rfl
    rw [lines, String.toList_intercalate, hseparator, List.splitOn_intercalate]
    · simp [Function.comp_def]
    · exact List.forall_mem_map.2 h
    · simpa using hne

end Text

open Text (Breaks breaks_append breaks_push)

namespace Value

mutual

/-- The texts in a value. -/
def texts : Value → List String
  | .string text | .expression text => [text]
  | .boolean _ | .int _ | .long _ => []
  | .list items => textsOfAll items

def textsOfAll : List Value → List String
  | [] => []
  | item :: items => item.texts ++ textsOfAll items

end

mutual

theorem breaks_write : ∀ (v : Value) (out : String),
    Breaks (v.write out) ↔ Breaks out ∨ ∃ t ∈ v.texts, Breaks t
  | .string text, out => by simp [write, texts]
  | .boolean value, out => by
    have hvalue : ¬Breaks (if value then "true" else "false") := by cases value <;> decide
    simp [write, texts, hvalue]
  | .int value, out => by simp [write, texts]
  | .long value, out => by simp [write, texts]
  | .expression text, out => by
    have hword : ¬Breaks "expression \"" := by decide
    simp [write, texts, hword]
  | .list items, out => by simp [write, texts, breaks_writeItems items]

theorem breaks_writeItems : ∀ (items : List Value) (out : String) (first : Bool),
    Breaks (writeItems out first items) ↔ Breaks out ∨ ∃ t ∈ textsOfAll items, Breaks t
  | [], out, first => by simp [writeItems, textsOfAll]
  | item :: items, out, first => by
    have hseparated : Breaks (if first then out else out ++ ", ") ↔ Breaks out := by
      have hcomma : ¬Breaks ", " := by decide
      cases first <;> simp [hcomma]
    rw [writeItems, breaks_writeItems, breaks_write, hseparated]
    simp only [textsOfAll, List.mem_append, or_and_right, exists_or, or_assoc]

end

end Value

namespace Command

/-- The texts in a command that are not words of the vocabulary: the values of the steps of its address,
and those in its parameters. -/
def texts (c : Command) : List String :=
  c.address.segments.map (·.value) ++ c.parameters.entries.flatMap (·.2.texts)

/-- The keys of the steps and the names of the parameters have no line breaks. -/
structure IsPlain (c : Command) : Prop where
  keys : ∀ s ∈ c.address.segments, ¬Breaks s.key
  names : ∀ x ∈ c.parameters.entries, ¬Breaks x.1

theorem breaks_address {a : Address} (h : ∀ s ∈ a.segments, ¬Breaks s.key) :
    Breaks (toString a) ↔ ∃ s ∈ a.segments, Breaks s.value := by
  have hfold : ∀ (segments : List Segment) (out : String), (∀ s ∈ segments, ¬Breaks s.key) →
      (Breaks (segments.foldl (fun out s => s!"{out}/{s}") out) ↔
        Breaks out ∨ ∃ s ∈ segments, Breaks s.value) := by
    intro segments
    induction segments with
    | nil => simp
    | cons s segments ih =>
      intro out h
      obtain ⟨hs, hrest⟩ := List.forall_mem_cons.1 h
      have hstep : Breaks s!"{out}/{s}" ↔ Breaks out ∨ Breaks s.value := by
        have hslash : ¬Breaks "/" := by decide
        have hsegment : Breaks (toString s) ↔ Breaks s.value := by
          have hequals : ¬Breaks "=" := by decide
          have htext : toString s = s.key ++ "=" ++ s.value := rfl
          rw [htext]
          simp [hs, hequals]
        have htext : s!"{out}/{s}" = out ++ "/" ++ toString s := rfl
        rw [htext]
        simp [hslash, hsegment]
      rw [List.foldl_cons, ih _ hrest, hstep]
      simp [or_assoc]
  obtain ⟨segments⟩ := a
  cases segments with
  | nil => simp [toString, Address.toString, Breaks]
  | cons s segments =>
    refine (hfold (s :: segments) "" h).trans ?_
    simp [Breaks]

theorem breaks_writeParameters {entries : List (String × Value)} (h : ∀ x ∈ entries, ¬Breaks x.1)
    (out : String) (first : Bool) : Breaks (writeParameters out first entries) ↔
      Breaks out ∨ ∃ t ∈ entries.flatMap (·.2.texts), Breaks t := by
  induction entries generalizing out first with
  | nil => simp [writeParameters]
  | cons x entries ih =>
    obtain ⟨hname, hrest⟩ := List.forall_mem_cons.1 h
    have hcomma : ¬Breaks ", " := by decide
    have hseparated : Breaks (if first then out else out ++ ", ") ↔ Breaks out := by
      cases first <;> simp [hcomma]
    rw [writeParameters, ih hrest, Value.breaks_write, breaks_push, breaks_append, hseparated]
    simp [hname, or_assoc, or_and_right, exists_or]

/-- The text form of a command has a line break exactly where a text in the command has one. -/
theorem breaks_toString {c : Command} (h : c.IsPlain) :
    Breaks (toString c) ↔ ∃ t ∈ c.texts, Breaks t := by
  have hhead : Breaks s!"{c.address}:{operationName}" ↔
      ∃ s ∈ c.address.segments, Breaks s.value := by
    have hcolon : ¬Breaks ":" := by decide
    have hname : ¬Breaks operationName := by decide
    have htext : s!"{c.address}:{operationName}" = toString c.address ++ ":" ++ operationName := rfl
    rw [htext]
    simp [hcolon, hname, breaks_address h.keys]
  have htext : toString c = if c.parameters.isEmpty then s!"{c.address}:{operationName}"
      else (writeParameters (s!"{c.address}:{operationName}".push '(') true
        c.parameters.entries).push ')' := rfl
  rw [htext]
  split
  · next hempty =>
    have hnone : c.parameters.entries = [] := List.isEmpty_iff.1 hempty
    rw [hhead, texts, hnone, List.flatMap_nil, List.append_nil]
    simp
  · rw [breaks_push, breaks_writeParameters h.names, breaks_push, hhead]
    simp [texts, or_and_right, exists_or]

end Command

end ManagementScript
