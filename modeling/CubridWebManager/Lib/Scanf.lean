import Mathlib.Data.List.Basic

/-!
# Formats of `sscanf`

A format is a list of directives, and `sscanf` reads a text with it: it stops at the first directive that fails and
returns the texts of the conversions until then.  The literals after the last conversion make no difference.
-/

namespace Scanf

inductive Directive (α : Type*)
  /-- Any number of blanks. -/
  | space
  | lit (c : α)
  /-- `%[..]`, the longest text of such characters, which must not be empty. -/
  | set (p : α → Bool)

abbrev Format (α : Type*) := List (Directive α)

variable {α : Type*} [DecidableEq α] (blank : α → Bool) {p : α → Bool} {f : Format α} {c : α} {l : List α}

/-- The conversions made. -/
def sscanf : Format α → List α → List (List α)
  | [], _ => []
  | .space :: f, l => sscanf f (l.dropWhile blank)
  | .lit c :: f, l => if l.head? = some c then sscanf f l.tail else []
  | .set p :: f, l => if l.takeWhile p = [] then [] else l.takeWhile p :: sscanf f (l.dropWhile p)

/-- The text of the only conversion of the format. -/
def one (f : Format α) (l : List α) : Option (List α) :=
  match sscanf blank f l with
  | [value] => some value
  | _ => none

/-- The texts of the two conversions of the format, if both are made. -/
def two (f : Format α) (l : List α) : Option (List α × List α) :=
  match sscanf blank f l with
  | [key, value] => some (key, value)
  | _ => none

variable {blank}

@[simp]
theorem sscanf_space : sscanf blank (.space :: f) l = sscanf blank f (l.dropWhile blank) := rfl

theorem sscanf_lit (h : l.head? = some c) : sscanf blank (.lit c :: f) l = sscanf blank f l.tail := if_pos h

theorem sscanf_lit_fails (h : l.head? ≠ some c) : sscanf blank (.lit c :: f) l = [] := if_neg h

theorem sscanf_set (h : l.takeWhile p ≠ []) :
    sscanf blank (.set p :: f) l = l.takeWhile p :: sscanf blank f (l.dropWhile p) := if_neg h

theorem sscanf_set_fails (h : l.takeWhile p = []) : sscanf blank (.set p :: f) l = [] := if_pos h

/-- Literals at the end of a format convert nothing. -/
theorem sscanf_lits (cs l : List α) : sscanf blank (cs.map .lit) l = [] := by
  induction cs generalizing l with
  | nil => rfl
  | cons c cs ih =>
    rw [List.map_cons, sscanf]
    split
    · exact ih _
    · rfl

end Scanf
