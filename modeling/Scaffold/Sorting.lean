/-!
# Sorting by a text

Insertion sort by a key of type `String`, in the order of code points. The result holds the same
elements, its keys rise, and elements of one key keep their order.
-/

namespace Scaffold
set_option autoImplicit false

variable {α : Type}

/-- Puts `a` before the first element whose key is not below its own. -/
def insertOn (key : α → String) (a : α) : List α → List α
  | [] => [a]
  | b :: rest => if key b < key a then b :: insertOn key a rest else a :: b :: rest

/-- The list with its keys rising. -/
def sortOn (key : α → String) : List α → List α
  | [] => []
  | a :: rest => insertOn key a (sortOn key rest)

/-- Texts in the order of code points. -/
def sortTexts (texts : List String) : List String := sortOn id texts

theorem insertOn_perm (key : α → String) (a : α) (list : List α) :
    (insertOn key a list).Perm (a :: list) := by
  induction list with
  | nil => exact .refl _
  | cons b rest ih =>
    simp only [insertOn]
    split
    · exact (ih.cons b).trans (.swap a b rest)
    · exact .refl _

theorem sortOn_perm (key : α → String) (list : List α) : (sortOn key list).Perm list := by
  induction list with
  | nil => exact .refl _
  | cons a rest ih => exact (insertOn_perm key a _).trans (ih.cons a)

theorem mem_sortOn {key : α → String} {list : List α} {a : α} :
    a ∈ sortOn key list ↔ a ∈ list := (sortOn_perm key list).mem_iff

/-- Texts in order, without repetitions. -/
def distinctSorted (texts : List String) : List String := sortTexts texts.eraseDups

end Scaffold
