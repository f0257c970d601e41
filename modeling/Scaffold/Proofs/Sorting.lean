import Scaffold.Sorting
import Mathlib.Data.List.Nodup
import Mathlib.Data.List.Perm.Subperm

/-!
# What sorting gives

The keys of a sorted list rise, so that sorting a list again changes nothing, and two orders of the
same elements, whose keys are distinct, become one: `sortOn_eq_of_perm`.
-/

namespace Scaffold
set_option autoImplicit false

variable {α β : Type}

/-- Sorting does not look at anything but the keys. -/
theorem insertOn_map {key : α → String} {key' : β → String} {f : α → β}
    (same : ∀ a, key' (f a) = key a) (a : α) (list : List α) :
    insertOn key' (f a) (list.map f) = (insertOn key a list).map f := by
  induction list with
  | nil => rfl
  | cons b rest ih =>
    simp only [List.map_cons, insertOn, same]
    split
    · rw [ih, List.map_cons]
    · rfl

theorem sortOn_map (key : α → String) {key' : β → String} {f : α → β}
    (same : ∀ a, key' (f a) = key a) (list : List α) :
    sortOn key' (list.map f) = (sortOn key list).map f := by
  induction list with
  | nil => rfl
  | cons a rest ih => rw [List.map_cons, sortOn, sortOn, ih, insertOn_map same]

theorem isEmpty_sortOn (key : α → String) (list : List α) :
    (sortOn key list).isEmpty = list.isEmpty := by
  rw [Bool.eq_iff_iff, List.isEmpty_iff, List.isEmpty_iff, ← List.length_eq_zero_iff,
    (sortOn_perm key list).length_eq, List.length_eq_zero_iff]

theorem pairwise_insertOn (key : α → String) (a : α) {list : List α}
    (h : list.Pairwise fun x y => key x ≤ key y) :
    (insertOn key a list).Pairwise fun x y => key x ≤ key y := by
  induction list with
  | nil => exact List.pairwise_singleton _ _
  | cons b rest ih =>
    obtain ⟨first, others⟩ := List.pairwise_cons.1 h
    rw [insertOn]
    split
    · rename_i below
      refine List.pairwise_cons.2 ⟨fun c mem => ?_, ih others⟩
      rcases List.mem_cons.1 ((insertOn_perm key a rest).mem_iff.1 mem) with rfl | mem
      · exact String.not_lt.1 (String.lt_asymm below)
      · exact first c mem
    · rename_i notBelow
      refine List.pairwise_cons.2 ⟨fun c mem => ?_, h⟩
      have here : key a ≤ key b := String.not_lt.1 notBelow
      rcases List.mem_cons.1 mem with rfl | mem
      · exact here
      · exact String.le_trans here (first c mem)

/-- The keys of a sorted list rise. -/
theorem pairwise_sortOn (key : α → String) (list : List α) :
    (sortOn key list).Pairwise fun x y => key x ≤ key y := by
  induction list with
  | nil => exact .nil
  | cons a rest ih => exact pairwise_insertOn key a ih

/-- A list whose keys rise is sorted already. -/
theorem sortOn_eq_self {key : α → String} {list : List α}
    (h : list.Pairwise fun x y => key x ≤ key y) :
    sortOn key list = list := by
  induction list with
  | nil => rfl
  | cons a rest ih =>
    obtain ⟨first, others⟩ := List.pairwise_cons.1 h
    rw [sortOn, ih others]
    cases rest with
    | nil => rfl
    | cons b rest => rw [insertOn, if_neg (String.not_lt.2 (first b (List.mem_cons_self ..)))]

theorem sortOn_sortOn (key : α → String) (list : List α) :
    sortOn key (sortOn key list) = sortOn key list :=
  sortOn_eq_self (pairwise_sortOn key list)

/-- The order in which elements with distinct keys came is lost. -/
theorem sortOn_eq_of_perm {key : α → String} {list other : List α} (nodup : (list.map key).Nodup)
    (perm : list.Perm other) : sortOn key list = sortOn key other := by
  have both : (sortOn key list).Perm (sortOn key other) :=
    (sortOn_perm key list).trans (perm.trans (sortOn_perm key other).symm)
  refine both.eq_of_pairwise (fun a b memA memB le ge => ?_) (pairwise_sortOn key list)
    (pairwise_sortOn key other)
  have memA := mem_sortOn.1 memA
  have memB := perm.mem_iff.2 (mem_sortOn.1 memB)
  exact List.inj_on_of_nodup_map nodup memA memB (String.le_antisymm le ge)

/-- Lists without repetitions that hold the same elements are orders of one another. -/
theorem perm_of_mem_iff {list other : List α} (nodup : list.Nodup) (nodup' : other.Nodup)
    (same : ∀ a, a ∈ list ↔ a ∈ other) : list.Perm other :=
  (List.perm_ext_iff_of_nodup nodup nodup').2 same

theorem nodup_eraseDups (texts : List String) : texts.eraseDups.Nodup := by
  match texts with
  | [] => exact List.nodup_nil
  | text :: rest =>
    rw [List.eraseDups_cons, List.nodup_cons, List.mem_eraseDups]
    exact ⟨by simp, nodup_eraseDups _⟩
termination_by texts.length
decreasing_by exact Nat.lt_succ_of_le (List.length_filter_le ..)

theorem mem_distinctSorted {texts : List String} {text : String} :
    text ∈ distinctSorted texts ↔ text ∈ texts := by
  rw [distinctSorted, sortTexts, mem_sortOn, List.mem_eraseDups]

theorem nodup_distinctSorted (texts : List String) : (distinctSorted texts).Nodup :=
  (sortOn_perm id _).nodup_iff.2 (nodup_eraseDups texts)

/-- Texts in order, once each, rise. -/
theorem pairwise_distinctSorted (texts : List String) :
    (distinctSorted texts).Pairwise (· < ·) := by
  refine List.Pairwise.imp₂ (fun a b le ne => ?_) (pairwise_sortOn id texts.eraseDups)
    (nodup_distinctSorted texts)
  exact String.not_le.1 fun ge => ne (String.le_antisymm le ge)

/-- Rising lists with the same elements are the same. -/
theorem eq_of_pairwise_lt {list other : List String} (rises : list.Pairwise (· < ·))
    (rises' : other.Pairwise (· < ·)) (same : ∀ text, text ∈ list ↔ text ∈ other) :
    list = other := by
  have nodup {texts : List String} (rises : texts.Pairwise (· < ·)) : texts.Nodup := by
    refine rises.imp ?_
    rintro a _ lt rfl
    exact String.lt_irrefl a lt
  refine (perm_of_mem_iff (nodup rises) (nodup rises') same).eq_of_pairwise (fun a b _ _ lt gt =>
    ?_) rises rises'
  exact absurd lt (String.lt_asymm gt)

/-- Texts in order, once each, hang only on which texts there are. -/
theorem distinctSorted_congr {texts others : List String}
    (same : ∀ text, text ∈ texts ↔ text ∈ others) :
    distinctSorted texts = distinctSorted others := by
  refine sortOn_eq_of_perm (by simpa using nodup_eraseDups texts) ?_
  exact perm_of_mem_iff (nodup_eraseDups texts) (nodup_eraseDups others) (by simpa using same)

end Scaffold
