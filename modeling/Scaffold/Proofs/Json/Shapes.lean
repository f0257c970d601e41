import Mathlib.Data.List.Forall2
import Scaffold.Proofs.Json.Likeness

/-!
# What values of one shape have in common

Two sound values that are equal but for the order of members, where that does not count for their
shape: their members are found under the same names and are alike in turn, `MembersAlike.get?`;
where the order counts they come in it, `MembersAlike.forall₂`; and where it counts everywhere the
values are equal, `AlikeAs.eq`.
-/

namespace Scaffold.Json
set_option autoImplicit false

/-- Sound values that are equal but for the order of members, where that does not count. -/
structure AlikeAs (shape : Shape) (a b : Json) : Prop where
  sound : a.isSound
  sound' : b.isSound
  alike : alikeAs shape a b

/-- The members of two objects that are alike. -/
def MembersAlike (shape : Shape) (members others : Members) : Prop :=
  AlikeAs shape (.object members) (.object others)

variable {shape : Shape} {members others : Members}

/-- Members under the same names in the same order stand side by side. -/
theorem forall₂_of_names (nodup : (others.map (·.1)).Nodup)
    (names : members.map (·.1) = others.map (·.1)) :
    List.Forall₂ (fun m n => m.1 = n.1 ∧ others.get? m.1 = some n.2) members others := by
  have length : members.length = others.length := by simpa using congrArg List.length names
  refine List.forall₂_iff_get.2 ⟨length, fun i here there => ?_⟩
  have same : members[i].1 = others[i].1 := by
    have each := List.getElem_of_eq names (by simpa using here)
    simpa using each
  have found : others.get? others[i].1 = some others[i].2 :=
    (get?_eq_some nodup).2 (List.getElem_mem there)
  exact ⟨same, by rw [List.get_eq_getElem, List.get_eq_getElem, same]; exact found⟩

mutual

/-- Where the order of members counts everywhere, values that are alike are equal. -/
theorem eq_of_alikeAs_fixed : ∀ (a b : Json), a.isSound → b.isSound → alikeAs .fixed a b → a = b
  | .null, b, _, _, like => by cases b <;> simp [alikeAs] at like; rfl
  | .bool _, b, _, _, like => by cases b <;> simp [alikeAs] at like; rw [like]
  | .int _, b, _, _, like => by cases b <;> simp [alikeAs] at like; rw [like]
  | .float _, b, _, _, like => by cases b <;> simp [alikeAs] at like; rw [like]
  | .string _, b, _, _, like => by cases b <;> simp [alikeAs] at like; rw [like]
  | .array items, b, sound, sound', like => by
    cases b with
    | array others => exact congrArg array (eq_of_alikeItems_fixed items others sound sound' like)
    | _ => simp [alikeAs] at like
  | .object members, b, sound, sound', like => by
    cases b with
    | object others =>
      obtain ⟨nodup', whole⟩ := isSound_object.1 sound'
      rw [isSound, Bool.and_eq_true] at sound
      simp only [alikeAs, Shape.counts, Bool.not_true, Bool.false_or, Bool.and_eq_true,
        beq_iff_eq] at like
      have same := eq_of_alikeMembers_fixed members others sound.2 whole like.2
      have both := (List.forall₂_and_left _ _).2 ⟨same, forall₂_of_names nodup' like.1.2⟩
      refine congrArg object (List.forall₂_eq_eq_eq ▸ both.imp ?_)
      rintro m n ⟨here, name, there⟩
      exact Prod.ext name (Option.some.inj (here.symm.trans there))
    | _ => simp [alikeAs] at like

theorem eq_of_alikeItems_fixed : ∀ (items others : List Json), areSound items → areSound others →
    alikeItems .fixed items others → items = others
  | [], others, _, _, like => by cases others <;> simp [alikeItems] at like; rfl
  | item :: items, others, sound, sound', like => by
    cases others with
    | nil => simp [alikeItems] at like
    | cons other others =>
      rw [alikeItems, Bool.and_eq_true] at like
      rw [areSound, Bool.and_eq_true] at sound sound'
      rw [eq_of_alikeAs_fixed item other sound.1 sound'.1 like.1,
        eq_of_alikeItems_fixed items others sound.2 sound'.2 like.2]

theorem eq_of_alikeMembers_fixed :
    ∀ (members : List (String × Json)) (others : Members), membersSound members →
    (∀ m ∈ others, m.2.isSound) → alikeMembers .fixed members others → ∀ m ∈ members,
    others.get? m.1 = some m.2
  | [], _, _, _, _ => by simp
  | (name, v) :: members, others, sound, sound', like => by
    rw [membersSound, Bool.and_eq_true] at sound
    obtain ⟨⟨other, found, here⟩, -⟩ := List.forall_mem_cons.1 (alikeMembers_iff.1 like)
    rw [alikeMembers, Bool.and_eq_true] at like
    refine List.forall_mem_cons.2
      ⟨?_, eq_of_alikeMembers_fixed members others sound.2 sound' like.2⟩
    rw [found, eq_of_alikeAs_fixed v other sound.1 (isSound_of_get? sound' found) here]

end

theorem AlikeAs.eq {a b : Json} (h : AlikeAs .fixed a b) : a = b :=
  eq_of_alikeAs_fixed a b h.sound h.sound' h.alike

/-- Values that may be missing and whose order counts everywhere are equal. -/
theorem eq_of_rel {v w : Option Json} (h : Option.Rel (AlikeAs .fixed) v w) : v = w := by
  cases h with
  | some same => rw [same.eq]
  | none => rfl

namespace MembersAlike

theorem nodup (h : MembersAlike shape members others) : (members.map (·.1)).Nodup :=
  (isSound_object.1 h.sound).1

theorem nodup' (h : MembersAlike shape members others) : (others.map (·.1)).Nodup :=
  (isSound_object.1 h.sound').1

/-- Each member has its like under the same name. -/
theorem exists_like (h : MembersAlike shape members others) :
    ∀ m ∈ members, ∃ other, others.get? m.1 = some other ∧
    AlikeAs (shape.inside m.1) m.2 other := by
  have like := h.alike
  simp only [alikeAs, Bool.and_eq_true] at like
  intro m mem
  obtain ⟨other, found, here⟩ := alikeMembers_iff.1 like.2 m mem
  exact ⟨other, found, (isSound_object.1 h.sound).2 m mem,
    isSound_of_get? (isSound_object.1 h.sound').2 found, here⟩

/-- The names are the same, in some order. -/
theorem perm_names (h : MembersAlike shape members others) :
    (members.map (·.1)).Perm (others.map (·.1)) := by
  have like := h.alike
  simp only [alikeAs, Bool.and_eq_true, beq_iff_eq] at like
  refine (List.subperm_of_subset h.nodup ?_).perm_of_length_le (by simp [like.1.1])
  intro name isIn
  obtain ⟨m, mem, rfl⟩ := List.mem_map.1 isIn
  obtain ⟨other, found, -⟩ := h.exists_like m mem
  exact List.mem_map.2 ⟨(m.1, other), (get?_eq_some h.nodup').1 found, rfl⟩

/-- Under every name both have members that are alike, or neither has one. -/
theorem get? (h : MembersAlike shape members others) (key : String) :
    Option.Rel (AlikeAs (shape.inside key)) (members.get? key) (others.get? key) := by
  cases found : members.get? key with
  | some v =>
    obtain ⟨other, found', like⟩ := h.exists_like (key, v) ((get?_eq_some h.nodup).1 found)
    rw [found']
    exact .some like
  | none =>
    cases found' : others.get? key with
    | none => exact .none
    | some w =>
      have named : key ∈ others.map (·.1) :=
        List.mem_map.2 ⟨_, (get?_eq_some h.nodup').1 found', rfl⟩
      obtain ⟨m, mem, rfl⟩ := List.mem_map.1 (h.perm_names.mem_iff.2 named)
      exact absurd ((get?_eq_some h.nodup).2 mem) (by simp [found])

/-- Where the order of the members counts, those that are alike stand side by side. -/
theorem forall₂ (h : MembersAlike shape members others) (counts : shape.counts = true) :
    List.Forall₂ (fun m n => m.1 = n.1 ∧ AlikeAs (shape.inside m.1) m.2 n.2) members others := by
  have like := h.alike
  simp only [alikeAs, counts, Bool.not_true, Bool.false_or, Bool.and_eq_true, beq_iff_eq] at like
  have both := (List.forall₂_and_left _ _).2 ⟨h.exists_like, forall₂_of_names h.nodup' like.1.2⟩
  refine both.imp ?_
  rintro m n ⟨⟨other, found, same⟩, name, there⟩
  rw [found, Option.some.injEq] at there
  exact ⟨name, there ▸ same⟩

/-- Members whose order counts, and in which it counts everywhere, are equal. -/
theorem eq (h : MembersAlike (.all true .fixed) members others) : members = others := by
  refine List.forall₂_eq_eq_eq ▸ (h.forall₂ rfl).imp ?_
  rintro m n ⟨name, same⟩
  exact Prod.ext name same.eq

end MembersAlike

/-- Whether a value has no items and no members. -/
def isScalar : Json → Bool
  | .array _ | .object _ => false
  | _ => true

theorem forall₂_of_alikeItems {items others : List Json} (sound : areSound items)
    (sound' : areSound others) (like : alikeItems shape items others) :
    List.Forall₂ (AlikeAs shape) items others := by
  induction items generalizing others with
  | nil => cases others <;> simp [alikeItems] at like; exact .nil
  | cons item items ih =>
    cases others with
    | nil => simp [alikeItems] at like
    | cons other others =>
      rw [alikeItems, Bool.and_eq_true] at like
      rw [areSound, Bool.and_eq_true] at sound sound'
      exact .cons ⟨sound.1, sound'.1, like.1⟩ (ih sound.2 sound'.2 like.2)

/-- Values that are alike are one scalar, or arrays of items that are alike, or objects of members
that are. -/
theorem AlikeAs.cases {a b : Json} (h : AlikeAs shape a b) :
    a = b ∧ a.isScalar ∨
      (∃ items others, a = .array items ∧ b = .array others ∧
        List.Forall₂ (AlikeAs shape) items others) ∨
      ∃ members others, a = .object members ∧ b = .object others ∧
      MembersAlike shape members others := by
  have like := h.alike
  cases a with
  | array items =>
    cases b with
    | array others =>
      exact .inr (.inl ⟨items, others, rfl, rfl, forall₂_of_alikeItems h.sound h.sound' like⟩)
    | _ => simp [alikeAs] at like
  | object members =>
    cases b with
    | object others => exact .inr (.inr ⟨members, others, rfl, rfl, h⟩)
    | _ => simp [alikeAs] at like
  | _ =>
    refine .inl ⟨?_, rfl⟩
    cases b <;> simp [alikeAs] at like
    all_goals first | rfl | rw [like]

end Scaffold.Json
