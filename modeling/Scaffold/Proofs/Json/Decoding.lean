import Scaffold.Json.Document
import Scaffold.Proofs.Json.Likeness
import Scaffold.Proofs.Outcomes

/-!
# What the reader gives

A value that was read has distinct names in each object, numbers in the form that rounding gives and
no whole number that is too long to be printed: `Json.isDecoded_of_read`.
-/

namespace Scaffold.Json
set_option autoImplicit false

/-- What is true of every value that was read. -/
structure IsDecoded (v : Json) : Prop where
  sound : v.isSound = true
  printable : v.isPrintable = true

theorem arePrintable_iff {items : List Json} :
    arePrintable items = true ↔ ∀ item ∈ items, item.isPrintable = true := by
  induction items with
  | nil => simp [arePrintable]
  | cons item items ih => simp [arePrintable, ih]

theorem membersPrintable_iff {members : Members} :
    membersPrintable members = true ↔ ∀ m ∈ members, m.2.isPrintable = true := by
  induction members with
  | nil => simp [membersPrintable]
  | cons m members ih => simp [membersPrintable, ih]

theorem isDecoded_array {items : List Json} (all : ∀ item ∈ items, IsDecoded item) :
    IsDecoded (.array items) :=
  ⟨areSound_iff.2 fun item mem => (all item mem).sound, arePrintable_iff.2 fun item mem =>
    (all item mem).printable⟩

/-- The members of an object that is being read. -/
structure AreDecoded (members : Members) : Prop where
  nodup : (members.map (·.1)).Nodup
  all : ∀ m ∈ members, IsDecoded m.2

theorem AreDecoded.object {members : Members} (h : AreDecoded members) :
    IsDecoded (.object members) :=
  ⟨isSound_object.2 ⟨h.nodup, fun m mem => (h.all m mem).sound⟩, membersPrintable_iff.2 fun m mem =>
    (h.all m mem).printable⟩

theorem AreDecoded.put {members : Members} (h : AreDecoded members) (name : String) {v : Json}
    (decoded : IsDecoded v) : AreDecoded (members.put name v) := by
  rw [Members.put]
  split
  · refine ⟨?_, ?_⟩
    · have names : (members.map fun m => if m.1 == name then (name, v) else m).map (·.1) =
          members.map (·.1) := by
        rw [List.map_map]
        refine List.map_congr_left fun m _ => ?_
        simp only [Function.comp]
        split
        · rename_i here
          exact (eq_of_beq here).symm
        · rfl
      rw [names]
      exact h.nodup
    · refine List.forall_mem_map.2 fun m mem => ?_
      split
      · exact decoded
      · exact h.all m mem
  · rename_i fresh
    simp only [Bool.not_eq_true, List.any_eq_false, beq_iff_eq] at fresh
    refine ⟨?_, ?_⟩
    · rw [List.map_append, List.nodup_append]
      refine ⟨h.nodup, by simp, ?_⟩
      rintro a mem b single rfl
      obtain ⟨m, isIn, rfl⟩ := List.mem_map.1 mem
      exact fresh m isIn (by simpa using single)
    · rw [List.forall_mem_append]
      exact ⟨h.all, by simpa using decoded⟩

theorem natOf_lt {digits : List Char} (all : ∀ c ∈ digits, c.isDigit) :
    natOf digits < 10 ^ digits.length := by
  induction digits using List.reverseRecOn with
  | nil => exact Nat.one_pos
  | append_singleton digits c ih =>
    obtain ⟨front, last⟩ := List.forall_mem_append.1 all
    have digit : c.isDigit := last c (List.mem_singleton_self c)
    simp only [Char.isDigit, Bool.and_eq_true, decide_eq_true_eq] at digit
    have high : c.toNat ≤ 57 := digit.2
    have single : natOf [c] = c.toNat - 48 := by simp [natOf]
    have before := ih front
    rw [natOf_append, single, List.length_append, List.length_singleton, pow_one, pow_succ]
    omega

/-- A number that was read is no longer than the limit. -/
theorem isPrintable_natOf {digits : List Char} (all : ∀ c ∈ digits, c.isDigit)
    (filled : digits ≠ []) (few : digits.length ≤ Text.maxDigits) (negative : Bool) :
    isPrintable (.int (if negative then -(natOf digits : Int) else natOf digits)) = true := by
  have value :
      (if negative then -(natOf digits : Int) else natOf digits).natAbs = natOf digits := by
    cases negative <;> simp
  have length :=
    (Nat.length_toDigits_le_iff (by decide) (List.length_pos_of_ne_nil filled)).2 (natOf_lt all)
  simp only [isPrintable, value, decide_eq_true_eq, Nat.toString_eq_ofList_toDigits,
    String.length_ofList]
  omega

theorem all_wholeDigits (chars : List Char) : ∀ c ∈ wholeDigits chars, c.isDigit := by
  unfold wholeDigits
  split
  · decide
  · exact List.all_eq_true.1 List.all_takeWhile

theorem isDecoded_unsigned {start body rest : Rest} {negative : Bool} {v : Json}
    (h : unsigned start negative body = .ok (v, rest)) : IsDecoded v := by
  unfold unsigned at h
  dsimp only at h
  split at h
  · cases h
  · rename_i filled
    generalize (if (fractionDigits _).isEmpty then _ else _ : Rest) = behind at h
    split at h
    · split at h
      · cases h
      · rename_i few
        obtain ⟨rfl, -⟩ := Prod.mk.inj (Except.ok.inj h)
        exact ⟨rfl, isPrintable_natOf (all_wholeDigits _) (by simpa using filled)
          (by omega) negative⟩
    · obtain ⟨rfl, -⟩ := Prod.mk.inj (Except.ok.inj h)
      exact ⟨Decimal.Binary64.isRounded_ofDecimal .., rfl⟩

theorem isDecoded_scalar {rest after : Rest} {v : Json} (h : scalar rest = .ok (v, after)) :
    IsDecoded v := by
  simp only [scalar] at h
  split at h
  · rename_i found
    obtain ⟨rfl, -⟩ := Prod.mk.inj (Except.ok.inj h)
    have all : ∀ w ∈ words, w.2.isSound = true ∧ w.2.isPrintable = true := by decide
    obtain ⟨sound, printable⟩ := all _ (List.mem_of_find?_eq_some found)
    exact ⟨sound, printable⟩
  · simp only [number] at h
    split at h <;> exact isDecoded_unsigned h

/-- The reader at one depth: whatever it gives has been decoded soundly, if what it had before
was. -/
structure Decodes (fuel : Nat) : Prop where
  value : ∀ {rest after : Rest} {v : Json}, value fuel rest = .ok (v, after) → IsDecoded v
  items : ∀ {rest after : Rest} {before : List Json} {v : Json}, (∀ item ∈ before, IsDecoded item) →
    items fuel rest before = .ok (v, after) → IsDecoded v
  members : ∀ {rest after : Rest} {before : Members} {v : Json}, AreDecoded before →
    membersFrom fuel rest before = .ok (v, after) → IsDecoded v

/-- One level deeper everything is read as before. -/
theorem Decodes.succ {fuel : Nat} (ih : Decodes fuel) : Decodes (fuel + 1) where
  value {rest after v} h := by
    unfold Json.value at h
    split at h
    · obtain ⟨⟨text, between⟩, -, eq⟩ := bind_eq_ok.1 h
      obtain ⟨rfl, -⟩ := Prod.mk.inj (Except.ok.inj eq)
      exact ⟨rfl, rfl⟩
    · dsimp only at h
      split at h
      · obtain ⟨rfl, -⟩ := Prod.mk.inj (Except.ok.inj h)
        exact ⟨rfl, rfl⟩
      · exact ih.items (by simp) h
    · dsimp only at h
      split at h
      · obtain ⟨rfl, -⟩ := Prod.mk.inj (Except.ok.inj h)
        exact ⟨rfl, rfl⟩
      · have absent : AreDecoded [] := ⟨List.nodup_nil, by simp⟩
        exact ih.members absent h
    · exact isDecoded_scalar h
  items {rest after before v} decoded h := by
    unfold Json.items at h
    obtain ⟨⟨item, between⟩, read, eq⟩ := bind_eq_ok.1 h
    have all : ∀ other ∈ item :: before, IsDecoded other :=
      List.forall_mem_cons.2 ⟨ih.value read, decoded⟩
    dsimp only at eq
    split at eq
    · obtain ⟨rfl, -⟩ := Prod.mk.inj (Except.ok.inj eq)
      exact isDecoded_array fun other mem => all other (List.mem_reverse.1 mem)
    · exact ih.items all eq
    · cases eq
  members {rest after before v} decoded h := by
    unfold Json.membersFrom at h
    split at h
    · obtain ⟨⟨name, between⟩, -, eq⟩ := bind_eq_ok.1 h
      dsimp only at eq
      split at eq
      · obtain ⟨⟨member, between⟩, read, eq⟩ := bind_eq_ok.1 eq
        have all := decoded.put name (ih.value read)
        dsimp only at eq
        split at eq
        · obtain ⟨rfl, -⟩ := Prod.mk.inj (Except.ok.inj eq)
          exact all.object
        · exact ih.members all eq
        · cases eq
      · cases eq
    · cases h

theorem decodes (fuel : Nat) : Decodes fuel := by
  induction fuel with
  | zero =>
    refine ⟨fun h => ?_, fun _ h => ?_, fun _ h => ?_⟩
    · unfold Json.value at h
      cases h
    · unfold Json.items at h
      cases h
    · unfold Json.membersFrom at h
      cases h
  | succ fuel ih => exact ih.succ

/-- What was read from a text can stand in a document. -/
theorem isDecoded_of_read {text : String} {v : Json} (h : read text = .ok v) : IsDecoded v := by
  simp only [read, readChars] at h
  split at h
  · cases h
  · obtain ⟨⟨result, rest⟩, found, eq⟩ := bind_eq_ok.1 h
    dsimp only at eq
    split at eq
    · obtain rfl := Except.ok.inj eq
      exact (decodes _).value found
    · cases eq

theorem isDecoded_of_objectOfText {text : String} {members : Members}
    (h : objectOfText text = .ok members) : IsDecoded (.object members) := by
  rw [objectOfText] at h
  split at h
  · rename_i found
    obtain rfl := Except.ok.inj h
    exact isDecoded_of_read found
  · cases h
  · cases h
  · cases h

/-- The document in a file. -/
theorem isDecoded_of_objectOfFile {bytes : ByteArray} {members : Members}
    (h : objectOfFile bytes = .ok members) : IsDecoded (.object members) := by
  rw [objectOfFile] at h
  split at h
  · exact isDecoded_of_objectOfText h
  · cases h

end Scaffold.Json
