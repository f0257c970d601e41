import Scaffold.Proofs.Dependency.Order
import Scaffold.Proofs.Manifest.Change
import Scaffold.Proofs.Schema.Rendering
import Scaffold.Proofs.Schema.Requirements

/-!
# What an unchanged schema leaves out

A run is left out when the digest of the document is the one that was generated. The digest does not
show the order of members, while files show the order in which their parts are declared. So what a
run would make is what is there already only if the two documents declare their parts in one order;
the order of all other members is free: `Schema.rendersAs_of_hash_eq`.
-/

namespace Scaffold.Schema
set_option autoImplicit false

open Json (MembersAlike)

/-- Either of two schemas generates what the other does. -/
structure RendersAs (s t : Schema) : Prop where
  order : s.dependencyOrder = t.dependencyOrder
  required : s.requiredArtifacts = t.requiredArtifacts
  entities : ∀ name, (s.entities.get? name).map (Render.entityPages s) = (t.entities.get? name).map
    (Render.entityPages t)
  pivots : s.pivots.map Render.pivotMigration = t.pivots.map Render.pivotMigration
  shared : ∀ order, Render.sharedPages s order = Render.sharedPages t order
  emissions : ∀ options order, Emission.ofSchema s options order = Emission.ofSchema t options order

variable {a b : Json.Members} {s t : Schema}

/-- Documents that declare their parts in one order generate the same. -/
theorem rendersAs_of_build (built : build a = .ok s) (built' : build b = .ok t)
    (alike : MembersAlike (documentShape true) a b) : s.RendersAs t := by
  have agrees := agrees_of_build built built' alike
  refine ⟨agrees.dependencyOrder, requiredArtifacts_of_build built built' alike, fun name => ?_, ?_,
    agrees.sharedPages, agrees.ofSchema⟩
  · have both := agrees.get? name
    generalize s.entities.get? name = v at both ⊢
    generalize t.entities.get? name = w at both ⊢
    cases both with
    | none => rw [Option.map_none, Option.map_none]
    | some forms => rw [Option.map_some, Option.map_some, agrees.entityPages forms]
  · have entries : s.pivots.entries.map (fun x => (x.1, Render.pivotMigration x.2)) =
        t.pivots.entries.map fun x => (x.1, Render.pivotMigration x.2) := by
      rw [← List.forall₂_eq_eq_eq, List.forall₂_map_left_iff, List.forall₂_map_right_iff]
      exact agrees.pivots.imp fun x y both => by rw [both.1, both.2.pivotMigration]
    rw [OrderedMap.map, OrderedMap.map, OrderedMap.mk.injEq]
    exact entries

/-- Documents with one digest require the same entities; the same files, unless an object with its
members in another order stands for a text; and they generate the same if they declare their parts
in one order. -/
theorem rendersAs_of_hash_eq (decoded : Json.IsDecoded (.object a))
    (decoded' : Json.IsDecoded (.object b)) (built : build a = .ok s) (built' : build b = .ok t)
    (apart : s.AreToldApart t) (same : s.hash = t.hash) :
    s.dependencyOrder.Perm t.dependencyOrder ∧
    ((Json.object a).alikeAs (documentShape false) (.object b) = true →
      s.requiredArtifacts = t.requiredArtifacts) ∧
    ((Json.object a).alikeAs (documentShape true) (.object b) = true → s.RendersAs t) := by
  refine ⟨?_, fun alike => requiredArtifacts_of_build built built' ⟨decoded.sound,
    decoded'.sound, alike⟩, fun alike => rendersAs_of_build built built' ⟨decoded.sound,
      decoded'.sound, alike⟩⟩
  have document := document_of_build built
  have document' := document_of_build built'
  have alike := (hash_eq_iff (document ▸ decoded) (document' ▸ decoded') apart).1 same
  rw [document, document'] at alike
  have keys := entityKeys_of_build built built' ⟨decoded.sound, decoded'.sound, alike⟩
  exact s.dependencyOrder_perm.trans (keys.trans t.dependencyOrder_perm.symm)

/-- A document with one entity, its members in one order. -/
def taggedDocument : Json.Members :=
  [("meta", .object []), ("models", .object [("Tag", .object [("table", .string "tags"),
    ("fields", .object [("label", .string "string")])])])]

/-- The same document with the members in another order, where that does not show. -/
def retaggedDocument : Json.Members :=
  [("models", .object [("Tag", .object [("fields", .object [("label", .string "string")]),
    ("table", .string "tags")])]), ("meta", .object [])]

/-- The two documents give the same. -/
theorem rendersAs_of_hash_eq_retagged :
    ∃ s t, build taggedDocument = .ok s ∧ build retaggedDocument = .ok t ∧
    s.AreToldApart t ∧ s.hash = t.hash ∧ s.dependencyOrder.Perm t.dependencyOrder ∧
    s.requiredArtifacts = t.requiredArtifacts ∧ s.RendersAs t := by
  have checked :
      succeeds (build taggedDocument) (fun s => succeeds (build retaggedDocument) fun t =>
        (Json.object s.document).canonical == (Json.object t.document).canonical) =
        true := by decide +kernel
  have decoded : Json.IsDecoded (.object taggedDocument) := ⟨by decide +kernel, by decide +kernel⟩
  have decoded' :
    Json.IsDecoded (.object retaggedDocument) := ⟨by decide +kernel, by decide +kernel⟩
  obtain ⟨s, built, checked⟩ := succeeds_eq_true.1 checked
  obtain ⟨t, built', same⟩ := succeeds_eq_true.1 checked
  have texts : (Json.object s.document).canonical = (Json.object t.document).canonical :=
    eq_of_beq same
  have same : s.hash = t.hash := by rw [hash, hash, texts]
  obtain ⟨order, required, renders⟩ :=
    rendersAs_of_hash_eq decoded decoded' built built' (fun _ => texts) same
  exact ⟨s, t, built, built', fun _ => texts, same, order, required (by decide +kernel),
    renders (by decide +kernel)⟩

/-- A document that declares two entities. -/
def declaring (first second : String) : Json.Members :=
  [("models", .object [(first, .object []), (second, .object [])])]

/-- Documents with one digest can generate different files: entities come in the order in which they
are declared, and so do their migrations. -/
theorem order_follows_declaration :
    ¬ ∀ (a b : Json.Members) (s t : Schema), Json.IsDecoded (.object a) →
    Json.IsDecoded (.object b) → build a = .ok s → build b = .ok t → s.hash = t.hash →
    s.RendersAs t := by
  intro claimed
  have checked : succeeds (build (declaring "Post" "Tag"))
      (fun s => succeeds (build (declaring "Tag" "Post")) fun t =>
        (Json.object s.document).canonical == (Json.object t.document).canonical &&
          s.dependencyOrder != t.dependencyOrder) = true := by decide +kernel
  have decoded :
    Json.IsDecoded (.object (declaring "Post" "Tag")) := ⟨by decide +kernel, by decide +kernel⟩
  have decoded' :
    Json.IsDecoded (.object (declaring "Tag" "Post")) := ⟨by decide +kernel, by decide +kernel⟩
  obtain ⟨s, built, checked⟩ := succeeds_eq_true.1 checked
  obtain ⟨t, built', checked⟩ := succeeds_eq_true.1 checked
  obtain ⟨texts, apart⟩ := Bool.and_eq_true_iff.1 checked
  have same : s.hash = t.hash := by rw [hash, hash, eq_of_beq texts]
  exact bne_iff_ne.1 apart (claimed _ _ s t decoded decoded' built built' same).order

end Scaffold.Schema
