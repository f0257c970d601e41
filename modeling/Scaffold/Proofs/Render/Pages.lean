import Scaffold.Proofs.Definition.Decimals
import Scaffold.Proofs.Schema.Definitions
import Scaffold.Render.AuthController
import Scaffold.Render.Factory
import Scaffold.Render.Migration
import Scaffold.Render.Observer
import Scaffold.Render.Policy
import Scaffold.Render.Provider
import Scaffold.Render.Routes
import Scaffold.Render.Seeder
import Scaffold.Validation

/-!
# Pages that can be rendered

A schema that was built holds what its pages look up. What can still keep a page from being rendered
is one thing: a greatest length in digits that spell no number, in a field whose length the page
reads. `Schema.rendered_iff` says so of every page.
-/

namespace Scaffold
set_option autoImplicit false

open Text (NumeralError)

namespace Field

variable {field : Field}

/-- If a greatest length is given in digits, they spell a number: no superscripts or circled digits,
and not too many. -/
def HasReadableLength (field : Field) : Prop :=
  ∀ text, field.validation? "max" = some text → Text.isDigits text = true → Text.AreReadable text

theorem exists_maxLength_iff :
    (∃ length, field.maxLength = .ok length) ↔ field.HasReadableLength := by
  unfold maxLength HasReadableLength
  cases field.validation? "max" with
  | none => simp
  | some text =>
    dsimp only
    cases digits : Text.isDigits text with
    | false => simp [digits]
    | true =>
      have fails := readDigits_eq_error digits
      rw [if_pos rfl]
      cases read : readDigits text with
      | ok length => simpa [digits, read, Except.map] using fails
      | error e => simpa [digits, read, Except.map] using fails

end Field

theorem exists_map_iff {α β ε : Type} {f : α → β} {outcome : Except ε α} :
    (∃ b, outcome.map f = .ok b) ↔ ∃ a, outcome = .ok a := by
  cases outcome <;> simp [Except.map]

theorem exists_mapM_iff {α β ε : Type} {f : α → Except ε β} {list : List α} :
    (∃ results, list.mapM f = .ok results) ↔ ∀ a ∈ list, ∃ b, f a = .ok b := by
  constructor
  · rintro ⟨results, made⟩ a mem
    obtain ⟨b, -, made⟩ := exists_of_mem_mapM mem made
    exact ⟨b, made⟩
  · intro each
    cases made : list.mapM f with
    | ok results => exact ⟨results, rfl⟩
    | error e =>
      obtain ⟨a, mem, failed⟩ := exists_of_mapM_error made
      obtain ⟨b, made⟩ := each a mem
      cases failed.symm.trans made

namespace Render

/-- The pages of a schema. That of the database seeder takes any order of entities. -/
inductive Page where
  | model (e : Entity)
  | migration (e : Entity)
  | usersMigration (e : Entity)
  | pivotMigration (p : Pivot)
  | controller (e : Entity)
  | factory (e : Entity)
  | seeder (e : Entity)
  | policy (e : Entity)
  | observer (e : Entity)
  | routes
  | databaseSeeder (order : List String)
  | authProvider
  | observerProvider

namespace Page

/-- The text of a page, or why it has none. -/
def text (s : Schema) : Page → Except NumeralError String
  | model e => .ok (modelPage s e)
  | migration e => Render.entityMigration e
  | usersMigration e => Render.usersMigration e
  | pivotMigration p => Render.pivotMigration p
  | controller e => .ok (controllerPage s e)
  | factory e => factoryPage s e
  | seeder e => .ok (seederPage s e)
  | policy e => .ok (policyPage e)
  | observer e => .ok (observerPage e)
  | routes => .ok (Text.unlines (routesSection s))
  | databaseSeeder order => .ok (Text.unlines (seederCalls s order))
  | authProvider => .ok (authProviderPage s)
  | observerProvider => .ok (observerProviderPage s)

/-- The fields of which a page reads the greatest length: text columns, and made-up texts for which
nothing else speaks. -/
def measured : Page → List (String × Field)
  | migration e =>
    e.fields.entries.filter fun f => !autoColumns.contains f.1 && f.2.type? == some .string
  | usersMigration e => (addedFields e).filter fun f => f.2.type? == some .string
  | pivotMigration p =>
    p.fields.entries.filter fun f => !autoColumns.contains f.1 && f.2.type? == some .string
  | factory e =>
    e.fields.entries.filter fun f => !autoColumns.contains f.1 && f.2.type? == some .string &&
      (sampleOfName? (Text.lower f.1)).isNone && !f.2.hasValidation "email"
  | _ => []

end Page

variable {s : Schema} {name : String} {field : Field} {fields : List (String × Field)}

theorem exists_columnLines_iff : (∃ lines, columnLines name field = .ok lines) ↔
    (field.type? = some .string → field.HasReadableLength) := by
  rw [columnLines, exists_map_iff, columnParts]
  split
  · rename_i type
    refine iff_of_true ?_ (by simp [type])
    split <;> exact ⟨_, rfl⟩
  · rename_i type
    rw [exists_map_iff, Field.exists_maxLength_iff]
    simp [type]
  · rename_i type
    simp [type]
  · rename_i type _
    simp [type]
  · rename_i other _ _
    exact iff_of_true ⟨_, rfl⟩ fun type => absurd type other

theorem exists_columnsLines_iff : (∃ lines, columnsLines fields = .ok lines) ↔
    ∀ f ∈ fields.filter (fun f => f.2.type? == some .string), f.2.HasReadableLength := by
  rw [columnsLines, exists_map_iff, exists_mapM_iff]
  simp only [exists_columnLines_iff, List.mem_filter, beq_iff_eq, and_imp]

theorem exists_createPage_iff {table : String} {columns : OrderedMap Field}
    {closing : List String} : (∃ text, createPage table columns closing = .ok text) ↔
      ∀ f ∈ columns.entries.filter (fun f => !autoColumns.contains f.1 &&
        f.2.type? == some .string), f.2.HasReadableLength := by
  rw [createPage, exists_map_iff, exists_columnsLines_iff, List.filter_filter]
  simp only [Bool.and_comm]

theorem exists_usersMigration_iff {e : Entity} : (∃ text, usersMigration e = .ok text) ↔
    ∀ f ∈ (addedFields e).filter (fun f => f.2.type? == some .string), f.2.HasReadableLength := by
  rw [usersMigration, exists_map_iff, exists_columnsLines_iff]

theorem exists_sample_iff : (∃ text, sample s name field = .ok text) ↔
    (field.type? = some .string → sampleOfName? (Text.lower name) = none →
      field.hasValidation "email" = false → field.HasReadableLength) := by
  unfold sample
  split
  · rename_i type
    simp [type]
  · rename_i other
    split
    · rename_i named
      simp [named]
    · rename_i named
      unfold sampleOfType
      split
      · rename_i type
        unfold sampleText
        split
        · rename_i email
          simp [email]
        · rename_i plain
          rw [exists_map_iff, Field.exists_maxLength_iff]
          simp [type, named, plain]
      all_goals
        rename_i type
        simp [type]

theorem exists_factoryPage_iff {e : Entity} : (∃ text, factoryPage s e = .ok text) ↔
    ∀ f ∈ (Page.factory e).measured, f.2.HasReadableLength := by
  rw [factoryPage, exists_map_iff, definitionLines, exists_mapM_iff]
  simp only [exists_map_iff, exists_sample_iff, Page.measured, List.mem_filter, Bool.and_eq_true,
    beq_iff_eq, Option.isNone_iff_eq_none, Bool.not_eq_true', and_imp]

/-- A page has a text exactly when the lengths that it reads can be read. -/
theorem Page.exists_text_iff (s : Schema) (page : Page) :
    (∃ text, page.text s = .ok text) ↔ ∀ f ∈ page.measured, f.2.HasReadableLength := by
  cases page with
  | migration e => exact exists_createPage_iff
  | usersMigration e => exact exists_usersMigration_iff
  | pivotMigration p => exact exists_createPage_iff
  | factory e => exact exists_factoryPage_iff
  | _ => exact iff_of_true ⟨_, rfl⟩ (by simp [measured])

end Render

namespace Schema

/-- A schema holds what its pages look up: the numbers of decimal columns, the tables of foreign
keys, and the conditions of rules. -/
structure HoldsLookups (s : Schema) : Prop where
  fields : ∀ e ∈ s.entities.values, ∀ f ∈ e.fields.entries, Field.Suits f.2.typeName f.2.params
  pivotFields : ∀ p ∈ s.pivots.values, ∀ f ∈ p.fields.entries, Field.Suits f.2.typeName f.2.params
  rules : ∀ e ∈ s.entities.values, ∀ entry ∈ e.policies.entries, entry.2.IsWhole

variable {document : Json.Members} {s : Schema}

/-- Of a schema that was built, a page is rendered exactly when the lengths that it reads can be
read: nothing that it looks up is missing. -/
theorem rendered_iff (built : build document = .ok s) :
    s.HoldsLookups ∧ ∀ page : Render.Page,
      (∃ text, page.text s = .ok text) ↔ ∀ f ∈ page.measured, f.2.HasReadableLength := by
  have read := isRead_of_build built
  refine ⟨⟨fun e mem f isField => (read.fields e mem f isField).suits, fun p mem f isField =>
    (read.pivotFields p mem f isField).suits, fun e mem entry isRule => ?_⟩, fun page =>
    page.exists_text_iff s⟩
  obtain ⟨text, parsed⟩ := read.rules e mem entry isRule
  exact Rule.isWhole_of_parse parsed

/-- A document with one model whose field has a greatest length. -/
def withLength (length : String) : Json.Members :=
  [("meta", .object []),
    ("models", .object [("Tag",
      .object [("fields", .object [("label", .string ("string|max:" ++ length))])])])]

/-- With a greatest length of eighty the migration is rendered. -/
theorem rendered_iff_eighty : ∃ s e, build (withLength "80") = .ok s ∧ s.findings.isValid = true ∧
    s.HoldsLookups ∧ s.entities.get? "Tag" = some e ∧ ∃ text, (Render.Page.migration e).text s =
      .ok text := by
  have checked : succeeds (build (withLength "80")) (fun s => s.findings.isValid &&
      (s.entities.get? "Tag").any fun e =>
        e.fields.entries == [("label", ⟨"string", none, ["max:80"]⟩)]) = true := by
    decide +kernel
  obtain ⟨s, built, holds⟩ := succeeds_eq_true.1 checked
  simp only [Bool.and_eq_true, Option.any_eq_true, beq_iff_eq] at holds
  obtain ⟨valid, e, found, fields⟩ := holds
  obtain ⟨lookups, rendered⟩ := rendered_iff built
  refine ⟨s, e, built, valid, lookups, found, (rendered (.migration e)).2 ?_⟩
  intro f mem text given digits
  rw [Render.Page.measured, fields] at mem
  obtain rfl := List.mem_singleton.1 (List.mem_filter.1 mem).1
  obtain rfl : "80" = text :=
    Option.some.inj ((by decide +kernel : Field.validation? _ "max" = some "80").symm.trans given)
  exact ⟨by decide +kernel, by decide +kernel⟩

/-- A valid schema need not be rendered: a superscript is a digit, but it spells no number. -/
theorem superscript_not_rendered :
    ¬ ∀ (document : Json.Members) (s : Schema), build document = .ok s → s.findings.isValid = true →
    ∀ e ∈ s.entities.values, ∃ text, (Render.Page.migration e).text s = .ok text := by
  intro claimed
  have checked : succeeds (build (withLength "²")) (fun s => s.findings.isValid &&
      s.entities.values.any fun e => !succeeds (Render.entityMigration e) fun _ =>
        true) = true := by
    decide +kernel
  obtain ⟨s, built, holds⟩ := succeeds_eq_true.1 checked
  simp only [Bool.and_eq_true, List.any_eq_true, Bool.not_eq_true'] at holds
  obtain ⟨valid, e, mem, stopped⟩ := holds
  obtain ⟨text, rendered⟩ := claimed _ s built valid e mem
  have rendered : Render.entityMigration e = .ok text := rendered
  rw [rendered] at stopped
  cases stopped

end Schema
end Scaffold
