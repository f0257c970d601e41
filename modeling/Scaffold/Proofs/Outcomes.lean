import Mathlib.Data.List.Forall2

/-!
# Outcomes

When work that can fail succeeds: each of its steps did.
-/

namespace Scaffold
set_option autoImplicit false

variable {α β ε : Type}

/-- Whether work succeeds with a result of which something holds. -/
def succeeds (outcome : Except ε α) (holds : α → Bool) : Bool :=
  match outcome with
  | .ok a => holds a
  | .error _ => false

theorem succeeds_eq_true {outcome : Except ε α} {holds : α → Bool} :
    succeeds outcome holds = true ↔ ∃ a, outcome = .ok a ∧ holds a = true := by
  cases outcome <;> simp [succeeds]

@[simp]
theorem mapError_ok {δ : Type} (f : ε → δ) (a : α) :
    (Except.ok a : Except ε α).mapError f = .ok a := rfl

@[simp]
theorem mapError_error {δ : Type} (f : ε → δ) (e : ε) :
    (Except.error e : Except ε α).mapError f = .error (f e) := rfl

theorem mapM_eq_ok {f : α → Except ε β} {list : List α} {results : List β} :
    list.mapM f = .ok results ↔ List.Forall₂ (fun a b => f a = .ok b) list results := by
  induction list generalizing results with
  | nil => cases results <;> simp [pure, Except.pure]
  | cons a rest ih =>
    rw [List.mapM_cons]
    cases first : f a with
    | error e => cases results <;> simp [bind, Except.bind, first]
    | ok b =>
      cases others : rest.mapM f with
      | error e => cases results <;> simp [bind, Except.bind, first, ← ih, others]
      | ok bs => cases results <;> simp [bind, Except.bind, pure, Except.pure, first, ← ih, others]

/-- Work on two lists whose items give the same gives the same. -/
theorem toOption_mapM {γ : Type} {f : α → Except ε β} {g : γ → Except ε β} {list : List α}
    {other : List γ} (h : List.Forall₂ (fun a c => (f a).toOption = (g c).toOption) list other) :
    (list.mapM f).toOption = (other.mapM g).toOption := by
  refine Option.ext fun results => ?_
  have ok : ∀ {δ : Type} (outcome : Except ε δ) (d : δ), outcome.toOption = some d ↔
      outcome = .ok d := by
    intro δ outcome d
    cases outcome <;> simp [Except.toOption]
  rw [ok, ok, mapM_eq_ok, mapM_eq_ok]
  induction h generalizing results with
  | nil => cases results <;> simp
  | cons same _ ih =>
    cases results with
    | nil => simp
    | cons b bs =>
      rw [List.forall₂_cons, List.forall₂_cons]
      exact and_congr (by rw [← ok, ← ok, same]) (ih bs)

/-- Work on two lists whose items fail alike fails alike. -/
theorem mapM_eq_none {γ : Type} {f : α → Except ε β} {g : γ → Except ε β} {list : List α}
    {other : List γ} (h : List.Forall₂ (fun a c => (f a).toOption = none ↔
      (g c).toOption = none) list other) :
    (list.mapM f).toOption = none ↔ (other.mapM g).toOption = none := by
  have cons : ∀ {δ : Type} (work : δ → Except ε β) (first : δ)
      (rest : List δ), ((first :: rest).mapM work).toOption = none ↔
      (work first).toOption = none ∨ (rest.mapM work).toOption = none := by
    intro δ work first rest
    rw [List.mapM_cons]
    cases work first <;> cases rest.mapM work <;>
      simp [bind, Except.bind, pure, Except.pure, Except.toOption]
  induction h with
  | nil => exact Iff.rfl
  | cons same _ ih => exact (cons ..).trans ((or_congr same ih).trans (cons ..).symm)

/-- Each item on the right belongs to one on the left. -/
theorem exists_of_forall₂ {R : α → β → Prop} {list : List α} {results : List β}
    (h : List.Forall₂ R list results) {b : β} (mem : b ∈ results) : ∃ a ∈ list, R a b := by
  induction h with
  | nil => exact absurd mem List.not_mem_nil
  | @cons a _ rest _ related _ ih =>
    rcases List.mem_cons.1 mem with rfl | mem
    · exact ⟨a, List.mem_cons_self .., related⟩
    · obtain ⟨a, isIn, related⟩ := ih mem
      exact ⟨a, List.mem_cons_of_mem _ isIn, related⟩

theorem exists_of_mapM_ok {f : α → Except ε β} {list : List α} {results : List β}
    (h : list.mapM f = .ok results) {b : β} (mem : b ∈ results) : ∃ a ∈ list, f a = .ok b :=
  exists_of_forall₂ (mapM_eq_ok.1 h) mem

theorem exists_of_mem_mapM {f : α → Except ε β} {list : List α} {a : α} (mem : a ∈ list)
    {results : List β} (h : list.mapM f = .ok results) : ∃ b ∈ results, f a = .ok b :=
  exists_of_forall₂ (List.Forall₂.flip (R := fun b a => f a = .ok b) (mapM_eq_ok.1 h)) mem

theorem exists_of_mapM_error {f : α → Except ε β} {list : List α} {e : ε}
    (h : list.mapM f = .error e) : ∃ a ∈ list, f a = .error e := by
  induction list with
  | nil => cases h
  | cons a rest ih =>
    rw [List.mapM_cons] at h
    cases first : f a with
    | error e' =>
      obtain rfl : e' = e := by simpa [first, bind, Except.bind] using h
      exact ⟨a, List.mem_cons_self .., first⟩
    | ok x =>
      cases others : rest.mapM f with
      | error e' =>
        obtain rfl : e' = e := by simpa [first, others, bind, Except.bind] using h
        obtain ⟨a, isIn, eq⟩ := ih others
        exact ⟨a, List.mem_cons_of_mem _ isIn, eq⟩
      | ok xs => simp [first, others, bind, Except.bind, pure, Except.pure] at h

theorem map_eq_ok {f : α → β} {outcome : Except ε α} {b : β} :
    outcome.map f = .ok b ↔ ∃ a, outcome = .ok a ∧ f a = b := by
  cases outcome <;> simp [Except.map]

theorem map_eq_error {f : α → β} {outcome : Except ε α} {e : ε} :
    outcome.map f = .error e ↔ outcome = .error e := by
  cases outcome <;> simp [Except.map]

theorem bind_eq_ok {f : α → Except ε β} {outcome : Except ε α} {b : β} :
    (outcome >>= f) = .ok b ↔ ∃ a, outcome = .ok a ∧ f a = .ok b := by
  cases outcome <;> simp [bind, Except.bind]

end Scaffold
