import Scaffold.Proofs.Outcomes
import Scaffold.Reconciliation

/-!
# What a reconciliation is asked

Each request that is granted changes what the reconciliation knows in one way, and nothing else.
-/

namespace Scaffold
set_option autoImplicit false

namespace Reconciliation

variable {r after : Reconciliation} {p : Project} {s : Schema}

theorem load_eq_ok {m : Manifest} (h : r.load p = .ok (m, after)) :
    r.store.load p = .ok m ∧ after = { r with manifest? := some m, state := .loaded } := by
  simp only [Reconciliation.load, expect, bind, Except.bind] at h
  split at h
  · cases h
  · cases loaded : r.store.load p with
    | error e => simp [loaded] at h
    | ok found =>
      simp only [loaded] at h
      obtain ⟨rfl, rfl⟩ := Prod.mk.inj (Except.ok.inj h)
      exact ⟨rfl, rfl⟩

theorem diff_eq_ok {m : Manifest} (known : r.manifest? = some m) {plan : Plan}
    (h : r.diff s = .ok (plan, after)) : plan = Plan.of r.mode m s ∧
    after = { r with schema? := some s, plan? := some plan, state := .diffed } ∧
      (Json.object s.document).isPrintable = true := by
  simp only [diff, expect, manifest, known, Reconciliation.known, bind, Except.bind] at h
  split at h
  · cases h
  · split at h
    · cases h
    · rename_i printable
      obtain ⟨rfl, rfl⟩ := Prod.mk.inj (Except.ok.inj h)
      exact ⟨rfl, by rw [known], by simpa using printable⟩

theorem known_of_diff {plan : Plan} (h : r.diff s = .ok (plan, after)) :
    ∃ m, r.manifest? = some m := by
  cases known : r.manifest? with
  | some m => exact ⟨m, rfl⟩
  | none =>
    simp only [diff, expect, manifest, known, Reconciliation.known, refuse, bind, Except.bind] at h
    split at h
    · cases h
    · split at h <;> cases h

/-- Recording a file tracks it and changes nothing else. -/
theorem record_eq_ok {kind path : String} {metadata : Json.Members} {now : Moment}
    {record : FileRecord} (h : r.record p kind path metadata now = .ok (record, after)) :
    ∃ m tracked, r.manifest? = some m ∧
    m.trackFile p kind path metadata now = .ok (record, tracked) ∧
      after = { r with manifest? := some tracked } := by
  simp only [Reconciliation.record, expect, manifest, bind, Except.bind] at h
  split at h
  · cases h
  · cases known : r.manifest? with
    | none => simp [known, Reconciliation.known, refuse] at h
    | some m =>
      simp only [known, Reconciliation.known] at h
      cases made : m.trackFile p kind path metadata now with
      | error e => simp [made] at h
      | ok result =>
        simp only [made] at h
        obtain ⟨rfl, rfl⟩ := Prod.mk.inj (Except.ok.inj h)
        exact ⟨m, result.2, rfl, made, rfl⟩

/-- Forgetting a path removes its records and changes nothing else. -/
theorem forget_eq_ok {path : String} {count : Nat} (h : r.forget path = .ok (count, after)) :
    ∃ m, r.manifest? = some m ∧ after = { r with manifest? := some (m.remove path).2 } := by
  simp only [forget, expect, manifest, bind, Except.bind] at h
  split at h
  · cases h
  · cases known : r.manifest? with
    | none => simp [known, Reconciliation.known, refuse] at h
    | some m =>
      simp only [known, Reconciliation.known] at h
      obtain ⟨-, rfl⟩ := Prod.mk.inj (Except.ok.inj h)
      exact ⟨m, rfl, rfl⟩

end Reconciliation
end Scaffold
