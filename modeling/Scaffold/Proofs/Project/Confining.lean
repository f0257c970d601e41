import Mathlib.Logic.Relation
import Scaffold.Proofs.Project.Effects

/-!
# Work within a project

Three operations change the disk of a project: one writes a file, one deletes a file, one makes
directories. `Project.Works` is any sequence of them. Each takes its path from the root of the
project and refuses one that leads out, so files elsewhere on the disk are left alone:
`Project.Works.confined`.
-/

namespace Scaffold
set_option autoImplicit false

namespace Project

/-- One operation that may change the disk, whether it succeeds or not. -/
inductive Step (p : Project) : Project → Prop where
  | wrote (path : String) (content : ByteArray) : Step p (p.write path content).2
  | deleted (path : String) (found : Bool) (after : Project)
      (done : p.delete path = .ok (found, after)) : Step p after
  | madeDirectory (path : String) : Step p (p.makeDirectory path).2

/-- Operations one after another. -/
abbrev Works : Project → Project → Prop := Relation.ReflTransGen Step

/-- A place is that of the root, or below it. -/
def Encloses (p : Project) (place : Place) : Prop := p.disk.target p.root <:+ place

/-- What stands outside of a project stays as it is, and no file comes there. Directories may, where
those above the root were missing. -/
structure Confined (before after : Project) : Prop where
  same : after = { before with disk := after.disk }
  here : after.disk.here = before.disk.here
  kept : ∀ place entry, ¬ before.Encloses place → before.disk.get? place = some entry →
    after.disk.get? place = some entry
  unadded : ∀ place content, ¬ before.Encloses place →
    after.disk.get? place = some (.file content) →
    before.disk.get? place = some (.file content)

variable {p before after : Project}

theorem Confined.refl (p : Project) : Confined p p := ⟨rfl, rfl, fun _ _ _ => id, fun _ _ _ => id⟩

theorem Confined.encloses_iff (h : Confined before after) {place : Place} :
    after.Encloses place ↔ before.Encloses place := by
  have root : after.root = before.root := by rw [h.same]
  rw [Encloses, Encloses, root, Disk.target, Disk.target, Disk.startOf, Disk.startOf, h.here]

theorem Confined.trans {a b c : Project} (first : Confined a b) (second : Confined b c) :
    Confined a c where
  same := by rw [second.same, first.same]
  here := second.here.trans first.here
  kept place entry outside held :=
    second.kept place entry (mt first.encloses_iff.1 outside) (first.kept place entry outside held)
  unadded place content outside held :=
    first.unadded place content outside
      (second.unadded place content (mt first.encloses_iff.1 outside) held)

/-- Where the disk is touched within a project only, what is outside stays. -/
theorem confined_of_touches {places : Place → Prop} {disk : Disk}
    (touched : Disk.Touches places p.disk disk)
    (within : ∀ place, places place → p.Encloses place) : Confined p { p with disk } where
  same := rfl
  here := touched.keeps.here
  kept place entry outside held := by
    cases entry with
    | directory =>
      exact Disk.isDirectory_iff.1 (touched.keeps.directories place (Disk.isDirectory_iff.2 held))
    | file content =>
      refine Disk.get?_of_content? ?_
      rw [touched.contents place (mt (within place) outside), Disk.content?_of_get? held]
  unadded place content outside held := by
    refine Disk.get?_of_content? ?_
    rw [← touched.contents place (mt (within place) outside), Disk.content?_of_get? held]

/-- A path that can be resolved leads to a place within the project. -/
theorem encloses_of_resolve {path : String} {resolved : Path} (h : p.resolve path = .ok resolved) :
    p.Encloses (p.disk.target resolved) := by
  rw [Encloses, target_of_resolve h]
  exact List.suffix_append ..

theorem confined_write (p : Project) (path : String) (content : ByteArray) :
    Confined p (p.write path content).2 := by
  unfold write
  split
  · exact .refl p
  · rename_i resolved ready
    have resolves : p.resolve path = .ok resolved := by
      obtain ⟨_, -, mapped⟩ := bind_eq_ok.1 ready
      cases resolving : p.resolve path with
      | error f => simp [resolving] at mapped
      | ok other => rw [resolving] at mapped; exact congrArg _ (Except.ok.inj mapped)
    have touched := p.disk.touches_write resolved content p.whole
    have within : ∀ place, place = p.disk.target resolved → p.Encloses place :=
      fun place here => here ▸ encloses_of_resolve resolves
    cases written : p.disk.write resolved content p.whole with
    | mk outcome disk =>
      rw [written] at touched
      cases outcome <;> exact confined_of_touches touched within

theorem confined_delete {path : String} {found : Bool} (h : p.delete path = .ok (found, after)) :
    Confined p after := by
  rcases p.delete_cases path with ⟨place, -, here, file, eq⟩ | eq | ⟨_, eq⟩ | ⟨-, -, eq⟩
  · obtain ⟨-, rfl⟩ := Prod.mk.inj (Except.ok.inj (h.symm.trans eq))
    obtain ⟨resolved, resolves, located⟩ := place?_eq_some.1 here
    refine confined_of_touches (Disk.touches_remove file) ?_
    rintro _ rfl
    rw [Disk.eq_target_of_locate located]
    exact encloses_of_resolve resolves
  · obtain ⟨-, rfl⟩ := Prod.mk.inj (Except.ok.inj (h.symm.trans eq))
    exact .refl _
  · cases h.symm.trans eq
  · cases h.symm.trans eq

theorem confined_makeDirectory (p : Project) (path : String) :
    Confined p (p.makeDirectory path).2 := by
  unfold makeDirectory
  split
  · exact .refl p
  · rename_i resolved _
    have touched := p.disk.touches_makeDirectories resolved
    cases made : p.disk.makeDirectories resolved with
    | mk outcome disk =>
      rw [made] at touched
      cases outcome <;> exact confined_of_touches touched fun _ => False.elim

theorem Step.confined (h : Step p after) : Confined p after := by
  cases h with
  | wrote path content => exact p.confined_write path content
  | deleted path found after done => exact confined_delete done
  | madeDirectory path => exact p.confined_makeDirectory path

/-- Whatever is done with a project leaves what is outside of it alone. -/
theorem Works.confined (h : Works before after) : Confined before after := by
  induction h with
  | refl => exact .refl before
  | tail _ step ih => exact ih.trans step.confined

theorem works_writeText (p : Project) (path text : String) : Works p (p.writeText path text).2 :=
  .single (.wrote path text.toUTF8)

theorem works_delete {path : String} {found : Bool} (h : p.delete path = .ok (found, after)) :
    Works p after :=
  .single (.deleted path found after h)

end Project
end Scaffold
