import Mathlib.Logic.Function.Basic
import Vsfs.Lib.FiniteMap

/-!
# Maps divided among owners

The entries of a map belong to owners, each with at most one of them, and no entry to two. An
owner may take an entry that is free, change the value of its own, give it up or hand it on.
-/

namespace FiniteMap

open Std Function

variable {α β : Type*} [Ord α] [TransOrd α] [LawfulEqOrd α] [DecidableEq α]

theorem lookup_insert (m : ExtTreeMap α β) (k : α) (v : β) :
    (fun a => (m.insert k v)[a]?) = update (fun a => m[a]?) k (some v) := by
  funext a
  by_cases same : a = k
  · rw [same, update_self, getElem?_insert, if_pos rfl]
  · rw [update_of_ne same, getElem?_insert, if_neg (Ne.symm same)]

theorem lookup_erase (m : ExtTreeMap α β) (k : α) :
    (fun a => (m.erase k)[a]?) = update (fun a => m[a]?) k none := by
  funext a
  by_cases same : a = k
  · rw [same, update_self, getElem?_erase, if_pos rfl]
  · rw [update_of_ne same, getElem?_erase, if_neg (Ne.symm same)]

theorem getElem?_modify (m : ExtTreeMap α β) (k a : α) (f : β → β) :
    (m.modify k f)[a]? = if k = a then m[k]?.map f else m[a]? := by
  simp only [ExtTreeMap.getElem?_modify, Std.compare_eq_iff_eq]

end FiniteMap

variable {κ ν : Type*} {ω : Type*}

/-- `m` is made of the cells of the owners, at most one each, and no two owners share a key. -/
structure Divided (m : κ → Option ν) (cell : ω → Option (κ × ν)) : Prop where
  whole : ∀ {k v}, m k = some v → ∃ o, cell o = some (k, v)
  part : ∀ {o k v}, cell o = some (k, v) → m k = some v
  apart : ∀ {o o' k v v'}, cell o = some (k, v) → cell o' = some (k, v') → o = o'

namespace Divided

open Function

variable {m : κ → Option ν} {cell : ω → Option (κ × ν)} {o o' : ω} {k : κ} {v v' : ν}

theorem empty : Divided (fun _ => none : κ → Option ν) fun _ : ω => none where
  whole h := by cases h
  part h := by cases h
  apart h := by cases h

theorem not_cell_of_none (d : Divided m cell) (absent : m k = none) : cell o ≠ some (k, v) := by
  intro held
  rw [d.part held] at absent
  cases absent

/-- Whoever else holds a cell holds one of another key. -/
theorem ne_key (d : Divided m cell) (held : cell o = some (k, v)) {k' : κ} {w : ν}
    (other : cell o' = some (k', w)) (ne : o' ≠ o) : k' ≠ k := by
  rintro rfl
  exact ne (d.apart other held)

variable [DecidableEq κ] [DecidableEq ω]

/-- An owner without a cell takes a key that is free. -/
theorem take (d : Divided m cell) (free : m k = none) (empty : cell o = none) :
    Divided (update m k (some v)) (update cell o (some (k, v))) where
  whole {k' v'} h := by
    by_cases same : k' = k
    · subst same
      rw [update_self] at h
      exact ⟨o, by rw [update_self, Option.some.inj h]⟩
    · rw [update_of_ne same] at h
      obtain ⟨o', held⟩ := d.whole h
      have ne : o' ≠ o := by
        rintro rfl
        rw [empty] at held
        cases held
      exact ⟨o', by rw [update_of_ne ne, held]⟩
  part {o' k' v'} h := by
    by_cases same : o' = o
    · subst same
      rw [update_self] at h
      obtain ⟨rfl, rfl⟩ := Prod.mk.inj (Option.some.inj h)
      rw [update_self]
    · rw [update_of_ne same] at h
      have ne : k' ≠ k := by
        rintro rfl
        exact d.not_cell_of_none free h
      rw [update_of_ne ne, d.part h]
  apart {o₁ o₂ k' v₁ v₂} h₁ h₂ := by
    have mine {o' : ω} {w : ν} (ne : o' ≠ o) (h : cell o' = some (k, w)) : False :=
      d.not_cell_of_none free h
    by_cases same₁ : o₁ = o <;> by_cases same₂ : o₂ = o
    · rw [same₁, same₂]
    · subst same₁
      rw [update_self] at h₁
      obtain ⟨rfl, rfl⟩ := Prod.mk.inj (Option.some.inj h₁)
      rw [update_of_ne same₂] at h₂
      exact (mine same₂ h₂).elim
    · subst same₂
      rw [update_self] at h₂
      obtain ⟨rfl, rfl⟩ := Prod.mk.inj (Option.some.inj h₂)
      rw [update_of_ne same₁] at h₁
      exact (mine same₁ h₁).elim
    · rw [update_of_ne same₁] at h₁
      rw [update_of_ne same₂] at h₂
      exact d.apart h₁ h₂

/-- An owner gives its cell up. -/
theorem drop (d : Divided m cell) (held : cell o = some (k, v)) :
    Divided (update m k none) (update cell o none) where
  whole {k' v'} h := by
    by_cases same : k' = k
    · subst same
      rw [update_self] at h
      cases h
    · rw [update_of_ne same] at h
      obtain ⟨o', other⟩ := d.whole h
      have ne : o' ≠ o := by
        rintro rfl
        rw [held] at other
        exact same (Prod.mk.inj (Option.some.inj other)).1.symm
      exact ⟨o', by rw [update_of_ne ne, other]⟩
  part {o' k' v'} h := by
    by_cases same : o' = o
    · subst same
      rw [update_self] at h
      cases h
    · rw [update_of_ne same] at h
      rw [update_of_ne (d.ne_key held h same), d.part h]
  apart {o₁ o₂ k' v₁ v₂} h₁ h₂ := by
    have ne {o' : ω} {w : ν} (h : update cell o none o' = some (k', w)) :
        cell o' = some (k', w) := by
      by_cases same : o' = o
      · subst same
        rw [update_self] at h
        cases h
      · rwa [update_of_ne same] at h
    exact d.apart (ne h₁) (ne h₂)

/-- An owner puts another value into its cell. -/
theorem put (d : Divided m cell) (held : cell o = some (k, v)) :
    Divided (update m k (some v')) (update cell o (some (k, v'))) := by
  have again : Divided (update (update m k none) k (some v'))
      (update (update cell o none) o (some (k, v'))) :=
    (d.drop held).take (update_self k none m) (update_self o none cell)
  rwa [update_idem, update_idem] at again

/-- A cell changes hands. -/
theorem move (d : Divided m cell) (held : cell o = some (k, v)) (empty : cell o' = none) :
    Divided m (update (update cell o none) o' (some (k, v))) := by
  have ne : o' ≠ o := by
    rintro rfl
    rw [held] at empty
    cases empty
  have again : Divided (update (update m k none) k (some v))
      (update (update cell o none) o' (some (k, v))) :=
    (d.drop held).take (update_self k none m) (by rw [update_of_ne ne, empty])
  rwa [update_idem, ← d.part held, update_eq_self] at again

end Divided
