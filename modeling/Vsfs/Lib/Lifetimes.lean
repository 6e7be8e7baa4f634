import Mathlib.Data.Set.Insert
import Mathlib.Order.BooleanAlgebra.Set
import Mathlib.Logic.Function.Basic

/-!
# Things in a registry and a store

Things are known by identities that are given out once. To make one, a task has its identity
recorded in a registry and then puts the thing into a store; to remove one, it has the record
withdrawn and then erases the thing. The tasks take these steps in any order, and a task may give
up between two of its own. `Sound` is the invariant of the two places and of the tasks.

## Main results

* `Sound.issue`, `Sound.withdraw`, `Sound.make`, `Sound.erase` : each of the steps keeps it.
-/

namespace Lifetimes

open Function

variable {ι ε : Type*}

/-- The identities that were given out, those on record, and what is in the store. -/
structure Books (ι ε : Type*) where
  issued : Set ι
  recorded : Set ι
  stored : ι → Option ε

/-- What a task has come to. -/
inductive Stage (ι ε : Type*) where
  | idle
  | making (o : ι)
  | made (o : ι) (e : ε)
  | removing (o : ι)
  | gone (o : ι)

/-- The thing that the task makes or has made. -/
def Stage.makes : Stage ι ε → Option ι
  | .making o => some o
  | .made o _ => some o
  | _ => none

/-- What the books say of the thing that the task is about. What was made is in the store for as
long as it is on record. -/
def Fits (b : Books ι ε) : Stage ι ε → Prop
  | .idle => True
  | .making o => o ∈ b.issued ∧ b.stored o = none
  | .made o e => o ∈ b.issued ∧ (o ∈ b.recorded → b.stored o = some e)
  | .removing o => o ∈ b.issued ∧ o ∉ b.recorded
  | .gone o => o ∈ b.issued ∧ o ∉ b.recorded ∧ b.stored o = none

/-- What is in the store or is being made is on record, or a task has begun to remove it. -/
def Accounted (b : Books ι ε) (own : Nat → Stage ι ε) : Prop :=
  ∀ o, (b.stored o ≠ none ∨ ∃ i, own i = .making o) → o ∈ b.recorded ∨ ∃ i, own i = .removing o

/-- The two places and the tasks; with `strict` nothing is in the store that no one knows of. -/
structure Sound (strict : Prop) (b : Books ι ε) (own : Nat → Stage ι ε) : Prop where
  recorded : b.recorded ⊆ b.issued
  stored : ∀ o e, b.stored o = some e → o ∈ b.issued
  fits : ∀ i, Fits b (own i)
  alone : ∀ i j o, (own i).makes = some o → (own j).makes = some o → i = j
  ended : ∀ i j o, own i = .gone o → own j ≠ .making o
  accounted : strict → Accounted b own

variable {strict : Prop} {b b' : Books ι ε} {own : Nat → Stage ι ε} {i : Nat} {o : ι} {e : ε}
  {x : Stage ι ε}

/-- Before anything was made. -/
theorem Sound.start (recorded : b.recorded = ∅) (stored : ∀ o, b.stored o = none) :
    Sound strict b fun _ => .idle where
  recorded := by simp [recorded]
  stored o e found := by simp [stored] at found
  fits _ := trivial
  alone i j o mine := by cases mine
  ended i j o here := by cases here
  accounted _ o here := by simp [stored] at here

theorem Fits.issued (fits : Fits b x) (makes : x.makes = some o) : o ∈ b.issued := by
  cases x with
  | making o' =>
    cases makes
    exact fits.1
  | made o' e =>
    cases makes
    exact fits.1
  | _ => cases makes

/-- Identities may be given out, and records withdrawn. -/
theorem Fits.mono (fits : Fits b x) (issued : b.issued ⊆ b'.issued)
    (recorded : ∀ o ∈ b.issued, o ∈ b'.recorded → o ∈ b.recorded) (stored : b'.stored = b.stored) :
    Fits b' x := by
  cases x with
  | idle => trivial
  | making o => exact ⟨issued fits.1, by rw [stored, fits.2]⟩
  | made o e =>
    refine ⟨issued fits.1, fun here => ?_⟩
    rw [stored, fits.2 (recorded o fits.1 here)]
  | removing o => exact ⟨issued fits.1, fun here => fits.2 (recorded o fits.1 here)⟩
  | gone o =>
    obtain ⟨old, absent, erased⟩ := fits
    exact ⟨issued old, fun here => absent (recorded o old here), by rw [stored, erased]⟩

theorem accounted_update : Accounted b (update own i x) ↔
    ∀ o, (b.stored o ≠ none ∨ x = .making o ∨ ∃ j ≠ i, own j = .making o) →
      o ∈ b.recorded ∨ x = .removing o ∨ ∃ j ≠ i, own j = .removing o := by
  have split (y : Stage ι ε) : (∃ j, update own i x j = y) ↔ x = y ∨ ∃ j ≠ i, own j = y :=
    exists_update_iff own fun _ z => z = y
  simp only [Accounted, split]

/-- A task has come to `x`, which is about nothing that another task makes. -/
theorem Sound.move (sound : Sound strict b own) (recorded : b'.recorded ⊆ b'.issued)
    (stored : ∀ o e, b'.stored o = some e → o ∈ b'.issued) (mine : Fits b' x)
    (others : ∀ j ≠ i, Fits b' (own j))
    (makes : ∀ o, x.makes = some o → ∀ j ≠ i, (own j).makes ≠ some o)
    (gone : ∀ o, x = .gone o → ∀ j ≠ i, own j ≠ .making o)
    (making : ∀ o, x = .making o → ∀ j ≠ i, own j ≠ .gone o)
    (accounted : strict → Accounted b' (update own i x)) : Sound strict b' (update own i x) where
  recorded := recorded
  stored := stored
  fits := (forall_update_iff own fun _ => Fits b').mpr ⟨mine, others⟩
  accounted := accounted
  alone j k o first second := by
    by_cases here : j = i <;> by_cases there : k = i
    · rw [here, there]
    · rw [here, update_self] at first
      rw [update_of_ne there] at second
      exact absurd second (makes o first k there)
    · rw [update_of_ne here] at first
      rw [there, update_self] at second
      exact absurd first (makes o second j here)
    · rw [update_of_ne here] at first
      rw [update_of_ne there] at second
      exact sound.alone j k o first second
  ended j k o first second := by
    by_cases here : j = i <;> by_cases there : k = i
    · rw [here, update_self] at first
      rw [there, update_self, first] at second
      cases second
    · rw [here, update_self] at first
      rw [update_of_ne there] at second
      exact gone o first k there second
    · rw [update_of_ne here] at first
      rw [there, update_self] at second
      exact making o second j here first
    · rw [update_of_ne here] at first
      rw [update_of_ne there] at second
      exact sound.ended j k o first second

/-- The account, with one task set apart. -/
theorem Sound.accounts (sound : Sound strict b own) (mine : own i = x) (holds : strict) :
    ∀ o, (b.stored o ≠ none ∨ x = .making o ∨ ∃ j ≠ i, own j = .making o) →
      o ∈ b.recorded ∨ x = .removing o ∨ ∃ j ≠ i, own j = .removing o := by
  rw [← accounted_update, ← mine, update_eq_self]
  exact sound.accounted holds

/-! ## Giving out and recording -/

section Issue

variable (sound : Sound strict b own) (new : o ∉ b.issued) (more : b.issued ⊆ b'.issued)
  (now : o ∈ b'.issued) (recorded : b'.recorded = insert o b.recorded)
  (stored : b'.stored = b.stored)
include sound new more now recorded stored

/-- A new identity is given out and recorded, and nobody hears of it. -/
theorem Sound.issue_unheard : Sound strict b' own where
  recorded := by
    rw [recorded]
    exact Set.insert_subset now (sound.recorded.trans more)
  stored o' e found := more (sound.stored o' e (by rw [← stored, found]))
  fits j := by
    refine (sound.fits j).mono more (fun o' old here => ?_) stored
    rw [recorded] at here
    rcases here with rfl | here
    · exact absurd old new
    · exact here
  alone := sound.alone
  ended := sound.ended
  accounted holds o' here := by
    rw [stored] at here
    rw [recorded]
    exact (sound.accounted holds o' here).imp .inr id

/-- A new identity is given out to a task and recorded. -/
theorem Sound.issue (idle : own i = .idle) : Sound strict b' (update own i (.making o)) := by
  have kept := sound.issue_unheard new more now recorded stored
  have absent : b'.stored o = none := by
    cases found : b.stored o with
    | none => rw [stored, found]
    | some e => exact absurd (sound.stored o e found) new
  refine kept.move kept.recorded kept.stored ⟨now, absent⟩ (fun j _ => kept.fits j) ?_ nofun ?_ ?_
  · rintro _ ⟨⟩ j - makes
    exact new ((sound.fits j).issued makes)
  · rintro _ ⟨⟩ j - gone
    have fits := sound.fits j
    rw [gone] at fits
    exact new fits.1
  · intro holds
    rw [accounted_update]
    rintro o' (there | same | others)
    · exact (kept.accounts idle holds o' (.inl there)).imp id (.imp nofun id)
    · cases same
      exact .inl (by rw [recorded]; exact .inl rfl)
    · exact (kept.accounts idle holds o' (.inr (.inr others))).imp id (.imp nofun id)

end Issue

/-! ## Withdrawing -/

/-- A record is withdrawn, and nobody is left to erase the thing. -/
theorem Sound.withdraw_unheard (sound : Sound strict b own) (lax : ¬ strict)
    (issued : b'.issued = b.issued) (recorded : b'.recorded ⊆ b.recorded)
    (stored : b'.stored = b.stored) : Sound strict b' own where
  recorded := by
    rw [issued]
    exact recorded.trans sound.recorded
  stored o' e found := by
    rw [issued]
    exact sound.stored o' e (by rw [← stored, found])
  fits j := (sound.fits j).mono (by rw [issued]) (fun _ _ here => recorded here) stored
  alone := sound.alone
  ended := sound.ended
  accounted holds := absurd holds lax

/-- A record is withdrawn for a task. -/
theorem Sound.withdraw (sound : Sound strict b own) (idle : own i = .idle) (there : o ∈ b.recorded)
    (issued : b'.issued = b.issued) (recorded : b'.recorded = b.recorded \ {o})
    (stored : b'.stored = b.stored) : Sound strict b' (update own i (.removing o)) := by
  have fewer : b'.recorded ⊆ b.recorded := by
    rw [recorded]
    exact Set.sdiff_subset
  refine sound.move ?_ (fun o' e found => ?_) ⟨?_, by simp [recorded]⟩ (fun j _ => ?_) nofun nofun
    nofun fun holds => ?_
  · rw [issued]
    exact fewer.trans sound.recorded
  · rw [issued]
    exact sound.stored o' e (by rw [← stored, found])
  · rw [issued]
    exact sound.recorded there
  · exact (sound.fits j).mono (by rw [issued]) (fun _ _ here => fewer here) stored
  · rw [accounted_update]
    rintro o' here
    by_cases same : o' = o
    · exact .inr (.inl (by rw [same]))
    · have before : b.stored o' ≠ none ∨ (.idle : Stage ι ε) = .making o' ∨
          ∃ j ≠ i, own j = .making o' := by
        rw [stored] at here
        exact here.imp id (.imp nofun id)
      rcases sound.accounts idle holds o' before with known | ⟨⟨⟩⟩ | others
      · exact .inl (by rw [recorded]; exact ⟨known, same⟩)
      · exact .inr (.inr others)

/-! ## The store -/

/-- The store changes at a thing that the task has nothing to do with. -/
theorem Fits.elsewhere (fits : Fits b x) (issued : b'.issued = b.issued)
    (recorded : b'.recorded = b.recorded) [DecidableEq ι] {left : Option ε}
    (stored : b'.stored = update b.stored o left) (making : x ≠ .making o)
    (made : ∀ e, x = .made o e → o ∉ b.recorded) (gone : x = .gone o → left = none) :
    Fits b' x := by
  cases x with
  | idle => trivial
  | making o' =>
    have other : o' ≠ o := by
      rintro rfl
      exact making rfl
    exact ⟨by rw [issued]; exact fits.1, by rw [stored, update_of_ne other, fits.2]⟩
  | made o' e =>
    refine ⟨by rw [issued]; exact fits.1, fun here => ?_⟩
    rw [recorded] at here
    have other : o' ≠ o := by
      rintro rfl
      exact made e rfl here
    rw [stored, update_of_ne other, fits.2 here]
  | removing o' => exact ⟨by rw [issued]; exact fits.1, by rw [recorded]; exact fits.2⟩
  | gone o' =>
    refine ⟨by rw [issued]; exact fits.1, by rw [recorded]; exact fits.2.1, ?_⟩
    by_cases same : o' = o
    · rw [same, stored, update_self]
      exact gone (by rw [same])
    · rw [stored, update_of_ne same, fits.2.2]

/-- What a task makes is put into the store. -/
theorem Sound.make (sound : Sound strict b own) (mine : own i = .making o)
    (issued : b'.issued = b.issued) (recorded : b'.recorded = b.recorded)
    [DecidableEq ι] (stored : b'.stored = update b.stored o (some e)) :
    Sound strict b' (update own i (.made o e)) := by
  have fits := sound.fits i
  rw [mine] at fits
  have known : o ∈ b'.issued := by
    rw [issued]
    exact fits.1
  have alone {j : Nat} (ne : j ≠ i) : (own j).makes ≠ some o := fun makes =>
    ne (sound.alone j i o makes (by rw [mine]; rfl))
  have others (j : Nat) (ne : j ≠ i) : Fits b' (own j) := by
    refine (sound.fits j).elsewhere issued recorded stored ?_ ?_ ?_
    · intro making
      exact alone ne (by rw [making]; rfl)
    · intro e' made
      exact absurd (by rw [made]; rfl) (alone ne)
    · intro gone
      exact absurd mine (sound.ended j i o gone)
  refine sound.move ?_ (fun o' e' found => ?_) ⟨known, fun _ => ?_⟩ others ?_ nofun nofun
    fun holds => ?_
  · rw [recorded, issued]
    exact sound.recorded
  · by_cases same : o' = o
    · rw [same]
      exact known
    · rw [stored, update_of_ne same] at found
      rw [issued]
      exact sound.stored o' e' found
  · rw [stored, update_self]
  · rintro _ ⟨⟩ j ne
    exact alone ne
  · rw [accounted_update]
    intro o' here
    have before : b.stored o' ≠ none ∨ (.making o : Stage ι ε) = .making o' ∨
        ∃ j ≠ i, own j = .making o' := by
      by_cases same : o' = o
      · exact .inr (.inl (by rw [same]))
      · rw [stored, update_of_ne same] at here
        exact here.imp id (.imp nofun id)
    rw [recorded]
    exact (sound.accounts mine holds o' before).imp id (.imp nofun id)

/-- What a task removes is erased. -/
theorem Sound.erase (sound : Sound strict b own) (mine : own i = .removing o)
    (there : b.stored o ≠ none) (issued : b'.issued = b.issued)
    (recorded : b'.recorded = b.recorded) [DecidableEq ι]
    (stored : b'.stored = update b.stored o none) :
    Sound strict b' (update own i (.gone o)) := by
  have fits := sound.fits i
  rw [mine] at fits
  have notMade (j : Nat) : own j ≠ .making o := by
    intro making
    have fits := sound.fits j
    rw [making] at fits
    exact there fits.2
  have erased : b'.stored o = none := by rw [stored, update_self]
  have others (j : Nat) : Fits b' (own j) := by
    refine (sound.fits j).elsewhere issued recorded stored (notMade j) ?_ fun _ => rfl
    exact fun _ _ => fits.2
  refine sound.move ?_ (fun o' e' found => ?_) ⟨by rw [issued]; exact fits.1, ?_, erased⟩
    (fun j _ => others j) nofun ?_ nofun fun holds => ?_
  · rw [recorded, issued]
    exact sound.recorded
  · have other : o' ≠ o := by
      rintro rfl
      rw [erased] at found
      cases found
    rw [stored, update_of_ne other] at found
    rw [issued]
    exact sound.stored o' e' found
  · rw [recorded]
    exact fits.2
  · rintro _ ⟨⟩ j -
    exact notMade j
  · rw [accounted_update]
    intro o' here
    by_cases same : o' = o
    · rw [same] at here
      rcases here with there | ⟨⟨⟩⟩ | ⟨j, -, making⟩
      · exact absurd erased there
      · exact absurd making (notMade j)
    · have before : b.stored o' ≠ none ∨ (.removing o : Stage ι ε) = .making o' ∨
          ∃ j ≠ i, own j = .making o' := by
        rw [stored, update_of_ne same] at here
        exact here.imp id (.imp nofun id)
      rw [recorded]
      refine (sound.accounts mine holds o' before).imp id (.imp (fun here => ?_) id)
      cases here
      exact absurd rfl same

end Lifetimes
