import Mathlib.Data.List.Induction
import Mathlib.Data.List.Perm.Basic
import Mathlib.Data.Set.Insert

/-!
# Replaying point writes on a set

A write puts one element into a set or takes it out. Replaying a list of writes
is last-writer-wins for every element it touches, so a list absorbs its own
earlier replays: replaying a prefix first, or a suffix again, changes nothing.

## Main results

* `Replay.mem_replay` : the last writer wins.
* `Replay.replay_perm_of_alike`, `Replay.exists_order_of_not_alike` : blocks of writes may
  come in any order exactly when they leave every element alike.
* `Replay.replay_congr` : only untouched elements of the start matter.
* `Replay.replay_replay_of_prefix`, `Replay.replay_suffix_replay` : absorption.
-/

namespace Replay

variable {α : Type*}

/-- Put `elem` into the set when `present`, take it out otherwise. -/
structure Write (α : Type*) where
  elem : α
  present : Bool
  deriving DecidableEq

def Write.apply (w : Write α) (s : Set α) : Set α :=
  if w.present then insert w.elem s else s \ {w.elem}

def replay (ws : List (Write α)) (s : Set α) : Set α := ws.foldl (fun s w => w.apply s) s

/-- The elements that some write of the list decides. -/
def touched (ws : List (Write α)) : Set α := {a | ∃ w ∈ ws, w.elem = a}

@[simp] theorem replay_nil (s : Set α) : replay [] s = s := rfl

@[simp] theorem replay_cons (w : Write α) (ws : List (Write α)) (s : Set α) :
    replay (w :: ws) s = replay ws (w.apply s) := rfl

theorem replay_append (us vs : List (Write α)) (s : Set α) :
    replay (us ++ vs) s = replay vs (replay us s) := by
  simp [replay, List.foldl_append]

theorem mem_apply_self (w : Write α) (s : Set α) : w.elem ∈ w.apply s ↔ w.present = true := by
  unfold Write.apply
  split <;> simp_all

theorem mem_apply_of_ne {w : Write α} {a : α} (h : w.elem ≠ a) (s : Set α) :
    a ∈ w.apply s ↔ a ∈ s := by
  unfold Write.apply
  split <;> simp [Ne.symm h]

theorem mem_replay_of_not_touched {ws : List (Write α)} {a : α} (h : a ∉ touched ws) (s : Set α) :
    a ∈ replay ws s ↔ a ∈ s := by
  induction ws generalizing s with
  | nil => rfl
  | cons w ws ih =>
    have hw : w.elem ≠ a := fun e => h ⟨w, by simp, e⟩
    have hs : a ∉ touched ws := fun ⟨v, hv, e⟩ => h ⟨v, by simp [hv], e⟩
    rw [replay_cons, ih hs, mem_apply_of_ne hw]

/-- What is in the set at the end was there or was put into it. -/
theorem mem_or_written_of_mem_replay {ws : List (Write α)} {s : Set α} {a : α}
    (h : a ∈ replay ws s) : a ∈ s ∨ ⟨a, true⟩ ∈ ws := by
  induction ws generalizing s with
  | nil => exact .inl h
  | cons w ws ih =>
    rcases ih h with now | later
    · by_cases e : w.elem = a
      · subst e
        have put := (mem_apply_self w s).mp now
        exact .inr (by simp [← put])
      · exact .inl ((mem_apply_of_ne e s).mp now)
    · exact .inr (by simp [later])

/-! ## The last write -/

section Last

variable [DecidableEq α]

/-- What the last write to an element does, if there is one. -/
def last (ws : List (Write α)) (a : α) : Option Bool :=
  (ws.reverse.find? (fun w => decide (w.elem = a))).map (·.present)

@[simp] theorem last_nil (a : α) : last [] a = none := rfl

theorem last_append (us vs : List (Write α)) (a : α) :
    last (us ++ vs) a = (last vs a).or (last us a) := by
  simp only [last, List.reverse_append, List.find?_append]
  cases vs.reverse.find? (fun w => decide (w.elem = a)) <;> rfl

theorem last_eq_none_iff {ws : List (Write α)} {a : α} :
    last ws a = none ↔ a ∉ touched ws := by
  simp [last, touched]

/-- The last writer wins. -/
theorem mem_replay (ws : List (Write α)) (s : Set α) (a : α) :
    a ∈ replay ws s ↔ (last ws a).elim (a ∈ s) (· = true) := by
  induction ws using List.reverseRecOn with
  | nil => rfl
  | append_singleton ws w ih =>
    rw [replay_append, last_append, replay_cons, replay_nil]
    by_cases e : w.elem = a
    · subst e
      simp [mem_apply_self, last]
    · rw [mem_apply_of_ne e, ih]
      simp [last, e]

/-- Writes `us` are replayed on a set that has some of the writes `us ++ vs`. That amounts
to a replay of `us ++ vs` from the beginning exactly when `vs` has no more to say. -/
theorem replay_eq_replay_append_iff {us vs old : List (Write α)} {s base : Set α}
    (start : s = replay old base) (part : touched old ⊆ touched (us ++ vs)) :
    replay us s = replay (us ++ vs) base ↔ ∀ a present, last vs a = some present →
      ((last us a).elim (a ∈ s) (· = true) ↔ present = true) := by
  simp only [Set.ext_iff, mem_replay us, mem_replay (us ++ vs), last_append]
  refine forall_congr' fun a => ?_
  cases hv : last vs a with
  | some v => simp
  | none =>
    cases hu : last us a with
    | some u => simp
    | none =>
      have untouched : a ∉ touched old := fun h => by
        have none : last (us ++ vs) a = none := by rw [last_append, hv, hu, Option.or_none]
        exact last_eq_none_iff.mp none (part h)
      simp [start, mem_replay_of_not_touched untouched]

/-! ## Blocks of writes in any order -/

/-- The blocks that write an element leave it alike. -/
def Alike (blocks : List (List (Write α))) : Prop :=
  ∀ b ∈ blocks, ∀ b' ∈ blocks, ∀ a v v', last b a = some v → last b' a = some v' → v = v'

/-- What a block writes, the blocks together write. -/
theorem exists_last_flatten {blocks : List (List (Write α))} {b : List (Write α)}
    (inside : b ∈ blocks) {a : α} {v : Bool} (h : last b a = some v) :
    ∃ v', last blocks.flatten a = some v' := by
  have written : last b a ≠ none := by simp [h]
  rw [ne_eq, last_eq_none_iff, not_not] at written
  obtain ⟨w, hw, same⟩ := written
  refine Option.ne_none_iff_exists'.mp fun none => last_eq_none_iff.mp none ?_
  exact ⟨w, List.mem_flatten.mpr ⟨b, inside, hw⟩, same⟩

/-- The last block that writes an element decides. -/
theorem last_flatten_cases (blocks : List (List (Write α))) (a : α) :
    last blocks.flatten a = none ∨ ∃ b ∈ blocks, last b a = last blocks.flatten a := by
  induction blocks with
  | nil => exact .inl rfl
  | cons c bs ih =>
    rw [List.flatten_cons, last_append]
    cases later : last bs.flatten a with
    | some v' =>
      obtain ⟨b', inside', same⟩ := ih.resolve_left (by simp [later])
      exact .inr ⟨b', by simp [inside'], by simpa [later] using same⟩
    | none => exact .inr ⟨c, by simp, by simp⟩

theorem last_flatten_of_alike {blocks : List (List (Write α))} (alike : Alike blocks)
    {b : List (Write α)} (inside : b ∈ blocks) {a : α} {v : Bool} (h : last b a = some v) :
    last blocks.flatten a = some v := by
  obtain ⟨v', found⟩ := exists_last_flatten inside h
  obtain ⟨b', inside', same⟩ := (last_flatten_cases blocks a).resolve_left (by simp [found])
  rw [found] at same ⊢
  rw [alike b inside b' inside' a v v' h same]

/-- An element that no block takes out stays, and one that a block puts in is there. -/
theorem mem_replay_of_spared {blocks : List (List (Write α))} {a : α} {s : Set α}
    (spared : ∀ b ∈ blocks, last b a ≠ some false)
    (inside : a ∈ s ∨ ∃ b ∈ blocks, last b a ≠ none) : a ∈ replay blocks.flatten s := by
  rw [mem_replay]
  cases decided : last blocks.flatten a with
  | none =>
    rcases inside with old | ⟨b, hb, written⟩
    · exact old
    · obtain ⟨v, found⟩ := Option.ne_none_iff_exists'.mp written
      obtain ⟨v', found'⟩ := exists_last_flatten hb found
      rw [decided] at found'
      cases found'
  | some present =>
    obtain ⟨b, hb, same⟩ := (last_flatten_cases blocks a).resolve_left (by simp [decided])
    have kept := spared b hb
    rw [same, decided] at kept
    cases present with
    | true => rfl
    | false => exact absurd rfl kept

/-- Blocks that leave every element alike may come in any order. -/
theorem replay_perm_of_alike {blocks blocks' : List (List (Write α))} (alike : Alike blocks)
    (perm : blocks'.Perm blocks) (s : Set α) :
    replay blocks'.flatten s = replay blocks.flatten s := by
  have alike' : Alike blocks' := fun b hb b' hb' =>
    alike b (perm.subset hb) b' (perm.subset hb')
  ext a
  rw [mem_replay, mem_replay]
  by_cases touched : ∃ b ∈ blocks, ∃ v, last b a = some v
  · obtain ⟨b, inside, v, h⟩ := touched
    rw [last_flatten_of_alike alike inside h,
      last_flatten_of_alike alike' (perm.symm.subset inside) h]
  · have untouched {bs : List (List (Write α))} (sub : bs ⊆ blocks) : last bs.flatten a = none := by
      rw [last_eq_none_iff]
      rintro ⟨w, hw, same⟩
      obtain ⟨b, hb, hwb⟩ := List.mem_flatten.mp hw
      refine touched ⟨b, sub hb, Option.ne_none_iff_exists'.mp fun none => ?_⟩
      exact last_eq_none_iff.mp none ⟨w, hwb, same⟩
    rw [untouched perm.subset, untouched fun _ h => h]

/-- Of blocks that do not leave all elements alike, one changes the outcome when it comes last. -/
theorem exists_order_of_not_alike {blocks : List (List (Write α))} (h : ¬ Alike blocks)
    (s : Set α) : ∃ order : List Nat, order.Perm (List.range blocks.length) ∧
      replay (order.flatMap fun i => blocks.getD i []) s ≠ replay blocks.flatten s := by
  simp only [Alike, not_forall] at h
  obtain ⟨b, inside, b', inside', a, v, v', hv, hv', differ⟩ := h
  -- A block that leaves `a` other than the whole list does.
  obtain ⟨c, mine, u, hu, other⟩ : ∃ c ∈ blocks, ∃ u, last c a = some u ∧
      last blocks.flatten a ≠ some u := by
    by_cases same : last blocks.flatten a = some v
    · exact ⟨b', inside', v', hv', fun same' => differ (by simpa [same] using same')⟩
    · exact ⟨b, inside, v, hv, same⟩
  obtain ⟨i, here⟩ := List.getElem?_of_mem mine
  have within : i ∈ List.range blocks.length :=
    List.mem_range.mpr (List.getElem?_eq_some_iff.mp here).1
  refine ⟨(List.range blocks.length).erase i ++ [i], ?_, fun equal => ?_⟩
  · exact (List.perm_append_comm).trans (List.perm_cons_erase within).symm
  · have at_a := Set.ext_iff.mp equal a
    have moved : blocks.getD i [] = c := by
      rw [List.getD_eq_getElem?_getD, here, Option.getD_some]
    rw [mem_replay, mem_replay, List.flatMap_append, List.flatMap_singleton, moved, last_append,
      hu] at at_a
    obtain ⟨u', whole⟩ := exists_last_flatten mine hu
    rw [whole] at other at_a
    cases u <;> cases u' <;> simp at other at_a

end Last

/-- A replay overwrites every touched element, so two starts that agree elsewhere
give the same end. -/
theorem replay_congr {ws : List (Write α)} {s t : Set α}
    (h : ∀ a, a ∉ touched ws → (a ∈ s ↔ a ∈ t)) : replay ws s = replay ws t := by
  induction ws generalizing s t with
  | nil => exact Set.ext fun a => h a (by simp [touched])
  | cons w ws ih =>
    refine ih fun a ha => ?_
    by_cases e : w.elem = a
    · subst e
      rw [mem_apply_self, mem_apply_self]
    · rw [mem_apply_of_ne e, mem_apply_of_ne e]
      refine h a fun ⟨v, hv, hva⟩ => ?_
      rcases List.mem_cons.mp hv with rfl | hv
      · exact e hva
      · exact ha ⟨v, hv, hva⟩

/-- Writes that are going to be replayed anyway may be replayed once before. -/
theorem replay_replay_of_prefix {us ws : List (Write α)} (h : us <+: ws) (s : Set α) :
    replay ws (replay us s) = replay ws s := by
  refine replay_congr fun a ha => mem_replay_of_not_touched (fun ⟨v, hv, e⟩ => ha ?_) s
  exact ⟨v, h.subset hv, e⟩

theorem replay_idem (ws : List (Write α)) (s : Set α) : replay ws (replay ws s) = replay ws s :=
  replay_replay_of_prefix List.prefix_rfl s

/-- The tail of a replay is already in effect when the replay ends. -/
theorem replay_suffix_replay (us vs : List (Write α)) (s : Set α) :
    replay vs (replay (us ++ vs) s) = replay (us ++ vs) s := by
  rw [replay_append, replay_idem]

end Replay
