import Mathlib.Data.Set.Card
import Vsfs.Common.ServerMap
import Vsfs.Lib.Transition

/-!
# Replicas of a joining server

`join_index_server` puts a server on the ring and answers with up to two servers that follow
it. They are found by their values: each next one is at the separator after the first separator
of the last one. A server that joins again has several separators, and may find itself.

## Main results

* `replicas_apart_iff` : in a run, the answers are always different other servers exactly when
  the separators after the first ones hold them.
* `replicas_of_nodup` : they are when no server joins twice.
-/

namespace Vsfs

open Std FiniteMap Transition RingMap

/-- `ConsistentHashMap::succ_by_value`, `none` where it reports an error. -/
class SuccByValue where
  succ : HashRing → NodeInfo → Option NodeInfo

/-- The value at the separator after the first one that holds the given value. -/
class LawfulSuccByValue [SuccByValue] : Prop where
  succ_next : ∀ {ring : HashRing} {v w : NodeInfo} {s t : Int},
    First ring v s → Next ring s t → ring[t]? = some w → SuccByValue.succ ring v = some w

namespace ServerMap

section Operations

variable [SuccByValue]

/-- The loop of `get_replica_servers`; a lookup that fails leaves `succ_node`. -/
def chase (ring : HashRing) : Nat → NodeInfo → NodeInfo → List NodeInfo
  | 0, _, _ => []
  | n + 1, curNode, succNode =>
    let succNode := (SuccByValue.succ ring curNode).getD succNode
    succNode :: chase ring n succNode succNode

def numNodes (servers : ServerMap) : Nat := servers.ring.size

/-- `num_nodes() - 1` wraps around on an empty ring. -/
def getReplicaServers (servers : ServerMap) (node : NodeInfo) (numReplicas : Nat) :
    List NodeInfo :=
  let others := if servers.numNodes = 0 then 2 ^ 64 - 1 else servers.numNodes - 1
  chase servers.ring (min numReplicas others) node { address := ⟨[], 0⟩ }

end Operations

end ServerMap

namespace Masterd.MasterController

open ServerMap

/-- A request to join, with what the ring answers. -/
structure IndexJoin where
  answers : RingAnswers
  node : NodeInfo

/-- The ring once the server has joined, and whether it has. -/
def IndexJoin.added (servers : ServerMap) (join : IndexJoin) : Status × ServerMap :=
  servers.add join.answers join.node

section Join

variable [SuccByValue]

def kNumReplicaServers : Nat := 2

/-- The status, the replicas, and the index servers afterwards. -/
def joinIndexServer (indexServerManager : ServerMap) (join : IndexJoin) :
    Status × List NodeAddress × ServerMap :=
  let (status, servers) := join.added indexServerManager
  if !status.ok then (status, [], servers)
  else
    let replicaServers := servers.getReplicaServers join.node kNumReplicaServers
    (status, replicaServers.map (·.address), servers)

def stepJoin (servers : ServerMap) (join : IndexJoin) : Cpp ServerMap :=
  .ok (joinIndexServer servers join).2.2

end Join

/-! ## What is asked of the answers -/

/-- The addresses on the ring but one. -/
def others (ring : HashRing) (address : NodeAddress) : Set NodeAddress :=
  {a | a ≠ address ∧ ∃ (sep : Int) (node : NodeInfo), ring[sep]? = some node ∧ node.address = a}

/-- A server that joins gets the addresses of different other servers, two if there are. -/
def Distinct [SuccByValue] (servers : ServerMap) (join : IndexJoin) : Prop :=
  ∀ status replicas servers', joinIndexServer servers join = (status, replicas, servers') →
    status.ok = true →
    replicas.length = min 2 (others servers'.ring join.node.address).ncard ∧ replicas.Nodup ∧
      join.node.address ∉ replicas

/-- A successful insertion adds one separator. -/
def Adds (servers : ServerMap) (join : IndexJoin) : Prop :=
  (join.added servers).1.ok = true → (join.added servers).2.numNodes = servers.numNodes + 1

/-- At the separator after the first one of `v` there is `w`. -/
def Follows (ring : HashRing) (v w : NodeInfo) : Prop :=
  ∃ s t, First ring v s ∧ Next ring s t ∧ ring[t]? = some w

/-- The node is alone on the ring, or the separator after its first one has another address;
and with three separators or more, the one after the first of that server has a third. -/
def Apart (ring : HashRing) (node : NodeInfo) : Prop :=
  ring.size = 1 ∨ ∃ w, Follows ring node w ∧ w.address ≠ node.address ∧
    (ring.size = 2 ∨ ∃ x, Follows ring w x ∧ x.address ≠ node.address ∧ x.address ≠ w.address)

/-- Once the server is on the ring, the separators after the first ones are those of others. -/
def Clear (servers : ServerMap) (join : IndexJoin) : Prop :=
  (join.added servers).1.ok = true → Apart (join.added servers).2.ring join.node

/-! ## One request -/

theorem insertAt_cases (servers : ServerMap) (io : Status) (pos : HashValueType)
    (node : NodeInfo) : (servers.insertAt io pos node).2 = servers ∨
      (servers.insertAt io pos node).2.ring = servers.ring.insert pos.toInt node := by
  rw [insertAt]
  cases ok : io.ok with
  | false => exact .inl rfl
  | true => exact .inr rfl

/-- A join leaves the ring or puts one separator on it. -/
theorem added_cases (servers : ServerMap) (join : IndexJoin) :
    (join.added servers).2 = servers ∨
      ∃ pos : Int, (join.added servers).2.ring = servers.ring.insert pos join.node := by
  unfold IndexJoin.added add
  split
  · exact (insertAt_cases ..).imp_right fun ring => ⟨_, ring⟩
  · split
    · exact .inl rfl
    · exact (insertAt_cases ..).imp_right fun ring => ⟨_, ring⟩

/-- A successful join is an insertion at a free position. -/
theorem added_ring {servers : ServerMap} {join : IndexJoin} (adds : Adds servers join)
    (ok : (join.added servers).1.ok = true) : ∃ pos : Int, pos ∉ servers.ring ∧
      (join.added servers).2.ring = servers.ring.insert pos join.node := by
  have more := adds ok
  rw [numNodes, numNodes] at more
  rcases added_cases servers join with same | ⟨pos, ring⟩
  · rw [same] at more
    omega
  · refine ⟨pos, fun used => ?_, ring⟩
    rw [ring, ExtTreeMap.size_insert, if_pos (ExtTreeMap.mem_iff_contains.mp used)] at more
    omega

section Ring

variable {ring : HashRing} {v w x : NodeInfo}

theorem Follows.unique (hw : Follows ring v w) (hx : Follows ring v x) : w = x := by
  obtain ⟨s, t, first, next, found⟩ := hw
  obtain ⟨s', t', first', next', found'⟩ := hx
  cases first.unique first'
  cases HashRing.next_unique next next'
  exact Option.some.inj (found.symm.trans found')

theorem follows_exists {s : Int} (here : ring[s]? = some v) : ∃ w, Follows ring v w := by
  obtain ⟨s, first⟩ := first_exists here
  have some : ring ≠ ∅ := by
    rintro rfl
    simp at here
  obtain ⟨t, next⟩ := next_exists some s
  obtain ⟨w, found⟩ := (mem_iff_exists _ _).mp next.mem
  exact ⟨w, s, t, first, next, found⟩

theorem Follows.onRing (h : Follows ring v w) : ∃ t : Int, ring[t]? = some w :=
  match h with | ⟨_, t, _, _, found⟩ => ⟨t, found⟩

/-- The replicas as the ring has them. -/
theorem getReplicaServers_eq [SuccByValue] [LawfulSuccByValue] {servers : ServerMap}
    (hw : Follows servers.ring v w) (hx : Follows servers.ring w x) :
    servers.getReplicaServers v kNumReplicaServers = [w, x].take (servers.ring.size - 1) := by
  have next {v w : NodeInfo} (h : Follows servers.ring v w) :
      SuccByValue.succ servers.ring v = some w := by
    obtain ⟨s, t, first, next, found⟩ := h
    exact LawfulSuccByValue.succ_next first next found
  have size : servers.ring.size ≠ 0 := by
    intro none
    obtain ⟨t, found⟩ := hw.onRing
    simp [ExtTreeMap.eq_empty_iff_size_eq_zero.mpr none] at found
  rw [getReplicaServers, numNodes, if_neg size, kNumReplicaServers]
  obtain one | two | more : servers.ring.size - 1 = 0 ∨ servers.ring.size - 1 = 1 ∨
      2 ≤ servers.ring.size - 1 := by omega
  · simp [one, chase]
  · simp [two, chase, next hw]
  · rw [Nat.min_eq_left more, List.take_of_length_le more]
    simp [chase, next hw, next hx]

theorem others_subset {node : NodeInfo} {pos : Int} (here : ring[pos]? = some node) :
    others ring node.address ⊆
      (fun s => ((ring[s]?).getD node).address) '' (separators ring \ {pos}) := by
  rintro a ⟨other, s, n, found, rfl⟩
  refine ⟨s, ⟨(mem_iff_exists _ _).mpr ⟨n, found⟩, ?_⟩, by simp [found]⟩
  rintro rfl
  cases here.symm.trans found
  exact other rfl

theorem finite_others {node : NodeInfo} {pos : Int} (here : ring[pos]? = some node) :
    (others ring node.address).Finite :=
  (((RingMap.finite_separators ring).subset Set.sdiff_subset).image _).subset (others_subset here)

/-- There are fewer other addresses than separators. -/
theorem ncard_others_le {node : NodeInfo} {pos : Int} (here : ring[pos]? = some node) :
    (others ring node.address).ncard ≤ ring.size - 1 := by
  have finite : (separators ring \ {pos}).Finite :=
    (RingMap.finite_separators ring).subset Set.sdiff_subset
  have inside : pos ∈ separators ring := (mem_iff_exists _ _).mpr ⟨node, here⟩
  calc (others ring node.address).ncard
      ≤ _ := Set.ncard_le_ncard (others_subset here) (finite.image _)
    _ ≤ (separators ring \ {pos}).ncard := Set.ncard_image_le finite
    _ = ring.size - 1 := by rw [Set.ncard_sdiff_singleton_of_mem inside, size_eq_ncard]

theorem Follows.mem_others (h : Follows ring v w) {a : NodeAddress} (other : w.address ≠ a) :
    w.address ∈ others ring a := by
  obtain ⟨t, found⟩ := h.onRing
  exact ⟨other, t, w, found, rfl⟩

/-- What is found are different other addresses, as many as there are up to two, exactly when
the separators after the first ones hold others. -/
theorem apart_iff {pos : Int} (here : ring[pos]? = some v) (hw : Follows ring v w)
    (hx : Follows ring w x) {replicas : List NodeAddress}
    (same : replicas = ([w, x].take (ring.size - 1)).map (·.address)) :
    (replicas.length = min 2 (others ring v.address).ncard ∧ replicas.Nodup ∧
      v.address ∉ replicas) ↔ Apart ring v := by
  have fewer := ncard_others_le here
  have finite := finite_others here
  have size : ring.size ≠ 0 := by
    intro none
    simp [ExtTreeMap.eq_empty_iff_size_eq_zero.mpr none] at here
  obtain one | two | more : ring.size = 1 ∨ ring.size = 2 ∨ 3 ≤ ring.size := by omega
  · refine iff_of_true ?_ (.inl one)
    have none : (others ring v.address).ncard = 0 := by omega
    simp [same, one, none]
  · have apart : Apart ring v ↔ w.address ≠ v.address := by
      refine ⟨?_, fun other => .inr ⟨w, hw, other, .inl two⟩⟩
      rintro (one | ⟨w', hw', other, -⟩)
      · omega
      · exact hw.unique hw' ▸ other
    have some (other : w.address ≠ v.address) : 0 < (others ring v.address).ncard :=
      (Set.ncard_pos finite).mpr ⟨_, hw.mem_others other⟩
    have found : replicas = [w.address] := by simp [same, two]
    simp only [apart, found, List.length_singleton, List.nodup_singleton, List.mem_singleton,
      true_and]
    constructor
    · exact fun ⟨_, other⟩ => Ne.symm other
    · intro other
      have := some other
      exact ⟨by omega, Ne.symm other⟩
  · have apart : Apart ring v ↔
        w.address ≠ v.address ∧ x.address ≠ v.address ∧ x.address ≠ w.address := by
      refine ⟨?_, fun ⟨other, others⟩ => .inr ⟨w, hw, other, .inr ⟨x, hx, others⟩⟩⟩
      rintro (one | ⟨w', hw', other, two | ⟨x', hx', others⟩⟩)
      · omega
      · omega
      · cases hw.unique hw'
        cases hx.unique hx'
        exact ⟨other, others⟩
    have found : replicas = [w.address, x.address] := by
      rw [same, List.take_of_length_le (by simp; omega)]
      rfl
    have enough (hw' : w.address ≠ v.address) (hx' : x.address ≠ v.address)
        (different : x.address ≠ w.address) : 2 ≤ (others ring v.address).ncard := by
      rw [← Set.ncard_pair (Ne.symm different)]
      refine Set.ncard_le_ncard ?_ finite
      rintro a (rfl | rfl)
      · exact hw.mem_others hw'
      · exact hx.mem_others hx'
    simp only [apart, found, List.length_cons, List.length_nil, List.nodup_cons, List.mem_cons,
      List.not_mem_nil, or_false, not_or]
    constructor
    · rintro ⟨-, ⟨different, -⟩, hw', hx'⟩
      exact ⟨Ne.symm hw', Ne.symm hx', Ne.symm different⟩
    · rintro ⟨hw', hx', different⟩
      have := enough hw' hx' different
      refine ⟨by omega, ⟨Ne.symm different, by simp⟩, Ne.symm hw', Ne.symm hx'⟩

end Ring

/-! ## Servers that join once -/

/-- No two separators hold the same address. -/
def Single (ring : HashRing) : Prop :=
  ∀ (s t : Int) (v w : NodeInfo), ring[s]? = some v → ring[t]? = some w →
    v.address = w.address → s = t

theorem Single.apart {ring : HashRing} {v : NodeInfo} {pos : Int} (h : Single ring)
    (here : ring[pos]? = some v) : Apart ring v := by
  obtain ⟨w, hw⟩ := follows_exists here
  obtain ⟨x, hx⟩ := follows_exists hw.onRing.choose_spec
  obtain ⟨s, t, first, next, found⟩ := hw
  obtain ⟨t', u, first', next', found'⟩ := hx
  have same : t' = t := h t' t w w first'.found found rfl
  subst same
  have size : ring.size ≠ 0 := by
    intro none
    simp [ExtTreeMap.eq_empty_iff_size_eq_zero.mpr none] at here
  by_cases one : ring.size = 1
  · exact .inl one
  have other : w.address ≠ v.address := by
    intro same
    have loop := h t' s w v found first.found same
    subst loop
    obtain ⟨r, hr, out⟩ := exists_not_mem (S := {t'}) (Set.finite_singleton t')
      (show ({t'} : Set Int).ncard < ring.size by rw [Set.ncard_singleton]; omega)
    exact out (HashRing.eq_of_next_self next hr)
  refine .inr ⟨w, ⟨s, t', first, next, found⟩, other, ?_⟩
  by_cases two : ring.size = 2
  · exact .inl two
  refine .inr ⟨x, ⟨t', u, first', next', found'⟩, ?_, ?_⟩
  · intro same
    have loop := h u s x v found' first.found same
    subst loop
    have fewer : ({u, t'} : Set Int).ncard < ring.size := by
      have := Set.ncard_insert_le u {t'}
      rw [Set.ncard_singleton] at this
      omega
    obtain ⟨r, hr, out⟩ := exists_not_mem (Set.toFinite {u, t'}) fewer
    exact out (HashRing.eq_or_eq_of_next_next next next' hr)
  · intro same
    have loop := h u t' x w found' found same
    subst loop
    obtain ⟨r, hr, out⟩ := exists_not_mem (S := {u}) (Set.finite_singleton u)
      (show ({u} : Set Int).ncard < ring.size by rw [Set.ncard_singleton]; omega)
    exact out (HashRing.eq_of_next_self next' hr)

theorem Single.insert {ring : HashRing} {node : NodeInfo} (h : Single ring) (pos : Int)
    (new : ∀ (s : Int) (v : NodeInfo), ring[s]? = some v → v.address ≠ node.address) :
    Single (ring.insert pos node) := by
  intro s t v w hv hw same
  rw [getElem?_insert] at hv hw
  split at hv <;> split at hw
  · omega
  · cases hv
    exact absurd same.symm (new t w hw)
  · cases hw
    exact absurd same (new s v hv)
  · exact h s t v w hv hw same

section Answers

variable [SuccByValue] [LawfulSuccByValue] {servers : ServerMap} {join : IndexJoin}

theorem distinct_iff (adds : Adds servers join) : Distinct servers join ↔ Clear servers join := by
  cases ok : (join.added servers).1.ok with
  | false =>
    refine iff_of_true ?_ (by simp [Clear, ok])
    intro status replicas servers' ran succeeded
    have refused : joinIndexServer servers join =
        ((join.added servers).1, [], (join.added servers).2) := by
      simp [joinIndexServer, ok]
    cases refused.symm.trans ran
    rw [ok] at succeeded
    cases succeeded
  | true =>
    obtain ⟨pos, -, ring⟩ := added_ring adds ok
    have here : (join.added servers).2.ring[pos]? = some join.node := by simp [ring]
    obtain ⟨w, hw⟩ := follows_exists here
    obtain ⟨x, hx⟩ := follows_exists hw.onRing.choose_spec
    have ran : joinIndexServer servers join = ((join.added servers).1,
        ([w, x].take ((join.added servers).2.ring.size - 1)).map (·.address),
        (join.added servers).2) := by
      rw [← getReplicaServers_eq hw hx]
      simp [joinIndexServer, ok]
    rw [Clear, forall_prop_of_true ok, ← apart_iff here hw hx rfl]
    constructor
    · exact fun distinct => distinct _ _ _ ran ok
    · intro distinct status replicas servers' ran' _
      cases ran.symm.trans ran'
      exact distinct

/-- In a run of joins on an empty ring, every answer has different other servers, as many as
there are up to two, exactly when at every join the separators after the first ones hold them. -/
theorem replicas_apart_iff (joins : List IndexJoin) (adds : Meets stepJoin Adds {} joins) :
    Meets stepJoin Distinct {} joins ↔ Meets stepJoin Clear {} joins :=
  Meets.iff_of_meets (fun _ _ => distinct_iff) adds

/-- When every server joins once, no answer has a server twice or the joining one. -/
theorem replicas_of_nodup {joins : List IndexJoin} {servers : ServerMap}
    (single : Single servers.ring)
    (apart : ∀ join ∈ joins, ∀ (s : Int) (v : NodeInfo), servers.ring[s]? = some v →
      v.address ≠ join.node.address)
    (once : (joins.map (·.node.address)).Nodup) (adds : Meets stepJoin Adds servers joins) :
    Meets stepJoin Distinct servers joins := by
  induction joins generalizing servers with
  | nil => trivial
  | cons join joins ih =>
    obtain ⟨now, later⟩ := adds
    obtain ⟨fresh, once⟩ := List.nodup_cons.mp once
    have new := apart join (by simp)
    refine ⟨(distinct_iff now).mpr fun ok => ?_, fun servers' ran => ?_⟩
    · obtain ⟨pos, -, ring⟩ := added_ring now ok
      have here : (join.added servers).2.ring[pos]? = some join.node := by simp [ring]
      exact Single.apart (ring ▸ single.insert pos new) here
    · have after : servers'.ring = (join.added servers).2.ring := by
        cases ran
        unfold joinIndexServer
        cases ok : (join.added servers).1.ok <;> simp [ok]
      rcases added_cases servers join with same | ⟨pos, ring⟩
      · rw [same] at after
        refine ih (after ▸ single) (fun other ho s v hv => ?_) once (later servers' ran)
        exact apart other (by simp [ho]) s v (after ▸ hv)
      · rw [ring] at after
        refine ih (after ▸ single.insert pos new) (fun other ho s v hv => ?_) once
          (later servers' ran)
        rw [after, getElem?_insert] at hv
        split at hv
        · cases hv
          exact fun same => fresh (List.mem_map.mpr ⟨other, ho, same.symm⟩)
        · exact apart other (by simp [ho]) s v hv

end Answers

/-! ## A search in the list of separators -/

namespace SortedSucc

@[reducible] def succByValue : SuccByValue := ⟨RingMap.follower⟩

theorem lawful : @LawfulSuccByValue succByValue :=
  @LawfulSuccByValue.mk succByValue fun first next found => follower_of_next first next found

theorem follows_iff {ring : HashRing} {v w : NodeInfo} :
    Follows ring v w ↔ RingMap.follower ring v = some w := by
  constructor
  · rintro ⟨s, t, first, next, found⟩
    exact follower_of_next first next found
  · intro found
    obtain ⟨s, here⟩ := exists_of_follower found
    obtain ⟨w', s, t, first, next, found'⟩ := follows_exists here
    cases found.symm.trans (follower_of_next first next found')
    exact ⟨s, t, first, next, found'⟩

instance decidableFollows (ring : HashRing) (v w : NodeInfo) : Decidable (Follows ring v w) :=
  decidable_of_iff _ follows_iff.symm

instance decidableApart (ring : HashRing) (v : NodeInfo) : Decidable (Apart ring v) :=
  decidable_of_iff (ring.size = 1 ∨ ∃ w ∈ RingMap.follower ring v, w.address ≠ v.address ∧
    (ring.size = 2 ∨ ∃ x ∈ RingMap.follower ring w, x.address ≠ v.address ∧ x.address ≠ w.address))
    (by simp only [Apart, follows_iff, Option.mem_def])

instance decidableAdds (servers : ServerMap) (join : IndexJoin) : Decidable (Adds servers join) :=
  inferInstanceAs (Decidable (_ → _))

instance decidableClear (servers : ServerMap) (join : IndexJoin) : Decidable (Clear servers join) :=
  inferInstanceAs (Decidable (_ → _))

end SortedSucc

section Example

attribute [local instance] SortedSucc.succByValue SortedSucc.lawful

def joinBetween (host : String) (range : HashValueType × HashValueType) : IndexJoin :=
  ⟨⟨0, .ok range, .OK⟩, { address := ⟨host.toList, 9876⟩ }⟩

/-- Three servers join, and the first one joins again before the end of the ring. -/
def rejoin : List IndexJoin :=
  [joinBetween "a" (0, 0), joinBetween "b" (0, 1000), joinBetween "c" (0, 500),
    joinBetween "a" (500, 1000)]

theorem rejoin_apart : Meets stepJoin Distinct {} rejoin :=
  (replicas_apart_iff rejoin (by decide +kernel)).mpr (by decide +kernel)

/-- A server that is alone on the ring and joins again is its own replica. -/
theorem own_replica : ¬ Meets stepJoin Distinct {}
    [joinBetween "a" (0, 0), joinBetween "a" (0, 1000)] := by
  rw [Meets.iff_of_meets (fun _ _ => distinct_iff) (by decide +kernel)]
  decide +kernel

end Example

end Masterd.MasterController

end Vsfs
