import Vsfs.Client.Results
import Vsfs.Common.Md5

/-!
# Queries with several conditions

A query with conditions on several names asks for the files that satisfy all of them. The
client puts the answers of all partitions one after the other, whatever their name, so a
file that satisfies one condition is returned, and one that satisfies two is returned
twice.

## Main results

- `search_conjunction_iff`: the answer is the conjunction exactly when no partition has a
  record in range, and there is nothing to return.
-/

namespace Vsfs.Client

open Std Program Prog Masterd Indexd Index FiniteMap VSFSRpcClient

section Conjunction

variable {K : Type} [LinearOrder K] [KeyTypes K] [FsPath] [PathHash] [ConsistentHashMap]

variable (c : VSFSRpcClient) (query : ComplexQuery) (s : Servers K)

/-- The partition is one of a located index of the name. -/
def LocatedAs (name part : Str) : Prop :=
  ∃ (sep : Int) (node : NodeInfo) (root : Str), c.masterMap.ring[sep]? = some node ∧
    root ∈ (s.masters node.address).indexNamespace.collect query.root name ∧
    part = PathUtil.indexPath root name ++ "/0".toList

/-- The partition has a record of the object whose key is in range, once its log is applied. -/
def Found (part : Str) (o : ObjectId) : Prop :=
  ∃ node w k, (c.indexServerMap.getByPath part).2 = some node ∧
    (s.indexServers node.address).rangeIndexMap[part]? = some w ∧
    (k, o) ∈ (w.merge 0).2.index.pairs ∧ (w.merge 0).2.index.Matches (rangeFor query part) k

/-- The object satisfies the condition on a name, in one of its located indices. -/
def Satisfies (name : Str) (o : ObjectId) : Prop :=
  ∃ part, LocatedAs c query s name part ∧ Found c query s part o

omit [KeyTypes K] [PathHash] [ConsistentHashMap] [FsPath] in
/-- A master of the client has the object under the path. -/
def IsFile (o : ObjectId) (path : Str) : Prop :=
  ∃ (sep : Int) (node : NodeInfo), c.masterMap.ring[sep]? = some node ∧
    (s.masters node.address).namespace.idToPathMap[o]? = some path

/-- The search returns the paths of the files that satisfy every condition, each once. -/
def Conjunction (r : Except Exit (Status × List Str)) : Prop :=
  ∃ results : List Str, r = .ok (.OK, results) ∧ results.Nodup ∧ ∀ path, path ∈ results ↔
    ∃ o, IsFile c s o path ∧ ∀ name ∈ query.rangeQueryMap, Satisfies c query s name o

/-- Indices are on absolute normalised directories, and the names are those of a file. -/
structure Orderly : Prop where
  roots : ∀ {a : NodeAddress} {root : Str},
    root ∈ (s.masters a).indexNamespace.nodes → Normal root
  names : ∀ name ∈ query.rangeQueryMap, Plain name

variable {c query s}

theorem mem_answerOf {part : Str} (searched : Searched c s part) (o : ObjectId) :
    o ∈ answerOf c query s part ↔ Found c query s part o := by
  obtain ⟨-, node, w, home, found, merged⟩ := searched
  simp only [answerOf, home]
  rw [IndexManager.mem_answer (w := w) found merged]
  constructor
  · rintro ⟨k, record, inRange⟩
    exact ⟨node, w, k, home, found, record, inRange⟩
  · rintro ⟨node', w', k, home', found', record, inRange⟩
    cases home.symm.trans home'
    cases found.symm.trans found'
    exact ⟨k, record, inRange⟩

variable [LawfulFsPath]

omit [KeyTypes K] [PathHash] [ConsistentHashMap] in
theorem LocatedAs.nameOf_eq {name part : Str} (orderly : Orderly query s)
    (inQuery : name ∈ query.rangeQueryMap) (h : LocatedAs c query s name part) :
    nameOf part = name := by
  obtain ⟨sep, node, root, -, registered, rfl⟩ := h
  obtain ⟨entry, found, -, -⟩ := IndexNamespace.mem_collect.mp registered
  exact PathUtil.filename_partition (orderly.roots ((mem_iff_exists _ _).mpr ⟨entry, found⟩))
    (orderly.names name inQuery)

omit [KeyTypes K] [PathHash] [ConsistentHashMap] [LawfulFsPath] in
theorem mem_partitions {part : Str} : part ∈ partitions c query s ↔
    ∃ name ∈ query.rangeQueryMap, LocatedAs c query s name part := by
  simp only [partitions, List.mem_map, mem_located, LocatedAs]
  constructor
  · rintro ⟨_, ⟨sep, node, name, root, found, inQuery, registered, rfl⟩, rfl⟩
    exact ⟨name, inQuery, sep, node, root, found, registered, rfl⟩
  · rintro ⟨name, inQuery, sep, node, root, found, registered, rfl⟩
    exact ⟨_, ⟨sep, node, name, root, found, inQuery, registered, rfl⟩, rfl⟩

omit [KeyTypes K] [PathHash] [ConsistentHashMap] in
theorem ranged_of_orderly (orderly : Orderly query s) :
    ∀ part ∈ partitions c query s, nameOf part ∈ query.rangeQueryMap := by
  intro part hp
  obtain ⟨name, inQuery, here⟩ := mem_partitions.mp hp
  rwa [here.nameOf_eq orderly inQuery]

/-- An object that satisfies the conditions on two names is found in two partitions, and is
there twice. -/
theorem not_nodup_of_satisfies (orderly : Orderly query s) {n₁ n₂ : Str}
    (h₁ : n₁ ∈ query.rangeQueryMap) (h₂ : n₂ ∈ query.rangeQueryMap) (two : n₁ ≠ n₂)
    {members : List Str} (all : ∀ part, part ∈ members ↔ part ∈ partitions c query s)
    (searched : ∀ part ∈ members, Searched c s part) {o : ObjectId}
    (s₁ : Satisfies c query s n₁ o) (s₂ : Satisfies c query s n₂ o) :
    ¬ (members.flatMap (answerOf c query s)).Nodup := by
  obtain ⟨p₁, l₁, f₁⟩ := s₁
  obtain ⟨p₂, l₂, f₂⟩ := s₂
  have m₁ := (all p₁).mpr (mem_partitions.mpr ⟨n₁, h₁, l₁⟩)
  have m₂ := (all p₂).mpr (mem_partitions.mpr ⟨n₂, h₂, l₂⟩)
  have apart : p₁ ≠ p₂ := by
    rintro rfl
    exact two ((l₁.nameOf_eq orderly h₁).symm.trans (l₂.nameOf_eq orderly h₂))
  intro nodup
  have : Std.Symm (Function.onFun List.Disjoint (answerOf c query s)) := ⟨fun _ _ h => h.symm⟩
  have disjoint := (List.nodup_flatMap.mp nodup).2.forall m₁ m₂ apart
  exact disjoint ((mem_answerOf (searched p₁ m₁) o).mpr f₁)
    ((mem_answerOf (searched p₂ m₂) o).mpr f₂)

variable [ThriftSerialize FileMetadata] [ThriftSerialize IndexNamespaceNode]

/-- With conditions on two names or more, and when all RPCs succeed, a search returns the
conjunction exactly when it can reach the servers of all located partitions and none of
them has a record in range. -/
theorem search_conjunction_iff (orderly : Orderly query s) {n₁ n₂ : Str}
    (h₁ : n₁ ∈ query.rangeQueryMap) (h₂ : n₂ ∈ query.rangeQueryMap) (two : n₁ ≠ n₂) :
    Ends Succeeds (fun r _ => Conjunction c query s r ↔
      ∀ name ∈ query.rangeQueryMap, ∀ part, LocatedAs c query s name part →
        Named (c.indexServerMap.getByPath part) ∧ ∀ o, ¬ Found c query s part o)
      (c.search query) s := by
  refine (search_ends c query s (ranged_of_orderly orderly)).imp fun r _ outcome => ?_
  rcases outcome with ⟨⟨part, hp, unnamed⟩, exit, rfl⟩ | ⟨members, -, all, searched, ended⟩
  · obtain ⟨name, inQuery, here⟩ := mem_partitions.mp hp
    refine iff_of_false (fun ⟨_, wrong, _⟩ => by cases wrong) fun fine => ?_
    exact unnamed (fine name inQuery part here).1
  have located (part : Str) (hp : part ∈ members) :
      ∃ name ∈ query.rangeQueryMap, LocatedAs c query s name part :=
    mem_partitions.mp ((all part).mp hp)
  rcases ended with ⟨⟨exit, rfl⟩, o, ho, -⟩ | ⟨results, rfl, perm⟩
  · obtain ⟨part, hp, found⟩ := List.mem_flatMap.mp ho
    obtain ⟨name, inQuery, here⟩ := located part hp
    refine iff_of_false (fun ⟨_, wrong, _⟩ => by cases wrong) fun fine => ?_
    exact (fine name inQuery part here).2 o ((mem_answerOf (searched part hp) o).mp found)
  constructor
  · rintro ⟨_, same, nodup, exact⟩ name inQuery part here
    cases same
    have hp := (all part).mpr (mem_partitions.mpr ⟨name, inQuery, here⟩)
    refine ⟨(searched part hp).1, fun o found => ?_⟩
    -- What is returned for `o` belongs to a file that satisfies all conditions.
    have mem : o ∈ members.flatMap (answerOf c query s) :=
      List.mem_flatMap.mpr ⟨part, hp, (mem_answerOf (searched part hp) o).mpr found⟩
    obtain ⟨o', -, satisfies⟩ :=
      (exact (pathOf c s o)).mp (perm.mem_iff.mpr (List.mem_map_of_mem mem))
    exact not_nodup_of_satisfies orderly h₁ h₂ two all searched (satisfies n₁ h₁)
      (satisfies n₂ h₂) (.of_map _ (perm.nodup_iff.mp nodup))
  · intro fine
    have nothing : members.flatMap (answerOf c query s) = [] := by
      refine List.flatMap_eq_nil_iff.mpr fun part hp => ?_
      refine List.eq_nil_iff_forall_not_mem.mpr fun o ho => ?_
      obtain ⟨name, inQuery, here⟩ := located part hp
      exact (fine name inQuery part here).2 o ((mem_answerOf (searched part hp) o).mp ho)
    rw [nothing, List.map_nil, List.perm_nil] at perm
    subst perm
    refine ⟨[], rfl, List.nodup_nil, fun path => iff_of_false List.not_mem_nil ?_⟩
    rintro ⟨o, -, satisfies⟩
    obtain ⟨part, here, found⟩ := satisfies n₁ h₁
    exact (fine n₁ h₁ part here).2 o found

end Conjunction

section Example

attribute [local instance] SortedRing.consistentHashMap Posix.fsPath Md5.pathHash
  BinaryProtocol.fileMetadataThrift BinaryProtocol.indexNamespaceNode uint64Keys

/-- The index `a` on `/d` with a log, and the index `b` without records. -/
def twoIndices (log : List (LogRecord RecordUpdateList)) : Servers Int where
  masters _ :=
    { «namespace» := (({ nextObjId := 0 } : Namespace).withDirectory "/d".toList
        (Namespace.newDirectory 0o755 0 0 0)).withFile "/d/f".toList
        { Namespace.newDirectory 0o644 0 0 0 with objectId := 7 }
      indexNamespace := ⟨(∅ : ExtTreeMap Str IndexNamespaceNode).insert "/d".toList
        ⟨"/d".toList, ((∅ : ExtTreeSet Str).insert "a".toList).insert "b".toList⟩, ∅⟩ }
  indexServers _ :=
    { basedir := []
      indexInfoMap := ((∅ : ExtTreeMap Str IndexInfo).insert "/d/.vsfs/a/0".toList
        ⟨"/d/.vsfs/a/0".toList, "a".toList, IndexInfo.BTREE, 0⟩).insert "/d/.vsfs/b/0".toList
        ⟨"/d/.vsfs/b/0".toList, "b".toList, IndexInfo.BTREE, 0⟩
      rangeIndexMap := ((∅ : ExtTreeMap Str (RangeIndexWrapper Int)).insert "/d/.vsfs/a/0".toList
        { basePath := [], index := .empty 0, dirty := true, lastMergedLogId := 0,
          logManager := { log } }).insert "/d/.vsfs/b/0".toList
        { basePath := [], index := .empty 0, dirty := true, lastMergedLogId := 0 } }

/-- Keys from 1 to 9 in both indices. -/
def bothConditions : ComplexQuery where
  root := "/d".toList
  rangeQueryMap := ((∅ : ExtTreeMap Str StringRange).insert "a".toList
    ⟨"1".toList, true, "9".toList, true⟩).insert "b".toList ⟨"1".toList, true, "9".toList, true⟩

/-- The key 5 for the file, in the index `a`. -/
def fiveInA : List (LogRecord RecordUpdateList) :=
  [⟨0, ⟨"/d/.vsfs/a/0".toList, "a".toList, [⟨.insert, "5".toList, "7".toList⟩]⟩⟩]

/-- Serve an RPC that succeeds at time zero. -/
def succeeding (β : Type) (rpc : Rpc β) (s : Servers Int) :
    Option (Except RpcError β × Servers Int) :=
  match s.serve 0 0 rpc with
  | .ok (.ok a, s') => some (.ok a, s')
  | _ => none

theorem succeeding_sound (β : Type) (rpc : Rpc β) (s : Servers Int) (b : Except RpcError β)
    (s' : Servers Int) (h : succeeding β rpc s = some (b, s')) : Succeeds β rpc s b s' := by
  unfold succeeding at h
  split at h
  · cases h
    exact ⟨_, rfl, 0, 0, ‹_›⟩
  · cases h

/-- The index on `/d` is on a normalised directory, and the names have no slash. -/
theorem orderly_twoIndices (log : List (LogRecord RecordUpdateList)) :
    Orderly bothConditions (twoIndices log) where
  roots {_ root} h := by
    have here : root = "/d".toList := by
      rcases ExtTreeMap.mem_insert.mp h with same | wrong
      · exact (compare_eq_iff_eq.mp same).symm
      · simp at wrong
    rw [here]
    exact .top (by decide)
  names name h := by
    rcases ExtTreeMap.mem_insert.mp h with same | h
    · exact compare_eq_iff_eq.mp same ▸ (by decide : Plain "b".toList)
    · rcases ExtTreeMap.mem_insert.mp h with same | wrong
      · exact compare_eq_iff_eq.mp same ▸ (by decide : Plain "a".toList)
      · simp at wrong

/-- The partitions of the two indices. -/
theorem locatedAs_twoIndices {log : List (LogRecord RecordUpdateList)} {name part : Str}
    (h : LocatedAs oneServer bothConditions (twoIndices log) name part) :
    part = PathUtil.indexPath "/d".toList name ++ "/0".toList := by
  obtain ⟨sep, node, root, -, registered, rfl⟩ := h
  obtain ⟨entry, found, -, -⟩ := IndexNamespace.mem_collect.mp registered
  rcases ExtTreeMap.mem_insert.mp ((mem_iff_exists _ _).mpr ⟨entry, found⟩) with same | wrong
  · rw [← compare_eq_iff_eq.mp same]
  · simp at wrong

/-- Nothing is found in a partition without log records. -/
theorem not_found_twoIndices {log : List (LogRecord RecordUpdateList)} {part : Str} {o : ObjectId}
    (h : part = "/d/.vsfs/b/0".toList ∨ part = "/d/.vsfs/a/0".toList ∧ log = []) :
    ¬ Found oneServer bothConditions (twoIndices log) part o := by
  rintro ⟨node, w, k, -, found, record, -⟩
  have empty : w.logManager.log = [] ∧ w.index = .empty 0 := by
    rcases h with rfl | ⟨rfl, rfl⟩
    · simp only [twoIndices, ExtTreeMap.getElem?_insert_self, Option.some.injEq] at found
      subst found
      exact ⟨rfl, rfl⟩
    · simp only [twoIndices, getElem?_insert, String.toList_inj, String.reduceEq, if_false, if_true,
        Option.some.injEq] at found
      subst found
      exact ⟨rfl, rfl⟩
  rw [RangeIndexWrapper.index_merge_of_nil empty.1, empty.2] at record
  simp at record

/-- The file has a key in range in the index `a` and none in the index `b`, and is returned. -/
theorem search_returns_one_condition :
    ¬ ∀ (c : VSFSRpcClient) (query : ComplexQuery) (s s' : Servers Int)
      (r : Except Exit (Status × List Str)) (n₁ n₂ : Str), n₁ ∈ query.rangeQueryMap →
      n₂ ∈ query.rangeQueryMap → n₁ ≠ n₂ → Evals Succeeds (c.search query) s r s' →
      Conjunction c query s r := by
  intro always
  have run : (eval succeeding 20 (oneServer.search bothConditions) (twoIndices fiveInA)).map (·.1) =
      some (.ok (.OK, ["/d/f".toList])) := by decide +kernel
  obtain ⟨⟨r, s'⟩, ran, rfl⟩ := Option.map_eq_some_iff.mp run
  obtain ⟨_, same, -, exact⟩ := always oneServer bothConditions (twoIndices fiveInA) s' _
    "a".toList "b".toList (by decide) (by decide) (by decide) (eval_sound succeeding_sound ran)
  cases same
  obtain ⟨o, -, satisfies⟩ := (exact "/d/f".toList).mp (by decide)
  obtain ⟨part, here, found⟩ := satisfies "b".toList (by decide)
  exact not_found_twoIndices (.inl ((locatedAs_twoIndices here).trans (by decide))) found

/-- Without records, the search returns nothing, and no file satisfies both conditions. -/
theorem search_empty_indices : ∃ s',
    Evals Succeeds (oneServer.search bothConditions) (twoIndices []) (.ok (.OK, [])) s' ∧
      Conjunction oneServer bothConditions (twoIndices []) (.ok (.OK, [])) := by
  have run : (eval succeeding 20 (oneServer.search bothConditions) (twoIndices [])).map (·.1) =
      some (.ok (.OK, [])) := by decide +kernel
  obtain ⟨⟨r, s'⟩, ran, rfl⟩ := Option.map_eq_some_iff.mp run
  have evals := eval_sound succeeding_sound ran
  have inA : "a".toList ∈ bothConditions.rangeQueryMap := by decide
  have inB : "b".toList ∈ bothConditions.rangeQueryMap := by decide
  refine ⟨s', evals,
    ((search_conjunction_iff (orderly_twoIndices []) inA inB (by decide)).sound evals).mpr ?_⟩
  intro name inQuery part here
  have cases : part = "/d/.vsfs/b/0".toList ∨ part = "/d/.vsfs/a/0".toList := by
    rw [locatedAs_twoIndices here]
    rcases ExtTreeMap.mem_insert.mp inQuery with same | inQuery
    · exact .inl (compare_eq_iff_eq.mp same ▸ (by decide))
    · rcases ExtTreeMap.mem_insert.mp inQuery with same | wrong
      · exact .inr (compare_eq_iff_eq.mp same ▸ (by decide))
      · simp at wrong
  refine ⟨?_, fun o => not_found_twoIndices (cases.imp_right fun h => ⟨h, rfl⟩)⟩
  rcases cases with rfl | rfl <;>
    exact ⟨{ address := ⟨"i".toList, 2⟩ }, by decide +kernel, by decide⟩

end Example

end Vsfs.Client
