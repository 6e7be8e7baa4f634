import Vsfs.Client.Interleaving
import Vsfs.Client.Work

/-!
# Searches and live files

A search returns the paths that masters have for the object ids of index records. A record
is written with whatever id `find_objects` has returned, which is zero for a path that does
not exist, and stays when its file is unlinked; `find_files` returns an empty path for an id
that it does not know.

So what a search returns are files that exist as long as no step leaves a record without its
file. `Protects` names the two steps that do: an insertion of an id that leads to no file,
and the removal of a file that an index or a search still refers to.

## Main results

* `searches_show_live_files` : for all runs whose steps protect the files.
-/

namespace Vsfs.Client

open Std Program Prog Masterd Indexd Index FiniteMap VSFSRpcClient

/-- A number of clients at work. -/
abbrev WorkPool (K : Type) [LinearOrder K] := Pool Rpc RpcError Exit (List Str) Work (Servers K)

section Liveness

variable {K : Type} [LinearOrder K] [PathHash] [ConsistentHashMap] (c : VSFSRpcClient)

/-! ## Files -/

/-- The master of the path has a file there. -/
def FileExists (s : Servers K) (path : Str) : Prop :=
  ∃ a, LeadsTo c (PathHash.pathToHash path) a ∧ path ∈ (s.masters a).namespace.metadataMap ∧
    path ∉ (s.masters a).namespace.directories

omit [PathHash] in
/-- The master of the id has a file under it. -/
def Live (s : Servers K) (o : ObjectId) : Prop :=
  ∃ a path, LeadsTo c o a ∧ (s.masters a).namespace.idToPathMap[o]? = some path

omit [PathHash] [ConsistentHashMap] in
/-- What the next step of a search appends to its results. -/
def appends (s : Servers K) : ClientM (List Str) → List Str
  | .call (.master a (.findFiles ids)) _ => (s.masters a).namespace.findFiles ids
  | _ => []

omit [PathHash] [ConsistentHashMap] in
/-- A search can still find the id: in an index, or because it has found it already. -/
def Wanted [KeyTypes K] (p : WorkPool K) (o : ObjectId) : Prop :=
  (∃ a, (p.state.indexServers a).Findable o) ∨
    ∃ t ∈ p.tasks, (∃ query, t.label = .search query) ∧ ¬ Unaware o t.prog

omit [PathHash] in
/-- The RPC leaves no reference to a file that is not there: one that removes a file does so
when no search can find it any more, and the ids of an update that are inserted are those of
files. -/
def Protects [KeyTypes K] (p : WorkPool K) : (β : Type) → Rpc β → Prop
  | _, .master a (.remove path) => ∀ m, (p.state.masters a).namespace.metadataMap[path]? = some m →
      LeadsTo c m.objectId a → ¬ Wanted p m.objectId
  | _, .index a request => ∀ o, IndexServer.Inserting (p.state.indexServers a) o request →
      Live c p.state o
  | _, _ => True

omit [PathHash] in
/-- Every RPC of the step protects the files. -/
def Protected [KeyTypes K] (p : WorkPool K) : Event Work Double → Prop
  | .start _ => True
  | .advance i _ => ∀ label calls β (e : Rpc β) k,
      p.tasks[i]? = some ⟨label, calls, .call e k⟩ → Protects c p β e

/-! ## Steps -/

variable {c} [KeyTypes K] [FsPath] [ThriftSerialize FileMetadata]
  [ThriftSerialize IndexNamespaceNode] {s s' : Servers K} {β : Type} {rpc : Rpc β}
  {answer : Except RpcInvalidOp β}

omit [KeyTypes K] [ConsistentHashMap] [ThriftSerialize IndexNamespaceNode] in
/-- What a request does to the object ids of a master. -/
theorem idToPathMap_of_effect {ns ns' : Namespace} {r : Request} (effect : ns.Effect r ns') :
    ns'.idToPathMap = ns.idToPathMap ∨
      (∃ path mode uid gid now o, r = .create path mode uid gid now ∧
        ns'.idToPathMap = ns.idToPathMap.insert o path) ∨
      ∃ path m, r = .remove path ∧ ns.metadataMap[path]? = some m ∧
        ns'.idToPathMap = ns.idToPathMap.erase m.objectId := by
  cases effect with
  | create => exact .inr (.inl ⟨_, _, _, _, _, _, rfl, rfl⟩)
  | remove found => exact .inr (.inr ⟨_, _, rfl, found, rfl⟩)
  | _ => exact .inl rfl

/-- A file under an id stays until it is removed. -/
theorem Live.answers {p : WorkPool K} {o : ObjectId} (live : Live c p.state o) (wanted : Wanted p o)
    (protects : Protects c p β rpc) (h : p.state.Answers rpc answer s') : Live c s' o := by
  obtain ⟨a, path, leads, found⟩ := live
  cases rpc with
  | index address request =>
    obtain ⟨id, im, -, rfl⟩ := Servers.answers_index h
    exact ⟨a, path, leads, found⟩
  | master address request =>
    obtain ⟨now, mc, handled, rfl⟩ := Servers.answers_master h
    by_cases here : a = address
    · subst here
      suffices there : ∃ path, mc.namespace.idToPathMap[o]? = some path by
        obtain ⟨path, there⟩ := there
        exact ⟨a, path, leads, by simpa using there⟩
      rcases MasterServer.namespace_of_handle handled with same | ⟨r, issued, effect⟩
      · exact ⟨path, same ▸ found⟩
      · rcases idToPathMap_of_effect effect with same | ⟨path', _, _, _, _, o', -, ids⟩ |
          ⟨path', m, rfl, recorded, ids⟩
        · exact ⟨path, same ▸ found⟩
        · rw [ids, getElem?_insert]
          split
          · exact ⟨path', rfl⟩
          · exact ⟨path, found⟩
        · cases issued with
          | remove =>
            rw [ids, getElem?_erase]
            split
            · rename_i same
              subst same
              exact absurd wanted (protects m recorded leads)
            · exact ⟨path, found⟩
    · exact ⟨a, path, leads, by simpa [here] using found⟩

/-- Files are on the master of their path, and their paths are absolute. -/
def Homed (c : VSFSRpcClient) (s : Servers K) : Prop :=
  ∀ (a : NodeAddress) (o : ObjectId) (path : Str),
    (s.masters a).namespace.idToPathMap[o]? = some path →
    LeadsTo c (PathHash.pathToHash path) a ∧ MasterController.isValidPath path = true

theorem Homed.answers (homed : Homed c s) (sent : Sends c β rpc) (h : s.Answers rpc answer s') :
    Homed c s' := by
  intro a o path found
  cases rpc with
  | index address request =>
    obtain ⟨id, im, -, rfl⟩ := Servers.answers_index h
    exact homed a o path found
  | master address request =>
    obtain ⟨now, mc, handled, rfl⟩ := Servers.answers_master h
    by_cases here : a = address
    · subst here
      simp only [Servers.setMaster_masters, Function.update_self] at found
      rcases MasterServer.namespace_of_handle handled with same | ⟨r, issued, effect⟩
      · exact homed a o path (same ▸ found)
      · rcases idToPathMap_of_effect effect with same | ⟨path', _, _, _, _, o', rfl, ids⟩ |
          ⟨path', m, rfl, recorded, ids⟩
        · exact homed a o path (same ▸ found)
        · cases issued with
          | create valid =>
            rw [ids, getElem?_insert] at found
            split at found
            · cases found
              exact ⟨sent, valid⟩
            · exact homed a o path found
        · rw [ids, getElem?_erase] at found
          split at found
          · cases found
          · exact homed a o path found
    · exact homed a o path (by simpa [here] using found)

omit [ConsistentHashMap] in
/-- A server that can find an id could before, or was sent it. -/
theorem findable_of_answers {o : ObjectId} (sent : ∀ a request, rpc = .index a request →
      IndexServer.Current request) (h : s.Answers rpc answer s')
    (found : ∃ a, (s'.indexServers a).Findable o) :
    (∃ a, (s.indexServers a).Findable o) ∨
      ∃ a request, rpc = .index a request ∧ IndexServer.Inserting (s.indexServers a) o request := by
  obtain ⟨a, found⟩ := found
  cases rpc with
  | master address request =>
    obtain ⟨now, mc, -, rfl⟩ := Servers.answers_master h
    exact .inl ⟨a, found⟩
  | index address request =>
    obtain ⟨id, im, handled, rfl⟩ := Servers.answers_index h
    by_cases here : a = address
    · subst here
      simp only [Servers.setIndexServer_indexServers, Function.update_self] at found
      rcases IndexServer.findable_of_handle (sent _ _ rfl) handled found with old | new
      · exact .inl ⟨a, old⟩
      · exact .inr ⟨a, request, rfl, new⟩
    · exact .inl ⟨a, by simpa [here] using found⟩

/-- What every step keeps. -/
structure Sound (c : VSFSRpcClient) (p : WorkPool K) : Prop where
  tidy : TidyMasters p.state
  homed : Homed c p.state
  calls : ∀ t ∈ p.tasks, t.prog.Calls (Sends c)
  live : ∀ o, Wanted p o → Live c p.state o

omit [ConsistentHashMap] in
/-- An answer names ids that the server can find. -/
theorem findable_of_named {o : ObjectId} (sent : ∀ a request, rpc = .index a request →
      IndexServer.Current request) (h : s.Answers rpc answer s')
    (named : ¬ Unnamed o β rpc (answer.mapError .invalidOp)) :
    ∃ a, (s.indexServers a).Findable o := by
  cases rpc with
  | master address request => exact absurd trivial named
  | index address request =>
    obtain ⟨id, im, handled, rfl⟩ := Servers.answers_index h
    cases request with
    | search query =>
      simp only [Unnamed, not_forall, not_not] at named
      obtain ⟨ids, given, ho⟩ := named
      cases answer with
      | error ouch => cases given
      | ok ids' =>
        cases given
        exact ⟨address, IndexServer.findable_of_search (sent _ _ rfl) handled ho⟩
    | createIndex index => exact absurd trivial named
    | removeIndex root name => exact absurd trivial named
    | update updates => exact absurd trivial named
    | info txnId path => exact absurd trivial named

omit [FsPath] [ThriftSerialize FileMetadata] [ThriftSerialize IndexNamespaceNode] [KeyTypes K] in
theorem Sends.current {c : VSFSRpcClient} (sent : Sends c β rpc) (a : NodeAddress)
    (request : IndexRpc β) (same : rpc = .index a request) : IndexServer.Current request := by
  subst same
  exact sent

/-- A call that protects the files. -/
theorem Sound.call {p : WorkPool K} (sound : Sound c p) {i : Nat} {label : Work} {calls : Nat}
    {k : Except RpcError β → ClientM (List Str)}
    (found : p.tasks[i]? = some ⟨label, calls, .call rpc k⟩) (protects : Protects c p β rpc)
    (h : p.state.Answers rpc answer s') :
    ∀ o, Wanted (⟨s', p.tasks.set i ⟨label, calls + 1, k (answer.mapError .invalidOp)⟩⟩ :
      WorkPool K) o → Live c s' o := by
  have sent : Sends c β rpc := (sound.calls _ (List.mem_of_getElem? found)).1
  have keeps (o : ObjectId) (wanted : Wanted p o) : Live c s' o :=
    (sound.live o wanted).answers wanted protects h
  intro o wanted
  rcases wanted with findable | ⟨t, ht, search, aware⟩
  · rcases findable_of_answers sent.current h findable with old | ⟨a, request, rfl, inserted⟩
    · exact keeps o (.inl old)
    · have live := protects o inserted
      obtain ⟨id, im, -, rfl⟩ := Servers.answers_index h
      exact live
  · rcases List.mem_or_eq_of_mem_set ht with old | rfl
    · exact keeps o (.inr ⟨t, old, search, aware⟩)
    · by_cases before : Unaware o (.call rpc k)
      · exact keeps o (.inl (findable_of_named sent.current h fun unnamed =>
          aware (before.2 _ unnamed)))
      · exact keeps o (.inr ⟨_, List.mem_of_getElem? found, search, before⟩)

theorem Sound.step {p p' : WorkPool K} {event : Event Work Double} (sound : Sound c p)
    (hs : p.step (Work.program c) reliable event = .ok p') (safe : Protected c p event) :
    Sound c p' := by
  have stepped := Pool.stepped_of_step hs
  have calls := stepped.calls (program_sends c) sound.calls
  cases stepped with
  | start label =>
    refine ⟨sound.tidy, sound.homed, calls, fun o wanted => sound.live o ?_⟩
    rcases wanted with findable | ⟨t, ht, ⟨query, search⟩, aware⟩
    · exact .inl findable
    · rcases List.mem_append.mp ht with old | new
      · exact .inr ⟨t, old, ⟨query, search⟩, aware⟩
      · rw [List.mem_singleton.mp new] at search aware
        cases search
        exact absurd (search_unaware o) aware
  | idle => exact sound
  | turn found =>
    refine ⟨sound.tidy, sound.homed, calls, fun o wanted => sound.live o ?_⟩
    rcases wanted with findable | ⟨t, ht, search, aware⟩
    · exact .inl findable
    · rcases List.mem_or_eq_of_mem_set ht with old | rfl
      · exact .inr ⟨t, old, search, aware⟩
      · exact .inr ⟨_, List.mem_of_getElem? found, search, fun before => aware before.turn⟩
  | call found served =>
    obtain ⟨answer, rfl, answered⟩ := answers_of_reliable served
    refine ⟨tidyMasters_of_answers sound.tidy answered,
      sound.homed.answers (sound.calls _ (List.mem_of_getElem? found)).1 answered, calls, ?_⟩
    exact sound.call found (safe _ _ _ _ _ found) answered

/-! ## Runs -/

/-- There are no files and no indices yet. -/
structure NewCluster (s : Servers K) : Prop where
  tidy : TidyMasters s
  files : ∀ a, (s.masters a).namespace.idToPathMap = ∅
  indices : ∀ a, (s.indexServers a).rangeIndexMap = ∅

omit [ThriftSerialize FileMetadata] [ThriftSerialize IndexNamespaceNode] in
theorem NewCluster.sound (new : NewCluster s) : Sound c (⟨s, []⟩ : WorkPool K) where
  tidy := new.tidy
  homed a o path found := by
    rw [new.files a] at found
    simp at found
  calls t ht := by cases ht
  live o wanted := by
    rcases wanted with ⟨a, part, w, found, -⟩ | ⟨t, ht, -⟩
    · rw [new.indices a] at found
      simp at found
    · cases ht

/-- Whatever a search is about to append to its results is the path of a file. -/
def ShowsFiles (c : VSFSRpcClient) (p : WorkPool K) : Prop :=
  ∀ t ∈ p.tasks, (∃ query, t.label = .search query) →
    ∀ path ∈ appends p.state t.prog, FileExists c p.state path ∧ path ≠ []

omit [ThriftSerialize FileMetadata] [ThriftSerialize IndexNamespaceNode] in
theorem Sound.showsFiles [LawfulFsPath] {p : WorkPool K} (sound : Sound c p) : ShowsFiles c p := by
  rintro ⟨label, calls, prog⟩ ht search path hp
  have sends := sound.calls _ ht
  cases prog with
  | ret a => cases hp
  | throw e => cases hp
  | iter body x k => cases hp
  | call rpc k =>
    cases rpc with
    | index address request => cases hp
    | master a request =>
      cases request with
      | findFiles ids =>
        obtain ⟨o, ho, rfl⟩ := List.mem_map.mp hp
        have wanted : Wanted p o := .inr ⟨_, ht, search, fun unaware => unaware.1 ho⟩
        obtain ⟨a', path, leads, found⟩ := sound.live o wanted
        obtain ⟨node, home, rfl⟩ := leads
        obtain ⟨node', home', rfl⟩ := sends.1 o ho
        cases home.symm.trans home'
        rw [found, Option.getD_some]
        obtain ⟨homed, valid⟩ := sound.homed _ o path found
        obtain ⟨file, m, recorded, -⟩ := (sound.tidy _).files found
        refine ⟨⟨_, homed, (mem_iff_exists _ _).mpr ⟨m, recorded⟩, file⟩, fun empty => ?_⟩
        have head := LawfulFsPath.head_of_isAbsolute valid
        simp [empty] at head
      | _ => cases hp

/-- The search in the place `i` of the pool appends the path, at some moment of the run. -/
def Appended (c : VSFSRpcClient) (s : Servers K) (events : List (Event Work Double)) (i : Nat)
    (path : Str) (moment : WorkPool K → Prop) : Prop :=
  ∃ before after p t, events = before ++ after ∧
    Transition.run (Pool.step (Work.program c) reliable) ⟨s, []⟩ before = .ok p ∧ moment p ∧
    p.tasks[i]? = some t ∧ path ∈ appends p.state t.prog

omit [ConsistentHashMap] in
/-- A path that is shown to a search is one that it appends. -/
theorem mem_appends_of_shown {path : Str} {k : Except RpcError β → ClientM (List Str)}
    (h : s.Answers rpc answer s') (shown : ¬ Unshown path β rpc (answer.mapError .invalidOp)) :
    path ∈ appends s (.call rpc k) := by
  cases rpc with
  | index address request => exact absurd trivial shown
  | master address request =>
    cases request with
    | findFiles ids =>
      obtain ⟨now, mc, handled, rfl⟩ := Servers.answers_master h
      cases handled
      simpa [Unshown, Except.mapError, appends] using shown
    | _ => exact absurd trivial shown

/-- A search that can return a path could do so before the step, or appends it now. -/
theorem returned_of_step {p p' : WorkPool K} {event : Event Work Double} {i : Nat} {path : Str}
    {t : Task Rpc RpcError Exit (List Str) Work} {query : ComplexQuery}
    (stepped : Pool.Stepped (Work.program c) reliable p event p')
    (found : p'.tasks[i]? = some t) (search : t.label = .search query)
    (returned : ¬ Unreturned path t.prog) : ∃ t₀, p.tasks[i]? = some t₀ ∧
      t₀.label = .search query ∧ (path ∈ appends p.state t₀.prog ∨ ¬ Unreturned path t₀.prog) := by
  cases stepped with
  | start label =>
    rw [List.getElem?_append] at found
    split at found
    · exact ⟨t, found, search, .inr returned⟩
    · rw [List.getElem?_singleton] at found
      split at found
      · cases found
        cases search
        exact absurd (search_unreturned path) returned
      · cases found
  | idle => exact ⟨t, found, search, .inr returned⟩
  | @turn j input label calls σ β body x k here =>
    rw [List.getElem?_set] at found
    split at found
    · rename_i same
      subst same
      split at found
      · cases found
        exact ⟨_, here, search, .inr fun before => returned before.turn⟩
      · cases found
    · exact ⟨t, found, search, .inr returned⟩
  | @call j input label calls β e k answer state here served =>
    rw [List.getElem?_set] at found
    split at found
    · rename_i same
      subst same
      split at found
      · cases found
        refine ⟨_, here, search, ?_⟩
        obtain ⟨a, rfl, answered⟩ := answers_of_reliable served
        by_cases before : Unreturned path (.call e k)
        · exact .inl (mem_appends_of_shown answered fun unshown => returned (before.2 _ unshown))
        · exact .inr before
      · cases found
    · exact ⟨t, found, search, .inr returned⟩

/-- A search only returns what it has appended. -/
theorem appended_of_returned {p₀ p : WorkPool K} {events : List (Event Work Double)} {i : Nat}
    {path : Str} {t : Task Rpc RpcError Exit (List Str) Work} {query : ComplexQuery}
    (ran : Transition.run (Pool.step (Work.program c) reliable) p₀ events = .ok p)
    (found : p.tasks[i]? = some t) (search : t.label = .search query)
    (returned : ¬ Unreturned path t.prog) :
    (∃ t₀, p₀.tasks[i]? = some t₀ ∧ t₀.label = .search query ∧ ¬ Unreturned path t₀.prog) ∨
      ∃ before after p₁ t₁, events = before ++ after ∧
        Transition.run (Pool.step (Work.program c) reliable) p₀ before = .ok p₁ ∧
        p₁.tasks[i]? = some t₁ ∧ t₁.label = .search query ∧ path ∈ appends p₁.state t₁.prog := by
  induction events generalizing p₀ with
  | nil =>
    cases ran
    exact .inl ⟨t, found, search, returned⟩
  | cons event events ih =>
    cases hs : p₀.step (Work.program c) reliable event with
    | error crash => simp [Transition.run, hs] at ran
    | ok p₁ =>
      rw [Transition.run_cons_ok hs] at ran
      rcases ih ran with ⟨t₁, found₁, search₁, returned₁⟩ |
        ⟨before, after, p₂, t₂, rfl, ran₂, found₂, search₂, here⟩
      · obtain ⟨t₀, found₀, search₀, now | earlier⟩ :=
          returned_of_step (Pool.stepped_of_step hs) found₁ search₁ returned₁
        · exact .inr ⟨[], event :: events, p₀, t₀, rfl, rfl, found₀, search₀, now⟩
        · exact .inl ⟨t₀, found₀, search₀, earlier⟩
      · exact .inr ⟨event :: before, after, p₂, t₂, rfl, by rw [Transition.run_cons_ok hs, ran₂],
          found₂, search₂, here⟩

/-- In a run from a new cluster whose steps all protect the files, whatever a search appends
to its results is the path of a file at that moment, and what it returns in the end is what
it has appended. -/
theorem searches_show_live_files [LawfulFsPath] (new : NewCluster s)
    {events : List (Event Work Double)} {p : WorkPool K}
    (safe : Transition.Meets (Pool.step (Work.program c) reliable) (Protected c) ⟨s, []⟩ events)
    (ran : Transition.run (Pool.step (Work.program c) reliable) ⟨s, []⟩ events = .ok p) :
    ShowsFiles c p ∧
      ∀ i query calls results, p.tasks[i]? = some ⟨.search query, calls, .ret results⟩ →
        ∀ path ∈ results, path ≠ [] ∧
          Appended c s events i path fun moment => FileExists c moment.state path := by
  have sound {events : List (Event Work Double)} {p : WorkPool K}
      (safe : Transition.Meets (Pool.step (Work.program c) reliable) (Protected c) ⟨s, []⟩ events)
      (ran : Transition.run (Pool.step (Work.program c) reliable) ⟨s, []⟩ events = .ok p) :
      Sound c p :=
    Transition.run_preserves (fun _ _ _ sound hs safe => sound.step hs safe) new.sound safe ran
  refine ⟨(sound safe ran).showsFiles, fun i query calls results found path hp => ?_⟩
  rcases appended_of_returned ran found rfl (fun unreturned => unreturned hp) with
    ⟨t₀, wrong, -⟩ | ⟨before, after, p₁, t₁, rfl, ran₁, found₁, search, here⟩
  · cases wrong
  · obtain ⟨file, named⟩ := (sound safe.of_append ran₁).showsFiles t₁
      (List.mem_of_getElem? found₁) ⟨query, search⟩ path here
    exact ⟨named, before, after, p₁, t₁, rfl, ran₁, file, found₁, here⟩

end Liveness

section Example

attribute [local instance] SortedRing.consistentHashMap Posix.fsPath Md5.pathHash
  BinaryProtocol.fileMetadataThrift BinaryProtocol.indexNamespaceNode uint64Keys

theorem newCluster_oneDirectory : NewCluster oneDirectory where
  tidy a := by
    have root : (rootOnly.masters ⟨[], 0⟩).namespace.Tidy :=
      (Namespace.Tidy.empty 0).withDirectory (by simp)
    exact root.withDirectory (by decide +kernel)
  files a := rfl
  indices a := rfl

/-- One client does one piece of work after the other, each for a number of steps. -/
def oneByOne (works : List (Work × Nat)) : List (Event Work Double) :=
  works.zipIdx.flatMap fun ((work, steps), i) => .start work :: List.replicate steps (.advance i 0)

/-- An index of sizes on `/d`, in twelve steps. -/
def makeSizes : Work × Nat := (.createIndex "/d".toList "size".toList 2 0 0o755 0 0, 12)

/-- The size 10 for a file, in six steps. -/
def sizeOf (path : Str) : Work × Nat := (.update [⟨.insert, path, "size".toList, "10".toList⟩], 6)

/-- A search for sizes from 1 to 99 under `/d`. -/
def someSize : Work := .search
  { root := "/d".toList
    rangeQueryMap := (∅ : ExtTreeMap Str StringRange).insert "size".toList
      ⟨"1".toList, true, "99".toList, true⟩ }

/-- The pool after some work of a client, from a cluster with the directory `/d`. -/
def afterWork (works : List (Work × Nat)) : Except Crash (WorkPool Int) :=
  Transition.run (Pool.step (Work.program oneServer) reliable) ⟨oneDirectory, []⟩ (oneByOne works)

def isSearch : Work → Bool
  | .search _ => true
  | _ => false

/-- A size for a file that does not exist is recorded, and a search appends the empty path. -/
theorem missing_file_appended :
    ¬ ∀ (c : VSFSRpcClient) (s : Servers Int), NewCluster s →
      ∀ (events : List (Event Work Double)) (p : WorkPool Int),
        Transition.run (Pool.step (Work.program c) reliable) ⟨s, []⟩ events = .ok p →
        ShowsFiles c p := by
  intro claim
  let works := [makeSizes, sizeOf "/d/missing".toList, (someSize, 2)]
  have ran : (match afterWork works with
    | .ok p => (p.tasks[2]?).map fun t => (isSearch t.label, appends p.state t.prog)
    | .error _ => none) = some (true, [[]]) := by decide +kernel
  cases last : afterWork works with
  | error crash =>
    rw [last] at ran
    cases ran
  | ok p =>
    rw [last] at ran
    obtain ⟨t, found, shown⟩ := Option.map_eq_some_iff.mp ran
    have search : ∃ query, t.label = .search query := by
      have label := congrArg Prod.fst shown
      cases same : t.label <;> simp [same, isSearch] at label
      exact ⟨_, rfl⟩
    have here : [] ∈ appends p.state t.prog := by
      rw [show appends p.state t.prog = [[]] from congrArg Prod.snd shown]
      exact List.mem_singleton_self _
    exact (claim oneServer oneDirectory newCluster_oneDirectory _ p last t
      (List.mem_of_getElem? found) search [] here).2 rfl

/-- The id leads to a file. -/
def isLive (c : VSFSRpcClient) (s : Servers Int) (o : ObjectId) : Bool :=
  match (c.masterMap.get o).2 with
  | none => false
  | some node => (s.masters node.address).namespace.idToPathMap.contains o

theorem live_of_isLive {c : VSFSRpcClient} {s : Servers Int} {o : ObjectId}
    (h : isLive c s o = true) : Live c s o := by
  unfold isLive at h
  split at h
  · cases h
  · rename_i node home
    obtain ⟨path, found⟩ := (mem_iff_exists _ _).mp (ExtTreeMap.mem_iff_contains.mpr h)
    exact ⟨node.address, path, ⟨node, home, rfl⟩, found⟩

/-- The step removes nothing, and all ids of an update lead to files. -/
def mild (c : VSFSRpcClient) (p : WorkPool Int) : Event Work Double → Bool
  | .start _ => true
  | .advance i _ =>
    match p.tasks[i]? with
    | some ⟨_, _, .call (.master _ (.remove _)) _⟩ => false
    | some ⟨_, _, .call (.index _ (.update updates)) _⟩ =>
      updates.updates.all fun l => l.recordUpdates.all fun u =>
        (KeyTypes.castObjectId Int u.value).all (isLive c p.state)
    | _ => true

theorem castObjectId_of_inserts {keyType : Int} {u : RecordUpdateOp} {o : ObjectId}
    (h : RangeIndexWrapper.Inserts Int keyType u o) :
    KeyTypes.castObjectId Int u.value = some o := by
  obtain ⟨k, written⟩ := h
  unfold RangeIndex.toWrite at written
  split at written <;> cases written <;> assumption

theorem protected_of_mild {c : VSFSRpcClient} {p : WorkPool Int} {event : Event Work Double}
    (h : mild c p event = true) : Protected c p event := by
  cases event with
  | start label => trivial
  | advance i input =>
    intro label calls β e k found
    simp only [mild, found] at h
    cases e with
    | master a request =>
      cases request with
      | remove path => cases h
      | _ => trivial
    | index a request =>
      intro o inserting
      cases request with
      | update updates =>
        obtain ⟨l, hl, w, -, u, hu, inserts⟩ := inserting
        simp only [List.all_eq_true] at h
        have live := h l hl u hu
        rw [castObjectId_of_inserts inserts] at live
        exact live_of_isLive live
      | _ => cases inserting

/-- A file is made and indexed, and a search returns it. -/
def findOneFile : List (Work × Nat) :=
  [(.create "/d/f".toList 0o644 0 0, 4), makeSizes, sizeOf "/d/f".toList, (someSize, 3)]

/-- What a search has returned. -/
def returnedBy : Task Rpc RpcError Exit (List Str) Work → Option (List Str)
  | ⟨.search _, _, .ret results⟩ => some results
  | _ => none

theorem returnedBy_eq_some {t : Task Rpc RpcError Exit (List Str) Work} {results : List Str}
    (h : returnedBy t = some results) :
    ∃ query calls, t = ⟨.search query, calls, .ret results⟩ := by
  unfold returnedBy at h
  split at h
  · cases h
    exact ⟨_, _, rfl⟩
  · cases h

theorem findOneFile_shown : ∃ p : WorkPool Int, afterWork findOneFile = .ok p ∧
    (p.tasks[3]?).bind returnedBy = some ["/d/f".toList] ∧ ShowsFiles oneServer p ∧
    Appended oneServer oneDirectory (oneByOne findOneFile) 3 "/d/f".toList
      fun moment => FileExists oneServer moment.state "/d/f".toList := by
  -- One statement, so that the kernel makes the run once.
  have both : (match afterWork findOneFile with
      | .ok p => (p.tasks[3]?).bind returnedBy
      | .error _ => none) = some ["/d/f".toList] ∧
      Transition.Meets (Pool.step (Work.program oneServer) reliable)
        (fun p event => mild oneServer p event = true) ⟨oneDirectory, []⟩
        (oneByOne findOneFile) := by
    decide +kernel
  obtain ⟨ran, mild⟩ := both
  cases last : afterWork findOneFile with
  | error crash =>
    rw [last] at ran
    cases ran
  | ok p =>
    rw [last] at ran
    obtain ⟨t, found, returned⟩ := Option.bind_eq_some_iff.mp ran
    obtain ⟨query, calls, rfl⟩ := returnedBy_eq_some returned
    obtain ⟨shows, all⟩ := searches_show_live_files newCluster_oneDirectory
      (mild.imp fun _ _ _ h => protected_of_mild h) last
    exact ⟨p, rfl, ran, shows, (all 3 query calls _ found _ (by simp)).2⟩

end Example

end Vsfs.Client
