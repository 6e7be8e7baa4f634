import Vsfs.Common.Md5
import Vsfs.Fuse.VsfsOps

/-!
# Links to results

`vsfs_readdir` writes `#` for every slash of a path and `vsfs_readlink` a slash for every `#`,
also for those that the path had before. The terminating NUL is put behind the whole target,
which may be behind the buffer.

## Main results

* `links_resolve_iff` : the links to the files of a search lead to these files exactly when no
  path has a `#`, every target is shorter than the buffer, and the name of the query directory
  does not end in a slash.
-/

namespace Vsfs.Fuse

open Program Client VSFSRpcClient ComplexQuery

/-! ## Names -/

theorem linkedFile_linkName_iff (file : Str) :
    linkedFile (linkName file) = file ↔ '#' ∉ file := by
  induction file with
  | nil => simp [linkedFile, linkName]
  | cons c file ih =>
    have same : linkedFile (linkName (c :: file)) =
        (if (if c = '/' then '#' else c) = '#' then '/' else if c = '/' then '#' else c) ::
          linkedFile (linkName file) := rfl
    rw [same, List.cons_eq_cons, ih, List.mem_cons, not_or]
    refine and_congr_left fun _ => ?_
    by_cases slash : c = '/'
    · simp [slash]
    · by_cases hash : c = '#'
      · simp [hash]
      · simp [slash, hash, Ne.symm hash]

@[simp] theorem length_linkName (file : Str) : (linkName file).length = file.length :=
  List.length_map _

@[simp] theorem length_linkedFile (name : Str) : (linkedFile name).length = name.length :=
  List.length_map _

theorem cStr_eq {s : Str} (noNul : '\x00' ∉ s) : cStr s = s := by
  refine List.takeWhile_eq_self_iff.mpr fun c hc => ?_
  exact decide_eq_true fun same => noNul (same ▸ hc)

theorem nul_not_mem_linkName {file : Str} (noNul : '\x00' ∉ file) : '\x00' ∉ linkName file := by
  intro mem
  obtain ⟨c, hc, same⟩ := List.mem_map.mp mem
  split at same
  · cases same
  · exact noNul (same ▸ hc)

theorem nul_not_mem_linkedFile {name : Str} (noNul : '\x00' ∉ name) :
    '\x00' ∉ linkedFile name := by
  intro mem
  obtain ⟨c, hc, same⟩ := List.mem_map.mp mem
  split at same
  · cases same
  · exact noNul (same ▸ hc)

/-! ## Buffers -/

/-- The buffer holds the target up to a NUL, and no more of it than there is room for. -/
def Holds (buf : List Char) (target : Str) : Prop :=
  '\x00' ∈ buf ∧ cStr buf = target.take (buf.length - 1)

theorem strncpy_of_lt {buf : List Char} {s : Str} (noNul : '\x00' ∉ s)
    (fits : s.length < buf.length) :
    strncpy buf s = s ++ List.replicate (buf.length - s.length) '\x00' := by
  rw [strncpy, cStr_eq noNul, List.take_append, List.take_of_length_le (Nat.le_of_lt fits),
    List.take_replicate, Nat.min_eq_left (Nat.sub_le _ _)]

theorem length_strncpy (buf : List Char) (s : Str) : (strncpy buf s).length = buf.length := by
  simp [strncpy]

/-- The NUL is written inside the buffer exactly when the target is shorter, and then it was
there already. -/
theorem store_strncpy {buf : List Char} {s : Str} (noNul : '\x00' ∉ s) :
    store (strncpy buf s) s.length '\x00' =
      if s.length < buf.length then .ret (s ++ List.replicate (buf.length - s.length) '\x00')
      else .throw (.crash (.undefined "buf[mnt_path.size()]")) := by
  rw [store, length_strncpy]
  split
  · rename_i fits
    rw [strncpy_of_lt noNul fits]
    obtain ⟨n, room⟩ := Nat.exists_eq_add_of_lt fits
    have more : buf.length - s.length = n + 1 := by omega
    rw [more, List.set_append_right _ _ (Nat.le_refl _), Nat.sub_self]
    rfl
  · rfl

theorem holds_iff {s target : Str} {n : Nat} (noNul : '\x00' ∉ s) (room : 0 < n) :
    Holds (s ++ List.replicate n '\x00') target ↔ s = target.take (s.length + n - 1) := by
  have inside : '\x00' ∈ s ++ List.replicate n '\x00' := by
    simp
    omega
  have text : cStr (s ++ List.replicate n '\x00') = s := by
    have all : ∀ c ∈ s, decide (c ≠ '\x00') = true := fun c hc =>
      decide_eq_true fun same => noNul (same ▸ hc)
    rw [cStr, List.takeWhile_append_of_pos all]
    simp
  rw [Holds, text, and_iff_right inside]
  simp

/-! ## Query directories -/

/-- The path object takes the path for a query. -/
def IsQueryPath (q : Str) : Prop := ∃ vsp, PosixPath.ofPath q = .ok vsp ∧ vsp.isQuery = true

/-- The conditions of a query end the path, or stand before a slash that does. -/
theorem IsQueryPath.split {q : Str} (h : IsQueryPath q) :
    ∃ front query, '?' ∉ front ∧ '/' ∉ query ∧ query ≠ [] ∧
      (q = front ++ '?' :: query ∨ q = front ++ '?' :: (query ++ ['/'])) := by
  obtain ⟨vsp, built, isQuery⟩ := h
  by_cases mark : '?' ∈ q
  · obtain ⟨front, rest, rfl, noMark⟩ := List.eq_append_cons_of_mem mark
    by_cases slash : '/' ∈ rest
    · obtain ⟨query, result, rfl, noSlash⟩ := List.eq_append_cons_of_mem slash
      obtain ⟨root, parts⟩ := PosixPath.ofPath_result noMark noSlash result
      cases parts.symm.trans built
      obtain ⟨some, none⟩ : query ≠ [] ∧ result = [] := by simpa [PosixPath.isQuery] using isQuery
      exact ⟨front, query, noMark, noSlash, some, .inr (by rw [none])⟩
    · obtain ⟨root, parts⟩ := PosixPath.ofPath_query noMark slash
      cases parts.symm.trans built
      have some : rest ≠ [] := by simpa [PosixPath.isQuery] using isQuery
      exact ⟨front, rest, noMark, slash, some, .inl rfl⟩
  · by_cases empty : q = []
    · subst empty
      cases built
    · cases (PosixPath.ofPath_of_not_mem empty mark).symm.trans built
      cases isQuery

/-- The name that is left of a link in a query directory has a slash in front when the name of
the directory ends in one. -/
theorem IsQueryPath.result {q name : Str} (h : IsQueryPath q) (named : name ≠ []) :
    ∃ vsp, PosixPath.ofPath (q ++ '/' :: name) = .ok vsp ∧ vsp.isQuery = false ∧
      vsp.isResult = true ∧
      vsp.result = if q.getLast? = some '/' then '/' :: name else name := by
  obtain ⟨front, query, noMark, noSlash, nonempty, rfl | rfl⟩ := h.split
  · obtain ⟨root, parts⟩ := PosixPath.ofPath_result noMark noSlash name
    have last : (front ++ '?' :: query).getLast? ≠ some '/' := by
      intro slash
      rw [List.getLast?_append_of_ne_nil _ (by simp),
        List.getLast?_cons_of_ne_nil nonempty] at slash
      exact noSlash (List.mem_of_getLast? slash)
    refine ⟨_, by simpa using parts, ?_, ?_, (if_neg last).symm⟩
    · simp [PosixPath.isQuery, named]
    · simp [PosixPath.isResult, named, nonempty]
  · obtain ⟨root, parts⟩ := PosixPath.ofPath_result noMark noSlash ('/' :: name)
    have last : (front ++ '?' :: (query ++ ['/'])).getLast? = some '/' := by
      simp [List.getLast?_cons]
    refine ⟨_, by simpa using parts, ?_, ?_, (if_pos last).symm⟩
    · simp [PosixPath.isQuery]
    · simp [PosixPath.isResult, nonempty]

/-! ## Links -/

/-- An absolute path, as C strings can have it. -/
structure FilePath (file : Str) : Prop where
  absolute : file.head? = some '/'
  noNul : '\x00' ∉ file

/-- Appending an absolute path puts all of it after something that the first path begins
with. -/
class LawfulAppend [FsPath] : Prop where
  join_slash : ∀ p : Str, ∃ u, u <+: p ∧ ∀ q : Str, FsPath.join p ('/' :: q) = u ++ '/' :: q

section Links

variable [FsPath] [PathHash] [ConsistentHashMap]

theorem vsfsReadlink_result {vsfs : VsfsFuse} {path : Str} {vsp : PosixPath} {buf : List Char}
    (built : PosixPath.ofPath path = .ok vsp) (notQuery : vsp.isQuery = false)
    (isResult : vsp.isResult = true) (noNul : '\x00' ∉ vsfs.mntPath (linkedFile vsp.result)) :
    vsfsReadlink vsfs path buf =
      if (vsfs.mntPath (linkedFile vsp.result)).length < buf.length then
        .ret (0, vsfs.mntPath (linkedFile vsp.result) ++
          List.replicate (buf.length - (vsfs.mntPath (linkedFile vsp.result)).length) '\x00')
      else .throw (.crash (.undefined "buf[mnt_path.size()]")) := by
  simp only [vsfsReadlink, built, parsing, Prog.bind_eq, Prog.ret_bind, notQuery, isResult,
    Bool.false_eq_true, if_false, if_true, store_strncpy noNul]
  split <;> rfl

/-- A directory that is a query lists what the search found. -/
theorem vsfsReaddir_query {vsfs : VsfsFuse} {q : Str} (h : IsQueryPath q) (now : Nat) :
    vsfsReaddir vsfs now q = (parsing (parse now {} q)).bind fun parsed =>
      (vsfs.client.search parsed.2).bind fun found =>
        if !found.1.ok then .ret (found.1.error, dots) else fillResults vsfs dots found.2 := by
  obtain ⟨vsp, built, isQuery⟩ := h
  simp only [vsfsReaddir, built, parsing, Prog.bind_eq, Prog.ret_bind, isQuery, if_true]
  rfl

/-- The names in the listing of a search, and where the links with these names lead to. -/
structure Resolves (vsfs : VsfsFuse) (size : Nat) (q : Str) (files : List Str) : Prop where
  entries : ∀ {S : Type} (exec : Exec Rpc RpcError S) (s : S),
    Always exec (fun r _ => ∀ out, r = .ok (0, out) →
      out.map (·.name) = dots.map (·.name) ++ files.map linkName) (fillResults vsfs dots files) s
  distinct : ∀ f ∈ files, ∀ g ∈ files, f ≠ g → linkName f ≠ linkName g
  target : ∀ f ∈ files, ∀ buf : List Char, buf.length = size →
    ∃ out, vsfsReadlink vsfs (q ++ '/' :: linkName f) buf = .ret (0, out) ∧
      Holds out (vsfs.mntPath f)

omit [FsPath] in
theorem fillResults_names (vsfs : VsfsFuse) (files : List Str)
    (hf : ∀ f ∈ files, FilePath f) (buf : List DirEntry) {S : Type} (exec : Exec Rpc RpcError S)
    (s : S) : Always exec (fun r _ => ∀ out, r = .ok (0, out) →
      out.map (·.name) = buf.map (·.name) ++ files.map linkName)
      (fillResults vsfs buf files) s := by
  induction files generalizing buf s with
  | nil =>
    refine .ret fun out same => ?_
    cases same
    simp
  | cons f files ih =>
    obtain ⟨here, others⟩ := List.forall_mem_cons.mp hf
    refine .bind fun r s' _ => ?_
    cases r with
    | error exit => exact fun out same => by cases same
    | ok found =>
      obtain ⟨status, stbuf⟩ := found
      cases ok : status.ok with
      | false =>
        simp only [Leads, ok, Bool.not_false, if_true]
        refine .ret fun out same => ?_
        have zero : status.error = 0 := by
          injection same with pair
          exact congrArg Prod.fst pair
        simp [Status.ok, zero] at ok
      | true =>
        simp only [Leads, ok, Bool.not_true, Bool.false_eq_true, if_false]
        refine (ih others _ s').imp fun r _ names out same => ?_
        rw [names out same, cStr_eq (nul_not_mem_linkName here.noNul)]
        simp

variable [LawfulAppend]

/-- The target of a link: the mount point, a slash when the query directory ends in one, and the
path that is read back from the name. -/
theorem vsfsReadlink_link {vsfs : VsfsFuse} (noNul : '\x00' ∉ vsfs.mountPoint) {q : Str}
    (hq : IsQueryPath q) {f : Str} (hf : FilePath f) : ∃ u target : Str,
      target = u ++ ((if q.getLast? = some '/' then ['/'] else []) ++ linkedFile (linkName f)) ∧
      vsfs.mntPath f = u ++ f ∧ '\x00' ∉ target ∧
      ∀ buf : List Char, vsfsReadlink vsfs (q ++ '/' :: linkName f) buf =
        if target.length < buf.length then
          .ret (0, target ++ List.replicate (buf.length - target.length) '\x00')
        else .throw (.crash (.undefined "buf[mnt_path.size()]")) := by
  obtain ⟨f, rfl⟩ : ∃ rest, f = '/' :: rest := List.head?_eq_some_iff.mp hf.absolute
  obtain ⟨u, below, join⟩ := LawfulAppend.join_slash vsfs.mountPoint
  have mount : '\x00' ∉ u := fun mem => noNul (below.subset mem)
  obtain ⟨vsp, built, notQuery, isResult, result⟩ := @IsQueryPath.result q (linkName ('/' :: f)) hq
    (by simp [linkName])
  -- The path that is read back, after one more slash in the second case.
  obtain ⟨rest, target, text⟩ : ∃ rest, linkedFile vsp.result = '/' :: rest ∧
      '/' :: rest = (if q.getLast? = some '/' then ['/'] else []) ++
        linkedFile (linkName ('/' :: f)) := by
    rw [result]
    split
    · exact ⟨_, rfl, rfl⟩
    · exact ⟨_, rfl, rfl⟩
  have whole : vsfs.mntPath (linkedFile vsp.result) = u ++ '/' :: rest := by
    rw [VsfsFuse.mntPath, target, join]
  have clean : '\x00' ∉ u ++ '/' :: rest := by
    rw [text, List.mem_append, List.mem_append, not_or, not_or]
    refine ⟨mount, ?_, nul_not_mem_linkedFile (nul_not_mem_linkName hf.noNul)⟩
    split <;> simp
  refine ⟨u, _, rfl, join f, text ▸ clean, ?_⟩
  intro buf
  rw [← text, ← whole]
  exact vsfsReadlink_result built notQuery isResult (whole ▸ clean)

/-- The link to a file leads there exactly when reading its name back gives the path, the
target fits, and no slash comes in between. -/
theorem target_iff {vsfs : VsfsFuse} (noNul : '\x00' ∉ vsfs.mountPoint) (size : Nat) {q : Str}
    (hq : IsQueryPath q) {f : Str} (hf : FilePath f) :
    (∀ buf : List Char, buf.length = size →
      ∃ out, vsfsReadlink vsfs (q ++ '/' :: linkName f) buf = .ret (0, out) ∧
        Holds out (vsfs.mntPath f)) ↔
      '#' ∉ f ∧ (vsfs.mntPath f).length < size ∧ q.getLast? ≠ some '/' := by
  obtain ⟨u, target, text, wanted, clean, run⟩ := vsfsReadlink_link noNul hq hf
  have length : target.length =
      u.length + ((if q.getLast? = some '/' then 1 else 0) + f.length) := by
    rw [text, List.length_append, List.length_append, length_linkedFile, length_linkName]
    split <;> rfl
  rw [wanted]
  constructor
  · intro leads
    obtain ⟨out, ran, holds⟩ := leads (List.replicate size 'x') (List.length_replicate ..)
    rw [run, List.length_replicate] at ran
    by_cases fits : target.length < size
    · rw [if_pos fits] at ran
      cases ran
      have same := (holds_iff clean (by omega)).mp holds
      have taken := congrArg List.length same
      rw [List.length_take, List.length_append, length] at taken
      rw [length] at fits
      have noSlash : q.getLast? ≠ some '/' := by
        intro slash
        rw [if_pos slash] at taken
        omega
      rw [if_neg noSlash] at taken fits length
      have all : target = u ++ f := by
        rw [same, List.take_of_length_le]
        rw [List.length_append]
        omega
      rw [if_neg noSlash, List.nil_append, all] at text
      refine ⟨(linkedFile_linkName_iff _).mp (List.append_cancel_left text).symm, ?_, noSlash⟩
      rw [List.length_append]
      omega
    · rw [if_neg fits] at ran
      cases ran
  · rintro ⟨noHash, fits, noSlash⟩ buf rfl
    rw [if_neg noSlash, List.nil_append, (linkedFile_linkName_iff _).mpr noHash] at text
    subst text
    rw [run, if_pos fits]
    refine ⟨_, rfl, (holds_iff clean (by omega)).mpr ?_⟩
    rw [List.take_of_length_le (by omega)]

/-- The links to the files of a search lead to these files exactly when no path has a `#`,
every target is shorter than the buffer, and the query directory is not written with a slash at
its end. -/
theorem links_resolve_iff {vsfs : VsfsFuse} (noNul : '\x00' ∉ vsfs.mountPoint) (size : Nat)
    {q : Str} (hq : IsQueryPath q) {files : List Str} (hf : ∀ f ∈ files, FilePath f) :
    Resolves vsfs size q files ↔ ∀ f ∈ files,
      '#' ∉ f ∧ (vsfs.mntPath f).length < size ∧ q.getLast? ≠ some '/' := by
  constructor
  · intro h f mem
    exact (target_iff noNul size hq (hf f mem)).mp (h.target f mem)
  · intro all
    refine ⟨fun exec s => fillResults_names vsfs files hf dots exec s,
      fun f hf' g hg' other same => ?_,
      fun f mem => (target_iff noNul size hq (hf f mem)).mpr (all f mem)⟩
    -- Two paths without a `#` are read back from their names.
    have back := congrArg linkedFile same
    rw [(linkedFile_linkName_iff f).mpr (all f hf').1,
      (linkedFile_linkName_iff g).mpr (all g hg').1] at back
    exact other back

end Links

section Example

attribute [local instance] SortedRing.consistentHashMap Posix.fsPath Md5.pathHash

instance lawfulAppend : @LawfulAppend Posix.fsPath :=
  @LawfulAppend.mk Posix.fsPath fun p => ⟨p, List.prefix_rfl, fun q => by
    change Posix.join p ('/' :: q) = p ++ '/' :: q
    simp [Posix.join]⟩

/-- A file system mounted on `/mnt`. -/
def mounted : VsfsFuse where
  mountPoint := "/mnt".toList
  client := {}
  storageReadlink := fun _ _ buf => (.OK, buf)

theorem queryPath : IsQueryPath "/energy/?energy>5".toList :=
  ⟨_, rfl, by decide⟩

/-- Files of one directory and of another. -/
def energyFiles : List Str :=
  ["/energy/file-20.txt".toList, "/energy/file-21.txt".toList, "/archive/file-20.txt".toList]

theorem links_resolve_energy :
    energyFiles.Nodup ∧ Resolves mounted 64 "/energy/?energy>5".toList energyFiles :=
  ⟨by decide, (links_resolve_iff (by decide) 64 queryPath (by
    simp only [energyFiles, List.forall_mem_cons]
    exact ⟨⟨rfl, by decide⟩, ⟨rfl, by decide⟩, ⟨rfl, by decide⟩,
      List.forall_mem_nil _⟩)).mpr (by decide)⟩

/-- Two paths that only differ in a `#` for a slash have the same name. -/
theorem not_resolves_hash :
    ¬ Resolves mounted 64 "/energy/?energy>5".toList ["/a#b".toList, "/a/b".toList] := by
  intro h
  exact h.distinct "/a#b".toList (by simp) "/a/b".toList (by simp) (by decide) (by decide)

end Example

end Vsfs.Fuse
