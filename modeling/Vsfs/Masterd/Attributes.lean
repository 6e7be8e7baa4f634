import Vsfs.Masterd.FailedWrites

/-!
# Attributes

`setattr` assigns to the attributes that its request carries and to no others, so every
attribute of a path is a register of its own: whatever the clients send in between, and
whatever becomes of the writes to the store, `getattr` answers with the value that was set
last. A master keeps times as `double` and ids in 32 bits, which some values do not survive.

## Main results

* `Double.toInt64_ofInt64` : times up to `2 ^ 53` survive the conversion.
* `getattr_last_set` : an attribute has the value that was set last.
-/

namespace Vsfs

/-! ## Times -/

namespace Double

/-- The bits of a `double` with this sign, exponent and significand. -/
def pack (negative : Bool) (e significand : Nat) : Double :=
  BitVec.ofNat 64 ((if negative then 2 ^ 63 else 0) + (e + 1023) * 2 ^ 52 + (significand - 2 ^ 52))

section Fields

variable {negative : Bool} {e significand : Nat}

theorem toNat_pack (small : e < 63) (most : significand < 2 ^ 53) :
    (pack negative e significand).toNat =
      (if negative then 2 ^ 63 else 0) + (e + 1023) * 2 ^ 52 + (significand - 2 ^ 52) := by
  rw [pack, BitVec.toNat_ofNat, Nat.mod_eq_of_lt]
  split <;> omega

/-- The value of such a `double`, where it is an integer. -/
theorem toInt64_pack (small : e < 63) (least : 2 ^ 52 ≤ significand) (most : significand < 2 ^ 53) :
    (pack negative e significand).toInt64 =
      if negative then -BitVec.ofNat 64 (significand * 2 ^ e / 2 ^ 52)
      else BitVec.ofNat 64 (significand * 2 ^ e / 2 ^ 52) := by
  have bits : (pack negative e significand).toNat = _ := toNat_pack small most
  have exponent : (pack negative e significand).toNat / 2 ^ 52 % 2 ^ 11 = e + 1023 := by
    rw [bits]
    split <;> omega
  have fraction : 2 ^ 52 + (pack negative e significand).toNat % 2 ^ 52 = significand := by
    rw [bits]
    split <;> omega
  have sign : (pack negative e significand).msb = negative := by
    rw [BitVec.msb_eq_decide, bits]
    cases negative with
    | true => exact decide_eq_true (by simp; omega)
    | false => exact decide_eq_false (by simp; omega)
  rw [toInt64, exponent, fraction, sign, Nat.add_sub_cancel]
  simp only
  rw [if_neg (by omega), if_neg (by omega)]

end Fields

theorem ofInt64_eq_pack {x : BitVec 64} (nonzero : x.toInt.natAbs ≠ 0) (significand : Nat)
    (rounded : significand =
      if x.toInt.natAbs.log2 ≤ 52 then x.toInt.natAbs * 2 ^ (52 - x.toInt.natAbs.log2)
      else
        let unit := 2 ^ (x.toInt.natAbs.log2 - 52)
        let q := x.toInt.natAbs / unit
        let r := x.toInt.natAbs % unit
        if 2 * r > unit ∨ (2 * r = unit ∧ q % 2 = 1) then q + 1 else q) :
    ofInt64 x = pack (decide (x.toInt < 0)) x.toInt.natAbs.log2 significand := by
  rw [ofInt64, pack, rounded]
  simp only [decide_eq_true_eq]
  rw [if_neg nonzero]

/-- A number is known by its sign and its magnitude. -/
theorem eq_of_magnitude (x : BitVec 64) : x = if x.toInt < 0 then -BitVec.ofNat 64 x.toInt.natAbs
    else BitVec.ofNat 64 x.toInt.natAbs := by
  apply BitVec.eq_of_toNat_eq
  have cond := BitVec.toInt_eq_toNat_cond x
  have bound := x.isLt
  split_ifs with negative
  · rw [BitVec.toNat_neg, BitVec.toNat_ofNat]
    split at cond <;> omega
  · rw [BitVec.toNat_ofNat]
    split at cond <;> omega

/-- Up to `2 ^ 53` an integer has a `double` of its own. -/
theorem toInt64_ofInt64 {x : BitVec 64} (bound : x.toInt.natAbs ≤ 2 ^ 53) :
    (ofInt64 x).toInt64 = x := by
  have magnitude := eq_of_magnitude x
  by_cases zero : x.toInt.natAbs = 0
  · obtain rfl : x = 0 := by
      rw [zero] at magnitude
      simpa using magnitude
    decide
  generalize size : x.toInt.natAbs = m at bound zero magnitude
  have low : 2 ^ m.log2 ≤ m := Nat.log2_self_le zero
  have high : m < 2 ^ (m.log2 + 1) := Nat.lt_log2_self
  by_cases short : m.log2 ≤ 52
  · have scale : 2 ^ (52 - m.log2) * 2 ^ m.log2 = 2 ^ 52 := by
      rw [← Nat.pow_add, Nat.sub_add_cancel short]
    have least : 2 ^ 52 ≤ m * 2 ^ (52 - m.log2) := by
      rw [← scale, Nat.mul_comm]
      exact Nat.mul_le_mul_right _ low
    have most : m * 2 ^ (52 - m.log2) < 2 ^ 53 := by
      have scaled := Nat.mul_lt_mul_of_pos_right high (Nat.two_pow_pos (52 - m.log2))
      rwa [← Nat.pow_add, show m.log2 + 1 + (52 - m.log2) = 53 by omega] at scaled
    have back : m * 2 ^ (52 - m.log2) * 2 ^ m.log2 / 2 ^ 52 = m := by
      rw [Nat.mul_assoc, scale, Nat.mul_div_cancel _ (Nat.two_pow_pos 52)]
    rw [ofInt64_eq_pack (by rwa [size]) (m * 2 ^ (52 - m.log2))
      (by rw [size, if_pos short]), size, toInt64_pack (by omega) least most, back]
    simpa using magnitude.symm
  · -- The only one that is left is `2 ^ 53` itself.
    have e : m.log2 = 53 := by
      have less : m.log2 < 54 := (Nat.log2_lt zero).mpr (by omega)
      omega
    rw [e] at low
    obtain rfl : m = 2 ^ 53 := by omega
    rw [ofInt64_eq_pack (by rwa [size]) (2 ^ 52)
      (by rw [size, e]; rfl), size, e, toInt64_pack (by omega) (by omega) (by omega)]
    simpa using magnitude.symm

end Double

namespace Masterd

open Std FiniteMap

/-! ## Attributes -/

/-- The attributes that `setattr` assigns to. -/
inductive Attribute where
  | uid
  | gid
  | mode
  | size
  | atime
  | mtime
  | ctime
  deriving DecidableEq, Repr

def RpcFileInfo.attribute (info : RpcFileInfo) : Attribute → Option (BitVec 64)
  | .uid => info.uid
  | .gid => info.gid
  | .mode => info.mode
  | .size => info.size
  | .atime => info.atime
  | .mtime => info.mtime
  | .ctime => info.ctime

/-- What `getattr` shows of a record. -/
def FileMetadata.shown (metadata : FileMetadata) : Attribute → BitVec 64
  | .uid => metadata.uid.signExtend 64
  | .gid => metadata.gid.signExtend 64
  | .mode => metadata.mode.signExtend 64
  | .size => metadata.size
  | .atime => metadata.atime.toInt64
  | .mtime => metadata.mtime.toInt64
  | .ctime => metadata.ctime.toInt64

/-- What `getattr` shows of a value that was assigned. -/
def Attribute.kept : Attribute → BitVec 64 → BitVec 64
  | .uid, v | .gid, v | .mode, v => (v.setWidth 32).signExtend 64
  | .size, v => v
  | .atime, v | .mtime, v | .ctime, v => (Double.ofInt64 v).toInt64

/-- The values that a record can hold: 32 bits for the ids and the mode, and what a `double`
has of its own for the times. -/
def Attribute.Fits : Attribute → BitVec 64 → Prop
  | .uid, v | .gid, v | .mode, v => -2 ^ 31 ≤ v.toInt ∧ v.toInt < 2 ^ 31
  | .size, _ => True
  | .atime, v | .mtime, v | .ctime, v => v.toInt.natAbs ≤ 2 ^ 53

theorem signExtend_setWidth {v : BitVec 64} (low : -2 ^ 31 ≤ v.toInt) (high : v.toInt < 2 ^ 31) :
    (v.setWidth 32).signExtend 64 = v := by
  apply BitVec.eq_of_toInt_eq
  rw [BitVec.toInt_signExtend_of_le (by decide)]
  have whole := BitVec.toInt_eq_toNat_cond v
  have part := BitVec.toInt_eq_toNat_cond (v.setWidth 32)
  have bound := v.isLt
  rw [BitVec.toNat_setWidth] at part
  split at whole <;> split at part <;> omega

theorem Attribute.kept_of_fits {a : Attribute} {v : BitVec 64} (fits : a.Fits v) :
    a.kept v = v := by
  cases a with
  | uid => exact signExtend_setWidth fits.1 fits.2
  | gid => exact signExtend_setWidth fits.1 fits.2
  | mode => exact signExtend_setWidth fits.1 fits.2
  | size => rfl
  | atime => exact Double.toInt64_ofInt64 fits
  | mtime => exact Double.toInt64_ofInt64 fits
  | ctime => exact Double.toInt64_ofInt64 fits

/-- An assignment is to the attributes that it has. -/
theorem FileMetadata.shown_assign (metadata : FileMetadata) (info : RpcFileInfo) (a : Attribute) :
    (Namespace.FileMetadata.assign metadata info).shown a =
      ((info.attribute a).map a.kept).getD (metadata.shown a) := by
  cases a <;> simp only [shown, Namespace.FileMetadata.assign, RpcFileInfo.attribute]
  case uid => cases info.uid <;> rfl
  case gid => cases info.gid <;> rfl
  case mode => cases info.mode <;> rfl
  case size => cases info.size <;> rfl
  case atime => cases info.atime <;> rfl
  case mtime => cases info.mtime <;> rfl
  case ctime => cases info.ctime <;> rfl

/-- What the last of some assignments to an attribute has given it. -/
def lastSet (a : Attribute) (infos : List RpcFileInfo) : Option (BitVec 64) :=
  (infos.filterMap fun info => info.attribute a).getLast?

theorem FileMetadata.shown_assigned (metadata : FileMetadata) (infos : List RpcFileInfo)
    (a : Attribute) : (infos.foldl Namespace.FileMetadata.assign metadata).shown a =
      ((lastSet a infos).map a.kept).getD (metadata.shown a) := by
  induction infos using List.reverseRecOn with
  | nil => rfl
  | append_singleton infos info ih =>
    rw [List.foldl_append, List.foldl_cons, List.foldl_nil, FileMetadata.shown_assign, ih]
    cases set : info.attribute a with
    | none => simp [set, lastSet]
    | some v => simp [set, lastSet]

namespace Namespace

section Runs

variable [FsPath] [PathHash] [ThriftSerialize FileMetadata]

omit [FsPath] [PathHash] [ThriftSerialize FileMetadata] in
theorem getattr_attribute {ns : Namespace} {path : Str} {m : FileMetadata}
    (found : ns.metadataMap[path]? = some m) : ∃ info, ns.getattr path = (.OK, some info) ∧
      ∀ a, info.attribute a = some (m.shown a) := by
  refine ⟨_, by rw [getattr, found], fun a => ?_⟩
  cases a <;> rfl

/-- What a request assigns to the attributes of a path. -/
def assigned (path : Str) : Request → Option RpcFileInfo
  | .setattr path' info => if path' = path then some info else none
  | _ => none

/-- What a request asks to remove. -/
def removed : Request → Option Str
  | .remove path => some path
  | .rmdir path => some path
  | _ => none

/-- The path is not removed: a request that asks for it is refused, or its write fails. -/
def Leaves (path : Str) (ns : Namespace) (r : Status × Request) : Prop :=
  removed r.2 = some path → ∀ status ns', ns.call r.1 r.2 = .ok (status, ns') → status.ok = false

section Maps

variable {ns ns' : Namespace} {io status : Status} {path : Str} {mode uid gid : BitVec 32}
  {now : Double}

omit [FsPath] in
/-- A file gets a record where there was none. -/
theorem metadataMap_create {oid : Option ObjectId}
    (h : ns.create io now path mode uid gid = .ok (status, oid, ns')) :
    ns'.metadataMap = ns.metadataMap ∨
      path ∉ ns.metadataMap ∧ ∃ m, ns'.metadataMap = ns.metadataMap.insert path m := by
  unfold Namespace.create at h
  split at h
  · cases h
    exact .inl rfl
  · next new =>
    dsimp only [getObjectId, storeMetadata] at h
    split at h
    · cases h
    split at h
    · cases h
    · cases h
      exact .inr ⟨new, _, rfl⟩

omit [FsPath] [PathHash] [ThriftSerialize FileMetadata] in
/-- A file loses its record only to a request that succeeds. -/
theorem metadataMap_remove {oid : Option ObjectId}
    (h : ns.remove io path = .ok (status, oid, ns')) : ns'.metadataMap = ns.metadataMap ∨
      status.ok = true ∧ ns'.metadataMap = ns.metadataMap.erase path := by
  unfold Namespace.remove at h
  split at h
  · cases h
    exact .inl rfl
  split at h
  · cases h
    exact .inl rfl
  dsimp only at h
  split at h
  · cases h
    exact .inl rfl
  split at h
  · cases h
  · cases h
    exact .inr ⟨rfl, rfl⟩

omit [FsPath] [PathHash] in
/-- A directory gets a record where there was none, and loses it when the write fails. -/
theorem metadataMap_mkdir {old : Str} (there : old ∈ ns.metadataMap) :
    (ns.mkdir io now path mode uid gid).2.metadataMap[old]? = ns.metadataMap[old]? := by
  unfold Namespace.mkdir
  split
  · rfl
  · next new =>
    have other : path ≠ old := fun same => new (same ▸ there)
    dsimp only [storeMetadata]
    split
    · rw [getElem?_erase, if_neg other, getElem?_insert, if_neg other]
    · rw [getElem?_insert, if_neg other]

end Maps

/-- A request leaves the record of a path alone, but for what it assigns. -/
theorem metadataMap_call {ns ns' : Namespace} {io status : Status} {r : Request} {path : Str}
    {m : FileMetadata} (found : ns.metadataMap[path]? = some m) (leaves : Leaves path ns (io, r))
    (h : ns.call io r = .ok (status, ns')) : ns'.metadataMap[path]? =
      some ((assigned path r).elim m (FileMetadata.assign m)) := by
  have there : path ∈ ns.metadataMap := (mem_iff_exists _ _).mpr ⟨m, found⟩
  cases r with
  | create path' mode uid gid now =>
    cases made : ns.create io now path' mode uid gid with
    | error e =>
      rw [call, made] at h
      cases h
    | ok result =>
      rw [call, made] at h
      cases h
      rcases metadataMap_create made with same | ⟨new, m', inserted⟩
      · rw [same]
        exact found
      · have other : path' ≠ path := fun same => new (same ▸ there)
        rw [inserted, getElem?_insert, if_neg other]
        exact found
  | remove path' =>
    have stays := fun same => leaves (congrArg some same) status ns' h
    cases gone : ns.remove io path' with
    | error e =>
      rw [call, gone] at h
      cases h
    | ok result =>
      rw [call, gone] at h
      cases h
      rcases metadataMap_remove gone with same | ⟨ok, erased⟩
      · rw [same]
        exact found
      · have other : path' ≠ path := fun same => absurd (ok.symm.trans (stays same)) (by decide)
        rw [erased, getElem?_erase, if_neg other]
        exact found
  | mkdir path' mode uid gid now =>
    have made : (ns.mkdir io now path' mode uid gid).2 = ns' := congrArg Prod.snd (Except.ok.inj h)
    rw [← made, metadataMap_mkdir there]
    exact found
  | rmdir path' =>
    have stays := fun same => leaves (congrArg some same) status ns' h
    have outcome : Outcome ns io _ _ := outcome_rmdir path'
    rw [h] at outcome
    cases outcome with
    | refused => exact found
    | failed => exact found
    | rmdir =>
      have other : path' ≠ path := fun same => absurd (stays same) (by decide)
      simpa [other, assigned] using found
  | addSubfile parent subfile =>
    have outcome : Outcome ns io _ _ := outcome_addSubfile parent subfile
    rw [h] at outcome
    cases outcome with
    | refused => exact found
    | failed => exact found
    | addSubfile => simpa [assigned] using found
  | removeSubfile parent subfile =>
    have outcome : Outcome ns io _ _ := outcome_removeSubfile parent subfile
    rw [h] at outcome
    cases outcome with
    | refused => exact found
    | failed => exact found
    | removeSubfile => simpa [assigned] using found
  | setattr path' info =>
    have outcome : Outcome ns io _ _ := outcome_setattr path' info
    rw [h] at outcome
    have kept (idle : ns.NothingToUndo (.setattr path' info)) : ns.metadataMap[path]? =
        some ((assigned path (.setattr path' info)).elim m (FileMetadata.assign m)) := by
      by_cases here : path' = path
      · subst here
        simpa [assigned, idle m found] using found
      · simpa [assigned, here] using found
    have inserted (m' : FileMetadata) (found' : ns.metadataMap[path']? = some m') :
        (ns.metadataMap.insert path' (FileMetadata.assign m' info))[path]? =
          some ((assigned path (.setattr path' info)).elim m (FileMetadata.assign m)) := by
      by_cases here : path' = path
      · subst here
        cases found.symm.trans found'
        simp [assigned]
      · simpa [assigned, here] using found
    cases outcome with
    | refused _ idle => exact kept idle
    | failed _ idle => exact kept idle
    | setattrFailed _ found' => exact inserted _ found'
    | setattr _ found' => exact inserted _ found'

/-- A request with the status of its write, where the answer is of no interest. -/
def served (ns : Namespace) (r : Status × Request) : Cpp Namespace :=
  (ns.call r.1 r.2).map Prod.snd

/-- What the requests have assigned to the attributes of a path, one after the other. -/
def assignments (path : Str) (rs : List (Status × Request)) : List RpcFileInfo :=
  rs.filterMap fun r => assigned path r.2

theorem metadataMap_run {ns ns' : Namespace} {path : Str} {m : FileMetadata}
    {rs : List (Status × Request)} (found : ns.metadataMap[path]? = some m)
    (leaves : Transition.Meets served (Leaves path) ns rs)
    (ran : Transition.run served ns rs = .ok ns') :
    ns'.metadataMap[path]? = some ((assignments path rs).foldl FileMetadata.assign m) := by
  induction rs generalizing ns m with
  | nil =>
    cases ran
    exact found
  | cons r rs ih =>
    unfold Transition.run at ran
    split at ran
    · next ns₁ first =>
      rw [served] at first
      cases called : ns.call r.1 r.2 with
      | error e =>
        rw [called] at first
        cases first
      | ok result =>
        rw [called] at first
        cases first
        have step := metadataMap_call found leaves.1 called
        have later := ih step (leaves.2 _ (by rw [served, called]; rfl)) ran
        rw [later, assignments, assignments, List.filterMap_cons]
        cases assigned path r.2 <;> rfl
    · cases ran

/-- In a run of requests, with any of the writes to the store failing, every attribute of a path
that is not removed has the value that was set last, if that value fits, and the one from before
if none was set. Requests to remove the path may be among them, as long as none succeeds. -/
theorem getattr_last_set {ns ns' : Namespace} {path : Str} {m : FileMetadata}
    {rs : List (Status × Request)} (found : ns.metadataMap[path]? = some m)
    (leaves : Transition.Meets served (Leaves path) ns rs)
    (ran : Transition.run served ns rs = .ok ns') :
    ∃ info, ns'.getattr path = (.OK, some info) ∧ ∀ a : Attribute,
      (∀ v, lastSet a (assignments path rs) = some v → a.Fits v → info.attribute a = some v) ∧
      (lastSet a (assignments path rs) = none → info.attribute a = some (m.shown a)) := by
  obtain ⟨info, got, shows⟩ := getattr_attribute (metadataMap_run found leaves ran)
  refine ⟨info, got, fun a => ⟨fun v set fits => ?_, fun unset => ?_⟩⟩
  · rw [shows, FileMetadata.shown_assigned, set, Option.map_some, Option.getD_some,
      Attribute.kept_of_fits fits]
  · rw [shows, FileMetadata.shown_assigned, unset]
    rfl

end Runs

section Example

attribute [local instance] Posix.fsPath Md5.pathHash BinaryProtocol.fileMetadataThrift

/-- A new mode, a new owner whose write fails, a directory, two removals of the file that come
to nothing, and another mode. -/
def changes : List (Status × Request) :=
  [(.OK, .setattr "/a".toList { mode := some 0o100600 }),
    (ioError, .setattr "/a".toList { uid := some 7, gid := some 8 }),
    (.OK, .mkdir "/d".toList 0o755 0 0 0),
    (.OK, .rmdir "/a".toList),
    (ioError, .remove "/a".toList),
    (.OK, .setattr "/a".toList { mode := some 0o100640 })]

theorem changes_leave : Transition.Meets served (Leaves "/a".toList) oneFile changes := by
  have other {ns : Namespace} {r : Status × Request} (kept : removed r.2 = none) :
      Leaves "/a".toList ns r := by simp [Leaves, kept]
  refine .cons rfl (other rfl) (.cons rfl (other rfl) (.cons rfl (other rfl) ?_))
  refine .cons rfl ?refused (.cons rfl ?failed (.cons rfl (other rfl) trivial))
  case refused =>
    rintro - status ns' ⟨⟩
    rfl
  case failed =>
    rintro - status ns' ⟨⟩
    rfl

theorem oneFile_last_set : ∃ ns', Transition.run served oneFile changes = .ok ns' ∧
    ∃ info, ns'.getattr "/a".toList = (.OK, some info) ∧ ∀ a : Attribute,
      (∀ v, lastSet a (assignments "/a".toList changes) = some v → a.Fits v →
        info.attribute a = some v) ∧
      (lastSet a (assignments "/a".toList changes) = none →
        info.attribute a = some ((newFile 5 0o644 1 1 0).shown a)) :=
  ⟨_, rfl, getattr_last_set (by simp [oneFile]) changes_leave rfl⟩

end Example

end Namespace

end Masterd

end Vsfs
