import Std.Data.ExtTreeMap.Lemmas
import Vsfs.Common.Basic
import Vsfs.Lib.Overlay

/-!
# Writing to an open file

`vsfs_write` writes one buffer at an offset and `vsfs_write_buf` a vector of them. The kernel
below is a state of which only what `pwrite` does to an open file is known.
-/

namespace Vsfs.Fuse

open Std

abbrev Byte := BitVec 8

def EBADF : Int := 9

/-- `content` is what the file behind a descriptor holds. -/
class SystemCalls (σ : Type) where
  content : Int → σ → List Byte
  pwrite : Int → List Byte → Int → σ → Int × σ
  errno : σ → Int

open SystemCalls

/-- `pwrite(2)` returns how many bytes it has written, to a file that is not open for appending. -/
class LawfulPwrite (σ : Type) [SystemCalls σ] : Prop where
  written : ∀ (fd : Int) (buf : List Byte) (offset : Int) (s : σ) (n : Nat),
    (pwrite fd buf offset s).1 = n →
    0 ≤ offset ∧ content fd (pwrite fd buf offset s).2 =
      Overlay.write (content fd s) offset.toNat (buf.take n)

structure PosixFileHandler where
  fd : Int

/-- A closed file has lost its handler. -/
structure File where
  fileHandler : Option PosixFileHandler

/-- `fh_to_obj_map_`, the open files by their handles. -/
abbrev FhToObjMap := ExtTreeMap (BitVec 64) File

def getFile (fhToObjMap : FhToObjMap) (fd : BitVec 64) : Option File := fhToObjMap[fd]?

/-- A buffer in memory; its size is the length of `mem`. -/
structure FuseBuf where
  mem : List Byte

structure FuseBufvec where
  buf : List FuseBuf

/-- The bytes of the buffers, one buffer after the other. -/
def FuseBufvec.bytes (bufv : FuseBufvec) : List Byte := (bufv.buf.map FuseBuf.mem).flatten

/-- A `ssize_t` as an `int`. -/
def toInt32 (n : Int) : Int := n.bmod (2 ^ 32)

section Operations

variable {σ : Type} [SystemCalls σ]

def PosixFileHandler.write (handler : PosixFileHandler) (buf : List Byte) (offset : Int) (s : σ) :
    Int × σ :=
  pwrite handler.fd buf offset s

def File.write (file : File) (buf : List Byte) (offset : Int) (s : σ) : Int × σ :=
  match file.fileHandler with
  | some handler => handler.write buf offset s
  | none => (-1, s)

def vsfsWrite (fhToObjMap : FhToObjMap) (buf : List Byte) (offset : Int) (fh : BitVec 64) (s : σ) :
    Int × σ :=
  match getFile fhToObjMap fh with
  | none => (-EBADF, s)
  | some file =>
    let (nwrite, s) := file.write buf offset s
    if nwrite = -1 then (-errno s, s) else (toInt32 nwrite, s)

/-- The loop of `vsfs_write_buf`: every buffer is written at `off`. -/
def writeBufs (file : File) (off : Int) (totalWrite : Int) : List FuseBuf → σ → Int × σ
  | [], s => (toInt32 totalWrite, s)
  | buf :: bufs, s =>
    let (nwrite, s) := file.write buf.mem off s
    if nwrite = -1 then (-errno s, s) else writeBufs file off (totalWrite + nwrite) bufs s

def vsfsWriteBuf (fhToObjMap : FhToObjMap) (bufv : FuseBufvec) (off : Int) (fh : BitVec 64)
    (s : σ) : Int × σ :=
  match getFile fhToObjMap fh with
  | none => (-EINVAL, s)
  | some file => writeBufs file off 0 bufv.buf s

/-- Every `pwrite` of the loop writes its whole buffer. -/
def WritesWhole (fd : Int) (off : Int) : List FuseBuf → σ → Prop
  | [], _ => True
  | buf :: bufs, s =>
    (pwrite fd buf.mem off s).1 = buf.mem.length ∧
      WritesWhole fd off bufs (pwrite fd buf.mem off s).2

/-- The vectored write leaves in the file behind `fd` what one write of all the bytes leaves
there, and returns their number. -/
def Contiguous (fhToObjMap : FhToObjMap) (fd : Int) (bufv : FuseBufvec) (off : Int)
    (fh : BitVec 64) (s : σ) : Prop :=
  content fd (vsfsWriteBuf fhToObjMap bufv off fh s).2 =
      content fd (vsfsWrite fhToObjMap bufv.bytes off fh s).2 ∧
    (vsfsWriteBuf fhToObjMap bufv off fh s).1 = bufv.bytes.length

end Operations

theorem write_some {σ : Type} [SystemCalls σ] (handler : PosixFileHandler) (buf : List Byte)
    (offset : Int) (s : σ) :
    File.write ⟨some handler⟩ buf offset s = pwrite handler.fd buf offset s := rfl

section Whole

variable {σ : Type} [SystemCalls σ] [LawfulPwrite σ] {handler : PosixFileHandler} {off : Int}

/-- A `pwrite` that goes through lays the buffer over the file. -/
theorem content_pwrite {fd : Int} {buf : List Byte} {s : σ}
    (whole : (pwrite fd buf off s).1 = buf.length) :
    content fd (pwrite fd buf off s).2 = Overlay.write (content fd s) off.toNat buf := by
  obtain ⟨_, written⟩ := LawfulPwrite.written fd buf off s buf.length whole
  rw [List.take_length] at written
  exact written

/-- The loop lays the buffers over each other, and counts them one after the other. -/
theorem writeBufs_whole (total : Int) {bufs : List FuseBuf} {s : σ}
    (whole : WritesWhole handler.fd off bufs s) :
    (writeBufs ⟨some handler⟩ off total bufs s).1 =
        toInt32 (total + (bufs.map FuseBuf.mem).flatten.length) ∧
      content handler.fd (writeBufs ⟨some handler⟩ off total bufs s).2 =
        Overlay.writeAll (content handler.fd s) off.toNat (bufs.map FuseBuf.mem) := by
  induction bufs generalizing total s with
  | nil =>
    refine ⟨?_, rfl⟩
    show toInt32 total = toInt32 (total + 0)
    rw [Int.add_zero]
  | cons buf bufs ih =>
    obtain ⟨first, rest⟩ := whole
    have here : writeBufs ⟨some handler⟩ off total (buf :: bufs) s =
        writeBufs ⟨some handler⟩ off (total + buf.mem.length) bufs
          (pwrite handler.fd buf.mem off s).2 := by
      simp only [writeBufs, write_some, first]
      rw [if_neg (by omega)]
    obtain ⟨count, bytes⟩ := ih (total + buf.mem.length) rest
    rw [here, count, bytes, content_pwrite first]
    refine ⟨?_, rfl⟩
    rw [List.map_cons, List.flatten_cons, List.length_append]
    congr 1
    omega

/-- One write that goes through. -/
theorem vsfsWrite_whole {fhToObjMap : FhToObjMap} {fh : BitVec 64} {buf : List Byte} {s : σ}
    (isOpen : getFile fhToObjMap fh = some ⟨some handler⟩)
    (whole : (pwrite handler.fd buf off s).1 = buf.length) :
    content handler.fd (vsfsWrite fhToObjMap buf off fh s).2 =
      Overlay.write (content handler.fd s) off.toNat buf := by
  have here : (vsfsWrite fhToObjMap buf off fh s).2 = (pwrite handler.fd buf off s).2 := by
    simp only [vsfsWrite, isOpen, write_some, whole]
    rw [if_neg (by omega)]
  rw [here, content_pwrite whole]

theorem toInt32_eq_iff (n : Nat) : toInt32 n = n ↔ n < 2 ^ 31 := by
  unfold toInt32
  constructor
  · intro same
    have bound := Int.bmod_lt (x := (n : Int)) (m := 2 ^ 32) (by decide)
    rw [same] at bound
    omega
  · intro small
    apply Int.bmod_eq_of_le
    · omega
    · omega

/-- A vectored write over an open file is contiguous just when the buffers, laid over each
other, look like the buffers in a row. -/
theorem contiguous_iff_writeAll {fhToObjMap : FhToObjMap} {fh : BitVec 64} {bufv : FuseBufvec}
    {s : σ} (isOpen : getFile fhToObjMap fh = some ⟨some handler⟩)
    (whole : WritesWhole handler.fd off bufv.buf s)
    (single : (pwrite handler.fd bufv.bytes off s).1 = bufv.bytes.length) :
    Contiguous fhToObjMap handler.fd bufv off fh s ↔
      Overlay.writeAll (content handler.fd s) off.toNat (bufv.buf.map FuseBuf.mem) =
        Overlay.write (content handler.fd s) off.toNat bufv.bytes ∧
      bufv.bytes.length < 2 ^ 31 := by
  obtain ⟨count, bytes⟩ := writeBufs_whole 0 whole
  have here : vsfsWriteBuf fhToObjMap bufv off fh s =
      writeBufs ⟨some handler⟩ off 0 bufv.buf s := by
    simp only [vsfsWriteBuf, isOpen]
  rw [Int.zero_add] at count
  unfold Contiguous
  rw [here, bytes, count, vsfsWrite_whole isOpen single]
  exact and_congr Iff.rfl (toInt32_eq_iff bufv.bytes.length)

/-- Every buffer is written at the offset of the first: the file ends up as after one write just
when the last buffer that reaches a position, or else the old content, has there what belongs
there. -/
theorem writeBuf_contiguous_iff {fhToObjMap : FhToObjMap} {fh : BitVec 64} {bufv : FuseBufvec}
    {s : σ} (isOpen : getFile fhToObjMap fh = some ⟨some handler⟩)
    (whole : WritesWhole handler.fd off bufv.buf s)
    (single : (pwrite handler.fd bufv.bytes off s).1 = bufv.bytes.length) :
    Contiguous fhToObjMap handler.fd bufv off fh s ↔
      (∀ j b, bufv.bytes[j]? = some b →
        (Overlay.uppermost (bufv.buf.map FuseBuf.mem) j).or
          (content handler.fd s)[off.toNat + j]? = some b) ∧
      bufv.bytes.length < 2 ^ 31 := by
  rw [contiguous_iff_writeAll isOpen whole single]
  exact and_congr (Overlay.writeAll_eq_write_flatten_iff _ _ _) Iff.rfl

/-- With one buffer, or one that is not empty, the offset need not move. -/
theorem contiguous_of_lone {fhToObjMap : FhToObjMap} {fh : BitVec 64} {bufv : FuseBufvec}
    {s : σ} (isOpen : getFile fhToObjMap fh = some ⟨some handler⟩)
    (whole : WritesWhole handler.fd off bufv.buf s)
    (single : (pwrite handler.fd bufv.bytes off s).1 = bufv.bytes.length)
    (lone : ((bufv.buf.map FuseBuf.mem).filter (!·.isEmpty)).length ≤ 1)
    (small : bufv.bytes.length < 2 ^ 31) : Contiguous fhToObjMap handler.fd bufv off fh s :=
  (contiguous_iff_writeAll isOpen whole single).mpr
    ⟨Overlay.writeAll_eq_of_lone _ _ lone, small⟩

/-- Two buffers that are not empty never make the file as long as it should be. -/
theorem not_contiguous_of_two {fhToObjMap : FhToObjMap} {fh : BitVec 64} {bufv : FuseBufvec}
    {s : σ} (isOpen : getFile fhToObjMap fh = some ⟨some handler⟩)
    (whole : WritesWhole handler.fd off bufv.buf s)
    (single : (pwrite handler.fd bufv.bytes off s).1 = bufv.bytes.length)
    (two : 2 ≤ ((bufv.buf.map FuseBuf.mem).filter (!·.isEmpty)).length)
    (short : (content handler.fd s).length < off.toNat + bufv.bytes.length) :
    ¬ Contiguous fhToObjMap handler.fd bufv off fh s := by
  intro same
  obtain ⟨bytes, _⟩ := (contiguous_iff_writeAll isOpen whole single).mp same
  exact Overlay.writeAll_ne_of_two two short bytes

end Whole

section Example

/-- A system with one file, where every write with an offset goes through. -/
structure OneFile where
  bytes : List Byte

instance oneFileCalls : SystemCalls OneFile where
  content _ s := s.bytes
  pwrite _ buf offset s :=
    if offset < 0 then (-1, s) else (buf.length, ⟨Overlay.write s.bytes offset.toNat buf⟩)
  errno _ := EINVAL

instance : LawfulPwrite OneFile where
  written := by
    intro fd buf offset s n returned
    simp only [pwrite, content] at returned ⊢
    split at returned
    · omega
    · next nonneg =>
      rw [if_neg nonneg]
      obtain rfl : buf.length = n := Int.ofNat.inj returned
      rw [List.take_length]
      exact ⟨by omega, rfl⟩

/-- The file with the descriptor 3 is open. -/
def threeOpen : FhToObjMap := (∅ : FhToObjMap).insert 3 ⟨some ⟨3⟩⟩

theorem getFile_threeOpen : getFile threeOpen 3 = some ⟨some ⟨3⟩⟩ := by
  simp [getFile, threeOpen]

/-- An empty buffer, and then the only one with something in it. -/
def emptyThenAb : FuseBufvec := ⟨[⟨[]⟩, ⟨[0x61, 0x62]⟩]⟩

theorem emptyThenAb_contiguous : Contiguous threeOpen 3 emptyThenAb 0 3 (⟨[]⟩ : OneFile) := by
  apply (@writeBuf_contiguous_iff OneFile _ _ ⟨3⟩ 0 threeOpen 3 emptyThenAb ⟨[]⟩ getFile_threeOpen
    ⟨rfl, rfl, trivial⟩ rfl).mpr
  refine ⟨?_, by decide⟩
  intro j b seen
  match j, seen with
  | 0, seen => exact seen
  | 1, seen => exact seen
  | j + 2, seen => cases seen

/-- Of two buffers the second one is written over the first. -/
theorem not_contiguous_aThenB :
    ¬ ∀ (bufv : FuseBufvec) (off : Int) (s : OneFile), WritesWhole 3 off bufv.buf s →
      (pwrite 3 bufv.bytes off s).1 = bufv.bytes.length →
      Contiguous threeOpen 3 bufv off 3 s := by
  intro h
  have contiguous := h ⟨[⟨[0x61]⟩, ⟨[0x62]⟩]⟩ 0 ⟨[]⟩ ⟨rfl, rfl, trivial⟩ rfl
  exact @not_contiguous_of_two OneFile _ _ ⟨3⟩ 0 threeOpen 3 ⟨[⟨[0x61]⟩, ⟨[0x62]⟩]⟩ ⟨[]⟩
    getFile_threeOpen ⟨rfl, rfl, trivial⟩ rfl (by decide) (by decide) contiguous

end Example

end Vsfs.Fuse
