import Vsfs.Indexd.RangeIndexWrapper
import Vsfs.Masterd.IndexNamespace
import Vsfs.Masterd.Namespace
import Vsfs.Masterd.PartitionManager

/-!
# `TBinaryProtocol`

The wire format of the structs that are written to disk: big-endian integers, strings
and lists with a 32 bit length, one type byte and a 16 bit id in front of every field, a
zero byte at the end of a struct.
-/

namespace Vsfs.BinaryProtocol

open Index Indexd Masterd

/-- The low `n` bytes of `x`, most significant first. -/
def bigEndian (n x : Nat) : Str :=
  (List.range n).map (fun i => Char.ofNat (x / 256 ^ (n - 1 - i) % 256))

def string (s : Str) : Str := bigEndian 4 s.length ++ s

def field (type id : Nat) (payload : Str) : Str := bigEndian 1 type ++ bigEndian 2 id ++ payload

def stop : Str := bigEndian 1 0

def list (type : Nat) (elements : List Str) : Str :=
  bigEndian 1 type ++ bigEndian 4 elements.length ++ elements.flatten

def tDouble : Nat := 4
def tI32 : Nat := 8
def tI64 : Nat := 10
def tString : Nat := 11
def tStruct : Nat := 12
def tSet : Nat := 14
def tList : Nat := 15

def logEntity (e : LogEntity) : Str :=
  field tI64 1 (bigEndian 8 e.txnId) ++ field tString 2 (string e.data) ++ stop

@[reducible] def logBuffer : ThriftSerialize LogBuffer where
  serialize b := field tList 1 (list tStruct (b.buffer.map logEntity)) ++ stop

/-- The numbers thrift gives to the constants of `RpcIndexUpdateOpCode`. -/
def opCode : UpdateOpCode → Nat
  | .unknown => 0
  | .insert => 1
  | .update => 2
  | .remove => 3

def recordUpdateOp (u : RecordUpdateOp) : Str :=
  field tI32 1 (bigEndian 4 (opCode u.op)) ++ field tString 2 (string u.key) ++
    (if u.value.isEmpty then [] else field tString 3 (string u.value)) ++ stop

@[reducible] def recordUpdateList : ThriftSerialize RecordUpdateList where
  serialize l := field tString 1 (string l.rootPath) ++ field tString 2 (string l.name) ++
    field tList 3 (list tStruct (l.recordUpdates.map recordUpdateOp)) ++ stop

@[reducible] def indexNamespaceNode : ThriftSerialize IndexNamespaceNode where
  serialize n := field tString 1 (string n.path) ++
    field tSet 2 (list tString (n.names.toList.map string)) ++ stop

/-! ## Metadata records

These are read back as well. -/

def fileMetadata (m : FileMetadata) : Str :=
  field tI64 1 (bigEndian 8 m.objectId.toNat) ++ field tI32 2 (bigEndian 4 m.mode.toNat) ++
    field tI32 3 (bigEndian 4 m.gid.toNat) ++ field tI32 4 (bigEndian 4 m.uid.toNat) ++
    field tI64 5 (bigEndian 8 m.size.toNat) ++ field tDouble 6 (bigEndian 8 m.atime.toNat) ++
    field tDouble 7 (bigEndian 8 m.ctime.toNat) ++ field tDouble 8 (bigEndian 8 m.mtime.toNat) ++
    stop

/-- The number written in the first `n` bytes, and the bytes after them. -/
def readInt (n : Nat) (s : Str) : Option (Nat × Str) :=
  if s.length < n then none
  else some ((s.take n).foldl (fun x c => x * 256 + c.toNat) 0, s.drop n)

/-- The payload of the field `id` of `n` bytes, and what comes after it. -/
def readField (type id n : Nat) (s : Str) : Option (Nat × Str) :=
  match readInt 1 s with
  | none => none
  | some (t, s) =>
    match readInt 2 s with
    | none => none
    | some (i, s) => if t = type ∧ i = id then readInt n s else none

def readFileMetadata (s : Str) : Option FileMetadata := do
  let (objectId, s) ← readField tI64 1 8 s
  let (mode, s) ← readField tI32 2 4 s
  let (gid, s) ← readField tI32 3 4 s
  let (uid, s) ← readField tI32 4 4 s
  let (size, s) ← readField tI64 5 8 s
  let (atime, s) ← readField tDouble 6 8 s
  let (ctime, s) ← readField tDouble 7 8 s
  let (mtime, _) ← readField tDouble 8 8 s
  some
    { objectId := .ofNat _ objectId, mode := .ofNat _ mode, gid := .ofNat _ gid
      uid := .ofNat _ uid, size := .ofNat _ size, atime := .ofNat _ atime
      ctime := .ofNat _ ctime, mtime := .ofNat _ mtime }

theorem toNat_byte (x : Nat) : (Char.ofNat (x % 256)).toNat = x % 256 := by
  have less : x % 256 < 256 := Nat.mod_lt _ (by omega)
  have valid : (x % 256).isValidChar := Or.inl (by omega)
  rw [Char.ofNat, dif_pos valid]
  rfl

theorem bigEndian_succ (n x : Nat) :
    bigEndian (n + 1) x = bigEndian n (x / 256) ++ [Char.ofNat (x % 256)] := by
  rw [bigEndian, List.range_succ, List.map_append]
  refine congrArg₂ _ (List.map_congr_left fun i hi => ?_) (by simp)
  have less : i < n := List.mem_range.mp hi
  have exponent : n + 1 - 1 - i = (n - 1 - i) + 1 := by omega
  rw [exponent, Nat.pow_succ', Nat.div_div_eq_div_mul]

@[simp] theorem length_bigEndian (n x : Nat) : (bigEndian n x).length = n := by
  simp [bigEndian]

theorem value_bigEndian (n x : Nat) :
    (bigEndian n x).foldl (fun x c => x * 256 + c.toNat) 0 = x % 256 ^ n := by
  induction n generalizing x with
  | zero => simp [bigEndian, Nat.mod_one]
  | succ n ih =>
    rw [bigEndian_succ, List.foldl_append, ih, Nat.pow_succ', Nat.mod_mul]
    simp only [List.foldl_cons, List.foldl_nil, toNat_byte]
    omega

theorem readInt_bigEndian (n x : Nat) (rest : Str) :
    readInt n (bigEndian n x ++ rest) = some (x % 256 ^ n, rest) := by
  have enough : ¬ (bigEndian n x ++ rest).length < n := by simp
  rw [readInt, if_neg enough, List.take_left' (by simp), List.drop_left' (by simp),
    value_bigEndian]

theorem readField_field {type id : Nat} (ht : type < 256) (hi : id < 65536) (n x : Nat)
    (rest : Str) :
    readField type id n (field type id (bigEndian n x) ++ rest) = some (x % 256 ^ n, rest) := by
  simp only [field, List.append_assoc, readField, readInt_bigEndian]
  simp [Nat.mod_eq_of_lt, ht, hi]

@[simp] theorem readField_i32 {id : Nat} (hi : id < 65536) (x : BitVec 32) (rest : Str) :
    readField tI32 id 4 (field tI32 id (bigEndian 4 x.toNat) ++ rest) = some (x.toNat, rest) := by
  rw [readField_field (by decide) hi, Nat.mod_eq_of_lt (by simpa using x.isLt)]

@[simp] theorem readField_i64 {id : Nat} (hi : id < 65536) (x : BitVec 64) (rest : Str) :
    readField tI64 id 8 (field tI64 id (bigEndian 8 x.toNat) ++ rest) = some (x.toNat, rest) := by
  rw [readField_field (by decide) hi, Nat.mod_eq_of_lt (by simpa using x.isLt)]

@[simp] theorem readField_double {id : Nat} (hi : id < 65536) (x : Double) (rest : Str) :
    readField tDouble id 8 (field tDouble id (bigEndian 8 x.toNat) ++ rest) =
      some (x.toNat, rest) := by
  rw [readField_field (by decide) hi, Nat.mod_eq_of_lt (by simpa using x.isLt)]

@[reducible] def fileMetadataThrift : Thrift FileMetadata where
  serialize := fileMetadata
  deserialize := readFileMetadata

theorem readFileMetadata_fileMetadata (m : FileMetadata) :
    readFileMetadata (fileMetadata m) = some m := by
  simp [readFileMetadata, fileMetadata]

instance lawfulFileMetadata : @LawfulThrift FileMetadata fileMetadataThrift :=
  @LawfulThrift.mk _ fileMetadataThrift readFileMetadata_fileMetadata

/-! ## Records with texts

A length is an `i32`. The protocol has no longer texts and lists; so that every struct can be
read back, their length is written in unary here, behind a length that does not occur. -/

def size (n : Nat) : Str :=
  if n < 2 ^ 31 then bigEndian 4 n
  else bigEndian 4 (2 ^ 31) ++ (List.replicate n '1' ++ ['0'])

def readSize (s : Str) : Option (Nat × Str) :=
  match readInt 4 s with
  | none => none
  | some (n, s) =>
    if n < 2 ^ 31 then some (n, s)
    else some ((s.takeWhile (· = '1')).length, (s.dropWhile (· = '1')).drop 1)

@[simp] theorem readSize_size (n : Nat) (rest : Str) :
    readSize (size n ++ rest) = some (n, rest) := by
  by_cases small : n < 2 ^ 31
  · rw [size, if_pos small, readSize, readInt_bigEndian, Nat.mod_eq_of_lt (by omega)]
    exact if_pos small
  · rw [size, if_neg small, readSize, List.append_assoc, readInt_bigEndian]
    have ones : ∀ c ∈ List.replicate n '1', decide (c = '1') = true := by
      intro c hc
      simp [List.eq_of_mem_replicate hc]
    simp [List.takeWhile_append_of_pos ones, List.dropWhile_append_of_pos ones]

def text (s : Str) : Str := size s.length ++ s

def readText (s : Str) : Option (Str × Str) :=
  match readSize s with
  | none => none
  | some (n, s) => if s.length < n then none else some (s.take n, s.drop n)

@[simp] theorem readText_text (s rest : Str) : readText (text s ++ rest) = some (s, rest) := by
  simp [text, readText]

/-- The head of the field `id`, and what comes after it. -/
def readHead (type id : Nat) (s : Str) : Option Str :=
  match readInt 1 s with
  | none => none
  | some (t, s) =>
    match readInt 2 s with
    | none => none
    | some (i, s) => if t = type ∧ i = id then some s else none

@[simp] theorem readHead_field {type id : Nat} (ht : type < 256) (hi : id < 65536)
    (payload rest : Str) :
    readHead type id (field type id payload ++ rest) = some (payload ++ rest) := by
  simp only [field, List.append_assoc, readHead, readInt_bigEndian]
  simp [Nat.mod_eq_of_lt, ht, hi]

/-- The elements of a list or a set, with their type and their number in front. -/
def elements {α : Type} (type : Nat) (write : α → Str) (l : List α) : Str :=
  bigEndian 1 type ++ size l.length ++ l.flatMap write

def readMany {α : Type} (read : Str → Option (α × Str)) : Nat → Str → Option (List α × Str)
  | 0, s => some ([], s)
  | n + 1, s => do
    let (a, s) ← read s
    let (l, s) ← readMany read n s
    some (a :: l, s)

def readElements {α : Type} (read : Str → Option (α × Str)) (s : Str) : Option (List α × Str) := do
  let (_, s) ← readInt 1 s
  let (n, s) ← readSize s
  readMany read n s

theorem readElements_elements {α : Type} {type : Nat} {write : α → Str}
    {read : Str → Option (α × Str)} (inverse : ∀ a rest, read (write a ++ rest) = some (a, rest))
    (l : List α) (rest : Str) :
    readElements read (elements type write l ++ rest) = some (l, rest) := by
  have many : readMany read l.length (l.flatMap write ++ rest) = some (l, rest) := by
    induction l with
    | nil => rfl
    | cons a l ih => simp [readMany, inverse, ih]
  simp [readElements, elements, readInt_bigEndian, many]

def writeIndexNamespaceNode (n : IndexNamespaceNode) : Str :=
  field tString 1 (text n.path) ++ field tSet 2 (elements tString text n.names.toList) ++ stop

def readIndexNamespaceNode (s : Str) : Option IndexNamespaceNode := do
  let s ← readHead tString 1 s
  let (path, s) ← readText s
  let s ← readHead tSet 2 s
  let (names, _) ← readElements readText s
  some ⟨path, Std.ExtTreeSet.ofList names⟩

theorem readIndexNamespaceNode_write (n : IndexNamespaceNode) :
    readIndexNamespaceNode (writeIndexNamespaceNode n) = some n := by
  have names : Std.ExtTreeSet.ofList n.names.toList = n.names := by
    refine Std.ExtTreeSet.ext_mem fun name => ?_
    simp [Std.ExtTreeSet.mem_ofList]
  simp [readIndexNamespaceNode, writeIndexNamespaceNode, readElements_elements readText_text,
    tString, tSet, names]

@[reducible] def indexNamespaceNodeThrift : Thrift IndexNamespaceNode where
  serialize := writeIndexNamespaceNode
  deserialize := readIndexNamespaceNode

instance lawfulIndexNamespaceNode : @LawfulThrift IndexNamespaceNode indexNamespaceNodeThrift :=
  @LawfulThrift.mk _ indexNamespaceNodeThrift readIndexNamespaceNode_write

def indexPartition (p : IndexPartition) : Str :=
  field tI64 1 (bigEndian 8 p.hashSep.toNat) ++ field tString 2 (text p.path) ++ stop

def readIndexPartition (s : Str) : Option (IndexPartition × Str) := do
  let (hashSep, s) ← readField tI64 1 8 s
  let s ← readHead tString 2 s
  let (path, s) ← readText s
  let (_, s) ← readInt 1 s
  some (⟨.ofNat _ hashSep, path⟩, s)

theorem readIndexPartition_indexPartition (p : IndexPartition) (rest : Str) :
    readIndexPartition (indexPartition p ++ rest) = some (p, rest) := by
  simp [readIndexPartition, indexPartition, stop, readInt_bigEndian, tString]

def writeIndexConsistentHashRing (ring : IndexConsistentHashRing) : Str :=
  field tList 1 (elements tStruct indexPartition ring.partitions) ++ stop

def readIndexConsistentHashRing (s : Str) : Option IndexConsistentHashRing := do
  let s ← readHead tList 1 s
  let (partitions, _) ← readElements readIndexPartition s
  some ⟨partitions⟩

theorem readIndexConsistentHashRing_write (ring : IndexConsistentHashRing) :
    readIndexConsistentHashRing (writeIndexConsistentHashRing ring) = some ring := by
  simp [readIndexConsistentHashRing, writeIndexConsistentHashRing,
    readElements_elements readIndexPartition_indexPartition, tList]

@[reducible] def indexConsistentHashRingThrift : Thrift IndexConsistentHashRing where
  serialize := writeIndexConsistentHashRing
  deserialize := readIndexConsistentHashRing

instance lawfulIndexConsistentHashRing :
    @LawfulThrift IndexConsistentHashRing indexConsistentHashRingThrift :=
  @LawfulThrift.mk _ indexConsistentHashRingThrift readIndexConsistentHashRing_write

/-! ## The log

An id past 64 bits, which the protocol does not have either, is written with its upper part
in unary in a field of its own. -/

def writeLogEntity (e : LogEntity) : Str :=
  field tI64 1 (bigEndian 8 e.txnId) ++ field tString 2 (text e.data) ++
    if e.txnId < 2 ^ 64 then stop
    else field tString 3 (text (List.replicate (e.txnId / 2 ^ 64) '1')) ++ stop

def readLogEntity (s : Str) : Option (LogEntity × Str) := do
  let (txnId, s) ← readField tI64 1 8 s
  let s ← readHead tString 2 s
  let (data, s) ← readText s
  match readHead tString 3 s with
  | none =>
    let (_, s) ← readInt 1 s
    some (⟨txnId, data⟩, s)
  | some s =>
    let (upper, s) ← readText s
    let (_, s) ← readInt 1 s
    some (⟨upper.length * 2 ^ 64 + txnId, data⟩, s)

@[simp] theorem readInt_stop (rest : Str) : readInt 1 (stop ++ rest) = some (0, rest) := by
  rw [stop, readInt_bigEndian, Nat.zero_mod]

theorem readHead_stop {type : Nat} (ht : type ≠ 0) (id : Nat) (rest : Str) :
    readHead type id (stop ++ rest) = none := by
  unfold readHead
  rw [readInt_stop]
  dsimp only
  split
  · rfl
  · exact if_neg fun h => ht h.1.symm

theorem readLogEntity_writeLogEntity (e : LogEntity) (rest : Str) :
    readLogEntity (writeLogEntity e ++ rest) = some (e, rest) := by
  have first (s : Str) : readField tI64 1 8 (field tI64 1 (bigEndian 8 e.txnId) ++ s) =
      some (e.txnId % 2 ^ 64, s) := readField_field (by decide) (by decide) 8 e.txnId s
  have second (s : Str) : readHead tString 2 (field tString 2 (text e.data) ++ s) =
      some (text e.data ++ s) := readHead_field (by decide) (by decide) _ s
  by_cases small : e.txnId < 2 ^ 64
  · have last : readHead tString 3 (stop ++ rest) = none := readHead_stop (by decide) 3 rest
    simp only [writeLogEntity, readLogEntity, if_pos small, List.append_assoc, first, second,
      Option.bind_eq_bind, Option.bind_some, readText_text, last, readInt_stop,
      Nat.mod_eq_of_lt small]
  · have third (s : Str) : readHead tString 3 (field tString 3
        (text (List.replicate (e.txnId / 2 ^ 64) '1')) ++ s) =
          some (text (List.replicate (e.txnId / 2 ^ 64) '1') ++ s) :=
      readHead_field (by decide) (by decide) _ s
    simp only [writeLogEntity, readLogEntity, if_neg small, List.append_assoc, first, second, third,
      Option.bind_eq_bind, Option.bind_some, readText_text, readInt_stop, List.length_replicate]
    rw [Nat.div_add_mod']

def writeLogBuffer (b : LogBuffer) : Str :=
  field tList 1 (elements tStruct writeLogEntity b.buffer) ++ stop

def readLogBuffer (s : Str) : Option LogBuffer := do
  let s ← readHead tList 1 s
  let (buffer, _) ← readElements readLogEntity s
  some ⟨buffer⟩

theorem readLogBuffer_writeLogBuffer (b : LogBuffer) :
    readLogBuffer (writeLogBuffer b) = some b := by
  simp [readLogBuffer, writeLogBuffer, readElements_elements readLogEntity_writeLogEntity, tList]

@[reducible] def logBufferThrift : Thrift LogBuffer where
  serialize := writeLogBuffer
  deserialize := readLogBuffer

instance lawfulLogBuffer : @LawfulThrift LogBuffer logBufferThrift :=
  @LawfulThrift.mk _ logBufferThrift readLogBuffer_writeLogBuffer

def writeRecordUpdateOp (u : RecordUpdateOp) : Str :=
  field tI32 1 (bigEndian 4 (opCode u.op)) ++ field tString 2 (text u.key) ++
    if u.value = [] then stop else field tString 3 (text u.value) ++ stop

def readOpCode (n : Nat) : UpdateOpCode :=
  if n = 1 then .insert else if n = 2 then .update else if n = 3 then .remove else .unknown

def readRecordUpdateOp (s : Str) : Option (RecordUpdateOp × Str) := do
  let (code, s) ← readField tI32 1 4 s
  let s ← readHead tString 2 s
  let (key, s) ← readText s
  match readHead tString 3 s with
  | none =>
    let (_, s) ← readInt 1 s
    some ({ op := readOpCode code, key := key }, s)
  | some s =>
    let (value, s) ← readText s
    let (_, s) ← readInt 1 s
    some ({ op := readOpCode code, key := key, value := value }, s)

theorem readOpCode_opCode (op : UpdateOpCode) : readOpCode (opCode op % 256 ^ 4) = op := by
  cases op <;> rfl

theorem readRecordUpdateOp_write (u : RecordUpdateOp) (rest : Str) :
    readRecordUpdateOp (writeRecordUpdateOp u ++ rest) = some (u, rest) := by
  have first (s : Str) : readField tI32 1 4 (field tI32 1 (bigEndian 4 (opCode u.op)) ++ s) =
      some (opCode u.op % 256 ^ 4, s) := readField_field (by decide) (by decide) 4 _ s
  have second (s : Str) : readHead tString 2 (field tString 2 (text u.key) ++ s) =
      some (text u.key ++ s) := readHead_field (by decide) (by decide) _ s
  by_cases unset : u.value = []
  · have last : readHead tString 3 (stop ++ rest) = none := readHead_stop (by decide) 3 rest
    simp only [writeRecordUpdateOp, readRecordUpdateOp, if_pos unset, List.append_assoc, first,
      second, Option.bind_eq_bind, Option.bind_some, readText_text, last, readInt_stop,
      readOpCode_opCode]
    rw [← unset]
  · have third (s : Str) : readHead tString 3 (field tString 3 (text u.value) ++ s) =
        some (text u.value ++ s) := readHead_field (by decide) (by decide) _ s
    simp only [writeRecordUpdateOp, readRecordUpdateOp, if_neg unset, List.append_assoc, first,
      second, third, Option.bind_eq_bind, Option.bind_some, readText_text, readInt_stop,
      readOpCode_opCode]

def writeRecordUpdateList (l : RecordUpdateList) : Str :=
  field tString 1 (text l.rootPath) ++ field tString 2 (text l.name) ++
    field tList 3 (elements tStruct writeRecordUpdateOp l.recordUpdates) ++ stop

def readRecordUpdateList (s : Str) : Option RecordUpdateList := do
  let s ← readHead tString 1 s
  let (rootPath, s) ← readText s
  let s ← readHead tString 2 s
  let (name, s) ← readText s
  let s ← readHead tList 3 s
  let (recordUpdates, _) ← readElements readRecordUpdateOp s
  some ⟨rootPath, name, recordUpdates⟩

theorem readRecordUpdateList_write (l : RecordUpdateList) :
    readRecordUpdateList (writeRecordUpdateList l) = some l := by
  simp [readRecordUpdateList, writeRecordUpdateList, readElements_elements readRecordUpdateOp_write,
    tString, tList]

@[reducible] def recordUpdateListThrift : Thrift RecordUpdateList where
  serialize := writeRecordUpdateList
  deserialize := readRecordUpdateList

instance lawfulRecordUpdateList : @LawfulThrift RecordUpdateList recordUpdateListThrift :=
  @LawfulThrift.mk _ recordUpdateListThrift readRecordUpdateList_write

end Vsfs.BinaryProtocol
