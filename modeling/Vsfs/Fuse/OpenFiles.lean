import Vsfs.Common.StorageManager
import Vsfs.Fuse.Writes
import Vsfs.Lib.Custody

/-!
# The open files of a mount

Every request of the kernel is handled on a thread of its own. `vsfs_open` and `vsfs_create`
enter a `File` into `fh_to_obj_map_` under the number of its descriptor, which is also the handle
that the kernel gets; `vsfs_release` closes the file and erases it. All that the threads share is
a `Mount`: the descriptors of the process, its `File` objects, the table and the mutex, and what
the kernel knows of the handles. A call is one step of a thread.
-/

namespace Vsfs.Fuse.OpenFiles

open Std Program

/-- Where a `File` is in memory. -/
abbrev Address := Nat

structure FuseFileInfo where
  flags : BitVec 32
  fh : BitVec 64 := 0

/-- The calls on a descriptor that only hand their result on. -/
inductive Control where
  | fstat
  | ioctl (cmd : BitVec 32)
  | fcntl (cmd : BitVec 32)
  | fsync
  | flock (op : BitVec 32)

inductive Op : Type → Type where
  | clientOpen (path : Str) : Op (Status × ObjectId)
  | clientCreate (path : Str) (mode : BitVec 32) : Op (Status × ObjectId)
  /- System calls, which answer with what they return or with `errno`. -/
  | open (localPath : Str) (flags : BitVec 32) (mode : Option (BitVec 32)) : Op (Except Int Int)
  | close (fd : Int) : Op (Except Int Unit)
  | dup (fd : Int) : Op (Except Int Int)
  | pread (fd : Int) (size : Nat) (offset : Int) : Op (Except Int (List Byte))
  | pwrite (fd : Int) (buf : List Byte) (offset : Int) : Op (Except Int Nat)
  | control (fd : Int) (what : Control) : Op (Except Int Unit)
  | errno : Op Int
  /- The `File` objects and the table of them. -/
  | newFile (fd : Int) : Op Address
  | fileHandler (file : Address) : Op (Option PosixFileHandler)
  | setHandler (file : Address) (handler : Option PosixFileHandler) : Op Unit
  | free (file : Address) : Op Unit
  | lock : Op Unit
  | unlock : Op Unit
  | find (fh : BitVec 64) : Op (Option Address)
  | assign (fh : BitVec 64) (file : Address) : Op (Option Address)
  | erase (fh : BitVec 64) : Op (Option Address)
  /- The kernel gets a handle, uses it for a request, and forgets it. -/
  | hand (fh : BitVec 64) : Op Unit
  | enter (fh : BitVec 64) : Op Unit
  | leave (fh : BitVec 64) : Op Unit
  | retire (fh : BitVec 64) : Op Unit

/-- A thread of the mount; every call answers. -/
abbrev Thread := Prog Op Empty Crash

def call {β : Type} (op : Op β) : Thread β :=
  .call op fun answer =>
    match answer with
    | .ok b => .ret b

/-- A descriptor as a handle. -/
def handleOf (fd : Int) : BitVec 64 := BitVec.ofInt 64 fd

/-- A handle where an `int` is expected. -/
def descriptorOf (fh : BitVec 64) : Int := toInt32 fh.toNat

/-! ## Files -/

def PosixFileHandler.close (handler : PosixFileHandler) (file : Address) : Thread Status := do
  match ← call (.close handler.fd) with
  | .error errno => return .systemError errno
  | .ok () =>
    call (.setHandler file (some ⟨-1⟩))
    return .OK

def PosixFileHandler.destroy (handler : PosixFileHandler) (file : Address) : Thread Unit :=
  if 0 ≤ handler.fd then do
    let _ ← PosixFileHandler.close handler file
    return ()
  else return ()

/-- `file_handler_.reset()`. -/
def File.resetHandler (file : Address) : Thread Unit := do
  match ← call (.fileHandler file) with
  | none => return ()
  | some handler =>
    PosixFileHandler.destroy handler file
    call (.setHandler file none)

def File.close (file : Address) : Thread Status := do
  match ← call (.fileHandler file) with
  | none => return .OK
  | some handler =>
    let status ← PosixFileHandler.close handler file
    if status.ok then
      File.resetHandler file
      return status
    else return status

def File.destroy (file : Address) : Thread Unit := do
  let _ ← File.close file
  File.resetHandler file
  call (.free file)

/-- The destructor of a `unique_ptr<File>`. -/
def destroyPtr : Option Address → Thread Unit
  | none => return ()
  | some file => File.destroy file

def File.fd (file : Address) : Thread Int := do
  match ← call (.fileHandler file) with
  | none => return -1
  | some handler => return handler.fd

/-- Without a handler `errno` is what it was. -/
def File.write (file : Address) (buf : List Byte) (offset : Int) : Thread (Except Int Nat) := do
  match ← call (.fileHandler file) with
  | none => return .error (← call .errno)
  | some handler => call (.pwrite handler.fd buf offset)

def openFile [FsPath] (sm : StorageManager) (path : Str) (objId : ObjectId) (flags : BitVec 32)
    (mode : Option (BitVec 32)) : Thread (Except Status Address) := do
  match ← call (.open (sm.translatePath path objId) flags mode) with
  | .error errno => return .error (.systemError errno)
  | .ok fd => return .ok (← call (.newFile fd))

/-! ## The table of open files -/

def addFile (fd : BitVec 64) (file : Address) : Thread Unit := do
  call .lock
  let old ← call (.assign fd file)
  destroyPtr old
  call .unlock

def closeFile (fd : BitVec 64) : Thread Status := do
  call .lock
  match ← call (.find fd) with
  | none => .throw (.check "it != fh_to_obj_map_.end()")
  | some fileObj =>
    let status ← File.close fileObj
    let file ← call (.erase fd)
    destroyPtr file
    call .unlock
    return status

def getFile (fd : BitVec 64) : Thread (Option Address) := do
  call .lock
  let found ← call (.find fd)
  call .unlock
  return found

/-! ## Operations -/

def O_CREAT : BitVec 32 := 0o100

section Operations

variable [FsPath] (sm : StorageManager)

def vsfsCreate (path : Str) (mode : BitVec 32) (fi : FuseFileInfo) :
    Thread (Int × FuseFileInfo) := do
  let (status, oid) ← call (.clientCreate path mode)
  if !status.ok then return (status.error, fi)
  match ← openFile sm path oid (fi.flags ||| O_CREAT) (some mode) with
  | .error status => return (status.error, fi)
  | .ok file =>
    let fd ← File.fd file
    let fi := { fi with fh := handleOf fd }
    addFile (handleOf fd) file
    return (0, fi)

def vsfsOpen (path : Str) (fi : FuseFileInfo) : Thread (Int × FuseFileInfo) := do
  let (status, oid) ← call (.clientOpen path)
  if !status.ok then return (status.error, fi)
  match ← openFile sm path oid fi.flags none with
  | .error status => return (status.error, fi)
  | .ok file =>
    let fd ← File.fd file
    addFile (handleOf fd) file
    return (0, { fi with fh := handleOf fd })

end Operations

def vsfsRelease (fi : FuseFileInfo) : Thread Int := do
  let status ← closeFile fi.fh
  return status.error

/-- The bytes that are read come with the result. -/
def vsfsRead (size : Nat) (offset : Int) (fi : FuseFileInfo) : Thread (Int × List Byte) := do
  match ← getFile fi.fh with
  | none => return (-EBADF, [])
  | some _ =>
    match ← call (.pread (descriptorOf fi.fh) size offset) with
    | .error errno => return (-errno, [])
    | .ok buf => return (toInt32 buf.length, buf)

def vsfsWrite (buf : List Byte) (offset : Int) (fi : FuseFileInfo) : Thread Int := do
  match ← getFile fi.fh with
  | none => return -EBADF
  | some file =>
    match ← File.write file buf offset with
    | .error errno => return -errno
    | .ok nwrite => return toInt32 nwrite

/-- The loop of `vsfs_write_buf`: every buffer is written at `off`. -/
def writeBufs (file : Address) (off : Int) (totalWrite : Int) : List FuseBuf → Thread Int
  | [] => return toInt32 totalWrite
  | buf :: bufs => do
    match ← File.write file buf.mem off with
    | .error errno => return -errno
    | .ok nwrite => writeBufs file off (totalWrite + nwrite) bufs

def vsfsWriteBuf (bufv : FuseBufvec) (off : Int) (fi : FuseFileInfo) : Thread Int := do
  match ← getFile fi.fh with
  | none => return -EINVAL
  | some file => writeBufs file off 0 bufv.buf

def vsfsFlush (fi : FuseFileInfo) : Thread Int := do
  let fd ← call (.dup (descriptorOf fi.fh))
  match ← call (.close (fd.toOption.getD (-1))) with
  | .error errno => return -errno
  | .ok () => return 0

def controlFile (what : Control) (fi : FuseFileInfo) : Thread Int := do
  match ← call (.control (descriptorOf fi.fh) what) with
  | .error errno => return -errno
  | .ok () => return 0

def vsfsFgetattr (fi : FuseFileInfo) : Thread Int := controlFile .fstat fi

def vsfsIoctl (cmd : BitVec 32) (fi : FuseFileInfo) : Thread Int := controlFile (.ioctl cmd) fi

def vsfsFlock (fi : FuseFileInfo) (op : BitVec 32) : Thread Int := controlFile (.flock op) fi

def vsfsLock (fi : FuseFileInfo) (cmd : BitVec 32) : Thread Int := controlFile (.fcntl cmd) fi

def vsfsFsync (fi : FuseFileInfo) : Thread Int := controlFile .fsync fi

/-! ## The mount -/

/-- What a descriptor is open on, and the thread that opened it. -/
structure Description where
  thread : Nat
  localPath : Str
  flags : BitVec 32

/-- What the kernel knows of a handle: the thread that answered with it, and the threads that
work on it now. -/
structure Handle where
  thread : Nat
  users : List Nat := []

structure Mount where
  descriptors : ExtTreeMap Int Description := ∅
  objects : ExtTreeMap Address File := ∅
  fhToObjMap : ExtTreeMap (BitVec 64) Address := ∅
  objMapMutex : Option Nat := none
  handles : ExtTreeMap (BitVec 64) Handle := ∅

/-- What is not settled by the state: the thread that makes the call, and the answers of the
master, of the operating system and of `new`. -/
structure Input where
  thread : Nat
  status : Status := .OK
  oid : ObjectId := 0
  errno : Option Int := none
  fd : Int := 0
  buf : List Byte := []
  count : Nat := 0
  file : Address := 0

/-- The answer of a system call that does not change what is open. -/
def Input.orErrno {β : Type} (input : Input) (b : β) : Except Int β :=
  match input.errno with
  | some errno => .error errno
  | none => .ok b

namespace Mount

/-- A new descriptor for a description. -/
def newDescriptor (s : Mount) (input : Input) (description : Description) :
    Except Int Int × Mount :=
  match input.errno with
  | some errno => (.error errno, s)
  | none => (.ok input.fd, { s with descriptors := s.descriptors.insert input.fd description })

/-- `close(2)` gives the descriptor up even if it reports an error. -/
def closeDescriptor (s : Mount) (input : Input) (fd : Int) : Except Int Unit × Mount :=
  if fd ∈ s.descriptors then
    (input.orErrno (), { s with descriptors := s.descriptors.erase fd })
  else (.error EBADF, s)

/-- A call of a thread. A pointer to an object that is gone, or a mutex unlocked by a thread that
does not hold it, is undefined behaviour. -/
def serve (β : Type) (input : Input) (op : Op β) (s : Mount) :
    Except Crash (Except Empty β × Mount) :=
  match op with
  | .clientOpen _ => .ok (.ok (input.status, input.oid), s)
  | .clientCreate _ _ => .ok (.ok (input.status, input.oid), s)
  | .open localPath flags _ =>
    let (answer, s) := s.newDescriptor input ⟨input.thread, localPath, flags⟩
    .ok (.ok answer, s)
  | .close fd =>
    let (answer, s) := s.closeDescriptor input fd
    .ok (.ok answer, s)
  | .dup fd =>
    match s.descriptors[fd]? with
    | none => .ok (.ok (.error EBADF), s)
    | some description =>
      let (answer, s) := s.newDescriptor input description
      .ok (.ok answer, s)
  | .pread fd _ _ =>
    .ok (.ok (if fd ∈ s.descriptors then input.orErrno input.buf else .error EBADF), s)
  | .pwrite fd _ _ =>
    .ok (.ok (if fd ∈ s.descriptors then input.orErrno input.count else .error EBADF), s)
  | .control fd _ =>
    .ok (.ok (if fd ∈ s.descriptors then input.orErrno () else .error EBADF), s)
  | .errno => .ok (.ok (input.errno.getD 0), s)
  | .newFile fd =>
    .ok (.ok input.file, { s with objects := s.objects.insert input.file ⟨some ⟨fd⟩⟩ })
  | .fileHandler file =>
    match s.objects[file]? with
    | none => .error (.undefined "file_handler_")
    | some object => .ok (.ok object.fileHandler, s)
  | .setHandler file handler =>
    match s.objects[file]? with
    | none => .error (.undefined "file_handler_")
    | some _ => .ok (.ok (), { s with objects := s.objects.insert file ⟨handler⟩ })
  | .free file =>
    match s.objects[file]? with
    | none => .error (.undefined "delete file")
    | some _ => .ok (.ok (), { s with objects := s.objects.erase file })
  | .lock => .ok (.ok (), { s with objMapMutex := some input.thread })
  | .unlock =>
    if s.objMapMutex = some input.thread then .ok (.ok (), { s with objMapMutex := none })
    else .error (.undefined "obj_map_mutex_")
  | .find fh => .ok (.ok s.fhToObjMap[fh]?, s)
  | .assign fh file =>
    .ok (.ok s.fhToObjMap[fh]?, { s with fhToObjMap := s.fhToObjMap.insert fh file })
  | .erase fh =>
    .ok (.ok s.fhToObjMap[fh]?, { s with fhToObjMap := s.fhToObjMap.erase fh })
  | .hand fh => .ok (.ok (), { s with handles := s.handles.insert fh ⟨input.thread, []⟩ })
  | .enter fh =>
    .ok (.ok (), { s with
      handles := s.handles.modify fh fun h => { h with users := input.thread :: h.users } })
  | .leave fh =>
    .ok (.ok (), { s with
      handles := s.handles.modify fh fun h => { h with users := h.users.erase input.thread } })
  | .retire fh => .ok (.ok (), { s with handles := s.handles.erase fh })

end Mount

/-! ## Requests of the kernel -/

inductive Request where
  | create (path : Str) (mode flags : BitVec 32)
  | open (path : Str) (flags : BitVec 32)
  | read (fh : BitVec 64) (size : Nat) (offset : Int)
  | write (fh : BitVec 64) (buf : List Byte) (offset : Int)
  | writeBuf (fh : BitVec 64) (bufv : FuseBufvec) (off : Int)
  | flush (fh : BitVec 64)
  | control (fh : BitVec 64) (what : Control)
  | release (fh : BitVec 64)

/-- The handle that a request comes with. -/
def Request.fh : Request → Option (BitVec 64)
  | .create _ _ _ => none
  | .open _ _ => none
  | .read fh _ _ => some fh
  | .write fh _ _ => some fh
  | .writeBuf fh _ _ => some fh
  | .flush fh => some fh
  | .control fh _ => some fh
  | .release fh => some fh

/-- The kernel gets the handle of a file that has been opened. -/
def handing (opening : Thread (Int × FuseFileInfo)) : Thread Int := do
  let (code, fi) ← opening
  if code = 0 then
    call (.hand fi.fh)
    return code
  else return code

/-- The kernel lets a request work on a handle. -/
def workingOn (fh : BitVec 64) (work : Thread Int) : Thread Int := do
  call (.enter fh)
  let code ← work
  call (.leave fh)
  return code

def handle [FsPath] (sm : StorageManager) : Request → Thread Int
  | .create path mode flags => handing (vsfsCreate sm path mode { flags })
  | .open path flags => handing (vsfsOpen sm path { flags })
  | .read fh size offset => workingOn fh do
    let (code, _) ← vsfsRead size offset { flags := 0, fh }
    return code
  | .write fh buf offset => workingOn fh (vsfsWrite buf offset { flags := 0, fh })
  | .writeBuf fh bufv off => workingOn fh (vsfsWriteBuf bufv off { flags := 0, fh })
  | .flush fh => workingOn fh (vsfsFlush { flags := 0, fh })
  | .control fh what => workingOn fh (controlFile what { flags := 0, fh })
  | .release fh => do
    call (.retire fh)
    vsfsRelease { flags := 0, fh }

/-- What the environment keeps to. An error has a code; a thread waits for the mutex; a new
descriptor or object is none that is in use; `close` succeeds on a descriptor that is open; and the
kernel works on the handles it was given, and forgets one when nothing works on it any more. -/
def Fair (β : Type) (i : Nat) (input : Input) (op : Op β) (s : Mount) : Prop :=
  input.thread = i ∧ input.errno ≠ some 0 ∧
    match op with
    | .open _ _ _ => 0 ≤ input.fd ∧ input.fd < 2 ^ 31 ∧ s.descriptors[input.fd]? = none
    | .dup _ => 0 ≤ input.fd ∧ input.fd < 2 ^ 31 ∧ s.descriptors[input.fd]? = none
    | .close _ => input.errno = none
    | .newFile _ => s.objects[input.file]? = none
    | .lock => s.objMapMutex = none
    | .enter fh => fh ∈ s.handles
    | .retire fh => (s.handles[fh]?.map Handle.users) = some []
    | _ => True

instance (β : Type) (i : Nat) (input : Input) (op : Op β) (s : Mount) :
    Decidable (Fair β i input op s) := by
  cases op <;> exact inferInstanceAs (Decidable (_ ∧ _ ∧ _))

end Vsfs.Fuse.OpenFiles
