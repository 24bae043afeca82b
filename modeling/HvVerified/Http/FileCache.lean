import HvVerified.Base.Hbase
import HvVerified.Http.Httpdef
import HvVerified.Lib.Chunked
import HvVerified.Lib.Lru
import HvVerified.Lib.Memory
import HvVerified.Lib.Runs

/-!
# `http/server/FileCache.h`, `http/server/FileCache.cpp`: the file cache

`FileCache::Open` as the POSIX build has it. What the system calls of one call return is an argument.
An entry is a value in the list of the cache: `Open` changes the file data of entries in the cache only,
and there it is the only function that does so.

The second half puts the cache into a world of files that change, with a clock and with system calls
that fail.
-/

namespace HvVerified.Http

open Base
open Lib (hex slice store Lru)

/-! ## Entries -/

/-- `S_ISREG` and `S_ISDIR` of `st_mode` -/
inductive FileKind where
  | regular
  | directory
  | other
  deriving DecidableEq, Repr

/-- The fields of `struct stat` that are read. -/
structure Stat where
  kind : FileKind
  mtime : Int
  size : Nat
  deriving DecidableEq, Repr

/-- `HBuf`: its memory and its length -/
structure HBuf where
  cells : Nat → UInt8
  len : Nat

/-- `HBuf::resize`. New cells are zero. -/
def HBuf.resize (buf : HBuf) (cap : Nat) : HBuf :=
  if cap = buf.len then buf else ⟨fun i => if i < buf.len then buf.cells i else 0, cap⟩

/-- `httpbuf`: a part of `buf` given by the offset of its first cell, or a part of the block that `buf`
    was before it was reallocated -/
inductive HttpBuf where
  | null
  | view (base len : Nat)
  | dangling (len : Nat)
  deriving DecidableEq, Repr

/-- What a reallocation of the block makes of it. -/
def HttpBuf.moved : HttpBuf → HttpBuf
  | .null => .null
  | .view _ len => .dangling len
  | .dangling len => .dangling len

/-- `HTTP_HEADER_MAX_LENGTH` -/
def httpHeaderMaxLength : Nat := 1024

/-- `file_cache_t`. `filebuf` is the length of `filebuf`, whose cells follow the first
    `httpHeaderMaxLength` cells of `buf`; it is `none` as long as `filebuf.base` is null. -/
structure FileCacheT where
  filepath : ByteString
  st : Stat
  openTime : Int
  statTime : Int
  buf : HBuf
  filebuf : Option Nat
  httpbuf : HttpBuf
  lastModified : ByteString
  etag : ByteString
  contentType : ByteString

namespace FileCacheT

/-- `filebuf.len` -/
def fileLen (fc : FileCacheT) : Nat := fc.filebuf.getD 0

/-- The file's bytes in the buffer. -/
def content (fc : FileCacheT) : ByteString :=
  slice fc.buf.cells httpHeaderMaxLength (httpHeaderMaxLength + fc.fileLen)

/-- `is_modified`; a `stat` that fails leaves `st` as it is -/
def isModified (fc : FileCacheT) (stat : Option Stat) : FileCacheT × Bool :=
  let st := stat.getD fc.st
  ({ fc with st := st }, fc.st.mtime ≠ st.mtime)

/-- `is_complete` -/
def isComplete (fc : FileCacheT) : Bool :=
  if fc.st.kind = .directory then 0 < fc.fileLen else fc.fileLen = fc.st.size

/-- `resize_buf` -/
def resizeBuf (fc : FileCacheT) (filesize : Nat) : FileCacheT :=
  { fc with
    buf := fc.buf.resize (httpHeaderMaxLength + filesize)
    filebuf := some filesize
    httpbuf := if httpHeaderMaxLength + filesize = fc.buf.len then fc.httpbuf else fc.httpbuf.moved }

/-- The bytes read, stored at `filebuf.base`. -/
def storeFile (fc : FileCacheT) (bytes : ByteString) : FileCacheT :=
  { fc with buf := { fc.buf with cells := store fc.buf.cells httpHeaderMaxLength bytes } }

end FileCacheT

/-- A new entry. -/
def newFileCacheT (filepath : ByteString) (st : Stat) (now : Int) : FileCacheT where
  filepath := filepath
  st := st
  openTime := now
  statTime := now
  buf := ⟨fun _ => 0, 0⟩
  filebuf := none
  httpbuf := .null
  lastModified := []
  etag := []
  contentType := []

/-! ## `Open` -/

/-- `OpenParam`, its input. `max_read` is not negative. -/
structure OpenParam where
  needRead : Bool
  maxRead : Nat
  deriving DecidableEq, Repr

/-- The errors of `Open`. -/
inductive OpenError where
  | none
  | openFile
  | mismatch
  | overLimit
  | readFile
  deriving DecidableEq, Repr

/-- What one call of `Open` gets from the system: the time, `stat` in `is_modified` and in `Open`,
    whether `open` succeeds, what `read` delivers of the number of bytes it is asked for (`none` is -1),
    and the page of `make_index_of_page`. -/
structure Syscalls where
  now : Int
  restat : Option Stat
  stat : Option Stat
  opened : Bool
  read : Nat → Option ByteString
  page : ByteString

/-- The result of `Open` with the output of `OpenParam`. `delivered` is history: the bytes that `read`
    delivered, if it was called and did not fail. -/
structure OpenResult where
  fc : Option FileCacheT
  filesize : Nat
  error : OpenError
  delivered : Option ByteString

/-- The text of the `ETag` header. -/
def etagText (st : Stat) : ByteString :=
  ascii "\"" ++ hex (toSizeT st.mtime) ++ ascii "-" ++ hex st.size ++ ascii "\""

/-- `content_type` of a regular file; a file without a suffix leaves it as it is -/
def fileContentType (filepath old : ByteString) : ByteString :=
  match strrchr 46 (cStr filepath) with
  | none => old
  | some suffix =>
    match httpContentTypeEnumBySuffix suffix.tail with
    | .textHtml => ascii "text/html; charset=utf-8"
    | .textPlain => ascii "text/plain; charset=utf-8"
    | _ => httpContentTypeStrBySuffix suffix.tail

section Open

variable (gmtimeFmt : Int → ByteString)

/-- The end of `Open`: `last_modified` and `etag`. -/
def FileCacheT.stamp (fc : FileCacheT) : FileCacheT :=
  { fc with lastModified := gmtimeFmt fc.st.mtime, etag := etagText fc.st }

/-- The part of `Open` that reads a regular file: the entry as it is left behind, the error, and what `read`
    delivered. -/
def FileCacheT.readFile (fc : FileCacheT) (param : OpenParam) (sys : Syscalls) :
    FileCacheT × OpenError × Option ByteString :=
  let filesize := fc.st.size
  if param.needRead = false then (fc, .none, none)
  else if filesize > param.maxRead then (fc, .overLimit, none)
  else
    let bytes := (sys.read filesize).map (List.take filesize)
    let fc := (fc.resizeBuf filesize).storeFile (bytes.getD [])
    if bytes.map List.length ≠ some filesize then (fc, .readFile, bytes) else (fc, .none, bytes)

/-- Reads a regular file and stamps the entry. -/
def FileCacheT.loadFile (fc : FileCacheT) (filepath : ByteString) (param : OpenParam) (sys : Syscalls) :
    FileCacheT × OpenResult :=
  let r := fc.readFile param sys
  if r.2.1 ≠ .none then (r.1, ⟨none, fc.st.size, r.2.1, r.2.2⟩)
  else
    let fc := { r.1 with contentType := fileContentType filepath r.1.contentType }.stamp gmtimeFmt
    (fc, ⟨some fc, fc.st.size, .none, r.2.2⟩)

/-- `Open` from the distinction of files and directories on. -/
def FileCacheT.load (fc : FileCacheT) (filepath : ByteString) (param : OpenParam) (sys : Syscalls) :
    FileCacheT × OpenResult :=
  match fc.st.kind with
  | .regular => fc.loadFile gmtimeFmt filepath param sys
  | .directory =>
    let fc := (fc.resizeBuf sys.page.length).storeFile sys.page
    let fc := { fc with contentType := ascii "text/html; charset=utf-8" }.stamp gmtimeFmt
    (fc, ⟨some fc, 0, .none, none⟩)
  | .other =>
    let fc := fc.stamp gmtimeFmt
    (fc, ⟨some fc, 0, .none, none⟩)

/-- `FileCache`, with the entries newest first -/
structure FileCache where
  nodes : Lru ByteString FileCacheT
  capacity : Nat
  statInterval : Int
  expiredTime : Int

namespace FileCache

/-- The check of an entry at the beginning of `Open`: its `st` is read again when it is too old. -/
def checkModified (c : FileCache) (fc : FileCacheT) (sys : Syscalls) : FileCacheT × Bool :=
  if sys.now - fc.statTime > c.statInterval then { fc with statTime := sys.now }.isModified sys.restat
  else (fc, false)

/-- `Open` of a file that is not cached -/
def openMiss (c : FileCache) (filepath : ByteString) (param : OpenParam) (sys : Syscalls) : FileCache × OpenResult :=
  match sys.stat with
  | none => (c, ⟨none, 0, .openFile, none⟩)
  | some st =>
    if sys.opened = false then (c, ⟨none, 0, .openFile, none⟩)
    else if st.kind = .regular ∨ (st.kind = .directory ∧ filepath.getLast? = some 47) then
      let r := (newFileCacheT filepath st sys.now).load gmtimeFmt filepath param sys
      ({ c with nodes := Lru.put c.capacity filepath r.1 c.nodes }, r.2)
    else (c, ⟨none, 0, .mismatch, none⟩)

/-- `Open` of a cached file -/
def openHit (c : FileCache) (filepath : ByteString) (fc : FileCacheT) (param : OpenParam) (sys : Syscalls) :
    FileCacheT × OpenResult :=
  let r := c.checkModified fc sys
  let needRead := param.needRead && !(!r.2 && r.1.isComplete)
  if r.2 || needRead then
    if sys.stat = none ∨ sys.opened = false then (r.1, ⟨none, 0, .openFile, none⟩)
    else r.1.load gmtimeFmt filepath { param with needRead } sys
  else (r.1, ⟨some r.1, 0, .none, none⟩)

/-- `Open`. An entry that is found is moved to the front and changed there. -/
def openFile (c : FileCache) (filepath : ByteString) (param : OpenParam) (sys : Syscalls) : FileCache × OpenResult :=
  match c.nodes.find filepath with
  | none => c.openMiss gmtimeFmt filepath param sys
  | some fc =>
    let r := c.openHit gmtimeFmt filepath fc param sys
    ({ c with nodes := Lru.write filepath r.1 (Lru.touch filepath c.nodes) }, r.2)

/-- `Close` -/
def close (c : FileCache) (filepath : ByteString) : FileCache :=
  { c with nodes := c.nodes.filter fun node => node.1 ≠ filepath }

/-- `RemoveExpiredFileCache` -/
def removeExpiredFileCache (c : FileCache) (now : Int) : FileCache :=
  { c with nodes := c.nodes.filter fun node => ¬ (now - node.2.statTime > c.expiredTime) }

end FileCache

/-! ## Files that change -/

/-- A version of a file on the disk. -/
structure Version where
  content : ByteString
  mtime : Int
  deriving DecidableEq, Repr

/-- What `stat` says about a version. -/
def Version.stat (v : Version) : Stat := ⟨.regular, v.mtime, v.content.length⟩

/-- The system calls of one call of `Open` that fail. A `read` that does not fail delivers at most
    `readLimit` bytes. -/
structure Faults where
  restat : Bool
  stat : Bool
  open_ : Bool
  read : Bool
  readLimit : Option Nat
  deriving DecidableEq, Repr

/-- No system call fails. -/
def noFaults : Faults := ⟨false, false, false, false, none⟩

/-- What an entry serves. -/
structure Served where
  content : ByteString
  lastModified : ByteString
  etag : ByteString
  deriving DecidableEq, Repr

/-- What the entry serves. -/
def FileCacheT.served (fc : FileCacheT) : Served := ⟨fc.content, fc.lastModified, fc.etag⟩

/-- What one call of `Open` did: the content that was cached for the path before, the content of the file,
    the bytes that `read` delivered, and the entry that was returned. -/
structure OpenRecord where
  filepath : ByteString
  needRead : Bool
  cached : Option ByteString
  file : Option ByteString
  delivered : Option ByteString
  returned : Option Served
  deriving DecidableEq, Repr

/-- The clock, the versions of every file with the current one in front, the cache, and the calls of
    `Open` so far. -/
structure FileWorld where
  now : Int
  versions : ByteString → List Version
  cache : FileCache
  opens : List OpenRecord

/-- What can happen to the cache and the disk. -/
inductive FileAct where
  /-- a file gets a new version, with a modification time that it did not have before -/
  | change (filepath : ByteString) (version : Version)
  | tick (seconds : Nat)
  | open_ (filepath : ByteString) (param : OpenParam) (faults : Faults)
  | close (filepath : ByteString)
  | removeExpired

namespace FileWorld

/-- The version on the disk. -/
def current (w : FileWorld) (filepath : ByteString) : Option Version := (w.versions filepath).head?

/-- What `read` delivers when it is asked for `len` bytes. -/
def readBytes (w : FileWorld) (filepath : ByteString) (faults : Faults) (len : Nat) : Option ByteString :=
  if faults.read then none
  else (w.current filepath).map fun v => (v.content.take len).take (faults.readLimit.getD len)

/-- What the system calls of an `Open` return. -/
def syscalls (w : FileWorld) (filepath : ByteString) (faults : Faults) : Syscalls where
  now := w.now
  restat := if faults.restat then none else (w.current filepath).map Version.stat
  stat := if faults.stat then none else (w.current filepath).map Version.stat
  opened := !faults.open_
  read := w.readBytes filepath faults
  page := []

def openFile (w : FileWorld) (filepath : ByteString) (param : OpenParam) (faults : Faults) :
    FileCache × OpenResult :=
  w.cache.openFile gmtimeFmt filepath param (w.syscalls filepath faults)

/-- What an `Open` saw and returned. -/
def record (w : FileWorld) (filepath : ByteString) (param : OpenParam) (faults : Faults) : OpenRecord where
  filepath := filepath
  needRead := param.needRead
  cached := (w.cache.nodes.find filepath).map FileCacheT.content
  file := (w.current filepath).map Version.content
  delivered := (w.openFile gmtimeFmt filepath param faults).2.delivered
  returned := (w.openFile gmtimeFmt filepath param faults).2.fc.map FileCacheT.served

/-- The world after an `Open`. -/
def afterOpen (w : FileWorld) (filepath : ByteString) (param : OpenParam) (faults : Faults) : FileWorld :=
  { w with
    cache := (w.openFile gmtimeFmt filepath param faults).1
    opens := w.opens ++ [w.record gmtimeFmt filepath param faults] }

end FileWorld

/-- One step of the cache and the disk. -/
def fileStep (w : FileWorld) : FileAct → Option FileWorld
  | .change filepath version =>
    if version.mtime ∈ (w.versions filepath).map Version.mtime then none
    else some { w with versions := Function.update w.versions filepath (version :: w.versions filepath) }
  | .tick seconds => some { w with now := w.now + seconds }
  | .open_ filepath param faults => some (w.afterOpen gmtimeFmt filepath param faults)
  | .close filepath => some { w with cache := w.cache.close filepath }
  | .removeExpired => some { w with cache := w.cache.removeExpiredFileCache w.now }

/-! ## What the cache is for -/

/-- The entry has the content of a version of the file, and its tags were made from that version. -/
def Served.comesFrom (e : Served) (v : Version) : Prop :=
  e.content = v.content ∧ e.lastModified = gmtimeFmt v.mtime ∧ e.etag = etagText v.stat

/-- Every call that asked for content and got an entry got one that comes from a version of the file. -/
def FileWorld.coherent (w : FileWorld) : Prop :=
  ∀ r ∈ w.opens, r.needRead → ∀ e, r.returned = some e →
    ∃ v ∈ w.versions r.filepath, e.comesFrom gmtimeFmt v

end Open

/-- The call read the whole file, and `content` is what it read. -/
def OpenRecord.readWhole (r : OpenRecord) (content : ByteString) : Prop :=
  r.delivered = some content ∧ r.file = some content

/-- After a call that returned null, a call for the same path that asks for content returns nothing but
    what was read completely since then, or what was cached completely before. An empty content needs no
    reading. -/
def FileWorld.notPoisoned (w : FileWorld) : Prop :=
  ∀ before r between r' after, w.opens = before ++ r :: (between ++ r' :: after) →
    r'.filepath = r.filepath → r.returned = none → r'.needRead → ∀ e, r'.returned = some e →
      e.content = [] ∨
      (∃ r'' ∈ between ++ [r'], r''.filepath = r.filepath ∧ r''.readWhole e.content) ∨
      (r.cached = some e.content ∧ ∃ v ∈ w.versions r.filepath, v.content = e.content)

/-- No system call fails. -/
def FileAct.faultless : FileAct → Bool
  | .open_ _ _ faults => faults = noFaults
  | _ => true

/-- An entry that is checked and found to be modified is read again, or it does not hold content of the
    length of the new version, or it holds the content of the new version and gets its tags. An entry that
    is not checked is complete or up to date when it is asked for its content. -/
def FileWorld.keepsCoherence (w : FileWorld) : FileAct → Bool
  | .open_ filepath param _ =>
    match w.cache.nodes.find filepath, w.current filepath with
    | some fc, some v =>
      if w.now - fc.statTime > w.cache.statInterval then
        fc.st.mtime = v.mtime || (param.needRead && v.content.length ≤ param.maxRead) ||
          fc.fileLen ≠ v.content.length || (!param.needRead && fc.content = v.content)
      else !param.needRead || fc.isComplete || fc.st.mtime = v.mtime
    | _, _ => true
  | _ => true

/-- `read` neither fails nor stops early, and an entry that is read without having been checked knows the
    size of the file. -/
def FileWorld.readsWhole (w : FileWorld) : FileAct → Bool
  | .open_ filepath param faults =>
    !faults.read && faults.readLimit = none &&
      match w.cache.nodes.find filepath, w.current filepath with
      | some fc, some v =>
        !param.needRead || (w.now - fc.statTime > w.cache.statInterval && !faults.restat) || fc.isComplete ||
          fc.st.size = v.content.length
      | _, _ => true
  | _ => true

/-- An empty cache and an empty disk. -/
def newFileWorld (capacity : Nat) (statInterval expiredTime now : Int) : FileWorld :=
  ⟨now, fun _ => [], ⟨[], capacity, statInterval, expiredTime⟩, []⟩

end HvVerified.Http
