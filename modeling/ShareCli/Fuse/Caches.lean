import ShareCli.Foundation.Disk
import ShareCli.Foundation.Time

/-!
# The caches of the filesystem (`read_cache.rs` and `neg_dentry.rs` in `crates/sharecli-fuse/src`)

The read cache serves a file as long as it has the modification time that it had when it was read. The negative
dentry cache remembers for a while which paths were missing.
-/

namespace ShareCli.Fuse

open Foundation

/-- Bytes and the time of their file. -/
structure CacheEntry where
  mtime : Nat
  data : List UInt8
deriving DecidableEq

/-- The bytes of files read. -/
structure ReadContentCache where
  entries : AList fun _ : FilePath => CacheEntry

namespace ReadContentCache

def new : ReadContentCache := { entries := ∅ }

variable (cache : ReadContentCache)

def get (path : FilePath) (mtime : Nat) : Option (List UInt8) × ReadContentCache :=
  match cache.entries.lookup path with
  | some entry =>
    if entry.mtime = mtime then (some entry.data, cache)
    else (none, { entries := cache.entries.erase path })
  | none => (none, cache)

def putMiss (path : FilePath) (mtime : Nat) (data : List UInt8) :
    ReadContentCache :=
  { entries := cache.entries.insert path { mtime, data } }

def invalidate (path : FilePath) : ReadContentCache :=
  { entries := cache.entries.erase path }

def readCoalesced (path : FilePath) (d : Disk) :
    Except Errno (List UInt8) × ReadContentCache × Disk :=
  match DiskM.metadata path d with
  | (.error e, d) => (.error e, cache, d)
  | (.ok stat, d) =>
    match cache.get path stat.mtime with
    | (some data, cache) => (.ok data, cache, d)
    | (none, cache) =>
      match DiskM.read path d with
      | (.error e, d) => (.error e, cache, d)
      | (.ok data, d) => (.ok data, cache.putMiss path stat.mtime data, d)

def slice (data : List UInt8) (offset size : Nat) : List UInt8 :=
  if offset ≥ data.length then []
  else (data.take (min (offset + size) data.length)).drop offset

def readSlice (path : FilePath) (offset size : Nat) (d : Disk) :
    Except Errno (List UInt8) × ReadContentCache × Disk :=
  match cache.readCoalesced path d with
  | (.error e, cache, d) => (.error e, cache, d)
  | (.ok data, cache, d) => (.ok (slice data offset size), cache, d)

end ReadContentCache

/-- Times on the monotonic clock are in nanoseconds. -/
def defaultNegTtl : Nat := Duration.fromSecs 1

/-- Paths found missing. -/
structure NegativeDentryCache where
  /-- When the memory of a missing path expires. -/
  entries : AList fun _ : FilePath => Nat
  ttl : Nat

namespace NegativeDentryCache

def withTtl (ttl : Nat) : NegativeDentryCache := { entries := ∅, ttl }

variable (cache : NegativeDentryCache)

def isNegative (rel : FilePath) (now : Nat) : Bool × NegativeDentryCache :=
  match cache.entries.lookup rel with
  | some expiresAt =>
    if expiresAt > now then (true, cache)
    else (false, { cache with entries := cache.entries.erase rel })
  | none => (false, cache)

def rememberMiss (rel : FilePath) (now : Nat) : NegativeDentryCache :=
  { cache with entries := cache.entries.insert rel (now + cache.ttl) }

def invalidate (rel : FilePath) : NegativeDentryCache :=
  { cache with entries := cache.entries.erase rel }

end NegativeDentryCache

end ShareCli.Fuse
