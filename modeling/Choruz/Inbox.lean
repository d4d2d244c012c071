import Choruz.Steps

/-!
# Attachments staged for a turn

The files of a turn are fetched into the workspace's inbox, one directory an attachment.
-/

namespace Choruz

open Relational

structure IncomingAttachment where
  (attachmentId filename mimeType : String)
deriving DecidableEq

def stagedFileName (filename : String) : String :=
  let safe := String.ofList (filename.toList.filter fun c => c ≠ '/' && c ≠ '\\' && c ≠ '\x00')
  if safe = "" then "attachment.bin" else safe

/-- Follows `.` and `..` from an absolute directory. -/
def resolvePath (base parts : List String) : List String :=
  parts.foldl (fun path part =>
    if part = "." then path else if part = ".." then path.dropLast else path ++ [part]) base

inductive FileEntry where
  | dir
  | file (bytes : List UInt8)
deriving DecidableEq

/-- The entries of the disk, by absolute path. -/
abbrev Disk := List String → Option FileEntry

namespace Disk

def set (disk : Disk) (path : List String) (entry : FileEntry) : Disk :=
  fun p => if p = path then some entry else disk p

/-- `create_dir_all`, of directories of the workspace, which exists. -/
def createDirs (workDir : List String) : Disk → List (List String) → Option Disk
  | disk, [] => some disk
  | disk, parts :: rest =>
    let path := resolvePath workDir parts
    match disk path with
    | none => createDirs workDir (disk.set path .dir) rest
    | some .dir => createDirs workDir disk rest
    | some (.file _) => none

/-- What `metadata` finds at a path through the directories. -/
def metadata (workDir : List String) (disk : Disk) (dirs : List (List String))
    (parts : List String) : Option FileEntry :=
  if dirs.all (fun dir => disk (resolvePath workDir dir) = some .dir) then
    disk (resolvePath workDir parts)
  else none

end Disk

/-- What has been staged; the paths start at the workspace. -/
structure Staging where
  disk : Disk
  /-- Also a write that failed and left something. -/
  written : List (List String) := []
  listed : List (IncomingAttachment × List String) := []

def inboxPath (attachment : IncomingAttachment) : List String :=
  [".choruz-inbox", stagedFileName attachment.attachmentId, stagedFileName attachment.filename]

def inboxDirs (attachment : IncomingAttachment) : List (List String) :=
  [(inboxPath attachment).take 1, (inboxPath attachment).take 2]

-- a write of `path` that fails may leave an entry there
variable (workDir : List String) (fetch : IncomingAttachment → Except String (List UInt8))
  (failure : List String → Option (Option FileEntry))

def stageAttachment (s : Staging) (attachment : IncomingAttachment) : Staging :=
  let parts := inboxPath attachment
  let path := resolvePath workDir parts
  let listed := s.listed ++ [(attachment, parts)]
  match s.disk.metadata workDir (inboxDirs attachment) parts with
  | some _ => { s with listed }
  | none =>
    match fetch attachment with
    | .error _ => s
    | .ok bytes =>
      match s.disk.createDirs workDir (inboxDirs attachment) with
      | none => s
      | some disk =>
        if disk path = some .dir then { s with disk }
        else match failure path with
          | some none => { s with disk }
          | some (some left) =>
            { s with disk := disk.set path left, written := s.written ++ [parts] }
          | none => ⟨disk.set path (.file bytes), s.written ++ [parts], listed⟩

end Choruz
