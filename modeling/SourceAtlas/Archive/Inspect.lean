import SourceAtlas.Archive.Content
import SourceAtlas.Disk.Locate
import SourceAtlas.Number.Rounding
import SourceAtlas.Settings.Basic

namespace SourceAtlas.Archive

structure Report where
  fileCount : Nat
  archiveBytes : Nat
  unpackedBytes : Nat
  deriving DecidableEq, Repr

def bytesPerMegabyte : Nat := 1048576

def megabytes (n : Nat) : String :=
  Number.hundredths (Number.toBits Number.doubleBits n) bytesPerMegabyte ++ "MB"

def orFailure {α : Type} (path : Path) (r : Read α) : Except Failure α :=
  r.mapError (ReadFault.failure path)

def entriesWithContent (b : ByteArray) : Read (List Entry) := do
  let es ← entries b
  es.forM fun e => discard (contentStart b e)
  return es

def totalSize (es : List Entry) : Nat := es.foldl (fun n e => min (n + e.size) Settings.wordMax) 0

def Report.ofEntries (archiveBytes : Nat) (es : List Entry) : Report :=
  let files := es.filter fun e => !e.isFolder
  ⟨files.length, archiveBytes, totalSize files⟩

/-- The files are counted first. -/
def Report.within (r : Report) (limits : Limits) : Except Failure Report :=
  if limits.maxArchiveFiles < r.fileCount then
    .error (.limitExceeded ("ZIP contains too many files (" ++ toString r.fileCount ++
      "). Maximum allowed: " ++ toString limits.maxArchiveFiles))
  else if limits.maxUncompressedBytes < r.unpackedBytes then
    .error (.limitExceeded ("ZIP expands to " ++ megabytes r.unpackedBytes ++
      ", more than the allowed " ++ megabytes limits.maxUncompressedBytes))
  else .ok r

def inspect (d : Disk) (path : Path) (limits : Limits) : Except Failure Report := do
  let (_, record) ← (d.stat path).mapError (blame path)
  match record.entry with
  | .file _ b _ =>
      if limits.maxArchiveBytes < b.size then
        .error (.limitExceeded ("File size exceeds maximum limit of " ++
          megabytes limits.maxArchiveBytes ++ ". Your file: " ++ megabytes b.size))
      else
        let es ← orFailure path (entriesWithContent b)
        (Report.ofEntries b.size es).within limits
  | _ => .error (.invalidArchive (path.text ++ " is not a file"))

def inspectionOverdue : Failure :=
  .invalidArchive "ZIP validation timed out. The file may be too large or corrupted."

end SourceAtlas.Archive
