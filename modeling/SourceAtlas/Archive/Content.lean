import SourceAtlas.Archive.Directory
import SourceAtlas.Archive.Inflate
import SourceAtlas.Failure
import SourceAtlas.Disk.Fault

namespace SourceAtlas.Archive

/-- `sound` tells whether the bytes are all there and have the checksum noted for them. -/
structure Content where
  bytes : ByteArray
  sound : Bool

namespace Content

def ofStored (b : ByteArray) (e : Entry) (start : Nat) : Content :=
  let bytes := b.extract start (start + e.packedSize)
  ⟨bytes, checksum bytes = e.checksum⟩

def ofDeflated (b : ByteArray) (e : Entry) (start : Nat) : Content :=
  let packed := b.extract start (start + e.packedSize)
  let u := inflate ⟨packed, packed.size⟩
  ⟨u.out, u.ending ≠ .corrupt && checksum u.out = e.checksum⟩

def take (c : Content) (n : Nat) : Content :=
  if n ≤ c.bytes.size then ⟨c.bytes.extract 0 n, true⟩ else c

end Content

def contentOf (b : ByteArray) (e : Entry) : Read Content := do
  if e.locked then throw .passwordRequired
  let start ← contentStart b e
  match e.method with
  | .unknown _ => throw (.unsupported "Compression method not supported")
  | m =>
      if e.isSealed then throw .passwordWrong
      else if m = .stored then return .ofStored b e start
      else return .ofDeflated b e start

def unreadable (path : Path) (cause : String) : Failure :=
  .internal ⟨"Failed to read ZIP file " ++ path.text, [cause]⟩

def blame (path : Path) : Disk.Fault → Failure
  | .notFound => .archiveMissing path
  | fault => unreadable path fault.message

def ReadFault.failure (path : Path) : ReadFault → Failure
  | .cutOff => unreadable path "failed to fill whole buffer"
  | .invalid reason =>
      .invalidArchive (reason ++
        ". Please ensure you are uploading a standard .zip file, not RAR or 7z.")
  | .unsupported reason => .invalidArchive ("unsupported archive: " ++ reason)
  | .passwordRequired => .invalidArchive "unsupported archive: Password required to decrypt file"
  | .passwordWrong => .invalidArchive "provided password for file is incorrect"

end SourceAtlas.Archive
