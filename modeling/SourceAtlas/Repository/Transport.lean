import SourceAtlas.Disk.Edit
import SourceAtlas.Failure
import SourceAtlas.Repository.Retry

namespace SourceAtlas.Repository

structure Request where
  url : String
  -- an existing, empty folder
  target : Path
  -- seconds
  timeout : Nat
  -- the waits between the requests so far, in order
  waits : List Span

/-- `σ` is what a transport keeps in mind from one request to the next. -/
abbrev Transport (σ : Type) := Request → Disk → σ → Except Diagnostic Unit × Disk × σ

end SourceAtlas.Repository
