import Syswatch.PostedEvents

/-! # What the process prints

With `output.type` `stdout` or `file` every event becomes one line. The text of an
event holds no newline, so that a reader of lines gets the events back. -/

namespace Syswatch.StreamedEvents
open Lib.CText Lib.Machine Process ProcessShutdown ProcessBatching QueuedTexts PostedEvents

/-! ## The bytes of a run -/

/-- The lines with their newlines. -/
def printed (lines : List Handed) : Bytes := lines.flatMap fun line => line.text ++ [10]

end Syswatch.StreamedEvents
