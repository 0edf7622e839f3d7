import SourcePages.Report.Basic

namespace SourcePages.Command

structure Clock where
  durationMs : Nat
  filesPerSecond : Binary64
  timestamp : String

namespace Clock

def stamp (c : Clock) (r : Report) : Report :=
  { r with
    metadata.durationMs := c.durationMs
    metadata.filesPerSecond := c.filesPerSecond
    metadata.timestamp := c.timestamp }

def padded (width n : Nat) : String :=
  let digits := toString n
  String.ofList (List.replicate (width - digits.length) '0') ++ digits

/-- The year, month and day of a day counted from the first of January 1970. Years are taken to
begin in March, so that a leap day ends its year. -/
def date (day : Nat) : Nat × Nat × Nat :=
  let z := day + 719468
  let era := z / 146097
  let dayOfEra := z % 146097
  let yearOfEra := (dayOfEra - dayOfEra / 1460 + dayOfEra / 36524 - dayOfEra / 146096) / 365
  let dayOfYear := dayOfEra - (365 * yearOfEra + yearOfEra / 4 - yearOfEra / 100)
  let month := (5 * dayOfYear + 2) / 153
  let dayOfMonth := dayOfYear - (153 * month + 2) / 5 + 1
  let year := yearOfEra + 400 * era
  if month < 10 then (year, month + 3, dayOfMonth) else (year + 1, month - 9, dayOfMonth)

def fraction (nanos : Nat) : String :=
  if nanos = 0 then ""
  else if nanos % 1000000 = 0 then "." ++ padded 3 (nanos / 1000000)
  else if nanos % 1000 = 0 then "." ++ padded 6 (nanos / 1000)
  else "." ++ padded 9 nanos

def pointInTime (seconds nanos : Nat) : String :=
  let (year, month, day) := date (seconds / 86400)
  let second := seconds % 86400
  padded 4 year ++ "-" ++ padded 2 month ++ "-" ++ padded 2 day ++ "T" ++
    padded 2 (second / 3600) ++ ":" ++ padded 2 (second / 60 % 60) ++ ":" ++
    padded 2 (second % 60) ++ fraction nanos ++ "+00:00"

def ofRun (files nanos : Nat) (timestamp : String) : Clock where
  durationMs := nanos / 1000000
  filesPerSecond :=
    let rate := if nanos = 0 then Binary64.ofInt? files
      else (Binary64.roundQuotient? (files * 1000000000) nanos).map (Binary64.signed false)
    rate.getD Binary64.zero
  timestamp := timestamp

end Clock

end SourcePages.Command
