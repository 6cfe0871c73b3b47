/-! Points in time as texts. -/

namespace ObjectLang.Date

/-- A number of seconds after midnight as a time of day. -/
def clockText (seconds : Nat) : String :=
  ":".intercalate ([seconds / 3600, seconds / 60 % 60, seconds % 60].map twoDigits)
where
  /-- A number with at least two digits. -/
  twoDigits (n : Nat) : String := if n < 10 then "0" ++ toString n else toString n

/-- The year, month and day that lie some days after the first of March of the year 0. Years start in
March here, so that a leap day is the last day of its year. -/
def ofDays (days : Nat) : Nat × Nat × Nat :=
  let era := days / 146097
  let day := days % 146097
  let year := (day - day / 1460 + day / 36524 - day / 146096) / 365
  let dayOfYear := day - (365 * year + year / 4 - year / 100)
  let month := (5 * dayOfYear + 2) / 153
  let dayOfMonth := dayOfYear - (153 * month + 2) / 5 + 1
  if month < 10 then (400 * era + year, month + 3, dayOfMonth)
  else (400 * era + year + 1, month - 9, dayOfMonth)

/-- The point in time that lies some seconds after the start of 1970, in universal time. -/
def utcText (seconds : Nat) : String :=
  let (year, month, day) := ofDays (seconds / 86400 + 719468)
  let fourDigits := "".pushn '0' (4 - (toString year).length) ++ toString year
  fourDigits ++ "-" ++ clockText.twoDigits month ++ "-" ++ clockText.twoDigits day ++ "T" ++
    clockText (seconds % 86400) ++ "Z"

end ObjectLang.Date
