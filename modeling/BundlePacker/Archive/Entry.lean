import BundlePacker.Text.Utf8
import BundlePacker.Checksum

/-!
# Archive entries

An entry is what an archive says about one file: its name, its bytes, its permission bits, how the
bytes are packed and the moment that stands for its last change.  The remaining header fields follow
from these, and the functions below say how.
-/

namespace BundlePacker.Archive

/-- How the bytes of an entry are packed. -/
inductive Method where
  | deflate
deriving DecidableEq

/-- The number of a method in entry headers. -/
def Method.number : Method → Nat
  | deflate => 8

/-- A moment of the calendar, in no particular time zone. -/
structure Moment where
  year : Int
  month : Nat
  day : Nat
  hour : Nat
  minute : Nat
  second : Nat
deriving DecidableEq

namespace Moment

/-- A number with zeros in front of it, up to a width. -/
def padded (width number : Nat) : String :=
  let digits := toString number
  String.ofList (List.replicate (width - digits.length) '0') ++ digits

/-- The text of a moment.  Years have four digits, and a sign where they need one. -/
def display (moment : Moment) : String :=
  let sign := if moment.year < 0 then "-" else if 9999 < moment.year then "+" else ""
  sign ++ padded 4 moment.year.natAbs ++ "-" ++ padded 2 moment.month ++ "-" ++
    padded 2 moment.day ++ " " ++ toString moment.hour ++ ":" ++ padded 2 moment.minute ++ ":" ++
    padded 2 moment.second ++ ".0"

end Moment

/-- A moment as archives record it: local time, in steps of two seconds. -/
structure Timestamp where
  year : Nat
  month : Nat
  day : Nat
  hour : Nat
  minute : Nat
  second : Nat
deriving DecidableEq

namespace Timestamp

/-- The first moment that an archive can record. -/
def epoch : Timestamp :=
  ⟨1980, 1, 1, 0, 0, 0⟩

/-- How many days a month has. -/
def daysIn (year month : Nat) : Nat :=
  if month = 2 then
    if year % 4 = 0 ∧ (year % 100 ≠ 0 ∨ year % 400 = 0) then 29 else 28
  else if month = 4 ∨ month = 6 ∨ month = 9 ∨ month = 11 then 30
  else 31

/-- The timestamp of a year, a month and so on, if an archive can record them. -/
def ofFields? (year month day hour minute second : Nat) : Option Timestamp :=
  if (1980 ≤ year ∧ year ≤ 2107) ∧ (1 ≤ month ∧ month ≤ 12) ∧
      (1 ≤ day ∧ day ≤ daysIn year month) ∧ hour ≤ 23 ∧ minute ≤ 59 ∧ second ≤ 60 then
    some ⟨year, month, day, hour, minute, min second 58⟩
  else none

/-- The timestamp of a moment, whose year has to fit into sixteen bits in the first place. -/
def ofMoment? (moment : Moment) : Option Timestamp :=
  if 0 ≤ moment.year ∧ moment.year < 65536 then
    ofFields? moment.year.toNat moment.month moment.day moment.hour moment.minute moment.second
  else none

/-- Seven bits for the years since 1980, four for the month and five for the day. -/
def dateField (moment : Timestamp) : Nat :=
  (moment.year - 1980) * 512 + moment.month * 32 + moment.day

/-- Five bits for the hour, six for the minute and five for the pairs of seconds. -/
def timeField (moment : Timestamp) : Nat :=
  moment.hour * 2048 + moment.minute * 32 + moment.second / 2

/-- The two fields of a moment that can be recorded fit into two bytes each and say what it is. -/
theorem fields_of_ofMoment? {moment : Moment} {stamp : Timestamp}
    (recorded : ofMoment? moment = some stamp) :
    (stamp.dateField < 65536 ∧ stamp.timeField < 65536) ∧
      moment.year = (stamp.dateField / 512 + 1980 : Nat) ∧
      moment.month = stamp.dateField / 32 % 16 ∧ moment.day = stamp.dateField % 32 ∧
      moment.hour = stamp.timeField / 2048 ∧ moment.minute = stamp.timeField / 32 % 64 ∧
      min moment.second 58 / 2 = stamp.timeField % 32 := by
  have days : ∀ year month, daysIn year month ≤ 31 := by
    intro year month
    unfold daysIn
    split <;> split <;> omega
  unfold ofMoment? ofFields? at recorded
  split at recorded
  · split at recorded
    · next bounds =>
      have few := days moment.year.toNat moment.month
      cases recorded
      simp only [dateField, timeField]
      omega
    · cases recorded
  · cases recorded

end Timestamp

/-- One file of an archive. -/
structure Entry where
  /-- Where the file lies in the archive: names with a slash between any two. -/
  name : String
  /-- The bytes of the file. -/
  data : Bytes
  /-- Read, write and execute bits for owner, group and others. -/
  permissions : BitVec 9
  method : Method
  modified : Timestamp
deriving DecidableEq

namespace Entry

/-- The bytes of the name. -/
def nameBytes (entry : Entry) : Bytes :=
  Utf8.ofString entry.name

/-- The number of bytes of the file. -/
def size (entry : Entry) : Nat :=
  entry.data.length

/-- The checksum of the file's bytes. -/
def checksum (entry : Entry) : UInt32 :=
  Checksum.ofBytes entry.data

/-- The system and the version of the format that wrote an entry: 3 for Unix, 20 for 2.0. -/
def madeBy : Nat :=
  3 * 256 + 20

/-- The version of the format that an entry's reader needs. -/
def versionNeeded : Nat :=
  20

/-- Bit 11 says that the name is UTF-8; it is set when the name is not plain ASCII. -/
def flags (entry : Entry) : Nat :=
  if entry.name.toList.all fun character => character.toNat < 128 then 0 else 2048

/-- The Unix mode of a regular file with the entry's permissions, in the upper half. -/
def externalAttributes (entry : Entry) : Nat :=
  (0o100000 + entry.permissions.toNat) * 65536

end Entry

end BundlePacker.Archive
