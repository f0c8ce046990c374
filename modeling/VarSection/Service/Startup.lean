/-
How the service starts: the level of its log, and what it hands to the
server.
-/
import VarSection.Log
import VarSection.Service.Settings

namespace VarSection

/-- Why a setting is no level of a log. -/
inductive LevelFault where
  /-- a name that no level has -/
  | unknownName (name : Text)
  /-- neither a name nor a whole number -/
  | notLevel (value : Json)

/-- The wording of a fault. -/
def LevelFault.message : LevelFault → Text
  | .unknownName name => "Unknown level: " ++ Text.quoted name
  | .notLevel value =>
    "Level not an integer or a valid string: " ++ value.shown

/-- The ranks of levels by name. -/
def levelRanks : List (Text × Int) :=
  [("CRITICAL", 50), ("FATAL", 50), ("ERROR", 40), ("WARN", 30),
    ("WARNING", 30), ("INFO", 20), ("DEBUG", 10), ("NOTSET", 0)]

/-- The rank that a setting stands for. -/
def levelRank : Json → Except LevelFault Int
  | .int rank => .ok rank
  | .bool value => .ok value.toNat
  | .text name =>
    match levelRanks.find? (·.1 == name) with
    | some (_, rank) => .ok rank
    | none => .error (.unknownName name)
  | value => .error (.notLevel value)

/-- How a record is laid out: time, level, logger and message. -/
def logFormat : Text := "%(asctime)s %(levelname)s %(name)s: %(message)s"

/-- What the service starts with. -/
structure Startup where
  rank : Int
  log : List LogRecord
  host : Json
  tcpPort : Json
  debug : Json

/-- The start of the service under its settings. Of its two records those
below the level of the log are left out. -/
def Startup.ofSettings (settings : Settings) : Except LevelFault Startup := do
  let rank ← levelRank (settings.get "LOG_LEVEL")
  let records : List LogRecord :=
    [⟨"__main__", .info, "=== Проверка описания переменных (Pascal) ==="⟩,
      ⟨"__main__", .info, "Сервер запускается..."⟩]
  return {
    rank
    log := records.filter fun record => rank ≤ record.level.rank
    host := settings.get "HOST"
    tcpPort := settings.get "PORT"
    debug := settings.get "DEBUG" }

end VarSection
