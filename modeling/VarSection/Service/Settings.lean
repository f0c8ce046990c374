/-
Settings of the service: a table of values under names.
-/
import VarSection.Json.Value

namespace VarSection

/-- Values under names, in the order in which the names came up. -/
abbrev Settings := List (Text × Json)

namespace Settings

/-- The settings of the checker where nothing overrides them. -/
def checkerDefaults : Settings :=
  [("HOST", .text "127.0.0.1"), ("PORT", .int 5000), ("DEBUG", .bool false),
    ("LOG_LEVEL", .text "INFO"), ("MAX_SOURCE_LENGTH", .int 100000)]

/-- The value under a name, null where there is none. -/
def get (settings : Settings) (name : Text) : Json :=
  (Json.lookup? settings name).getD .null

end Settings

end VarSection
