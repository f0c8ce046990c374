/-
The program: the service on its standard streams. It reads requests from
standard input, one after the other, and writes the answers to standard
output, as a service does that another program connects to the network.
Settings come from the environment, and the log goes to standard error. The
server is the standard one.
-/
import VarSection.Service.Exchange
import VarSection.Service.Standard
import VarSection.Service.Startup

namespace VarSection

/-- The variables of the environment. -/
def readEnvironment : IO (List (Text × Text)) := do
  let bytes ← IO.FS.readBinFile "/proc/self/environ"
  let text := (String.fromUTF8? bytes).getD ""
  return (text.splitOn "\x00").filterMap fun entry =>
    let name := entry.toList.takeWhile (· != '=')
    if name.isEmpty then none
    else some (name.map CodePoint.char,
      (entry.toList.drop (name.length + 1)).map CodePoint.char)

/-- Writes those records to the log that reach its level. -/
def writeLog (rank : Int) (log : List LogRecord) : IO Unit := do
  for record in log do
    if rank ≤ record.level.rank then
      IO.eprintln (record.level.name ++ " " ++ record.logger ++ ": " ++
        record.message).display

/-- The lines up to the next empty one. -/
partial def readLines (input : IO.FS.Stream) : IO (List String) := do
  let line ← input.getLine
  if line.isEmpty || line == "\r\n" || line == "\n" then return []
  else return line :: (← readLines input)

/-- A number of bytes, or those up to the end of the input. -/
partial def readBytes (input : IO.FS.Stream) (count : Nat)
    (read : ByteArray) : IO ByteArray := do
  if count = 0 then return read
  let more ← input.read count.toUSize
  if more.isEmpty then return read
  else readBytes input (count - more.size) (read ++ more)

/-- Answers requests until the input ends. -/
partial def serve [Server] (settings : Settings) (rank : Int)
    (input output : IO.FS.Stream) : IO Unit := do
  match RequestHead.ofLines? (← readLines input) with
  | none => return
  | some head =>
    let body ← readBytes input head.bodyLength ByteArray.empty
    let response := respond settings (head.withBody body)
    writeLog rank response.log
    output.write response.wire
    output.flush
    serve settings rank input output

end VarSection

open VarSection
open scoped UsualServer

/-- Starts the service, unless its settings cannot be used. -/
def main : IO UInt32 := do
  match Server.configure .checkerDefaults (← readEnvironment) with
  | .error message =>
    IO.eprintln message
    return 1
  | .ok settings =>
    match Startup.ofSettings settings with
    | .error fault =>
      IO.eprintln fault.message.display
      return 1
    | .ok start =>
      writeLog start.rank start.log
      serve settings start.rank (← IO.getStdin) (← IO.getStdout)
      return 0
