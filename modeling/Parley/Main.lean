/-
The command line.

Without arguments the demo conversation is held on the terminal, in real time.
With `--json` among the arguments its graph is printed instead.
-/
import Parley.Chat.Typed
import Parley.Config
import Parley.Demo
import Parley.Graph.Codec
import Parley.Json.Printer

namespace Parley

/-- A number of a hundred and twenty-eight bits picked at random. -/
def randomSeed : IO Nat := do
  return (← IO.getRandomBytes 16).toList.foldl (fun n b => n * 256 + b.toNat) 0

/-- The settings among the environment variables. -/
def configOfEnvironment : IO Config := do
  let settings ← Config.keys.filterMapM fun key => do return (← IO.getEnv key).map (key, ·)
  return Config.ofLookup fun key => (settings.find? (·.1 == key)).map (·.2)

/-- What was printed goes to the terminal. -/
def flushChat (r : Chat.Room) : IO Chat.Room := do
  unless r.chat.printed.isEmpty do
    IO.print r.chat.printed
    (← IO.getStdout).flush
  return { r with chat := { r.chat with printed := "" } }

/-- Chats until the conversation or the input ends.  `reading` is the line that
is being typed, and the clock of the session started at `origin`. -/
partial def chat (origin : Nat) (r : Chat.Room) (reading : Task (Except IO.Error String)) : IO Unit := do
  let now := (← IO.monoMsNow) - origin
  let r ← flushChat (r.elapse (now - r.session.timers.now))
  if r.chat.done then return
  if ← IO.hasFinished reading then
    let line ← IO.ofExcept reading.get
    if line.isEmpty then return
    let r ← flushChat (r.reply line)
    chat origin r (← nextLine)
  else
    IO.sleep 5
    chat origin r reading
where
  nextLine : IO (Task (Except IO.Error String)) := do
    IO.asTask (← IO.getStdin).getLine Task.Priority.dedicated

/-- Chats through the demo conversation, or prints it. -/
def runMain (args : List String) : IO Unit := do
  let config ← configOfEnvironment
  let graph := Demo.graph (.ofSeed (← randomSeed))
  if args.contains "--json" then
    IO.println graph.toJson.indented
  else
    chat (← IO.monoMsNow) (.start ⟨.ofGraph graph, config.pace⟩) (← chat.nextLine)

end Parley

def main (args : List String) : IO Unit := Parley.runMain args
