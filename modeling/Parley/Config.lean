/-
Settings.

Settings come from texts under four keys, looked up in whatever the program was
started with.  A delay is a number of milliseconds below 2^64; a text that is no
such number counts as absent.  Blanks around a delay or a log format do not
matter.  The log filter is taken as it stands.
-/
import Parley.Text

namespace Parley

/-- How long a conversation pauses, in milliseconds. -/
structure Pace where
  /-- After a message of the bot. -/
  message : Nat
  /-- After a reply of the user. -/
  reply : Nat
deriving DecidableEq

def Pace.usual : Pace := ⟨1000, 500⟩

def Pace.instant : Pace := ⟨0, 0⟩

inductive LogFormat where
  | text
  | json
deriving DecidableEq

structure Config where
  pace : Pace
  logFilter : String
  logFormat : LogFormat
deriving DecidableEq

namespace Config

/-- A delay as it was set, or the usual one. -/
def delay (setting : Option String) (usual : Nat) : Nat :=
  (setting.bind fun s => Text.unsigned? (Text.trim s)).getD usual

def format (setting : Option String) : LogFormat :=
  if setting.map Text.trim == some "json" then .json else .text

def messageDelayKey : String := "FLOWBOT_MESSAGE_DELAY_MS"

def replyDelayKey : String := "FLOWBOT_REPLY_DELAY_MS"

def logFilterKey : String := "FLOWBOT_LOG"

def logFormatKey : String := "FLOWBOT_LOG_FORMAT"

/-- All keys that are looked up. -/
def keys : List String := [messageDelayKey, replyDelayKey, logFilterKey, logFormatKey]

/-- The settings that a look-up leads to. -/
def ofLookup (lookup : String → Option String) : Config where
  pace :=
    { message := delay (lookup messageDelayKey) Pace.usual.message
      reply := delay (lookup replyDelayKey) Pace.usual.reply }
  logFilter := (lookup logFilterKey).getD "flowbot=info"
  logFormat := format (lookup logFormatKey)

/-- The settings where nothing was set. -/
def usual : Config := ofLookup fun _ => none

end Config

end Parley
