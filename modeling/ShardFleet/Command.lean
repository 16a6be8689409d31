import ShardFleet.Resp.Writer

/-!
# Commands

A command is a name in capitals and its arguments. On the wire it is an array of byte strings.
-/

namespace ShardFleet

/-- A command for a server. -/
structure Command where
  name : String
  args : List Bytes
deriving DecidableEq, Repr, Inhabited

namespace Command

/-- The command with this name, of which the ASCII letters are put in capitals. -/
def of (name : String) (args : List Bytes) : Command := ⟨name.map Char.toUpper, args⟩

/-- The words of the command on the wire. -/
def words (c : Command) : List Bytes := utf8 c.name :: c.args

/-- Commands that wait on the server until there is something to answer. -/
def blockingNames : List String :=
  ["BLPOP", "BRPOP", "BRPOPLPUSH", "BLMOVE", "BLMPOP", "BZPOPMIN", "BZPOPMAX", "BZMPOP"]

/-- Whether a reply may take any length of time. -/
def isBlocking (c : Command) : Bool := blockingNames.contains c.name

/-- The words of the command with a space between them. -/
def text (c : Command) : String := String.intercalate " " (c.name :: c.args.map Utf8.lossy)

/-- The command as a value: an array of byte strings. -/
def toValue (c : Command) : Resp.Value := .array (c.words.map .bulk)

/-- The bytes that send the command. -/
def encode (c : Command) : Bytes :=
  Resp.header 0x2A (c.args.length + 1) ++ c.words.flatMap Resp.encodeBulk

end Command

end ShardFleet
