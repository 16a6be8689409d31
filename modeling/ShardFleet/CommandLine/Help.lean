import ShardFleet.CommandLine.Grammar

/-!
# Help texts

The help text of the program and of each verb: what it is for, how it is used, and a table for each
kind of word, in which all explanations begin in the same column.
-/

namespace ShardFleet.CommandLine

/-- What the help text is about. -/
inductive HelpTopic where
  | program
  | verb (v : Verb)
  /-- The verb that shows help texts. -/
  | help
deriving DecidableEq, Repr

/-- A text padded with spaces at its end. -/
def padded (width : Nat) (s : String) : String :=
  s ++ String.ofList (List.replicate (width - s.length) ' ')

/-- A text padded with spaces at its beginning. -/
def indented (width : Nat) (s : String) : String :=
  String.ofList (List.replicate (width - s.length) ' ') ++ s

/-- A headed table of words and their explanations. -/
def helpTable (title : String) (rows : List (String × String)) : List String :=
  if rows.isEmpty then []
  else
    let width := (rows.map (·.1.length)).foldl max 0
    ["", title ++ ":"] ++ rows.map fun (word, help) => "  " ++ padded width word ++ "  " ++ help

/-- The placeholder for a value. -/
def placeholder (name : String) : String := "<" ++ name ++ ">"

/-- The long form of an option with its value. -/
def OptionSpec.longForm (o : OptionSpec) : String :=
  "--" ++ o.long ++ if o.value.isSome then " " ++ placeholder (o.long.map Char.toUpper) else ""

/-- The row of an option. -/
def OptionSpec.row (o : OptionSpec) : String × String :=
  ("-" ++ String.singleton o.short ++ ", " ++ o.longForm,
    match o.standard with
    | some s => o.help ++ " [default: " ++ s ++ "]"
    | none => o.help)

/-- How the names of a verb are shown. -/
def VerbSpec.namesForm (v : VerbSpec) : Option String :=
  match v.arity with
  | .none => none
  | .one => some (placeholder v.names.1)
  | .some => some (placeholder v.names.1 ++ "...")

/-- The usage of a verb. -/
def VerbSpec.usage (v : VerbSpec) : String :=
  " ".intercalate ([programName, v.name] ++
    (if v.options.any (!·.needed) then ["[OPTIONS]"] else []) ++
    (v.options.filter (·.needed)).map (·.longForm) ++ v.namesForm.toList)

/-- The lines of a help text. -/
def helpLines : HelpTopic → List String
  | .program =>
    [programAbout, "", "Usage: " ++ programName ++ " <COMMAND>"] ++
      helpTable "Commands" (Verb.all.map (fun v => (v.spec.name, v.spec.about)) ++ [helpVerb]) ++
      helpTable "Options" [("-h, --help", "Print help"), ("-V, --version", "Print version")]
  | .verb v =>
    let s := v.spec
    [s.about, "", "Usage: " ++ s.usage] ++
      helpTable "Arguments" (s.namesForm.toList.map fun form => (form, s.names.2)) ++
      helpTable "Options" (s.options.map (·.row) ++ [("-h, --help", "Print help")])
  | .help =>
    [helpVerb.2, "", "Usage: " ++ programName ++ " help [COMMAND]..."] ++
      helpTable "Arguments" [("[COMMAND]...", "Print help for the subcommand(s)")]

/-- A help text. -/
def helpText (topic : HelpTopic) : String := String.join ((helpLines topic).map (· ++ "\n"))

end ShardFleet.CommandLine
