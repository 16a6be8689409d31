import ShardFleet.CommandLine.Help

/-!
# Reading the command line

Words are read from left to right, and the first that says how it ends decides: a wish for a help text
before it, or a word that cannot stand where it stands. A value may follow its option as the next word,
or in the same word with or without an equals sign; after `--` everything is a name.
-/

namespace ShardFleet.CommandLine

/-- What the words of a verb say. -/
structure Wishes where
  settings : List (Setting × String) := []
  names : List String := []
deriving DecidableEq, Repr

/-- What the command line asks for. -/
inductive Request where
  | run (verb : Verb) (wishes : Wishes)
  | help (topic : HelpTopic)
  | programVersion
  /-- The words are none that the program understands. -/
  | misuse
deriving DecidableEq, Repr

/-- The number that a word writes: digits, which a plus sign may precede. -/
def number? (word : String) : Option Nat :=
  let digits := match word.toList with
    | '+' :: r => r
    | r => r
  if digits.isEmpty || !digits.all Char.isDigit then none
  else
    let n := digits.foldl (fun n c => n * 10 + (c.toNat - '0'.toNat)) 0
    if n < UInt64.size then some n else none

/-- Whether a value is one for an option. -/
def ValueKind.accepts : ValueKind → String → Bool
  | path, v => !v.isEmpty
  | number, v => (number? v).isSome
  | text, _ => true

/-- The value of a setting. -/
def Wishes.find? (w : Wishes) (s : Setting) : Option String := (w.settings.find? (·.1 = s)).map (·.2)

/-- Adds a setting, which must be new and have a fitting value. -/
def Wishes.set (w : Wishes) (o : OptionSpec) (value : String) : Option Wishes :=
  if (w.find? o.setting).isSome then none
  else if o.value.all (·.accepts value) then
    some { w with settings := w.settings ++ [(o.setting, value)] }
  else none

/-- Adds a name, if the verb takes one more. -/
def Wishes.addName (v : VerbSpec) (w : Wishes) (name : String) : Option Wishes :=
  match v.arity with
  | .none => none
  | .one => if w.names.isEmpty then some { w with names := [name] } else none
  | .some => some { w with names := w.names ++ [name] }

/-- Adds names one by one. -/
def Wishes.addNames (v : VerbSpec) : Wishes → List String → Option Wishes
  | w, [] => some w
  | w, n :: ns => (w.addName v n).bind fun w => addNames v w ns

/-- What a word says in its place. -/
inductive Said where
  | wishes (w : Wishes)
  /-- The value of an option is still to come, as the next word. -/
  | awaits (o : OptionSpec) (w : Wishes)
  | help
  | misuse
deriving Repr

/-- What a word says after wishes that may have been refused. -/
def Said.ofOption : Option Wishes → Said
  | some w => wishes w
  | none => misuse

/-- The word that stands for an option without a value. -/
def isSet : String := "true"

/-- Reads the letters after a dash. -/
def readLetters (v : VerbSpec) (w : Wishes) : List Char → Said
  | [] => .wishes w
  | 'h' :: _ => .help
  | c :: rest =>
    match v.options.find? (·.short = c) with
    | none => .misuse
    | some o =>
      match o.value, rest with
      | none, rest =>
        match w.set o isSet with
        | some w => readLetters v w rest
        | none => .misuse
      | some _, [] => .awaits o w
      | some _, '=' :: value => .ofOption (w.set o (String.ofList value))
      | some _, value => .ofOption (w.set o (String.ofList value))

/-- Reads the word after two dashes. -/
def readLong (v : VerbSpec) (w : Wishes) (word : List Char) : Said :=
  let name := String.ofList (word.takeWhile (· ≠ '='))
  let inline : Option String := match word.dropWhile (· ≠ '=') with
    | [] => none
    | _ :: value => some (String.ofList value)
  if name = "help" then (if inline.isNone then .help else .misuse)
  else
    match v.options.find? (·.long = name) with
    | none => .misuse
    | some o =>
      match o.value, inline with
      | none, none => .ofOption (w.set o isSet)
      | none, some _ => .misuse
      | some _, none => .awaits o w
      | some _, some value => .ofOption (w.set o value)

/-- Reads one word. -/
def readWord (v : VerbSpec) (w : Wishes) (word : String) : Said :=
  match word.toList with
  | '-' :: '-' :: name => readLong v w name
  | '-' :: c :: letters => readLetters v w (c :: letters)
  | _ => .ofOption (w.addName v word)

/-- Whether a word can be the value of the option before it. -/
def canBeValue (word : String) : Bool :=
  match word.toList with
  | '-' :: _ :: _ => false
  | _ => true

/-- Adds what is not given but has a standard value. The verb must have what it needs. -/
def Wishes.complete (v : VerbSpec) (w : Wishes) : Option Wishes :=
  let given (o : OptionSpec) : Bool := (w.find? o.setting).isSome
  if v.options.any (fun o => o.needed && !given o) || (v.arity ≠ .none && w.names.isEmpty) then none
  else
    let missing := v.options.filter (!given ·)
    some { w with settings :=
      w.settings ++ missing.filterMap fun o => o.standard.map fun s => (o.setting, s) }

/-- The request of a verb whose words were read. -/
def finish (verb : Verb) (w : Option Wishes) : Request :=
  match w.bind (·.complete verb.spec) with
  | some w => .run verb w
  | none => .misuse

/-- Reads the words of a verb. -/
def readWords (verb : Verb) (w : Wishes) : List String → Request
  | [] => finish verb (some w)
  | "--" :: names => finish verb (w.addNames verb.spec names)
  | word :: rest =>
    match readWord verb.spec w word with
    | .wishes w => readWords verb w rest
    | .help => .help (.verb verb)
    | .misuse => .misuse
    | .awaits o w =>
      match rest with
      | [] => .misuse
      | value :: rest =>
        if canBeValue value then
          match w.set o value with
          | some w => readWords verb w rest
          | none => .misuse
        else .misuse

/-- Reads the words after the one that asks for a help text. -/
def readHelp : List String → Request
  | [] => .help .program
  | [name] =>
    if name = helpVerb.1 then .help .help
    else match Verb.ofName? name with
      | some v => .help (.verb v)
      | none => .misuse
  | _ => .misuse

/-- Reads the command line. -/
def readArguments : List String → Request
  | [] => .misuse
  | first :: rest =>
    if first = helpVerb.1 then readHelp rest
    else if first = "--help" then .help .program
    else if first = "--version" then .programVersion
    else
      match first.toList with
      | '-' :: 'h' :: _ => .help .program
      | '-' :: 'V' :: _ => .programVersion
      | _ =>
        match Verb.ofName? first with
        | some v => readWords v {} rest
        | none => .misuse

end ShardFleet.CommandLine
