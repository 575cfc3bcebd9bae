import FlatDb.Connection
import FlatDb.Console

/-! # The command line

The program is called with options and at most one input.

* `-d DIR` or `--data DIR` names the root; without it the root is `databases`.
* `-l ADDR` or `--listen ADDR` asks to serve connections.
* `-h`, `--help`, `-V` and `--version` are answered as soon as they are met.
* A value may also stand in the same word as its option: `-dDIR`, `-d=DIR`, `--data=DIR`.  A value
  in a word of its own does not begin with a hyphen, unless it is a single hyphen.
* Words after `--` are inputs, whatever they begin with.
* An input that ends in `.tdb`, in any case, is the path of a script; another one is a command.
  Without an input the console is started.

Words are read from left to right, and the first that cannot be understood is refused. -/

namespace FlatDb

/-- What the program is asked to do. -/
structure Options where
  data : Option Text
  listen : Option Text
  input : Option Text
deriving DecidableEq, Repr

/-- What a command line asks for. -/
inductive Request where
  | start (options : Options)
  | help
  | version
  | misuse
deriving DecidableEq, Repr

/-- An option with a value. -/
inductive Setting where
  | data
  | listen
deriving DecidableEq, Repr

namespace Options

/-- Nothing is asked for. -/
def none : Options := ⟨.none, .none, .none⟩

/-- The options with a value for a setting.  A setting is given once, and the root is not empty. -/
def set (o : Options) (value : Text) : Setting → Option Options
  | .data => if o.data.isSome || value.isEmpty then .none else some { o with data := some value }
  | .listen => if o.listen.isSome then .none else some { o with listen := some value }

/-- The options with an input, of which there can be one. -/
def setInput (o : Options) (value : Text) : Option Options :=
  if o.input.isSome then .none else some { o with input := some value }

end Options

/-- A word of a command line. -/
inductive Word where
  | help
  | version
  | setting (which : Setting)
  | settingWith (which : Setting) (value : Text)
  | endOfOptions
  | input (value : Text)
  | unknown
deriving DecidableEq, Repr

namespace Word

/-- The word for a setting and what follows its letter in the same word. -/
def ofShort (which : Setting) : Text → Word
  | [] => setting which
  | '=' :: value => settingWith which value
  | value => settingWith which value

/-- The word for a letter after a hyphen and what follows the letter. -/
def ofLetter (letter : Char) (rest : Text) : Word :=
  if letter = 'd' then ofShort .data rest
  else if letter = 'l' then ofShort .listen rest
  else if letter = 'h' then help
  else if letter = 'V' then version
  else unknown

/-- The word for a setting and the value after its equals sign. -/
def ofLong (which : Setting) : Option Text → Word
  | none => setting which
  | some value => settingWith which value

/-- The word for a name after two hyphens and the value after an equals sign. -/
def ofName (name : Text) (value : Option Text) : Word :=
  if name = "data".toList then ofLong .data value
  else if name = "listen".toList then ofLong .listen value
  else if name = "help".toList ∧ value = none then help
  else if name = "version".toList ∧ value = none then version
  else unknown

/-- A name and the value after the first equals sign. -/
def splitValue (t : Text) : Text × Option Text :=
  match t.dropWhile (· ≠ '=') with
  | [] => (t, none)
  | _ :: value => (t.takeWhile (· ≠ '='), some value)

/-- What a word says before the end of options. -/
def ofText : Text → Word
  | ['-', '-'] => endOfOptions
  | '-' :: '-' :: t => ofName (splitValue t).1 (splitValue t).2
  | ['-'] => input ['-']
  | '-' :: letter :: rest => ofLetter letter rest
  | t => input t

/-- A word that can be the value of the setting before it. -/
def isValue (t : Text) : Bool := t = ['-'] || t.head? ≠ some '-'

end Word

/-- What the next word of a command line can be. -/
inductive Expecting where
  | anything
  | value (which : Setting)
  | inputs
deriving DecidableEq, Repr

namespace Request

/-- Takes one word into the options, or says at once what is asked for. -/
def readWord (o : Options) (t : Text) : Expecting → Except Request (Expecting × Options)
  | .inputs => accept .inputs (o.setInput t)
  | .value which => if Word.isValue t then accept .anything (o.set t which) else .error misuse
  | .anything =>
    match Word.ofText t with
    | .help => .error help
    | .version => .error version
    | .setting which => .ok (.value which, o)
    | .settingWith which value => accept .anything (o.set value which)
    | .endOfOptions => .ok (.inputs, o)
    | .input value => accept .anything (o.setInput value)
    | .unknown => .error misuse
where
  /-- Goes on with new options, if there are any. -/
  accept (next : Expecting) : Option Options → Except Request (Expecting × Options)
    | some o => .ok (next, o)
    | none => .error misuse

/-- Reads the words of a command line. -/
def ofWords : Expecting → Options → List Text → Request
  | .value _, _, [] => misuse
  | _, o, [] => start o
  | expecting, o, t :: more =>
    match readWord o t expecting with
    | .ok (expecting, o) => ofWords expecting o more
    | .error request => request

/-- What a command line asks for. -/
def ofArguments (args : List Text) : Request := ofWords .anything .none args

end Request

/-! ### Running the program -/

/-- The root that is used when none is named. -/
def defaultRoot : Text := "databases".toList

/-- The engine for some options. -/
def Options.engine (o : Options) : Engine := { root := .ofText (o.data.getD defaultRoot) }

/-- The end of the names of scripts. -/
def scriptEnd : Text := ".tdb".toList

/-- An input is the path of a script. -/
def isScript (input : Text) : Bool := scriptEnd.isSuffixOf input.lowercase

/-- The commands of a script, one on each line that is not blank. -/
def scriptCommands (contents : Text) : List Text :=
  (Text.lines contents).filter fun line => !Text.allBlank line

/-- The responses to commands in order, each on lines of its own, and the disk after them. -/
def Engine.runAll (e : Engine) : Session → Disk → List Text → Text × Disk
  | _, d, [] => ([], d)
  | session, d, input :: more =>
    let o := e.runText session d input
    let (rest, d) := e.runAll o.session o.disk more
    (o.response ++ '\n' :: rest, d)

/-- The end of a program: its code, what it has written and the disk it leaves. -/
structure Ending where
  code : Nat
  output : Text
  disk : Disk

/-- The code of a program that failed. -/
def failureCode : Nat := 1

/-- The code of a program whose command line was refused. -/
def misuseCode : Nat := 2

/-- The text for a request for the version. -/
def versionText : Text := "tabdb 0.1.0\n".toList

/-- The text for a request for help. -/
def usageText : Text :=
  Text.join '\n' <|
    [ "A flat-file database spoken to one line at a time",
      "",
      "Usage: tabdb [OPTIONS] [INPUT]",
      "",
      "Arguments:",
      "  [INPUT]  A single command, or a .tdb script to run",
      "",
      "Options:",
      "  -d, --data <DATA>    Directory with one directory per database [default: databases]",
      "  -l, --listen <ADDR>  Serve the line protocol on this address instead of starting a REPL",
      "  -h, --help           Print help",
      "  -V, --version        Print version",
      "" ].map String.toList

/-- Runs an input, or the console if there is none, once there is a root. -/
def Options.runInput (o : Options) (typed : ByteArray) (d : Disk) : Ending :=
  match o.input with
  | .none =>
    let (output, d) := o.engine.converse .new d (byteLines typed)
    ⟨0, output, d⟩
  | some input =>
    if isScript input then
      match d.readText (.ofText input) with
      | .error _ => ⟨failureCode, [], d⟩
      | .ok contents =>
        let (output, d) := o.engine.runAll .new d (scriptCommands contents)
        ⟨0, output, d⟩
    else
      let (output, d) := o.engine.runAll .new d [input]
      ⟨0, output, d⟩

/-- Runs the program with options.  Serving connections needs a network, which a disk does not
have, so it fails once there is a root. -/
def Options.run (o : Options) (typed : ByteArray) (d : Disk) : Ending :=
  match o.engine.prepare d with
  | (.error _, d) => ⟨failureCode, [], d⟩
  | (.ok (), d) => if o.listen.isSome then ⟨failureCode, [], d⟩ else o.runInput typed d

/-- Runs the program: the words of a command line, the bytes typed and the disk. -/
def run (args : List Text) (typed : ByteArray) (d : Disk) : Ending :=
  match Request.ofArguments args with
  | .start o => o.run typed d
  | .help => ⟨0, usageText, d⟩
  | .version => ⟨0, versionText, d⟩
  | .misuse => ⟨misuseCode, [], d⟩

end FlatDb
