import FlatDb.Command.Production
import FlatDb.Disk.Cause
import FlatDb.Text.Natural
import FlatDb.Token.Scan

/-! # Errors

Every way in which a command can fail, as a cause with its circumstances.  `Error.text` is the
wording a client sees; nothing else in the library decides on wording. -/

namespace FlatDb

/-- What is wrong with the contents of a stored file. -/
inductive Corruption where
  | missingHeader
  | firstColumn
  | cellCount (row found expected : Nat)
  | badId (row : Nat)
  | counterLine (line : Nat)
deriving DecidableEq, Repr

/-- A failure of the store: of the disk, of the disk at a named file, or of a file's contents. -/
inductive StorageError where
  | io (cause : Cause)
  | file (path : Text) (cause : Cause)
  | corrupt (path : Text) (what : Corruption)
deriving DecidableEq, Repr

/-- A failed command. -/
inductive Error where
  | lexical (fault : LexFault) (position : Nat)
  | grammar (expected : Production) (position : Nat)
  | noDatabaseSelected
  | databaseNotFound (name : Text)
  | databaseExists (name : Text)
  | tableNotFound (name : Text)
  | tableExists (name : Text)
  | columnNotFound (name : Text)
  | columnExists (name : Text)
  | protectedColumn (name : Text)
  | valueCount (expected found : Nat)
  | storage (what : StorageError)
deriving DecidableEq, Repr

/-! ### Wording -/

/-- The wording of a lexical fault. -/
def LexFault.text : LexFault → Text
  | unexpected c => "unexpected '".toList ++ [c, '\'']
  | unterminated => "unterminated string".toList
  | tabInText => "tab inside string".toList
  | lineBreakInText => "line break inside string".toList

/-- The wording of a corruption. -/
def Corruption.text : Corruption → Text
  | missingHeader => "missing header line".toList
  | firstColumn => "first column is not id".toList
  | cellCount row found expected =>
    "row ".toList ++ .ofNat row ++ " has ".toList ++ .ofNat found ++ " cells, expected ".toList ++
      .ofNat expected
  | badId row => "row ".toList ++ .ofNat row ++ " has a bad id".toList
  | counterLine line => "malformed sequence line ".toList ++ .ofNat line

/-- The wording of a failure of the store. -/
def StorageError.text : StorageError → Text
  | io cause => cause.text
  | file path cause => path ++ ": ".toList ++ cause.text
  | corrupt path what => path ++ ": ".toList ++ what.text

/-- The wording of a failed command. -/
def Error.text : Error → Text
  | lexical fault position =>
    "LexicalError: ".toList ++ fault.text ++ " at position ".toList ++ .ofNat position
  | grammar expected position =>
    "GrammarError: expected ".toList ++ expected.text ++ " at position ".toList ++ .ofNat position
  | noDatabaseSelected => "DatabaseNotSelected: no database selected".toList
  | databaseNotFound name => "DatabaseNotFound: ".toList ++ name
  | databaseExists name => "DatabaseAlreadyExists: ".toList ++ name
  | tableNotFound name => "TableNotFound: ".toList ++ name
  | tableExists name => "TableAlreadyExists: ".toList ++ name
  | columnNotFound name => "AttributeNotFound: ".toList ++ name
  | columnExists name => "AttributeExists: ".toList ++ name
  | protectedColumn name => "ProtectedAttribute: ".toList ++ name
  | valueCount expected found =>
    "AttributeCountMismatch: expected ".toList ++ .ofNat expected ++ ", got ".toList ++
      .ofNat found
  | storage what => "StorageIOError: ".toList ++ what.text

end FlatDb
