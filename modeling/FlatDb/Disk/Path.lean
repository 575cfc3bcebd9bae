import FlatDb.Disk.Cause

/-! # Paths

A path is a text given from outside, followed by the names that this library adds below it.  The
text may hold slashes, dots and double dots, which are resolved against a disk; the added names
are single entries and are taken as they are.

* `Path.text` shows a path with slashes between its parts.  It has at most 4095 bytes, and no
  character U+0000; `Path.fault?` says why a path leads nowhere on any disk.
* The file name of a path is its last part, not counting slashes and single dots at the end; a
  path that ends in a double dot has none.
* A file name divides at its last dot into stem and extension, unless the dot comes first.
* A table is stored under its name with the extension `tab`, which takes the place of an
  extension the name already has. -/

namespace FlatDb

/-- A text given from outside and the names below it. -/
structure Path where
  base : Text
  names : List Text
deriving DecidableEq, Repr

namespace Path

/-- The path that a text spells. -/
def ofText (t : Text) : Path := ⟨t, []⟩

/-- The entry of a given name below a path. -/
def child (p : Path) (name : Text) : Path := { p with names := p.names ++ [name] }

/-- One path text below another; one that begins with a slash stands alone. -/
def joinText (dir name : Text) : Text :=
  if name.head? = some '/' then name
  else if dir = [] ∨ dir.getLast? = some '/' then dir ++ name
  else dir ++ '/' :: name

/-- A path as text. -/
def text (p : Path) : Text := p.names.foldl joinText p.base

/-! ### Limits -/

/-- The most bytes the text of a path may have. -/
def maxTextSize : Nat := 4095

/-- Why a text is not the text of a path on any disk. -/
def textFault? (t : Text) : Option Cause :=
  if t.contains '\x00' then some .nulByte
  else if maxTextSize < t.size then some .nameTooLong
  else none

/-- Why a path leads nowhere on any disk. -/
def fault? (p : Path) : Option Cause := textFault? p.text

/-! ### File names -/

/-- A path text from its end, without slashes and single dots there. -/
def dropDots : Text → Text
  | '/' :: r => dropDots r
  | '.' :: '/' :: r => dropDots r
  | ['.'] => []
  | r => r

/-- What stands before the file name of a path text, and the file name. -/
def splitFileName? (t : Text) : Option (Text × Text) :=
  let r := dropDots t.reverse
  let name := (r.takeWhile (· ≠ '/')).reverse
  if name = [] ∨ name = ['.', '.'] then none
  else some ((r.dropWhile (· ≠ '/')).reverse, name)

/-- A path text without slashes and single dots at its end, except for the first part. -/
def trimEnd (t : Text) : Text :=
  let r := (dropDots t.reverse).reverse
  if r ≠ [] then r else if t.head? = some '/' then ['/'] else ['.']

/-- The stem of a file name and its extension, if it has one. -/
def splitExtension (name : Text) : Text × Option Text :=
  let r := name.reverse
  match r.dropWhile (· ≠ '.') with
  | _ :: stem =>
    if stem = [] then (name, none)
    else (stem.reverse, some (r.takeWhile (· ≠ '.')).reverse)
  | [] => (name, none)

/-- The stem of a file name. -/
def stem (name : Text) : Text := (splitExtension name).1

/-- The extension of a file name. -/
def extension? (name : Text) : Option Text := (splitExtension name).2

/-- The file name of a path. -/
def fileName? (p : Path) : Option Text :=
  match p.names.getLast? with
  | some name => some name
  | none => (splitFileName? p.base).map Prod.snd

/-- The directory of a path and the name of its entry there. -/
def split? (p : Path) : Option (Path × Text) :=
  match p.names.getLast? with
  | some name => some (⟨p.base, p.names.dropLast⟩, name)
  | none => (splitFileName? p.base).map fun (dir, name) =>
      (⟨if dir = [] then ['.'] else dir, []⟩, name)

/-! ### Tables -/

/-- The extension of table files. -/
def tableExtension : Text := "tab".toList

/-- The file name under which a table is stored. -/
def tableFile (name : Text) : Text := stem name ++ '.' :: tableExtension

/-- A name that can stand for an entry of a directory. -/
def isEntryName (name : Text) : Bool :=
  name ≠ [] && name ≠ ['.'] && name ≠ ['.', '.'] && !name.contains '/'

/-- The path of a table in a directory.  A name with slashes follows the syntax of paths. -/
def ofTable (dir : Path) (name : Text) : Path :=
  if isEntryName name then dir.child (tableFile name)
  else
    let t := joinText dir.text name
    match splitFileName? t with
    | some (before, last) => ofText (before ++ tableFile last)
    | none => ofText t

/-- The name of the table stored at a path. -/
def tableName (p : Path) : Text :=
  match p.fileName? with
  | some name => stem name
  | none => []

end Path

end FlatDb
