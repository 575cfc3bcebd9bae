import FlatDb.Text.Basic

/-! # Causes of failure on a disk

The ways in which an operation on a disk fails, with the wording of the operating system. -/

namespace FlatDb

/-- Why an operation on a disk failed. -/
inductive Cause where
  | missing
  | «exists»
  | notDirectory
  | isDirectory
  | nameTooLong
  | busy
  | nulByte
  | notText
deriving DecidableEq, Repr

/-- The wording of a cause. -/
def Cause.text : Cause → Text
  | missing => "No such file or directory (os error 2)".toList
  | «exists» => "File exists (os error 17)".toList
  | notDirectory => "Not a directory (os error 20)".toList
  | isDirectory => "Is a directory (os error 21)".toList
  | nameTooLong => "File name too long (os error 36)".toList
  | busy => "Device or resource busy (os error 16)".toList
  | nulByte => "file name contained an unexpected NUL byte".toList
  | notText => "stream did not contain valid UTF-8".toList

end FlatDb
