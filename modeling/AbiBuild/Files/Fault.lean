import AbiBuild.Files.Path

/-!
# Why the host refuses a call on files
-/

namespace AbiBuild.Files

inductive IoFault
  | notFound
  | permissionDenied
  | fileExists
  | notADirectory
  | isADirectory
  | invalidArgument
  | nameTooLong
  | directoryNotEmpty
  /-- A path that holds the zero character cannot be passed on. -/
  | zeroInName
  /-- The content of a text file is not UTF-8. -/
  | notUtf8
  /-- Only files are copied. -/
  | notAFile
  | emptyPath
  /-- Walking a directory tree stopped at `path`. -/
  | walk (path : Path) (cause : IoFault)
  /-- Any other refusal, in the host's words. -/
  | other (text : String)
  deriving DecidableEq, Repr

namespace IoFault

private def numbered (text : String) (number : Nat) : String :=
  text ++ " (os error " ++ toString number ++ ")"

def message : IoFault → String
  | notFound => numbered "No such file or directory" 2
  | permissionDenied => numbered "Permission denied" 13
  | fileExists => numbered "File exists" 17
  | notADirectory => numbered "Not a directory" 20
  | isADirectory => numbered "Is a directory" 21
  | invalidArgument => numbered "Invalid argument" 22
  | nameTooLong => numbered "File name too long" 36
  | directoryNotEmpty => numbered "Directory not empty" 39
  | zeroInName => "file name contained an unexpected NUL byte"
  | notUtf8 => "stream did not contain valid UTF-8"
  | notAFile => "the source path is neither a regular file nor a symlink to a regular file"
  | emptyPath => "cannot make an empty path absolute"
  | walk path cause => "IO error for operation on " ++ path.text ++ ": " ++ cause.message
  | other text => text

end IoFault

end AbiBuild.Files
