import ParserGenerator.Files.Path

/-!
# File systems

The operations on files that the tools need. Every operation may fail with an error of the system,
which has a number and a text. The tools are written against this interface, so that they run on
real files and on a file tree in memory alike.
-/

namespace ParserGenerator

inductive OsError where
  | notFound
  /-- The place is in use by the system. -/
  | busy
  | alreadyExists
  | notDirectory
  | isDirectory
  | nameTooLong
  /-- The null character ends a path for the system and cannot be a part of it. -/
  | nullInName
  /-- The content of a file is not a text in UTF-8. -/
  | invalidText
  /-- Only the content of a file can be copied. -/
  | notRegular
  | other (message : String)
deriving DecidableEq

def OsError.message : OsError → String
  | .notFound => "No such file or directory (os error 2)"
  | .busy => "Device or resource busy (os error 16)"
  | .alreadyExists => "File exists (os error 17)"
  | .notDirectory => "Not a directory (os error 20)"
  | .isDirectory => "Is a directory (os error 21)"
  | .nameTooLong => "File name too long (os error 36)"
  | .nullInName => "file name contained an unexpected NUL byte"
  | .invalidText => "stream did not contain valid UTF-8"
  | .notRegular => "the source path is neither a regular file nor a symlink to a regular file"
  | .other message => message

/-- Operations on single files. -/
class FileSystem (m : Type → Type) where
  read : Path → m (Except OsError String)
  /-- Creates a file or replaces its content. -/
  write : Path → String → m (Except OsError Unit)
  /-- Moves a file to another path and replaces what is there. -/
  rename : Path → Path → m (Except OsError Unit)
  remove : Path → m (Except OsError Unit)
  /-- Copies the content of a file. -/
  copy : Path → Path → m (Except OsError Unit)
  fileExists : Path → m Bool
  /-- The absolute path of something that exists. -/
  canonical : Path → m (Except OsError Path)

/-- What a build needs beyond single files. -/
class BuildSystem (m : Type → Type) extends FileSystem m where
  /-- Creates a directory and all directories above it; those that were created before a failure
  stay. -/
  createDirectories : Path → m (Except OsError Unit)
  /-- The paths of the files below a directory, relative to it. -/
  filesBelow : Path → m (Except OsError (List Path))
  /-- The value of an environment variable. -/
  setting? : String → m (Option String)

end ParserGenerator
