/-! The ways an operation on files or processes fails, what each is called, and what a failure may
leave behind. -/
namespace Testbed.Host

inductive OsError where
  | notFound
  | ioError
  | execFormat
  | permissionDenied
  | busy
  | exists
  | notDirectory
  | isDirectory
  | invalidArgument
  | nameTooLong
  | notEmpty
  | tooManyLinks
  | notUtf8
  | nulInPath
  | nulInData
deriving DecidableEq, Repr, Inhabited

def OsError.message : OsError → String
  | .notFound => "No such file or directory (os error 2)"
  | .ioError => "Input/output error (os error 5)"
  | .execFormat => "Exec format error (os error 8)"
  | .permissionDenied => "Permission denied (os error 13)"
  | .busy => "Device or resource busy (os error 16)"
  | .exists => "File exists (os error 17)"
  | .notDirectory => "Not a directory (os error 20)"
  | .isDirectory => "Is a directory (os error 21)"
  | .invalidArgument => "Invalid argument (os error 22)"
  | .nameTooLong => "File name too long (os error 36)"
  | .notEmpty => "Directory not empty (os error 39)"
  | .tooManyLinks => "Too many levels of symbolic links (os error 40)"
  | .notUtf8 => "stream did not contain valid UTF-8"
  | .nulInPath => "file name contained an unexpected NUL byte"
  | .nulInData => "nul byte found in provided data"

/-- The words a shell uses for the same cause, without its number. -/
def OsError.brief : OsError → String
  | .notFound => "No such file"
  | .ioError => "I/O error"
  | .execFormat => "Exec format error"
  | .permissionDenied => "Permission denied"
  | .busy => "Resource busy"
  | .exists => "File exists"
  | .notDirectory => "Not a directory"
  | .isDirectory => "Is a directory"
  | .invalidArgument => "Invalid argument"
  | .nameTooLong => "File name too long"
  | .notEmpty => "Directory not empty"
  | .tooManyLinks => "Too many levels of symbolic links"
  | .notUtf8 | .nulInPath | .nulInData => "Invalid argument"

/-- Why a call failed that may have done a part of its work, and what it left. -/
structure Fault (α : Type) where
  cause : OsError
  left : α
deriving DecidableEq, Repr

end Testbed.Host
