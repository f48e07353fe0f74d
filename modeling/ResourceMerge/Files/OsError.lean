/-! Reasons why the file system refuses an operation, with the wording of the system itself. -/

namespace ResourceMerge.Files

/-- A refusal. -/
inductive OsError where
  | notFound
  | alreadyExists
  | notDirectory
  | isDirectory
  | tooManyLinks
  | nameTooLong
  | nulInPath
  | notUtf8
  | other (wording : String)
  deriving DecidableEq

/-- The wording of a refusal. -/
def OsError.text : OsError → String
  | .notFound => "No such file or directory (os error 2)"
  | .alreadyExists => "File exists (os error 17)"
  | .notDirectory => "Not a directory (os error 20)"
  | .isDirectory => "Is a directory (os error 21)"
  | .nameTooLong => "File name too long (os error 36)"
  | .tooManyLinks => "Too many levels of symbolic links (os error 40)"
  | .nulInPath => "file name contained an unexpected NUL byte"
  | .notUtf8 => "stream did not contain valid UTF-8"
  | .other wording => wording

end ResourceMerge.Files
