import LineShell.Text.Basic

/-! Why the system refuses a request, and the words it does so in. -/

namespace LineShell

inductive SystemError
  | noSuchFile
  | argumentsTooLong
  | execFormat
  | permissionDenied
  | fileExists
  | notDirectory
  | isDirectory
  | nameTooLong
  | tooManyLinks
  deriving DecidableEq, Repr

namespace SystemError

def number : SystemError → Nat
  | noSuchFile => 2
  | argumentsTooLong => 7
  | execFormat => 8
  | permissionDenied => 13
  | fileExists => 17
  | notDirectory => 20
  | isDirectory => 21
  | nameTooLong => 36
  | tooManyLinks => 40

def description : SystemError → Text
  | noSuchFile => "No such file or directory".toList
  | argumentsTooLong => "Argument list too long".toList
  | execFormat => "Exec format error".toList
  | permissionDenied => "Permission denied".toList
  | fileExists => "File exists".toList
  | notDirectory => "Not a directory".toList
  | isDirectory => "Is a directory".toList
  | nameTooLong => "File name too long".toList
  | tooManyLinks => "Too many levels of symbolic links".toList

end SystemError

inductive IoError
  | system (cause : SystemError)
  | notUtf8
  | nulInData
  | nulInPath
  | other (reason : Text)
  deriving DecidableEq, Repr

def IoError.message : IoError → Text
  | system cause =>
    cause.description ++ " (os error ".toList ++ Text.ofNat cause.number ++ ")".toList
  | notUtf8 => "stream did not contain valid UTF-8".toList
  | nulInData => "nul byte found in provided data".toList
  | nulInPath => "file name contained an unexpected NUL byte".toList
  | other reason => reason

end LineShell
