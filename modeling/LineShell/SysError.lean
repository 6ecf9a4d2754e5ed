import LineShell.Text.Basic

/-!
# System errors

Why a request to the system failed.

* `SysError.text` : the wording by itself;
* `SysError.number?` : the system's own number, where there is one;
* `SysError.message` : the wording with the number behind it.
-/

namespace LineShell

/-- Why a request to the system failed. -/
inductive SysError where
  | notFound
  | noSuchDevice
  | argumentsTooLong
  | badFormat
  | badDescriptor
  | accessDenied
  | fileExists
  | notDirectory
  | isDirectory
  | invalidArgument
  | textBusy
  | fileTooLarge
  | noSpace
  | brokenPipe
  | tooManyLinks
  | nameTooLong
  | notEmpty
  /-- A path to open has a NUL in it. -/
  | nulInPath
  /-- A program, argument or variable of a child has a NUL in it. -/
  | nulInArgument
  /-- Any other failure, in its own words. -/
  | other (message : Text)
  deriving DecidableEq, Repr

namespace SysError

def text : SysError → Text
  | notFound => "No such file or directory".toList
  | noSuchDevice => "No such device or address".toList
  | argumentsTooLong => "Argument list too long".toList
  | badFormat => "Exec format error".toList
  | badDescriptor => "Bad file descriptor".toList
  | accessDenied => "Permission denied".toList
  | fileExists => "File exists".toList
  | notDirectory => "Not a directory".toList
  | isDirectory => "Is a directory".toList
  | invalidArgument => "Invalid argument".toList
  | textBusy => "Text file busy".toList
  | fileTooLarge => "File too large".toList
  | noSpace => "No space left on device".toList
  | brokenPipe => "Broken pipe".toList
  | nameTooLong => "File name too long".toList
  | notEmpty => "Directory not empty".toList
  | tooManyLinks => "Too many levels of symbolic links".toList
  | nulInPath => "file name contained an unexpected NUL byte".toList
  | nulInArgument => "nul byte found in provided data".toList
  | other message => message

/-- The system's number for an error; none if the request did not get as far as the system. -/
def number? : SysError → Option Nat
  | notFound => some 2
  | noSuchDevice => some 6
  | argumentsTooLong => some 7
  | badFormat => some 8
  | badDescriptor => some 9
  | accessDenied => some 13
  | fileExists => some 17
  | notDirectory => some 20
  | isDirectory => some 21
  | invalidArgument => some 22
  | textBusy => some 26
  | fileTooLarge => some 27
  | noSpace => some 28
  | brokenPipe => some 32
  | nameTooLong => some 36
  | notEmpty => some 39
  | tooManyLinks => some 40
  | nulInPath | nulInArgument | other _ => none

/-- The wording of a system error, its number behind it. -/
def message (e : SysError) : Text :=
  match e.number? with
  | some n => e.text ++ " (os error ".toList ++ Text.ofNat n ++ [')']
  | none => e.text

end SysError

end LineShell
