/-!
# Reading from a Disk

The program reads whole text files: the configuration document at the start,
and deferred contents on request. All it needs of a disk is therefore what one
such read answers, and a disk is the function from the path that was opened to
that answer.

The causes of failure are kept apart because they are reported in words, and
because a file that is not there is treated differently from one that cannot
be read.

## Main definitions

* `ReadError`: Why a text file could not be read.
* `ReadError.message`: The words for it.
* `Disk`: What reading a path answers.
-/

namespace StrataShell

/-- Why a text file could not be read. -/
inductive ReadError
  | notFound
  /-- The way leads through a file. -/
  | notDirectory
  | isDirectory
  /-- The path, or a name in it, is too long. -/
  | nameTooLong
  /-- The path holds the character NUL. -/
  | nulInPath
  /-- The bytes are not valid UTF-8. -/
  | notText
  /-- Any other failure, in the words of the system. -/
  | other (message : String)
  deriving DecidableEq

/-- The words for a failed read, with the number of the system's error where
    it has one. -/
def ReadError.message : ReadError → String
  | .notFound => "No such file or directory (os error 2)"
  | .notDirectory => "Not a directory (os error 20)"
  | .isDirectory => "Is a directory (os error 21)"
  | .nameTooLong => "File name too long (os error 36)"
  | .nulInPath => "file name contained an unexpected NUL byte"
  | .notText => "stream did not contain valid UTF-8"
  | .other message => message

/-- What reading the text file at a path answers. -/
abbrev Disk := String → Except ReadError String

end StrataShell
