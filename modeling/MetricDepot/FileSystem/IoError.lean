/-!
# IO errors — why a file system did nothing

Nothing that a program does to a file system is certain to succeed. An `IoError` is the
reason why it did not; that something is not there is told apart from all other reasons.
-/

namespace MetricDepot

/-- Why nothing was done. -/
inductive IoError where
  | notFound
  | notADirectory
  | isADirectory
  | alreadyExists
  | nameTooLong
  | invalidName
  | tooManyLinks
  | interrupted
deriving DecidableEq, Repr

/-- The wording of an error. -/
def IoError.message : IoError → String
  | notFound => "no such file or directory"
  | notADirectory => "not a directory"
  | isADirectory => "is a directory"
  | alreadyExists => "file exists"
  | nameTooLong => "file name too long"
  | invalidName => "invalid file name"
  | tooManyLinks => "too many levels of symbolic links"
  | interrupted => "interrupted"

end MetricDepot
