namespace SourcePages

inductive IoFault where
  | notFound
  | exists
  | notDirectory
  | isDirectory
  | linkLoop
  | notText
  deriving DecidableEq, Repr

def IoFault.message : IoFault → String
  | .notFound => "No such file or directory (os error 2)"
  | .exists => "File exists (os error 17)"
  | .notDirectory => "Not a directory (os error 20)"
  | .isDirectory => "Is a directory (os error 21)"
  | .linkLoop => "Too many levels of symbolic links (os error 40)"
  | .notText => "stream did not contain valid UTF-8"

end SourcePages
