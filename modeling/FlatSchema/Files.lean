import FlatSchema.Path

/-!
What the compiler asks of a file system. The questions are a record of functions in a monad, so that
one and the same program runs on the files of a machine and on a file tree that is a value.
-/

namespace FlatSchema

/-- Why a file could not be read or written. -/
inductive FileError where
  | missing
  | exists
  | notDirectory
  | isDirectory
  | nameTooLong
  /-- A link leads to a link, and so on, too often. -/
  | tooManyLinks
  /-- A name holds a character that no file name can hold. -/
  | badName
  /-- The content is not UTF-8. -/
  | notText
  | other (text : String)
deriving DecidableEq, Inhabited

/-- The words for an error. -/
def FileError.message : FileError → String
  | .missing => "No such file or directory (os error 2)"
  | .exists => "File exists (os error 17)"
  | .notDirectory => "Not a directory (os error 20)"
  | .isDirectory => "Is a directory (os error 21)"
  | .nameTooLong => "File name too long (os error 36)"
  | .tooManyLinks => "Too many levels of symbolic links (os error 40)"
  | .badName => "file name contained an unexpected NUL byte"
  | .notText => "stream did not contain valid UTF-8"
  | .other text => text

/-- A file system as the compiler sees it. -/
structure Files (m : Type → Type) where
  /-- The directory that relative paths start from. -/
  currentDirectory : m Path
  /-- The absolute path of something that exists, without detours. -/
  canonical? : Path → m (Option Path)
  isFile : Path → m Bool
  isDirectory : Path → m Bool
  readText : Path → m (Except FileError String)
  /-- Make a directory in one that is there. -/
  createDirectory : Path → m (Except FileError Unit)
  /-- Give a file a content, which replaces the old one. -/
  writeText : Path → String → m (Except FileError Unit)

namespace Files

variable {m : Type → Type} [Monad m]

/-- What a failed attempt to make a directory means: nothing, if the directory is there. -/
def unlessDirectory (fs : Files m) (p : Path) (e : FileError) : m (Except FileError Unit) := do
  if ← fs.isDirectory p then return .ok () else return .error e

/-- Make a directory. If something is missing on the way to it, the one above is made first. -/
def createDirectories (fs : Files m) (p : Path) : m (Except FileError Unit) := do
  if p.isEmpty then return .ok ()
  else
    match ← fs.createDirectory p with
    | .ok () => return .ok ()
    | .error .missing =>
      match h : p.parent? with
      | none => return .error (.other "failed to create whole tree")
      | some above =>
        have := Path.length_parent_lt h
        match ← fs.createDirectories above with
        | .error e => return .error e
        | .ok () =>
          match ← fs.createDirectory p with
          | .ok () => return .ok ()
          | .error e => fs.unlessDirectory p e
    | .error e => fs.unlessDirectory p e
termination_by p.bytes.length

end Files

end FlatSchema
