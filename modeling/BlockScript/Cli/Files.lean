/-
  This file defines how files are read, and file trees that
  are values.

  Key definitions include:
    * `Cli.ReadError`
    * `Cli.FileTree`
    * `Cli.FileTree.read`
-/

namespace BlockScript
namespace Cli

------------------------------------------------------------
-- Reading
------------------------------------------------------------

/- Why a file cannot be read as text. -/
inductive ReadError where
  | notFound
  | notDirectory
  | isDirectory
  | nameTooLong
  | notText
  | other (message : String)
deriving DecidableEq, Repr

/- The wording of an error. -/
def ReadError.message : ReadError → String
  | notFound => "No such file or directory (os error 2)"
  | notDirectory => "Not a directory (os error 20)"
  | isDirectory => "Is a directory (os error 21)"
  | nameTooLong => "File name too long (os error 36)"
  | notText => "stream did not contain valid UTF-8"
  | other message => message

/- The text of a file that has been read. -/
def decodeText
    (bytes : Except ReadError ByteArray) :
    Except ReadError String :=
  match bytes with
  | .error e => .error e
  | .ok bytes =>
      match String.fromUTF8? bytes with
      | some text => .ok text
      | none => .error .notText

------------------------------------------------------------
-- File Trees
------------------------------------------------------------

/-
  The files below a directory by their names, which have a
  stroke after each directory.
-/
structure FileTree where
  files : List (String × ByteArray)

namespace FileTree

/- The file at a path of names. -/
def file?
    (t : FileTree)
    (path : List String) : Option ByteArray :=
  t.files.lookup ("/".intercalate path)

/- Whether there is a file below a path of names. -/
def isDirectory
    (t : FileTree)
    (path : List String) : Bool :=
  t.files.any fun (name, _) =>
    let names := name.splitOn "/"
    path.isPrefixOf names && path.length < names.length

/- Names that stay in a directory. -/
def isStay (name : String) : Bool :=
  name == "" || name == "."

/- The most bytes that a name may have. -/
def nameLimit : Nat :=
  255

/- The most bytes that a path may have. -/
def pathLimit : Nat :=
  4095

/-
  Follow names from a directory that holds the tree. There
  are no names but those that lead further up.
-/
def walkAbove :
    List String → Except ReadError ByteArray
  | [] => .error .isDirectory
  | name :: rest =>
      if isStay name || name == ".." then
        walkAbove rest
      else if nameLimit < name.utf8ByteSize then
        .error .nameTooLong
      else
        .error .notFound

/- Follow names from a directory. -/
def walk
    (t : FileTree)
    (directory : List String) :
    List String → Except ReadError ByteArray
  | [] => .error .isDirectory
  | name :: rest =>
      if isStay name then
        t.walk directory rest
      else if name == ".." then
        if directory.isEmpty then
          walkAbove rest
        else
          t.walk directory.dropLast rest
      else if nameLimit < name.utf8ByteSize then
        .error .nameTooLong
      else
        let path := directory ++ [name]
        match t.file? path with
        | some bytes =>
            if rest.isEmpty then
              .ok bytes
            else
              .error .notDirectory
        | none =>
            if t.isDirectory path then
              t.walk path rest
            else
              .error .notFound

/- Read the file at a path from the directory. -/
def read
    (t : FileTree)
    (path : String) : Except ReadError ByteArray :=
  if path.isEmpty then
    .error .notFound
  else if pathLimit < path.utf8ByteSize then
    .error .nameTooLong
  else
    match path.splitOn "/" with
    | "" :: names => walkAbove names
    | names => t.walk [] names

end FileTree
end Cli
end BlockScript
