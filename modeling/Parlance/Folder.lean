/-! The files that a run can see, and what a path leads to among them. -/

namespace Parlance

/-- Files by their paths from the directory that the program runs in. -/
abbrev Folder := List (String × String)

inductive Place where
  | file (content : String)
  | directory
  | missing
  /-- The path goes on after the name of a file. -/
  | beyondFile
  | tooLong
  deriving DecidableEq

def isMove (step : String) : Bool := step != "" && step != "."

def joinSteps (rooted : Bool) (steps : List String) : String :=
  (if rooted then "/" else "") ++ "/".intercalate steps

def isRooted (path : String) : Bool := path.startsWith "/"

/-- The path without steps that stay where they are. -/
def plainPath (path : String) : String :=
  joinSteps (isRooted path) ((path.splitOn "/").filter isMove)

def moveOn (rooted : Bool) (reached : List String) (step : String) : List String :=
  if step = ".." then
    match reached with
    | [] => if rooted then [] else [".."]
    | ".." :: _ => ".." :: reached
    | _ :: outer => outer
  else step :: reached

/-- The path without steps that stay, and without steps that are taken back. -/
def directPath (path : String) : String :=
  let rooted := isRooted path
  joinSteps rooted (((path.splitOn "/").filter isMove).foldl (moveOn rooted) []).reverse

def nameLimit : Nat := 255

def pathLimit : Nat := 4096

namespace Folder

def walk (folder : Folder) (rooted : Bool) (reached : List String) : List String → Place
  | [] => .directory
  | step :: rest =>
      if !isMove step then folder.walk rooted reached rest
      else if nameLimit < step.utf8ByteSize then .tooLong
      else
        let next := moveOn rooted reached step
        let path := joinSteps rooted next.reverse
        match folder.lookup path with
        | some content => if rest.isEmpty then .file content else .beyondFile
        | none =>
            if step = ".." || folder.any (·.1.startsWith (path ++ "/")) then
              folder.walk rooted next rest
            else .missing

def look (folder : Folder) (path : String) : Place :=
  if path = "" then .missing
  else if pathLimit ≤ path.utf8ByteSize then .tooLong
  else folder.walk (isRooted path) [] (path.splitOn "/")

def read? (folder : Folder) (path : String) : Option String :=
  match folder.look path with
  | .file content => some content
  | _ => none

end Folder

def extendedPath? (extension : String) (path : String) : Option String :=
  match (path.splitOn "/").reverse.dropWhile (!isMove ·) with
  | [] | ".." :: _ => none
  | name :: outer => some ("/".intercalate ((name ++ "." ++ extension) :: outer).reverse)

end Parlance
