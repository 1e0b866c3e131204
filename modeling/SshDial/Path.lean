import SshDial.Text.Blank

/-! # Paths — joining, tidying and the directory of a file

    Names are separated by slashes.  Everything here is a function of the text of a path; no
    file tree is looked at. -/

namespace SshDial.Path

open SshDial.Text

/-- A path that begins at the root. -/
def isAbsolute (path : String) : Bool := path.toList.head? == some '/'

/-- One component after those kept so far (the last first): empty components and `.` vanish,
    `..` takes back the component before it, and at the front of a relative path it
    stays. -/
def tidyStep (absolute : Bool) (kept : List (List Char)) (part : List Char) : List (List Char) :=
  if part = [] ∨ part = ['.'] then kept
  else if part = ['.', '.'] then
    match kept with
    | [] => if absolute then [] else [part]
    | last :: before => if last = ['.', '.'] then part :: kept else before
  else part :: kept

/-- The components of a path without empty ones, `.` and the pairs that `..` undoes. -/
def tidyParts (absolute : Bool) (parts : List (List Char)) : List (List Char) :=
  (parts.foldl (tidyStep absolute) []).reverse

/-- The shortest spelling of a path; a slash at its end is kept and nothing at all becomes `.`. -/
def normalize (path : String) : String :=
  let cs := path.toList
  if cs = [] then "."
  else
    let absolute := isAbsolute path
    let closed := cs.getLast? == some '/'
    let body := ['/'].intercalate (tidyParts absolute (splitAt '/' cs))
    if body = [] then
      if absolute then "/" else if closed then "./" else "."
    else
      let front := if absolute then '/' :: body else body
      String.ofList (if closed then front ++ ['/'] else front)

/-- The non-empty parts joined by slashes and tidied. -/
def join (parts : List String) : String :=
  let given := parts.filter (· ≠ "")
  if given = [] then "." else normalize ("/".intercalate given)

/-- The path that a name stands for when read in a directory, without a slash at its end. -/
def resolve (directory path : String) : String :=
  let whole := if isAbsolute path then path else "/".intercalate [directory, path]
  let parts := tidyParts (isAbsolute whole) (splitAt '/' whole.toList)
  String.ofList ('/' :: ['/'].intercalate parts)

/-- The directory that a path's last component lies in: the text before the last slash that
    is followed by another character. -/
def dirname (path : String) : String :=
  let cs := path.toList
  match cs with
  | [] => "."
  | first :: rest =>
    -- what stands before the last component, its closing slash dropped
    let closedOff := rest.reverse.dropWhile (· == '/')
    let before := closedOff.dropWhile (· != '/')
    match before with
    | [] => if first = '/' then "/" else "."
    | _ :: left =>
      let kept := first :: left.reverse
      if kept = ['/'] then "//" else String.ofList kept

end SshDial.Path
