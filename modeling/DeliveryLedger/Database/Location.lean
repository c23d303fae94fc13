import DeliveryLedger.Text.Split
/-!
Locations of files: paths with slashes between their parts, relative to a working directory,
and with a tilde for a home directory.
-/

namespace DeliveryLedger.Database

/-- Where a program runs: its home and working directories, and the homes of other
accounts. -/
structure Surroundings where
  home : String
  workingDirectory : String
  accounts : List (String × String)
deriving Repr, Inhabited

namespace Location

/-- The parts of a path; empty ones and single points do not count. -/
def parts (cs : List Char) : List (List Char) :=
  (Text.splitAt '/' cs).filter fun part => part ≠ [] ∧ part ≠ ['.']

/-- The parts of an absolute path, where two points undo the part before them.  `done` holds
the parts so far, the last one first. -/
def resolveOnto (done : List (List Char)) : List (List Char) → List (List Char)
  | [] => done.reverse
  | part :: rest =>
    if part = ['.', '.'] then resolveOnto done.tail rest else resolveOnto (part :: done) rest

def resolve (ps : List (List Char)) : List (List Char) := resolveOnto [] ps

/-- The slashes that a path begins with: exactly two are kept. -/
def root (cs : List Char) : List Char :=
  match cs with
  | '/' :: '/' :: '/' :: _ => ['/']
  | '/' :: '/' :: _ => ['/', '/']
  | '/' :: _ => ['/']
  | _ => []

/-- An absolute path in its shortest form. -/
def normalize (cs : List Char) : List Char :=
  root cs ++ Text.joinWith '/' (resolve (parts cs))

/-- A relative path as it stands inside a directory. -/
def inside (directory cs : List Char) : List Char :=
  if directory = [] ∨ directory.getLast? = some '/' then directory ++ cs
  else directory ++ '/' :: cs

/-- A path made absolute, in its shortest form. -/
def absolute (s : Surroundings) (cs : List Char) : List Char :=
  if cs.head? = some '/' then normalize cs
  else normalize (inside s.workingDirectory.toList cs)

/-- A path without the slashes that it ends with. -/
def withoutEnd (cs : List Char) : List Char := (cs.reverse.dropWhile (· = '/')).reverse

/-- The home directory of an account; no name stands for one's own. -/
def homeOf? (s : Surroundings) (account : List Char) : Option (List Char) :=
  if account = [] then some (withoutEnd s.home.toList)
  else
    (s.accounts.find? fun a => a.1.toList = account).map fun a => withoutEnd a.2.toList

/-- A path, which is the root if nothing is left of it. -/
def orRoot (cs : List Char) : List Char := if cs = [] then ['/'] else cs

/-- The name of the account whose home directory a path behind a tilde begins with. -/
def account (rest : List Char) : List Char := rest.takeWhile (· ≠ '/')

/-- What follows that name. -/
def behindAccount (rest : List Char) : List Char := rest.dropWhile (· ≠ '/')

/-- A path with its leading tilde replaced by a home directory; it stays as it is if there is
no such home. -/
def expandHome (s : Surroundings) (cs : List Char) : List Char :=
  match cs with
  | '~' :: rest =>
    match homeOf? s (account rest) with
    | some home => orRoot (home ++ behindAccount rest)
    | none => cs
  | _ => cs

/-- A root and the parts behind it; without either, the present directory. -/
def spelled (start : List Char) (ps : List (List Char)) : List Char :=
  if start = [] ∧ ps = [] then ['.'] else start ++ Text.joinWith '/' ps

/-- A path that begins with a tilde, as the parts behind its home directory.  It is missing if
there is no such home, or none but another path with a tilde. -/
def underHome? (s : Surroundings) (cs : List Char) : Option (List Char) :=
  match parts cs with
  | ('~' :: account) :: rest =>
    match (homeOf? s account).map orRoot with
    | none | some ('~' :: _) => none
    | some home => some (spelled (root home) (parts home ++ rest))
  | _ => some cs

end Location

end DeliveryLedger.Database
