import InfixCalculator.Destination.Fault
import InfixCalculator.Text.Separated

/-! Pathnames: steps between slashes, from the root or from the working directory. The working
directory is empty, nothing is known of what lies around it, and the root holds the directories
and files that every system has. -/

namespace InfixCalculator

inductive Whereabouts where
  | working
  | above
  /-- A directory by its names from the root, the last first. -/
  | system (names : List String)
  deriving DecidableEq, Repr

namespace Whereabouts

def systemDirectories : List (List String) :=
  ["bin", "boot", "dev", "etc", "home", "lib", "lib64", "media", "mnt", "opt", "proc", "root",
    "run", "sbin", "srv", "sys", "tmp", "usr", "var"].map ([·]) ++
  ["bin", "lib", "local", "sbin", "share"].map ([·, "usr"]) ++
  ["cache", "lib", "local", "log", "opt", "spool", "tmp"].map ([·, "var"])

def systemFiles : List (List String) :=
  ["group", "hostname", "hosts", "passwd", "resolv.conf"].map ([·, "etc"]) ++
  ["null", "full", "zero"].map ([·, "dev"])

def holds : Whereabouts → String → Bool
  | system names, name => systemFiles.contains (name :: names)
  | _, _ => false

def step? : Whereabouts → String → Option Whereabouts
  | working, name | above, name => if name = ".." then some above else none
  | system names, name =>
    if name = ".." then some (system names.tail)
    else if systemDirectories.contains (name :: names) then some (system (name :: names))
    else none

/-- The directory that steps lead to as far as there are directories, and the steps left. -/
def walk : Whereabouts → List String → Whereabouts × List String
  | place, [] => (place, [])
  | place, name :: rest =>
    match place.step? name with
    | some there => there.walk rest
    | none => (place, name :: rest)

end Whereabouts

structure Pathname where
  /-- The slashes in front. Two are a root of their own, more than two are one. -/
  root : String
  /-- The steps, without those that stay in place. -/
  steps : List String
  deriving DecidableEq, Repr

namespace Pathname

def ofText (text : String) : Pathname :=
  let cs := text.toList
  { root :=
      match (cs.takeWhile (· = '/')).length with
      | 0 => ""
      | 2 => "//"
      | _ => "/"
    steps := ((Text.Separated.parts '/' cs).map String.ofList).filter fun s => s ≠ "" ∧ s ≠ "." }

def text (p : Pathname) : String :=
  if p.root = "" ∧ p.steps = [] then "." else p.root ++ "/".intercalate p.steps

def parent (p : Pathname) : Pathname := { p with steps := p.steps.dropLast }

def localName? (p : Pathname) : Option String :=
  match p.root, p.steps with
  | "", [name] => some name
  | _, _ => none

/-- The last directory on the way, and the steps from the first that leads to none. -/
def reach (p : Pathname) : Whereabouts × List String :=
  (if p.root = "" then Whereabouts.working else .system []).walk p.steps

/-! ## Faults -/

/-- How many bytes a name may have, and `maxLength` a whole pathname. -/
def maxName : Nat := 255

def maxLength : Nat := 4095

def hasNull (text : String) : Bool := text.toList.any (· = '\x00')

def directoryFault? (directory : Pathname) : Option SaveFault :=
  let text := directory.text
  if hasNull text then some (.noDirectory text)
  else if maxLength < text.utf8ByteSize then some (.path (.tooLong text))
  else
    match directory.reach.2 with
    | [] => none
    | name :: _ =>
      some (if maxName < name.utf8ByteSize then .path (.tooLong text) else .noDirectory text)

/-- Why there can be no such file, given that its directory is there. A name with a slash behind it
is that of a directory, and one with a further step `.` has to be there already. -/
def fileFault? (text : String) : Option SaveFault :=
  let parts := Text.Separated.parts '/' text.toList
  let entered := (parts.filter (· ≠ [])).getLast? = some ['.']
  if hasNull text then some .nullCharacter
  else if maxLength < text.utf8ByteSize then some (.path (.tooLong text))
  else
    match (ofText text).reach with
    | (_, []) => some (.path (.isDirectory text))
    | (directory, name :: _) =>
      if parts.getLast? = some [] ∧ ¬entered then some (.path (.isDirectory text))
      else if maxName < name.utf8ByteSize then some (.path (.tooLong text))
      else if entered ∧ directory.holds name then some (.path (.notDirectory text))
      else if entered ∨ directory = .system ["proc"] then some (.path (.notFound text))
      else if directory = .system ["sys"] then some (.path (.denied text))
      else if directory = .system ["dev"] ∧ name = "full" then some .deviceFull
      else none

inductive Source where
  | file
  | directory
  | fault (fault : PathFault)

def source (text : String) : Source :=
  if text.isEmpty then .fault (.notFound text)
  else if maxLength < text.utf8ByteSize then .fault (.tooLong text)
  else
    match (ofText text).reach with
    | (_, []) => .directory
    | (directory, name :: rest) =>
      if directory.holds name then
        if rest = [] then .file else .fault (.notDirectory text)
      else .fault (if maxName < name.utf8ByteSize then .tooLong text else .notFound text)

end Pathname

end InfixCalculator
