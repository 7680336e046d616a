import InfixCalculator.Destination.Locator
import InfixCalculator.Text.Blank

/-! Where a file is to be saved: under a pathname, a leading `~` being the home directory. Links and
the storage of other systems are told apart from pathnames first. -/

namespace InfixCalculator.Destination

def home : List Char := "/root".toList

def expanded (text : String) : String :=
  match text.toList with
  | '~' :: rest =>
    if rest.isEmpty || rest.head? = some '/' then String.ofList (home ++ rest) else text
  | _ => text

/-- The text up to the first two colons, which chain one name to another. -/
def firstName : List Char → List Char
  | ':' :: ':' :: _ => []
  | c :: rest => c :: firstName rest
  | [] => []

/-- Whether the first name asks for compression. -/
def isCompressed (text : String) : Bool :=
  (".zst".toList).isSuffixOf (firstName text.toLower.toList)

def fault? (text : String) : Option SaveFault :=
  match Locator.hostFault? text with
  | some fault => some (.host fault)
  | none =>
    if Locator.isLink text then
      (Locator.ofText (Text.Blank.trim Text.Blank.isBlank text.toList)).fault?
    else if Locator.isRemote text then some .remoteStorage
    else
      let path := expanded text
      (Pathname.ofText path).parent.directoryFault?.or <|
        if isCompressed text then some .compression else Pathname.fileFault? path

/-- The name of the file if it is in the working directory. A link that can be followed leads to no
file there. -/
def localName? (text : String) : Option String :=
  if Locator.isLink text then none else (Pathname.ofText (expanded text)).localName?

end InfixCalculator.Destination
