import InfixCalculator.Destination.Host
import InfixCalculator.Destination.Pathname
import InfixCalculator.Text.Percent

/-! Locators: a scheme, a colon and what the scheme makes of the rest. Links are of the schemes
listed here, and are followed before anything is written; everything else with `://` behind its
scheme is the storage of another system. -/

namespace InfixCalculator

structure Locator where
  scheme : String
  rest : List Char
  deriving DecidableEq, Repr

namespace Locator

/-- The locator of a text, with what stands before the first colon as its scheme. -/
def ofText (cs : List Char) : Locator :=
  { scheme := (String.ofList (cs.takeWhile (· ≠ ':'))).toLower
    rest := (cs.dropWhile (· ≠ ':')).tail }

def isSchemeChar (c : Char) : Bool := c.isAlphanum || c = '+' || c = '-' || c = '.'

def hasScheme (cs : List Char) : Bool :=
  cs.head?.any Char.isAlpha && (cs.dropWhile isSchemeChar).head? = some ':'

def linkSchemes : List String :=
  ["file", "ftp", "git", "git+ssh", "gopher", "hdl", "http", "https", "imap", "mms", "nfs", "nntp",
    "prospero", "rsync", "rtsp", "rtsps", "rtspu", "sftp", "shttp", "sip", "sips", "snews", "svn",
    "svn+ssh", "tel", "telnet", "wais", "ws", "wss"]

/-- The text without controls and spaces in front and without tabs and line ends. -/
def cleaned (text : String) : List Char :=
  (text.toList.dropWhile fun c => c.toNat ≤ 0x20).filter fun c => c ≠ '\t' ∧ c ≠ '\r' ∧ c ≠ '\n'

def isLink (text : String) : Bool :=
  hasScheme (cleaned text) && linkSchemes.contains (ofText (cleaned text)).scheme

/-- The host, if two slashes are in front, up to the next mark, and what follows it. -/
def splitHost : List Char → Option (List Char) × List Char
  | '/' :: '/' :: rest =>
    let inHost := fun c => c ≠ '/' ∧ c ≠ '?' ∧ c ≠ '#'
    (some (rest.takeWhile inHost), rest.dropWhile inHost)
  | rest => (none, rest)

def hostFault? (text : String) : Option HostFault :=
  let cs := cleaned text
  (splitHost (if hasScheme cs then (ofText cs).rest else cs)).1.bind Destination.Host.fault?

/-- Whether a text behind the first name of a scheme completes it: further names behind `::`, then
`://`. -/
def completesScheme : List Char → Bool
  | ':' :: '/' :: '/' :: _ => true
  | ':' :: ':' :: c :: rest => isSchemeChar c && completesScheme rest
  | c :: rest => isSchemeChar c && completesScheme rest
  | [] => false

def isRemote (text : String) : Bool :=
  match text.toList with
  | c :: rest => c.isAlpha && completesScheme rest
  | [] => false

def withoutFragment (cs : List Char) : List Char :=
  match cs.reverse.dropWhile (· ≠ '#') with
  | [] => cs
  | _ :: start => start.reverse

def rooted : List Char → List Char
  | [] => []
  | '/' :: rest => '/' :: rest
  | path => '/' :: path

/-! ## Links -/

def isControl (c : Char) : Bool := c.toNat ≤ 0x20 || c.toNat = 0x7F

def controlFault? (text : List Char) : Option RequestFault :=
  (text.find? isControl).map (.control (String.ofList text))

/-- The host without its port, and the fault of a port that is no number. A colon within brackets
belongs to the host. -/
def splitPort (host : List Char) : List Char × Option RequestFault :=
  let behind := (host.reverse.takeWhile fun c => c ≠ ':' ∧ c ≠ ']').reverse
  let front := host.take (host.length - behind.length)
  if front.getLast? = some ':' then
    (front.dropLast,
      if behind.all Char.isDigit then none else some (.port (String.ofList behind)))
  else (host, none)

/-- The first row of characters that the encoding lacks, in a text behind `offset` others. -/
def encodingFault? (encoding : Encoding) (offset : Nat) (text : List Char) :
    Option RequestFault :=
  let isHeld := fun c : Char => c.toNat < encoding.size
  let front := text.takeWhile isHeld
  match text.drop front.length with
  | [] => none
  | c :: rest =>
    let start := offset + front.length
    some (.notEncodable encoding start (start + (rest.takeWhile fun c => !isHeld c).length) c)

/-- The labels of a name have 1 to 63 characters; the last may be empty. -/
def labelFault? (name : List Char) : Option RequestFault :=
  let labels := Text.Separated.parts '.' name
  if labels.dropLast.any fun l => l.isEmpty || 63 < l.length then some .labelEmpty
  else if labels.getLast?.any fun l => 63 < l.length then some .labelTooLong
  else none

def nameFault? (name : List Char) : Option RequestFault :=
  if name.all fun c => c.toNat < 0x80 then labelFault? name else none

/-- Why nothing can be asked for. The path is sent behind a word of three letters and a space. -/
def requestFault? (host path : List Char) : Option RequestFault :=
  let path := if path.isEmpty then ['/'] else path
  let (name, portFault) := splitPort host
  portFault.or <| (controlFault? name).or <| (controlFault? path).or <|
    (encodingFault? .ascii 4 path).or <| (encodingFault? .latin1 0 host).or <| nameFault? name

def ownHosts : List String := ["localhost", "127.0.0.1", "[::1]"]

def isNameChar (c : Char) : Bool :=
  c.isAlphanum || c = '-' || c = '_' || c = '.' || 0x80 ≤ c.toNat

/-- No other system is in reach, and this one offers no service. -/
def connectionFault (name : List Char) : LinkFault :=
  if ownHosts.contains (String.ofList name) then .connectionRefused
  else if name.isEmpty || !name.all isNameChar then .hostInvalid
  else .hostUnknown

def splitDigits (host : List Char) : List Char × List Char :=
  let digits := (host.reverse.takeWhile Char.isDigit).reverse
  let front := host.take (host.length - digits.length)
  if front.getLast? = some ':' then (front.dropLast, digits) else (host, [])

def ftpName (host : List Char) : List Char :=
  Text.Percent.decode ((splitDigits host).1.reverse.takeWhile (· ≠ '@')).reverse

/-- Why nothing can be fetched. A host without a name is this system. -/
def ftpFault (host : List Char) : SaveFault :=
  let name := ftpName host
  if host.isEmpty then .link .ftpHostMissing
  else if name.isEmpty then .link .connectionRefused
  else
    match nameFault? name with
    | some fault => .request fault
    | none => .link (connectionFault name)

def fileFault? (host path : List Char) : Option SaveFault :=
  let (name, port) := splitDigits host
  let own := name.isEmpty || port.isEmpty && (ownHosts.take 2).contains (String.ofList name)
  let text := String.ofList (Text.Percent.decode path)
  if ['/', '/'].isPrefixOf path && (path.drop 2).head? != some '/' && !host.isEmpty &&
      !(ownHosts.take 2).contains (String.ofList host) then
    some (.link .hostNotLocal)
  else if Pathname.hasNull text then some .nullCharacter
  else
    match Pathname.source text with
    | .fault fault => some (.link (.unreadable fault))
    | .directory => some (.link (if own then .unreadable (.isDirectory text) else .fileNotLocal))
    | .file => if own then none else some (.link .fileNotLocal)

def fault? (l : Locator) : Option SaveFault :=
  let (host?, path) := splitHost (withoutFragment l.rest)
  let host := (host?.map Text.Percent.decode).getD []
  let path := if host?.isSome then rooted path else path
  match l.scheme with
  | "file" => fileFault? host path
  | "ftp" => some (ftpFault host)
  | "http" | "https" =>
    if host.isEmpty then some (.link .hostMissing)
    else
      match requestFault? host path with
      | some fault => some (.request fault)
      | none => some (.link (connectionFault (splitPort host).1))
  | scheme => some (.link (.unknownScheme scheme))

end Locator

end InfixCalculator
