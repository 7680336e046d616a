import InfixCalculator.Text.Quoted

/-! What keeps a file from being saved where it is to go. -/

namespace InfixCalculator

inductive PathFault where
  | isDirectory (path : String)
  | tooLong (path : String)
  | notFound (path : String)
  | notDirectory (path : String)
  | denied (path : String)
  deriving DecidableEq, Repr

inductive HostFault where
  | unmatchedBracket
  | versionInvalid
  | fourOctets
  | noAddress (host : String)
  /-- A character of the host can be taken for a mark. -/
  | ambiguous (host : String)
  deriving DecidableEq, Repr

inductive Encoding where
  | ascii
  | latin1
  deriving DecidableEq, Repr

namespace Encoding

def label : Encoding → String
  | ascii => "ascii"
  | latin1 => "latin-1"

def size : Encoding → Nat
  | ascii => 128
  | latin1 => 256

end Encoding

inductive RequestFault where
  | port (text : String)
  | control (text : String) (c : Char)
  /-- Characters that the encoding lacks from one place to another, of which `c` is the first. -/
  | notEncodable (encoding : Encoding) (start last : Nat) (c : Char)
  | labelEmpty
  | labelTooLong
  deriving DecidableEq, Repr

inductive LinkFault where
  | unknownScheme (scheme : String)
  | hostMissing
  | ftpHostMissing
  | hostUnknown
  | hostInvalid
  | connectionRefused
  | hostNotLocal
  | fileNotLocal
  | unreadable (fault : PathFault)
  deriving DecidableEq, Repr

inductive SaveFault where
  | noDirectory (directory : String)
  | path (fault : PathFault)
  | nullCharacter
  | deviceFull
  | host (fault : HostFault)
  | request (fault : RequestFault)
  | link (fault : LinkFault)
  | remoteStorage
  | compression
  deriving DecidableEq, Repr

def PathFault.message : PathFault → String
  | isDirectory path => "[Errno 21] Is a directory: " ++ Text.Quoted.encode path
  | tooLong path => "[Errno 36] File name too long: " ++ Text.Quoted.encode path
  | notFound path => "[Errno 2] No such file or directory: " ++ Text.Quoted.encode path
  | notDirectory path => "[Errno 20] Not a directory: " ++ Text.Quoted.encode path
  | denied path => "[Errno 13] Permission denied: " ++ Text.Quoted.encode path

def HostFault.message : HostFault → String
  | unmatchedBracket => "Invalid IPv6 URL"
  | versionInvalid => "IPvFuture address is invalid"
  | fourOctets => "An IPv4 address cannot be in brackets"
  | noAddress host =>
    Text.Quoted.encode host ++ " does not appear to be an IPv4 or IPv6 address"
  | ambiguous host =>
    "netloc '" ++ host ++ "' contains invalid characters under NFKC normalization"

def RequestFault.message : RequestFault → String
  | port text => "nonnumeric port: '" ++ text ++ "'"
  | control text c =>
    "URL can't contain control characters. " ++ Text.Quoted.encode text ++ " (found at least " ++
      Text.Quoted.encode c.toString ++ ")"
  | notEncodable encoding start last c =>
    "'" ++ encoding.label ++ "' codec can't encode " ++
      (if start = last then
        "character '" ++ Text.Quoted.codePoint c ++ "' in position " ++ toString start
      else "characters in position " ++ toString start ++ "-" ++ toString last) ++
      ": ordinal not in range(" ++ toString encoding.size ++ ")"
  | labelEmpty =>
    "encoding with 'idna' codec failed (UnicodeError: label empty or too long)"
  | labelTooLong => "encoding with 'idna' codec failed (UnicodeError: label too long)"

def LinkFault.reason : LinkFault → String
  | unknownScheme scheme => "unknown url type: " ++ scheme
  | hostMissing => "no host given"
  | ftpHostMissing => "ftp error: no host given"
  | hostInvalid => "[Errno -2] Name or service not known"
  | hostUnknown => "[Errno -3] Temporary failure in name resolution"
  | connectionRefused => "[Errno 111] Connection refused"
  | hostNotLocal => "file:// scheme is supported only on localhost"
  | fileNotLocal => "file not on local host"
  | unreadable fault => fault.message

namespace SaveFault

def installing (package : String) : String :=
  "`Import " ++ package ++ "` failed.  Use pip, conda, or your preferred package management " ++
    "tool to install the " ++ package ++ " package."

def message : SaveFault → String
  | noDirectory directory =>
    "Cannot save file into a non-existent directory: '" ++ directory ++ "'"
  | path fault => fault.message
  | nullCharacter => "embedded null byte"
  | deviceFull => "[Errno 28] No space left on device"
  | host fault => fault.message
  | request fault => fault.message
  | link fault => "<urlopen error " ++ fault.reason ++ ">"
  | remoteStorage => installing "fsspec"
  | compression => installing "zstandard"

end SaveFault

end InfixCalculator
