import InfixCalculator.Destination.Fault
import InfixCalculator.Text.Separated

/-! Hosts of locators. In brackets stands an address of eight groups, or one of a later version
marked by `v`. -/

namespace InfixCalculator.Destination.Host

def isOctet (cs : List Char) : Bool :=
  cs.all Char.isDigit && !cs.isEmpty && (cs = ['0'] || cs.head? != some '0') &&
    cs.length ≤ 3 && cs.foldl (fun n c => 10 * n + (c.toNat - '0'.toNat)) 0 ≤ 255

def isFourOctets (cs : List Char) : Bool :=
  let octets := Text.Separated.parts '.' cs
  octets.length = 4 && octets.all isOctet

def isHexDigit (c : Char) : Bool := c.isDigit || ('a' ≤ c && c ≤ 'f') || ('A' ≤ c && c ≤ 'F')

def isGroup (cs : List Char) : Bool := !cs.isEmpty && cs.length ≤ 4 && cs.all isHexDigit

/-- Whether these are eight groups, or fewer with one gap for the rest. A gap at an end has an empty
part on either side. -/
def areGroups (parts : List (List Char)) : Bool :=
  let inner := parts.tail.dropLast
  match inner.filter (· = []) with
  | [] => parts.length = 8 && parts.all isGroup
  | [_] =>
    let before := parts.take 1 ++ inner.takeWhile (· ≠ [])
    let behind := (inner.dropWhile (· ≠ [])).tail ++ parts.drop (parts.length - 1)
    let before := if before = [[]] then [] else before
    let behind := if behind = [[]] then [] else behind
    before.all isGroup && behind.all isGroup && before.length + behind.length ≤ 7
  | _ => false

/-- Whether the text is an address of eight groups, the last two of which may be four octets. -/
def isEightGroups (cs : List Char) : Bool :=
  let parts := Text.Separated.parts ':' cs
  let last := parts.getLast?.getD []
  if last.contains '.' then
    2 ≤ parts.length && isFourOctets last && areGroups (parts.dropLast ++ [['0'], ['0']])
  else areGroups parts

/-- Whether the text is an address of eight groups, a zone behind a percent sign included. -/
def isZonedGroups (cs : List Char) : Bool :=
  let address := cs.takeWhile (· ≠ '%')
  match cs.dropWhile (· ≠ '%') with
  | [] => isEightGroups address
  | _ :: zone => !zone.isEmpty && !zone.contains '%' && isEightGroups address

def isLaterVersion (cs : List Char) : Bool :=
  let version := cs.takeWhile isHexDigit
  match cs.dropWhile isHexDigit with
  | '.' :: address => !version.isEmpty && !address.isEmpty
  | _ => false

def bracketedFault? (host : List Char) : Option HostFault :=
  match host with
  | 'v' :: rest => if isLaterVersion rest then none else some .versionInvalid
  | _ =>
    if isFourOctets host then some .fourOctets
    else if isZonedGroups host then none
    else some (.noAddress (String.ofList host))

/-- Characters that stand for others, the marks of a locator among them. -/
def lookalikes : List Nat :=
  [0x2047, 0x2048, 0x2049, 0x2100, 0x2101, 0x2105, 0x2106, 0x2A74, 0xFE13, 0xFE16, 0xFE55, 0xFE56,
    0xFE5F, 0xFE6B, 0xFF03, 0xFF0F, 0xFF1A, 0xFF1F, 0xFF20]

def fault? (host : List Char) : Option HostFault :=
  let bracketed :=
    if host.contains '[' != host.contains ']' then some .unmatchedBracket
    else if host.contains '[' then
      bracketedFault? (((host.dropWhile (· ≠ '[')).drop 1).takeWhile (· ≠ ']'))
    else none
  bracketed.or <|
    if host.any fun c => lookalikes.contains c.toNat then some (.ambiguous (String.ofList host))
    else none

end InfixCalculator.Destination.Host
