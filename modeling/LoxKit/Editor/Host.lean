/-!
# Hosts

    authority = [ user "@" ] host [ ":" port ]
    host      = "[" address "]" | name

The authority of a document's name is the text between `//` and the path.  Any name will do
for a host, and any text for a user or a port.  Only where there are brackets in an authority
its host has to be an address, of which there are two kinds: an address of eight groups of up
to four digits in base sixteen, or an address of a version to come.  In the first kind a run
of groups that are zero may be left out at one place, marked by `::`, and the last two groups
may be written as four numbers with dots.
-/
namespace LoxKit.Editor

/-- The value of a digit in base sixteen. -/
def hexValue? (c : Char) : Option Nat :=
  if '0' ≤ c ∧ c ≤ '9' then some (c.toNat - '0'.toNat)
  else if 'a' ≤ c ∧ c ≤ 'f' then some (c.toNat - 'a'.toNat + 10)
  else if 'A' ≤ c ∧ c ≤ 'F' then some (c.toNat - 'A'.toNat + 10)
  else none

namespace Host

/-- Whether a text is a number in base sixteen. -/
def isHex (s : String) : Bool := !s.isEmpty && s.toList.all fun c => (hexValue? c).isSome

/-- Whether a text is a group of an address. -/
def isGroup (s : String) : Bool := isHex s && s.length ≤ 4

/-- Whether a text is a number from 0 to 255, without zeros in front. -/
def isOctet (s : String) : Bool :=
  !s.isEmpty && s.length ≤ 3 && s.toList.all Char.isDigit &&
    (s == "0" || !s.startsWith "0") && s.toNat?.getD 256 ≤ 255

/-- Whether a text is four numbers with dots between them. -/
def isQuad (s : String) : Bool :=
  let parts := s.splitOn "."
  parts.length == 4 && parts.all isOctet

/-- How many groups stand in a text with colons between them; none if it is no such text.
The last of them may be written as four numbers, which count as two groups. -/
def groups? (mayEndInQuad : Bool) (s : String) : Option Nat :=
  if s.isEmpty then some 0
  else
    let parts := s.splitOn ":"
    let last := parts.getLastD ""
    if !parts.dropLast.all isGroup then none
    else if isGroup last then some parts.length
    else if mayEndInQuad && isQuad last then some (parts.length + 1)
    else none

/-- Whether a text is an address of eight groups. -/
def isAddress (s : String) : Bool :=
  match s.splitOn "::" with
  | [whole] => groups? true whole == some 8
  | front :: behind =>
    match groups? false front, groups? true ("::".intercalate behind) with
    | some n, some m => n + m ≤ 7
    | _, _ => false
  | [] => false

/-- Whether a text is an address with the zone it belongs to, if one is named. -/
def isZonedAddress (s : String) : Bool :=
  match s.splitOn "%" with
  | [address] => isAddress address
  | [address, zone] => isAddress address && !zone.isEmpty
  | _ => false

/-- Whether a text is an address of a version to come: the number of the version between a
`v` and a dot, and something behind. -/
def isFutureAddress (s : String) : Bool :=
  match s.toList with
  | 'v' :: rest =>
    let version := rest.takeWhile fun c => (hexValue? c).isSome
    !version.isEmpty && (rest.drop version.length).head? == some '.' &&
      version.length + 1 < rest.length
  | _ => false

/-- Whether a text is an address of either kind. -/
def isEitherAddress (s : String) : Bool :=
  if s.startsWith "v" then isFutureAddress s else isZonedAddress s

/-- The host and the port of an authority: what is behind the last `@`. -/
def hostAndPort (authority : List Char) : List Char :=
  (authority.reverse.takeWhile (· != '@')).reverse

/-- Whether the host of a host and a port is an address, in brackets or bare.  Nothing stands
between a closing bracket and the colon of the port. -/
def hasAddress : List Char → Bool
  | '[' :: rest =>
    let (host, behind) := rest.span (· != ']')
    isEitherAddress (.ofList host) && (behind.drop 1).head?.all (· == ':')
  | cs => !cs.contains '[' && isEitherAddress (.ofList (cs.takeWhile (· != ':')))

/-- Characters that are compatibility forms of one or more characters of which some is `/`,
`?`, `#`, `@` or `:`.  They would hide the end of the authority, or of a part of it. -/
def deceptive : List Char :=
  ['\u2047', '\u2048', '\u2049', '\u2100', '\u2101', '\u2105', '\u2106', '\u2A74', '\uFE13',
    '\uFE16', '\uFE55', '\uFE56', '\uFE5F', '\uFE6B', '\uFF03', '\uFF0F', '\uFF1A', '\uFF1F',
    '\uFF20']

/-- **Whether a text can be the authority of a name.** -/
def isAuthority (cs : List Char) : Bool :=
  !cs.any deceptive.contains &&
    match cs.contains '[', cs.contains ']' with
    | false, false => true
    | true, true => hasAddress (hostAndPort cs)
    | _, _ => false

end Host
end LoxKit.Editor
