/-
  SingleFlight.Service.MediaType — the media type that a request declares for its body.

  A media type has a kind and a subtype, and parameters that must be well
  formed.  The part of the subtype behind its last plus sign is its suffix.
  It says JSON if its kind is `application` and its subtype, or its suffix, is
  `json`, in letters of either case.
-/

namespace SingleFlight.Service

/-- A media type without its parameters. -/
structure MediaType where
  kind : List Char
  subtype : List Char
  suffix : Option (List Char)
  deriving DecidableEq, Repr, Inhabited

namespace MediaType

/-- Whether a character may stand in a name. -/
def isToken (c : Char) : Bool :=
  c.isAlphanum || "!#$%&'*+-.^_`|~".toList.contains c

/-- Whether a character may stand in a header that is read as text. -/
def isVisible (c : Char) : Bool := c = '\t' || (' ' ≤ c && c ≤ '~')

/-- Where reading stands among the parameters. -/
inductive Spot where
  /-- Before a name. -/
  | beforeName
  /-- Within a name. -/
  | name
  /-- Behind the equals sign. -/
  | beforeValue
  /-- Within a value. -/
  | value
  /-- Behind the quote that opens a value. -/
  | opened
  /-- Within a quoted value. -/
  | quoted
  /-- Behind the quote that closes a value. -/
  | closed
  deriving DecidableEq, Repr, Inhabited

/-- Where reading stands after a character, if the character may stand there. -/
def Spot.after (c : Char) : Spot → Option Spot
  | beforeName => if c = ' ' then some beforeName else if isToken c then some name else none
  | name => if isToken c then some name else if c = '=' then some beforeValue else none
  | beforeValue => if c = '"' then some opened else if isToken c then some value else none
  | value => if isToken c then some value else if c = ';' then some beforeName else none
  | opened => if c = '\t' then none else some quoted
  | quoted =>
    if c = '"' then some closed else if c = '\t' then none else some quoted
  | closed => if c = ';' then some beforeName else if c = ' ' then some closed else none

/-- Whether the parameters may end here. -/
def Spot.isEnd : Spot → Bool
  | beforeName | beforeValue | value | closed => true
  | name | opened | quoted => false

/-- Whether the rest of a header is a list of parameters. -/
def areParameters : Spot → List Char → Bool
  | spot, [] => spot.isEnd
  | spot, c :: rest =>
    match spot.after c with
    | some next => areParameters next rest
    | none => false

/-- The subtype and its suffix: the last plus sign parts them, unless it stands in front. -/
def splitSuffix (cs : List Char) : List Char × Option (List Char) :=
  let behind := cs.reverse.takeWhile (· != '+')
  if behind.length + 1 < cs.length then
    (cs.take (cs.length - behind.length - 1), some behind.reverse)
  else (cs, none)

/-- The media type that a header declares. -/
def read? (header : String) : Option MediaType :=
  let cs := header.toList
  let kind := cs.takeWhile isToken
  if !cs.all isVisible || kind.isEmpty then none
  else
    match cs.dropWhile isToken with
    | '/' :: rest =>
      let name := rest.takeWhile isToken
      let (subtype, suffix) := splitSuffix name
      match rest.dropWhile isToken with
      | [] => some ⟨kind, subtype, suffix⟩
      | c :: parameters =>
        if (c = ';' ∨ c = ' ') ∧ !name.isEmpty ∧ areParameters .beforeName parameters then
          some ⟨kind, subtype, suffix⟩
        else none
    | _ => none

/-- Whether a name is this word, in letters of either case. -/
def isWord (word : String) (cs : List Char) : Bool := cs.map Char.toLower == word.toList

/-- Whether the media type says JSON. -/
def isJson (m : MediaType) : Bool :=
  isWord "application" m.kind && (isWord "json" m.subtype || m.suffix.any (isWord "json"))

end MediaType

end SingleFlight.Service
