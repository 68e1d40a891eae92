/-
  ApiSyntax/Pattern/Reader.lean --- patterns in their written form.

  The written form has literals, `.`, `^`, `$`, escapes, sets in brackets, groups,
  alternatives and repetitions with their lazy forms.  A reader walks the text once;
  open groups and open sets wait on a stack of their own.

  These patterns are one engine, the one that runs.  It does not read flags for the case of
  letters, for blanks and comments and for line endings of two characters, nor sets by a
  property of characters; what is said of every tokenizer is said over any engine.
-/
import ApiSyntax.Action
import ApiSyntax.Number.Digits
import ApiSyntax.Pattern.Basic
import ApiSyntax.Pattern.Engine

set_option autoImplicit false

namespace ApiSyntax

/-! ## Faults -/

/-- Why a text is no pattern. -/
inductive PatternFault
  | unclosedGroup
  | unopenedGroup
  | badGroup
  | lookAround
  | backReference
  | unclosedSet
  | badSet
  | badEscape
  | nothingToRepeat
  | badRepetition
  | tooLarge
deriving DecidableEq, Repr, Inhabited

/-- The wording of a fault. -/
def PatternFault.message : PatternFault → String
  | unclosedGroup => "a group is never closed"
  | unopenedGroup => "a group is closed that was never opened"
  | badGroup => "the head of a group is not understood"
  | lookAround => "groups cannot look around"
  | backReference => "groups cannot be referred to"
  | unclosedSet => "a set is never closed"
  | badSet => "a member of a set is not understood"
  | badEscape => "an escape is not understood"
  | nothingToRepeat => "there is nothing to repeat"
  | badRepetition => "the bounds of a repetition are not understood"
  | tooLarge => "the repetitions are too large"

namespace Pattern

/-! ## Reading -/

/-- What groups can switch for the rest of their text. -/
structure Flags where
  /-- The dot takes newlines too. -/
  dotAll : Bool
  /-- The anchors hold at the ends of lines too. -/
  multiLine : Bool
  /-- Repetitions are lazy, and those with a question mark are greedy. -/
  swapGreed : Bool
deriving DecidableEq, Repr, Inhabited

/-- The state of a reader: the text to read, the names of groups so far, and the flags. -/
structure ReadState where
  rest : List Char
  names : List (List Char)
  flags : Flags

/-- A step of a reader. -/
abbrev Reading := Action ReadState PatternFault

/-- The text to read. -/
def ahead : Reading (List Char) := fun s => (.ok s.rest, s)

/-- Some characters are passed. -/
def skip (n : Nat) : Reading Unit := .change fun s => { s with rest := s.rest.drop n }

/-- A text is passed if it stands here; the answer says whether it did. -/
def skipIf (text : List Char) : Reading Bool := fun s =>
  if text.isPrefixOf s.rest then (.ok true, { s with rest := s.rest.drop text.length })
  else (.ok false, s)

/-- The characters up to the first one outside a set are passed. -/
def skipWhile (p : Char → Bool) : Reading (List Char) := fun s =>
  (.ok (s.rest.takeWhile p), { s with rest := s.rest.dropWhile p })

/-- One character is passed; at the end of the text that is the fault `f`. -/
def nextOr (f : PatternFault) : Reading Char := fun s =>
  match s.rest with
  | c :: rest => (.ok c, { s with rest := rest })
  | [] => (.error f, s)

/-- The flags in force. -/
def currentFlags : Reading Flags := fun s => (.ok s.flags, s)

/-- The flags are switched. -/
def setFlags (flags : Flags) : Reading Unit := .change fun s => { s with flags := flags }

/-! ## Escapes -/

/-- What one escape or one plain character stands for. -/
inductive Atom
  | literal (c : Char)
  | set (set : CharSet)
  | place (p : Place)

/-- The characters with a meaning of their own somewhere in a pattern. -/
def metaCharacters : List Char := "\\.+*?()|[]\x7b\x7d^$#&-~".toList

/-- A backslash takes the meaning from such a character; all other signs of the basic alphabet
but the angle brackets may be written so too. -/
def isEscapable (c : Char) : Bool :=
  metaCharacters.contains c ||
    (c.toNat < 128 && !c.isAlphanum && c != '<' && c != '>')

/-- The character of a code point. -/
def charOfCode (n : Nat) : Reading Char :=
  if n.isValidChar then return Char.ofNat n else .fail .badEscape

/-- A code point of `width` digits. -/
def readFixedHex (width : Nat) : Reading Char := do
  let digits := (← ahead).take width
  if digits.length < width then .fail .badEscape
  match hexValue digits with
  | some n =>
      skip width
      charOfCode n
  | none => .fail .badEscape

/-- A code point, of `width` digits or between braces. -/
def readHex (width : Nat) : Reading Char := do
  if ← skipIf ['\x7b'] then
    let digits ← skipWhile fun c => (hexValue? c).isSome
    if ← skipIf ['\x7d'] then
      match digits, hexValue digits with
      | _ :: _, some n => charOfCode n
      | _, _ => .fail .badEscape
    else .fail .badEscape
  else readFixedHex width

/-- The places that a word boundary can be narrowed to, by their names. -/
def namedPlaces : List (List Char × Place) :=
  [("start".toList, .wordStart), ("end".toList, .wordEnd),
    ("start-half".toList, .beforeNoWord), ("end-half".toList, .afterNoWord)]

/-- A letter or hyphen, as in the names of places. -/
def isPlaceNameChar (c : Char) : Bool := c.isAlpha || c == '-'

/-- A word boundary, narrowed by a name in braces if one follows.  Braces around something else
are a repetition and are left alone; braces around nothing are a fault. -/
def readBoundary : Reading Place := do
  match ← ahead with
  | '\x7b' :: c :: rest =>
      if isPlaceNameChar c then
        let name := (c :: rest).takeWhile isPlaceNameChar
        skip (1 + name.length)
        match namedPlaces.lookup name, ← skipIf ['\x7d'] with
        | some p, true => return p
        | _, _ => .fail .badEscape
      else return .wordBoundary
  | ['\x7b'] => .fail .badEscape
  | _ => return .wordBoundary

/-- What stands behind a backslash. -/
def readEscape : Reading Atom := do
  let c ← nextOr .badEscape
  if isAsciiDigit c then .fail .backReference
  else if isEscapable c then return .literal c
  else
    match c with
    | 'x' => .literal <$> readHex 2
    | 'u' => .literal <$> readHex 4
    | 'U' => .literal <$> readHex 8
    | 'd' => return .set .digit
    | 's' => return .set .blank
    | 'w' => return .set .word
    | 'D' => return .set (.complement .digit)
    | 'S' => return .set (.complement .blank)
    | 'W' => return .set (.complement .word)
    | 'a' => return .literal '\x07'
    | 'f' => return .literal '\x0c'
    | 't' => return .literal '\t'
    | 'n' => return .literal '\n'
    | 'r' => return .literal '\r'
    | 'v' => return .literal '\x0b'
    | 'A' => return .place .textStart
    | 'z' => return .place .textEnd
    | 'b' => .place <$> readBoundary
    | 'B' => return .place .notWordBoundary
    | '<' => return .place .wordStart
    | '>' => return .place .wordEnd
    | _ => .fail .badEscape

/-! ## Sets -/

/-- An operation between two sets. -/
inductive SetOperation
  | intersection
  | difference
  | symmetricDifference

/-- The operation carried out. -/
def SetOperation.apply : SetOperation → CharSet → CharSet → CharSet
  | intersection, a, b => .intersection a b
  | difference, a, b => a.difference b
  | symmetricDifference, a, b => a.symmetricDifference b

/-- A set whose bracket is open: its members since the last operation, and what that operation
is to be applied to. -/
structure OpenSet where
  negated : Bool
  left : Option (SetOperation × CharSet)
  members : CharSet

namespace OpenSet

/-- Some more members. -/
def add (o : OpenSet) (set : CharSet) : OpenSet := { o with members := o.members.join set }

/-- The set without regard to negation. -/
def combined (o : OpenSet) : CharSet :=
  match o.left with
  | some (op, left) => op.apply left o.members
  | none => o.members

/-- The set that is meant when its bracket closes. -/
def value (o : OpenSet) : CharSet := if o.negated then .complement o.combined else o.combined

/-- An operation sign was read. -/
def operate (o : OpenSet) (op : SetOperation) : OpenSet :=
  { o with left := some (op, o.combined), members := .nothing }

end OpenSet

/-- The sets of the basic alphabet that have a name. -/
def namedSets : List (List Char × CharSet) :=
  [("alnum".toList, .ranges [('0', '9'), ('A', 'Z'), ('a', 'z')]),
    ("alpha".toList, .ranges [('A', 'Z'), ('a', 'z')]),
    ("ascii".toList, .ranges [('\x00', '\x7f')]),
    ("blank".toList, .oneOf ['\t', ' ']),
    ("cntrl".toList, .ranges [('\x00', '\x1f'), ('\x7f', '\x7f')]),
    ("digit".toList, .ranges [('0', '9')]),
    ("graph".toList, .ranges [('!', '~')]),
    ("lower".toList, .ranges [('a', 'z')]),
    ("print".toList, .ranges [(' ', '~')]),
    ("punct".toList, .ranges [('!', '/'), (':', '@'), ('[', '\x60'), ('\x7b', '~')]),
    ("space".toList, .oneOf ['\t', '\n', '\x0b', '\x0c', '\r', ' ']),
    ("upper".toList, .ranges [('A', 'Z')]),
    ("word".toList, .ranges [('0', '9'), ('A', 'Z'), ('_', '_'), ('a', 'z')]),
    ("xdigit".toList, .ranges [('0', '9'), ('A', 'F'), ('a', 'f')])]

/-- A named set behind its opening bracket, with the length of the rest of its writing. -/
def namedSet? : List Char → Option (CharSet × Nat)
  | ':' :: rest =>
      let negated := rest.head? == some '^'
      let rest := if negated then rest.drop 1 else rest
      let name := rest.takeWhile (· != ':')
      if [':', ']'].isPrefixOf (rest.drop name.length) then
        (namedSets.lookup name).map fun set =>
          (if negated then .complement set else set,
            name.length + 3 + if negated then 1 else 0)
      else none
  | _ => none

/-- The head of a set behind its opening bracket: a negation, then hyphens, or a closing bracket
that is a member because it comes first. -/
def openSet : Reading OpenSet := do
  let negated ← skipIf ['^']
  let hyphens ← skipWhile (· == '-')
  if hyphens.isEmpty then
    if ← skipIf [']'] then return ⟨negated, none, .single ']'⟩
    else return ⟨negated, none, .nothing⟩
  else return ⟨negated, none, .single '-'⟩

/-- One end of a range, or one member. -/
def readSetAtom : Reading Atom := do
  let c ← nextOr .unclosedSet
  if c = '\\' then readEscape else return .literal c

/-- A member, or a range of members. -/
def readMember : Reading CharSet := do
  let first ← readSetAtom
  match ← ahead with
  | '-' :: c :: _ =>
      if c = ']' ∨ c = '-' then single first
      else
        skip 1
        let last ← readSetAtom
        match first, last with
        | .literal lo, .literal hi =>
            if lo ≤ hi then return .ranges [(lo, hi)] else .fail .badSet
        | _, _ => .fail .badSet
  | _ => single first
where
  /-- A member by itself. -/
  single : Atom → Reading CharSet
    | .literal c => return .single c
    | .set set => return set
    | .place _ => .fail .badSet

/-- The members of a set up to the bracket that closes it; `outer` are the sets around it. -/
def readSetN : Nat → OpenSet → List OpenSet → Reading CharSet
  | 0, _, _ => .fail .unclosedSet
  | fuel + 1, top, outer => do
      match ← ahead with
      | [] => .fail .unclosedSet
      | '[' :: more =>
          match namedSet? more with
          | some (set, length) =>
              skip (1 + length)
              readSetN fuel (top.add set) outer
          | none =>
              skip 1
              let inner ← openSet
              readSetN fuel inner (top :: outer)
      | ']' :: _ =>
          skip 1
          match outer with
          | [] => return top.value
          | next :: outer => readSetN fuel (next.add top.value) outer
      | '&' :: '&' :: _ =>
          skip 2
          readSetN fuel (top.operate .intersection) outer
      | '-' :: '-' :: _ =>
          skip 2
          readSetN fuel (top.operate .difference) outer
      | '~' :: '~' :: _ =>
          skip 2
          readSetN fuel (top.operate .symmetricDifference) outer
      | _ =>
          let set ← readMember
          readSetN fuel (top.add set) outer

/-- A set behind its opening bracket. -/
def readSet : Reading CharSet := do
  let length := (← ahead).length
  let top ← openSet
  readSetN (length + 1) top []

/-! ## Groups -/

/-- The signs of the flags. -/
inductive FlagSign
  | negation
  | flag (letter : Char)
deriving DecidableEq

/-- The letters of the flags.  The last one switches nothing here. -/
def flagLetters : List Char := ['s', 'm', 'U', 'u']

/-- Signs of flags up to a colon or a closing bracket.  A sign stands at most once, a negation
does not stand last, and what is always on cannot be switched off. -/
def readFlagSigns : Reading (List FlagSign) := do
  let text ← skipWhile fun c => c != ':' && c != ')'
  let signs := text.map fun c => if c = '-' then FlagSign.negation else .flag c
  let behind := (signs.dropWhile (· ≠ .negation)).drop 1
  if !text.all (fun c => c = '-' || flagLetters.contains c) then .fail .badGroup
  else if !signs.Nodup then .fail .badGroup
  else if signs.getLast? = some .negation then .fail .badGroup
  else if behind.contains (.flag 'u') then .fail .badGroup
  else return signs

/-- The flags with some of them switched on, and those behind a negation switched off. -/
def Flags.switch (flags : Flags) (signs : List FlagSign) : Flags :=
  (signs.foldl (fun (on, flags) sign =>
    match sign with
    | .negation => (false, flags)
    | .flag 's' => (on, { flags with dotAll := on })
    | .flag 'm' => (on, { flags with multiLine := on })
    | .flag 'U' => (on, { flags with swapGreed := on })
    | .flag _ => (on, flags)) (true, flags)).2

/-- The first character of the name of a group is a letter or an underscore; digits, points and
square brackets may follow. -/
def isGroupName : List Char → Bool
  | [] => false
  | c :: rest =>
      (isWordChar c && !isDecimalDigit c) &&
        rest.all fun c => isWordChar c || ['.', '[', ']'].contains c

/-- The name of a group up to its angle bracket.  No two groups share a name. -/
def readGroupName : Reading Unit := do
  let name ← skipWhile (· != '>')
  if !(← skipIf ['>']) then .fail .badGroup
  else if !isGroupName name then .fail .badGroup
  else
    fun s =>
      if s.names.contains name then (.error .badGroup, s)
      else (.ok (), { s with names := name :: s.names })

/-- The head of a group behind its opening bracket.  The answer says whether a group opens; if
not, it was only flags for the rest of the group around. -/
def readGroupHead : Reading Bool := do
  let text ← ahead
  if [['?', '='], ['?', '!'], ['?', '<', '='], ['?', '<', '!']].any (·.isPrefixOf text) then
    .fail .lookAround
  else if ← skipIf ['?', 'P', '<'] then
    readGroupName
    return true
  else if ← skipIf ['?', '<'] then
    readGroupName
    return true
  else if ← skipIf ['?'] then
    let signs ← readFlagSigns
    let closing ← nextOr .badGroup
    if closing = ')' ∧ signs.isEmpty then .fail .badGroup
    else
      let flags ← currentFlags
      setFlags (flags.switch signs)
      return closing = ':'
  else return true

/-! ## Repetitions -/

/-- The greatest bound of a repetition. -/
def maxCount : Nat := 0xffffffff

/-- A bound of a repetition, with blanks around it, if one stands here. -/
def readCount : Reading (Option Nat) := do
  let _ ← skipWhile isBlank
  let digits ← skipWhile isAsciiDigit
  let _ ← skipWhile isBlank
  match unsigned? digits with
  | none => return none
  | some n => if n ≤ maxCount then return some n else .fail .badRepetition

/-- The bounds of a repetition behind the opening brace: the least number of rounds, and the
greatest if there is one. -/
def readBounds : Reading (Nat × Option Nat) := do
  let least ← readCount
  let bounds ←
    if ← skipIf [','] then
      match ← ahead with
      | '\x7d' :: _ => pure (least, none)
      | _ =>
          match ← readCount with
          | some most => pure (least, some most)
          | none => .fail .badRepetition
    else pure (least, least)
  if !(← skipIf ['\x7d']) then .fail .badRepetition
  else
    match bounds with
    | (some least, some most) =>
        if least ≤ most then return (least, some most) else .fail .badRepetition
    | (some least, none) => return (least, none)
    | (none, _) => .fail .badRepetition

/-- Whether a repetition is greedy; a question mark behind it turns its greed around. -/
def readGreed : Reading Bool := do
  let marked ← skipIf ['?']
  let flags ← currentFlags
  return marked == flags.swapGreed

/-! ## Whole patterns -/

/-- A group that is open: the flags around it, its finished alternatives (latest first), and
what was read of the current one (latest first); flags by themselves leave a gap there. -/
structure Level where
  flags : Flags
  branches : List Pattern
  items : List (Option Pattern)

namespace Level

/-- A group that has just been opened. -/
def opened (flags : Flags) : Level := ⟨flags, [], []⟩

/-- One more piece of the current alternative. -/
def add (l : Level) (p : Pattern) : Level := { l with items := some p :: l.items }

/-- The current alternative. -/
def branch (l : Level) : Pattern := inOrder (l.items.reverse.filterMap id)

/-- The next alternative begins. -/
def nextBranch (l : Level) : Level := { l with branches := l.branch :: l.branches, items := [] }

/-- The pattern that is meant when the group closes. -/
def value (l : Level) : Pattern := firstOf (l.branches.reverse ++ [l.branch])

/-- The last piece is repeated; there must be one. -/
def repeating (l : Level) (f : Pattern → Pattern) : Reading Level :=
  match l.items with
  | some p :: items => return { l with items := some (f p) :: items }
  | _ => .fail .nothingToRepeat

end Level

/-- The pattern of an escape outside of sets. -/
def ofAtom : Atom → Pattern
  | .literal c => char (.single c)
  | .set set => char set
  | .place p => place p

/-- A sign that stands for itself or for a place or set. -/
def ofSign (flags : Flags) : Char → Pattern
  | '.' => char (if flags.dotAll then .complement .nothing else .complement (.single '\n'))
  | '^' => place (if flags.multiLine then .lineStart else .textStart)
  | '$' => place (if flags.multiLine then .lineEnd else .textEnd)
  | c => char (.single c)

/-- The repetition with the given bounds. -/
def repeated (greedy : Bool) : Nat × Option Nat → Pattern → Pattern
  | (least, none), p => atLeast least p greedy
  | (least, some most), p => between least most p greedy

/-- A repetition of the last piece. -/
def readRepetition (top : Level) (bounds : Nat × Option Nat) : Reading Level := do
  let greedy ← readGreed
  top.repeating (repeated greedy bounds)

/-- The pattern up to the end of the text; `outer` are the groups around the current one. -/
def readN : Nat → Level → List Level → Reading Pattern
  | 0, _, _ => .fail .unclosedGroup
  | fuel + 1, top, outer => do
      match ← ahead with
      | [] =>
          match outer with
          | [] => return top.value
          | _ :: _ => .fail .unclosedGroup
      | c :: _ =>
          skip 1
          match c with
          | '(' =>
              let flags ← currentFlags
              if ← readGroupHead then readN fuel (.opened flags) (top :: outer)
              else readN fuel { top with items := none :: top.items } outer
          | ')' =>
              match outer with
              | [] => .fail .unopenedGroup
              | next :: outer =>
                  setFlags top.flags
                  readN fuel (next.add top.value) outer
          | '|' => readN fuel top.nextBranch outer
          | '[' =>
              let set ← readSet
              readN fuel (top.add (char set)) outer
          | '*' =>
              let top ← readRepetition top (0, none)
              readN fuel top outer
          | '+' =>
              let top ← readRepetition top (1, none)
              readN fuel top outer
          | '?' =>
              let greedy ← readGreed
              let top ← top.repeating (option · greedy)
              readN fuel top outer
          | '\x7b' =>
              let bounds ← readBounds
              let top ← readRepetition top bounds
              readN fuel top outer
          | '\\' =>
              let atom ← readEscape
              readN fuel (top.add (ofAtom atom)) outer
          | c =>
              let flags ← currentFlags
              readN fuel (top.add (ofSign flags c)) outer

/-- The greatest size of a pattern with its counted repetitions written out. -/
def maxSize : Nat := 327680

/-- No flag is on at the start. -/
def noFlags : Flags := ⟨false, false, false⟩

/-- The pattern that a text writes. -/
def ofText (text : List Char) : Except PatternFault Pattern :=
  match readN (text.length + 1) (.opened noFlags) [] ⟨text, [], noFlags⟩ with
  | (.ok p, _) => if p.unrolledSize ≤ maxSize then .ok p else .error .tooLarge
  | (.error f, _) => .error f

/-- The engine of these patterns.  It stands for all others where a pattern is written down. -/
@[default_instance]
instance : Engine Pattern where
  compile text := (ofText text).mapError PatternFault.message
  matchEnd := matchEnd

theorem compile_eq_ok {text : List Char} {p : Pattern} :
    Engine.compile text = .ok p ↔ ofText text = .ok p := by
  change (ofText text).mapError PatternFault.message = .ok p ↔ ofText text = .ok p
  cases ofText text with
  | error fault => exact ⟨(nomatch ·), (nomatch ·)⟩
  | ok q => exact ⟨fun h => congrArg _ (Except.ok.inj h), fun h => congrArg _ (Except.ok.inj h)⟩

end Pattern

end ApiSyntax
