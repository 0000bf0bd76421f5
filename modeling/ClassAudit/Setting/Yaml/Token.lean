import ClassAudit.Setting.Yaml.ScalarText

/-!
# YAML tokens

A text is cut into tokens from left to right. Indentation opens and closes blocks, and a
colon makes the token before it a key, so the token of a possible key is remembered until
a colon follows or cannot follow any more.
-/

set_option autoImplicit false

namespace ClassAudit.Yaml

/-- A token of a YAML text. -/
inductive Token where
  | version (major minor : Nat)
  | tagHandle (handle : List Char) (expansion : List Char)
  | documentStart
  | documentEnd
  | streamEnd
  | sequenceStart
  | mappingStart
  | blockEnd
  | flowSequenceStart
  | flowSequenceEnd
  | flowMappingStart
  | flowMappingEnd
  | blockEntry
  | flowEntry
  | key
  | value
  | alias (name : List Char)
  | anchor (name : List Char)
  | tag (handle : List Char) (suffix : List Char)
  | scalar (plain : Bool) (text : List Char)
  deriving DecidableEq, Repr

/-- A token that a colon may still turn into a key. A required one must become a key. -/
structure KeyCandidate where
  position : Nat
  required : Bool
  index : Nat
  line : Nat
  column : Nat
  deriving Repr

/-- The state of cutting: the tokens so far, the indentation of the open blocks, the depth
of flow collections, and the key candidate of each depth, innermost first. -/
structure Layout where
  spot : Spot
  tokens : Array Token := #[]
  indent : Int := -1
  outer : List Int := []
  flow : Nat := 0
  keyAllowed : Bool := true
  candidates : List (Option KeyCandidate) := [none]
  deriving Repr

/-! ## Space between tokens -/

/-- Moves over blanks and line breaks. -/
def Spot.passSpace : Nat → Spot → Spot
  | 0, spot => spot
  | fuel + 1, spot =>
      match spot.next with
      | some char =>
          if isBlank char then passSpace fuel spot.advance
          else if isBreak char then passSpace fuel spot.passBreak.2
          else spot
      | none => spot

/-- Moves to the end of a comment's line, and on to the end of the last one of the
comments that follow it with only space between. -/
def Spot.passComments : Nat → Spot → Spot
  | 0, spot => spot
  | fuel + 1, spot =>
      let lineEnd := (spot.advanceWhile (fun char => !isBreak char)).2
      let space := (lineEnd.rest.takeWhile (fun char => isBlank char || isBreak char)).length
      if space < 512 && lineEnd.ahead space == some '#' then
        passComments fuel (lineEnd.passSpace space)
      else lineEnd

/-- Moves to the next token. Outside flow collections a line break allows a key again,
and where a key is allowed a tab is no space. -/
def Spot.toToken (inFlow : Bool) : Nat → Bool → Spot → Bool × Spot
  | 0, keyAllowed, spot => (keyAllowed, spot)
  | fuel + 1, keyAllowed, spot =>
      let marked := if spot.column == 0 && spot.next == some '\ufeff' then spot.advance else spot
      let isSpace := fun (char : Char) =>
        char == ' ' || ((inFlow || !keyAllowed) && char == '\t')
      let after := (marked.advanceWhile isSpace).2
      let after := if after.next == some '#' then after.passComments after.rest.length else after
      if after.next.any isBreak then
        toToken inFlow fuel (keyAllowed || !inFlow) after.passBreak.2
      else (keyAllowed, after)

namespace Layout

/-! ## Blocks and keys -/

/-- Whether the spot lies in a flow collection. -/
def inFlow (layout : Layout) : Bool := layout.flow != 0

/-- Adds a token at the end. -/
def push (layout : Layout) (token : Token) : Layout :=
  { layout with tokens := layout.tokens.push token }

/-- Inserts a token before the token at a position. -/
def insert (layout : Layout) (position : Nat) (token : Token) : Layout :=
  { layout with
    tokens := layout.tokens.extract 0 position ++ #[token] ++
      layout.tokens.extract position layout.tokens.size }

/-- Opens a block at a column right of the current one. Its token goes to a position. -/
def openBlock (layout : Layout) (column position : Nat) (token : Token) : Layout :=
  if !layout.inFlow && layout.indent < column then
    { layout.insert position token with
      indent := column, outer := layout.indent :: layout.outer }
  else layout

/-- Closes the open blocks right of a column. The list holds the blocks around the
current one. -/
def closeBlocks (column : Int) : List Int → Layout → Layout
  | [], layout => layout
  | outer :: rest, layout =>
      if layout.indent ≤ column then layout
      else closeBlocks column rest
        { layout.push .blockEnd with indent := outer, outer := rest }

/-- Closes the blocks right of a column, outside flow collections. -/
def closeTo (layout : Layout) (column : Int) : Layout :=
  if layout.inFlow then layout else closeBlocks column layout.outer layout

/-- The key candidate of the current depth. -/
def candidate? (layout : Layout) : Option KeyCandidate := layout.candidates.head?.join

/-- Replaces the key candidate of the current depth. -/
def setCandidate (layout : Layout) (candidate : Option KeyCandidate) : Layout :=
  { layout with candidates := candidate :: layout.candidates.tail }

/-- Gives up the key candidate of the current depth. A required key may not be given
up. -/
def dropCandidate (layout : Layout) : Except SettingFlaw Layout :=
  if layout.candidate?.any (·.required) then .error (.expected ":")
  else .ok (layout.setCandidate none)

/-- Makes the token that comes next a key candidate, where a key may stand. -/
def noteCandidate (layout : Layout) : Except SettingFlaw Layout :=
  if layout.keyAllowed then do
    let cleared ← layout.dropCandidate
    let spot := layout.spot
    return cleared.setCandidate (some
      { position := layout.tokens.size, required := !layout.inFlow && layout.indent = spot.column,
        index := spot.index, line := spot.line, column := spot.column })
  else .ok layout

/-- Whether a candidate can still become a key: on the same line, within 1024
characters. -/
def isFresh (layout : Layout) (candidate : KeyCandidate) : Bool :=
  candidate.line == layout.spot.line && layout.spot.index ≤ candidate.index + 1024

/-! ## Single tokens -/

/-- Takes an indicator of some characters. -/
def takeIndicator (layout : Layout) (length : Nat) (token : Token) : Layout :=
  { layout with spot := layout.spot.advanceBy length }.push token

/-- Ends the text. -/
def takeEnd (layout : Layout) : Except SettingFlaw Layout := do
  let closed ← (layout.closeTo (-1)).dropCandidate
  return { closed with keyAllowed := false }.push .streamEnd

/-- The start or end of a document. -/
def takeDocumentMark (layout : Layout) (token : Token) : Except SettingFlaw Layout := do
  let closed ← (layout.closeTo (-1)).dropCandidate
  return { closed with keyAllowed := false }.takeIndicator 3 token

/-- The opening bracket or brace of a flow collection. -/
def takeFlowStart (layout : Layout) (token : Token) : Except SettingFlaw Layout := do
  let noted ← layout.noteCandidate
  let deeper := { noted with
    candidates := none :: noted.candidates, flow := noted.flow + 1, keyAllowed := true }
  return deeper.takeIndicator 1 token

/-- The closing bracket or brace of a flow collection. -/
def takeFlowEnd (layout : Layout) (token : Token) : Except SettingFlaw Layout := do
  let cleared ← layout.dropCandidate
  let shallower :=
    if cleared.inFlow then
      { cleared with candidates := cleared.candidates.tail, flow := cleared.flow - 1 }
    else cleared
  return { shallower with keyAllowed := false }.takeIndicator 1 token

/-- The comma of a flow collection. -/
def takeFlowEntry (layout : Layout) : Except SettingFlaw Layout := do
  let cleared ← layout.dropCandidate
  return { cleared with keyAllowed := true }.takeIndicator 1 .flowEntry

/-- The dash of a sequence item. -/
def takeBlockEntry (layout : Layout) : Except SettingFlaw Layout := do
  if !layout.inFlow && !layout.keyAllowed then throw (.expected "line start")
  let opened := layout.openBlock layout.spot.column layout.tokens.size .sequenceStart
  let cleared ← opened.dropCandidate
  return { cleared with keyAllowed := true }.takeIndicator 1 .blockEntry

/-- The question mark of a key. -/
def takeKey (layout : Layout) : Except SettingFlaw Layout := do
  if !layout.inFlow && !layout.keyAllowed then throw (.expected "line start")
  let opened := layout.openBlock layout.spot.column layout.tokens.size .mappingStart
  let cleared ← opened.dropCandidate
  return { cleared with keyAllowed := !layout.inFlow }.takeIndicator 1 .key

/-- The colon of a value whose key is no single token. -/
def takeComplexValue (layout : Layout) : Except SettingFlaw Layout := do
  if !layout.inFlow && !layout.keyAllowed then throw (.expected "key")
  let opened := layout.openBlock layout.spot.column layout.tokens.size .mappingStart
  return { opened with keyAllowed := !layout.inFlow }.takeIndicator 1 .value

/-- The colon of a value. A fresh candidate before it becomes its key. -/
def takeValue (layout : Layout) : Except SettingFlaw Layout :=
  match layout.candidate? with
  | some candidate =>
      if layout.isFresh candidate then
        let keyed := layout.insert candidate.position .key
        let opened := keyed.openBlock candidate.column candidate.position .mappingStart
        .ok ({ opened.setCandidate none with keyAllowed := false }.takeIndicator 1 .value)
      else if candidate.required then .error (.expected ":")
      else (layout.setCandidate none).takeComplexValue
  | none => layout.takeComplexValue

/-- The name of an anchor or alias, after its indicator. -/
def takeName (layout : Layout) (token : List Char → Token) : Except SettingFlaw Layout := do
  let noted ← layout.noteCandidate
  let (name, after) := noted.spot.advance.advanceWhile isNameChar
  let ended := endsWord after.next ||
    after.next.any (fun char => ['?', ':', ',', ']', '\x7d', '%', '@', '\x60'].contains char)
  if name.isEmpty || !ended then throw (.expected "name")
  return { noted with spot := after, keyAllowed := false }.push (token name)

/-- Whether a character can stand in a tag as it is. -/
def isTagChar (char : Char) : Bool :=
  isNameChar char || [';', '/', '?', ':', '@', '&', '=', '+', '$', '.', '!', '~', '*', '\'',
    '(', ')', ',', '[', ']'].contains char

/-- The bytes of percent escapes, each two digits after its sign. -/
def percentBytes : Nat → Spot → Except SettingFlaw (Bytes × Spot)
  | 0, spot => .ok ([], spot)
  | fuel + 1, spot =>
      if spot.next == some '%' then
        match (spot.ahead 1).bind hexValue?, (spot.ahead 2).bind hexValue? with
        | some high, some low => do
            let (bytes, after) ← percentBytes fuel (spot.advanceBy 3)
            return ((high * 16 + low).toUInt8 :: bytes, after)
        | _, _ => .error .badEscape
      else .ok ([], spot)

/-- The characters of a tag, with its percent escapes replaced. -/
def tagText : Nat → Spot → Except SettingFlaw (List Char × Spot)
  | 0, spot => .ok ([], spot)
  | fuel + 1, spot =>
      match spot.next with
      | some '%' => do
          let (bytes, after) ← percentBytes spot.rest.length spot
          match utf8Chars? bytes with
          | some chars =>
              let (text, beyond) ← tagText fuel after
              return (chars ++ text, beyond)
          | none => throw .badEscape
      | some char =>
          if isTagChar char then do
            let (text, beyond) ← tagText fuel spot.advance
            return (char :: text, beyond)
          else .ok ([], spot)
      | none => .ok ([], spot)

/-- A tag handle: an exclamation mark, a name, and a closing mark if there is one. -/
def tagHandleText (spot : Spot) : List Char × Spot :=
  let (name, after) := spot.advance.advanceWhile isNameChar
  if after.next == some '!' then ('!' :: name ++ ['!'], after.advance) else ('!' :: name, after)

/-- A tag between angle brackets. -/
def verbatimTag (spot : Spot) : Except SettingFlaw (Token × Spot) := do
  let (text, after) ← tagText (spot.rest.length + 1) (spot.advanceBy 2)
  if text.isEmpty then throw (.expected "tag")
  if after.next != some '>' then throw (.expected ">")
  return (.tag [] text, after.advance)

/-- A tag with a handle. A single mark is the handle of a tag without another. -/
def handledTag (spot : Spot) : Except SettingFlaw (Token × Spot) := do
  let (handle, after) := tagHandleText spot
  let (text, beyond) ← tagText (after.rest.length + 1) after
  if 1 < handle.length && handle.getLast? == some '!' then
    if text.isEmpty then throw (.expected "tag")
    return (.tag handle text, beyond)
  else
    let suffix := handle.drop 1 ++ text
    if suffix.isEmpty then return (.tag [] ['!'], beyond)
    return (.tag ['!'] suffix, beyond)

/-- A tag. -/
def takeTag (layout : Layout) : Except SettingFlaw Layout := do
  let noted ← layout.noteCandidate
  let (token, after) ←
    if noted.spot.ahead 1 == some '<' then verbatimTag noted.spot else handledTag noted.spot
  if !endsWord after.next then throw (.expected "space")
  return { noted with spot := after, keyAllowed := false }.push token

/-- A block scalar. -/
def takeBlockScalar (layout : Layout) (literal : Bool) : Except SettingFlaw Layout := do
  let cleared ← layout.dropCandidate
  let scalar ← blockText literal cleared.indent cleared.spot.advance
  return { cleared with spot := scalar.after, keyAllowed := true }.push (.scalar false scalar.text)

/-- A quoted scalar. -/
def takeQuoted (layout : Layout) (quote : Char) : Except SettingFlaw Layout := do
  let noted ← layout.noteCandidate
  let scalar ← quotedText quote (noted.spot.rest.length + 1) [] noted.spot.advance
  return { noted with spot := scalar.after, keyAllowed := false }.push (.scalar false scalar.text)

/-- A plain scalar. -/
def takePlain (layout : Layout) : Except SettingFlaw Layout := do
  let noted ← layout.noteCandidate
  let margin := (noted.indent + 1).toNat
  let scalar ← plainText noted.inFlow margin (noted.spot.rest.length + 1) [] {} noted.spot
  return { noted with spot := scalar.after, keyAllowed := scalar.broken }.push
    (.scalar true scalar.text)

/-! ## Directives -/

/-- A number of a version, of at most nine digits. -/
def versionNumber (spot : Spot) : Except SettingFlaw (Nat × Spot) :=
  let (digits, after) := spot.advanceWhile Char.isDigit
  if digits.isEmpty || 9 < digits.length then .error .badNumber
  else .ok (digits.foldl (fun value digit => value * 10 + (digit.toNat - 0x30)) 0, after)

/-- The version of a version directive. -/
def versionDirective (spot : Spot) : Except SettingFlaw (Token × Spot) := do
  let (major, after) ← versionNumber (spot.advanceWhile isBlank).2
  if after.next != some '.' then throw .badNumber
  let (minor, after) ← versionNumber after.advance
  return (.version major minor, after)

/-- The handle and expansion of a tag directive. -/
def tagDirective (spot : Spot) : Except SettingFlaw (Token × Spot) := do
  let start := (spot.advanceWhile isBlank).2
  if start.next != some '!' then throw (.expected "tag handle")
  let (handle, after) := tagHandleText start
  if handle != ['!'] && (handle.length == 1 || handle.getLast? != some '!') then
    throw (.expected "tag handle")
  if !after.next.any isBlank then throw (.expected "space")
  let (text, beyond) ← tagText (after.rest.length + 1) (after.advanceWhile isBlank).2
  if text.isEmpty then throw (.expected "tag")
  if !endsWord beyond.next then throw (.expected "space")
  return (.tagHandle handle text, beyond)

/-- A directive line. -/
def takeDirective (layout : Layout) : Except SettingFlaw Layout := do
  let closed ← (layout.closeTo (-1)).dropCandidate
  let (name, after) := closed.spot.advance.advanceWhile isNameChar
  if name.isEmpty || !endsWord after.next then throw (.expected "directive")
  let (token, after) ←
    if name = ['Y', 'A', 'M', 'L'] then versionDirective after
    else if name = ['T', 'A', 'G'] then tagDirective after
    else throw (.expected "directive")
  let after := (after.advanceWhile isBlank).2
  let after :=
    if after.next == some '#' then (after.advanceWhile (fun char => !isBreak char)).2 else after
  if !endsLine after.next then throw (.expected "line end")
  return { closed with spot := after.passBreak.2, keyAllowed := false }.push token

/-! ## The whole text -/

/-- Whether a plain scalar can start with a character and its follower. -/
def startsPlain (inFlow : Bool) (char : Char) (follower : Option Char) : Bool :=
  let isIndicator := ['-', '?', ':', ',', '[', ']', '\x7b', '\x7d', '#', '&', '*', '!', '|', '>',
    '\'', '"', '%', '@', '\x60'].contains char
  (!isIndicator && !isBlank char && !isBreak char) ||
    (char == '-' && !follower.any isBlank) ||
    (!inFlow && (char == '?' || char == ':') && !endsWord follower)

/-- The token that starts with a character at the spot. -/
def takeToken (layout : Layout) (char : Char) : Except SettingFlaw Layout :=
  let follower := layout.spot.ahead 1
  let marked := layout.inFlow || endsWord follower
  if char == '[' then layout.takeFlowStart .flowSequenceStart
  else if char == '\x7b' then layout.takeFlowStart .flowMappingStart
  else if char == ']' then layout.takeFlowEnd .flowSequenceEnd
  else if char == '\x7d' then layout.takeFlowEnd .flowMappingEnd
  else if char == ',' then layout.takeFlowEntry
  else if char == '-' && endsWord follower then layout.takeBlockEntry
  else if char == '?' && marked then layout.takeKey
  else if char == ':' && marked then layout.takeValue
  else if char == '*' then layout.takeName .alias
  else if char == '&' then layout.takeName .anchor
  else if char == '!' then layout.takeTag
  else if char == '|' && !layout.inFlow then layout.takeBlockScalar true
  else if char == '>' && !layout.inFlow then layout.takeBlockScalar false
  else if char == '\'' || char == '"' then layout.takeQuoted char
  else if startsPlain layout.inFlow char follower then layout.takePlain
  else .error .badCharacter

/-- Passes the comment after a token on its line. After a dash there is none: it belongs
to what follows. -/
def passTokenComment (layout : Layout) : Layout :=
  if layout.tokens.back? == some .blockEntry then layout
  else { layout with spot := layout.spot.passLineComment }

/-- Cuts the next token. -/
def step (layout : Layout) : Except SettingFlaw Layout :=
  let (keyAllowed, spot) :=
    layout.spot.toToken layout.inFlow (layout.spot.rest.length + 1) layout.keyAllowed
  let ready := { layout with spot, keyAllowed }.closeTo spot.column
  match spot.next with
  | none => ready.takeEnd
  | some char =>
      if spot.column == 0 && char == '%' then ready.takeDirective
      else if spot.atDocumentMark then
        ready.takeDocumentMark (if char == '-' then .documentStart else .documentEnd)
      else do return (← ready.takeToken char).passTokenComment

/-- The tokens that can be relied on when cutting fails: a token is only read once two
more are known after it and it can no longer become a key. -/
def reliableTokens (layout : Layout) : List Token :=
  let waiting := layout.candidates.filterMap fun candidate => do
    let candidate ← candidate
    if layout.isFresh candidate then some candidate.position else none
  layout.tokens.toList.take (waiting.foldl min (layout.tokens.size - 2))

/-- Cuts the rest of a text into tokens. The last one is the end of the text, unless
cutting fails. -/
def finish : Nat → Layout → List Token
  | 0, layout => layout.reliableTokens
  | fuel + 1, layout =>
      match layout.step with
      | .error _ => layout.reliableTokens
      | .ok next =>
          if next.tokens.back? == some .streamEnd then next.tokens.toList else finish fuel next

end Layout

/-- The tokens of a text, ending with the end of the text unless a flaw stops the cutting
before. -/
def tokens (text : List Char) : List Token :=
  Layout.finish (text.length + 2) { spot := { rest := text } }

end ClassAudit.Yaml
