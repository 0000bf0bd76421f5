import ClassAudit.Setting.Yaml.Character

/-!
# Texts of YAML scalars

Plain, quoted and block scalars as they stand in a document, with their line folding.
Every reader moves a spot: the text that is left and where it lies.
-/

set_option autoImplicit false

namespace ClassAudit.Yaml

/-- A place in a text. `breaks` counts the line breaks passed since the last character
that was not blank. -/
structure Spot where
  rest : List Char
  index : Nat := 0
  line : Nat := 0
  column : Nat := 0
  breaks : Nat := 0
  deriving Repr

namespace Spot

/-- The character at a spot. -/
def next (spot : Spot) : Option Char := spot.rest.head?

/-- The character a few places after a spot. -/
def ahead (spot : Spot) (count : Nat) : Option Char := (spot.rest.drop count).head?

/-- Moves over one character that is no line break. -/
def advance (spot : Spot) : Spot :=
  match spot.rest with
  | [] => spot
  | char :: rest =>
      { rest, index := spot.index + 1, line := spot.line, column := spot.column + 1,
        breaks := if isBlank char then spot.breaks else 0 }

/-- Moves over several characters that are no line breaks. -/
def advanceBy (spot : Spot) : Nat → Spot
  | 0 => spot
  | count + 1 => spot.advance.advanceBy count

/-- Moves over the characters that satisfy a test, none of them a line break. -/
def advanceWhile (spot : Spot) (test : Char → Bool) : List Char × Spot :=
  let taken := spot.rest.takeWhile test
  (taken, spot.advanceBy taken.length)

/-- Moves over a line break and returns how it counts: all breaks of one line are line
feeds, except for the separators of lines and paragraphs. -/
def passBreak (spot : Spot) : List Char × Spot :=
  let moved (rest : List Char) (length : Nat) : Spot :=
    { rest, index := spot.index + length, line := spot.line + 1, column := 0,
      breaks := spot.breaks + 1 }
  match spot.rest with
  | '\r' :: '\n' :: rest => (['\n'], moved rest 2)
  | char :: rest =>
      if char == '\u2028' || char == '\u2029' then ([char], moved rest 1)
      else if isBreak char then (['\n'], moved rest 1)
      else ([], spot)
  | [] => ([], spot)

/-- Whether three dashes or three dots mark a document's start or end here. -/
def atDocumentMark (spot : Spot) : Bool :=
  spot.column == 0 && endsWord (spot.ahead 3) &&
    (['-', '-', '-'].isPrefixOf spot.rest || ['.', '.', '.'].isPrefixOf spot.rest)

/-- Moves over blanks and a comment, if one starts after them on this line. -/
def passLineComment (spot : Spot) : Spot :=
  let after := (spot.advanceWhile isBlank).2
  if spot.breaks == 0 && after.next == some '#' then
    (after.advanceWhile (fun char => !isBreak char)).2
  else spot

end Spot

/-! ## Gaps between words -/

/-- Blanks and line breaks between two words. `first` is the first line break and `more`
are the others; once the gap is broken, blanks no longer count. -/
structure Gap where
  blanks : List Char := []
  broken : Bool := false
  first : List Char := []
  more : List Char := []
  deriving Repr

/-- What a gap stands for: one line break is a space, and of several the first is
dropped. -/
def Gap.folded (gap : Gap) : List Char :=
  if !gap.broken then gap.blanks
  else if gap.first = ['\n'] then if gap.more.isEmpty then [' '] else gap.more
  else gap.first ++ gap.more

/-- Moves over a gap. After a line break no tab may stand left of `margin`. -/
def Spot.passGap (margin : Nat) : Nat → Gap → Spot → Except SettingFlaw (Gap × Spot)
  | 0, gap, spot => .ok (gap, spot)
  | fuel + 1, gap, spot =>
      match spot.next with
      | none => .ok (gap, spot)
      | some char =>
          if isBlank char then
            if gap.broken && char == '\t' && spot.column < margin then .error .indentation
            else
              let blanks := if gap.broken then gap.blanks else gap.blanks ++ [char]
              passGap margin fuel { gap with blanks } spot.advance
          else if isBreak char then
            let (text, after) := spot.passBreak
            let wider : Gap :=
              if gap.broken then { gap with more := gap.more ++ text }
              else { broken := true, first := text }
            passGap margin fuel wider after
          else .ok (gap, spot)

/-! ## Plain scalars -/

/-- Whether a plain word ends before a character with the given follower. -/
def endsPlainWord (inFlow : Bool) (char : Char) (follower : Option Char) : Bool :=
  isBlank char || isBreak char || (char == ':' && endsWord follower) ||
    (inFlow && (char == ',' || char == '[' || char == ']' || char == '\x7b' || char == '\x7d' ||
      (char == '?' && (follower == some ' ' || endsLine follower))))

/-- The length of the plain word at the start of a text. -/
def plainWordLength (inFlow : Bool) : List Char → Nat
  | [] => 0
  | char :: rest =>
      if endsPlainWord inFlow char rest.head? then 0 else plainWordLength inFlow rest + 1

/-- A scalar's text, the spot after it, and whether a line break was passed after the
text. -/
structure ScalarText where
  text : List Char
  after : Spot
  broken : Bool := false
  deriving Repr

/-- A plain scalar. Outside flow collections its further lines start at `margin` or to
the right of it. -/
def plainText (inFlow : Bool) (margin : Nat) :
    Nat → List Char → Gap → Spot → Except SettingFlaw ScalarText
  | 0, text, gap, spot => .ok ⟨text, spot, gap.broken⟩
  | fuel + 1, text, gap, spot =>
      if spot.atDocumentMark || spot.next == some '#' then .ok ⟨text, spot, gap.broken⟩
      else
        let length := plainWordLength inFlow spot.rest
        let after := spot.advanceBy length
        let text' := if length = 0 then text else text ++ gap.folded ++ spot.rest.take length
        let gap' := if length = 0 then gap else {}
        if after.next.any (fun char => isBlank char || isBreak char) then do
          let (wider, beyond) ← after.passGap margin (after.rest.length + 1) gap'
          if !inFlow && beyond.column < margin then return ⟨text', beyond, wider.broken⟩
          else plainText inFlow margin fuel text' wider beyond
        else .ok ⟨text', after, gap'.broken⟩

/-! ## Quoted scalars -/

/-- The character of a one-letter escape. -/
def escapedChar? : Char → Option Char
  | '0' => some '\x00'
  | 'a' => some '\x07'
  | 'b' => some '\x08'
  | 't' | '\t' => some '\t'
  | 'n' => some '\n'
  | 'v' => some '\x0b'
  | 'f' => some '\x0c'
  | 'r' => some '\r'
  | 'e' => some '\x1b'
  | ' ' => some ' '
  | '"' => some '"'
  | '\'' => some '\''
  | '\\' => some '\\'
  | 'N' => some '\x85'
  | '_' => some '\xa0'
  | 'L' => some '\u2028'
  | 'P' => some '\u2029'
  | _ => none

/-- The number of digits after the letter of a numeric escape. -/
def escapeDigits? : Char → Option Nat
  | 'x' => some 2
  | 'u' => some 4
  | 'U' => some 8
  | _ => none

/-- The value of a hexadecimal digit. -/
def hexValue? (char : Char) : Option Nat :=
  if char.isDigit then some (char.toNat - 0x30)
  else if 'a' ≤ char && char ≤ 'f' then some (char.toNat - 0x57)
  else if 'A' ≤ char && char ≤ 'F' then some (char.toNat - 0x37)
  else none

/-- The character with a hexadecimal code. -/
def codedChar (digits : List Char) : Except SettingFlaw Char :=
  match digits.mapM hexValue? with
  | none => .error .badEscape
  | some values =>
      let code := values.foldl (fun value digit => value * 16 + digit) 0
      if code.isValidChar then .ok (Char.ofNat code) else .error .badEscape

/-- An escape of a double-quoted scalar, from its backslash on. -/
def readEscape (spot : Spot) : Except SettingFlaw (Char × Spot) :=
  match spot.ahead 1 with
  | none => .error .badEscape
  | some letter =>
      match escapedChar? letter, escapeDigits? letter with
      | some char, _ => .ok (char, spot.advanceBy 2)
      | none, some count => do
          let digits := (spot.rest.drop 2).take count
          if digits.length = count then
            return (← codedChar digits, spot.advanceBy (2 + count))
          else throw .badEscape
      | none, none => .error .badEscape

/-- A quoted scalar, after its opening quote. -/
def quotedText (quote : Char) : Nat → List Char → Spot → Except SettingFlaw ScalarText
  | 0, _, _ => .error .unterminated
  | fuel + 1, text, spot =>
      if spot.atDocumentMark then .error .unterminated
      else
        match spot.next with
        | none => .error .unterminated
        | some char =>
            if char == quote then
              if quote == '\'' && spot.ahead 1 == some '\'' then
                quotedText quote fuel (text ++ ['\'']) (spot.advanceBy 2)
              else .ok ⟨text, spot.advance, false⟩
            else if quote == '"' && char == '\\' then
              if (spot.ahead 1).any isBreak then do
                let after := spot.advance.passBreak.2
                let (gap, beyond) ←
                  after.passGap 0 (after.rest.length + 1) { broken := true }
                quotedText quote fuel (text ++ gap.folded) beyond
              else do
                let (escaped, after) ← readEscape spot
                quotedText quote fuel (text ++ [escaped]) after
            else if isBlank char || isBreak char then do
              let (gap, beyond) ← spot.passGap 0 (spot.rest.length + 1) {}
              quotedText quote fuel (text ++ gap.folded) beyond
            else quotedText quote fuel (text ++ [char]) spot.advance

/-! ## Block scalars -/

/-- What becomes of the line breaks at the end of a block scalar. -/
inductive Chomping where
  | strip
  | clip
  | keep
  deriving DecidableEq, Repr

/-- The chomping that an indicator asks for. -/
def chomping? : Char → Option Chomping
  | '+' => some .keep
  | '-' => some .strip
  | _ => none

/-- The indentation that an indicator asks for. -/
def blockIndent (digit : Char) : Except SettingFlaw Nat :=
  if digit == '0' then .error .indentation else .ok (digit.toNat - 0x30)

/-- The indicators of a block scalar in either order: its chomping and the indentation it
asks for, zero when it asks for none. -/
def blockHeader (spot : Spot) : Except SettingFlaw (Chomping × Nat × Spot) :=
  match spot.next.bind chomping?, spot.next with
  | some chomping, _ =>
      match spot.ahead 1 with
      | some digit =>
          if digit.isDigit then do return (chomping, ← blockIndent digit, spot.advanceBy 2)
          else .ok (chomping, 0, spot.advance)
      | none => .ok (chomping, 0, spot.advance)
  | none, some digit =>
      if digit.isDigit then do
        let indent ← blockIndent digit
        match (spot.ahead 1).bind chomping? with
        | some chomping => return (chomping, indent, spot.advanceBy 2)
        | none => return (.clip, indent, spot.advance)
      else .ok (.clip, 0, spot)
  | none, none => .ok (.clip, 0, spot)

/-- The line breaks between two lines of a block scalar, the indentation found, and the
spot at the next line's text. With `indent` zero the indentation is not yet known:
`widest` is the greatest one seen. -/
def blockBreaks (indent : Nat) :
    Nat → Nat → List Char → Spot → Except SettingFlaw (List Char × Nat × Spot)
  | 0, widest, breaks, spot => .ok (breaks, widest, spot)
  | fuel + 1, widest, breaks, spot =>
      let blanks := (spot.rest.takeWhile (· == ' ')).length
      let passed := if indent = 0 then blanks else min blanks (indent - spot.column)
      let after := spot.advanceBy passed
      let widest := max widest after.column
      if (indent = 0 || after.column < indent) && after.next == some '\t' then
        .error .indentation
      else if after.next.any isBreak then
        let (text, beyond) := after.passBreak
        blockBreaks indent fuel widest (breaks ++ text) beyond
      else .ok (breaks, widest, after)

/-- A block scalar under construction: its text, the line break that ends the last line,
the breaks after that, and whether the last line started with a blank. -/
structure BlockText where
  text : List Char := []
  ending : List Char := []
  trailing : List Char := []
  blankStart : Bool := false
  deriving Repr

/-- What joins the next line of a block scalar to the lines before. -/
def BlockText.joint (block : BlockText) (literal blankLine : Bool) : List Char :=
  if !literal && !block.blankStart && !blankLine && block.ending = ['\n'] then
    (if block.trailing.isEmpty then [' '] else []) ++ block.trailing
  else block.ending ++ block.trailing

/-- The lines of a block scalar at an indentation. -/
def blockLines (literal : Bool) (indent : Nat) :
    Nat → BlockText → Spot → Except SettingFlaw (BlockText × Spot)
  | 0, block, spot => .ok (block, spot)
  | fuel + 1, block, spot =>
      if spot.column = indent && spot.next.isSome then do
        let blankLine := spot.next.any isBlank
        let (line, lineEnd) := spot.advanceWhile (fun char => !isBreak char)
        let (ending, after) := lineEnd.passBreak
        let (trailing, _, beyond) ← blockBreaks indent (after.rest.length + 1) 0 [] after
        blockLines literal indent fuel
          { text := block.text ++ block.joint literal blankLine ++ line, ending, trailing,
            blankStart := blankLine } beyond
      else .ok (block, spot)

/-- A block scalar, after its first indicator, inside a block of the given indentation. -/
def blockText (literal : Bool) (parent : Int) (spot : Spot) : Except SettingFlaw ScalarText := do
  let (chomping, asked, after) ← blockHeader spot
  let after := (after.advanceWhile isBlank).2
  let after :=
    if after.next == some '#' then (after.advanceWhile (fun char => !isBreak char)).2 else after
  if !endsLine after.next then throw (.expected "line end")
  let start := after.passBreak.2
  let fuel := start.rest.length + 1
  let known := if asked = 0 then 0 else (max parent 0).toNat + asked
  let (breaks, widest, first) ← blockBreaks known fuel 0 [] start
  let indent := if known = 0 then max (max widest (parent + 1).toNat) 1 else known
  let (block, after) ← blockLines literal indent fuel { trailing := breaks } first
  let ending := if chomping = .strip then [] else block.ending
  let trailing := if chomping = .keep then block.trailing else []
  return ⟨block.text ++ ending ++ trailing, after, false⟩

end ClassAudit.Yaml
