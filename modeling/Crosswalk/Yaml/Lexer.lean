import Crosswalk.Yaml.ScalarText

/-!
# Cutting YAML into tokens

A mapping key can only be told from any other scalar by the colon behind it. So the lexer remembers
where a key may have begun, and puts the key token there once it meets the colon.

* `Lexer`: the tokens so far, the open indentations and the places of possible keys.
* `Lexer.next`: one more token.
* `tokens`: the tokens of a whole text.
-/

namespace Crosswalk.Yaml

/-- A place where a key may have begun. -/
structure KeyPlace where
  /-- The number of tokens before it. -/
  token : Nat
  index : Nat
  line : Nat
  column : Nat
  /-- Nothing but a key can stand there. -/
  required : Bool
deriving Repr

/-- The state of the lexer. -/
structure Lexer where
  cursor : Cursor
  tokens : Array Token
  /-- The column of the innermost block collection. -/
  indent : Option Nat
  /-- The columns of the block collections around it. -/
  outer : List (Option Nat)
  /-- Whether a key may begin at the cursor. -/
  keyAllowed : Bool
  /-- A possible key in the innermost collection. -/
  keyPlace : Option KeyPlace
  /-- The possible keys of the collections around it, one for each open bracket. -/
  outerKeys : List (Option KeyPlace)
  done : Bool

namespace Lexer

def ofText (cs : List Char) : Lexer where
  cursor := Cursor.ofText cs
  tokens := #[]
  indent := none
  outer := []
  keyAllowed := true
  keyPlace := none
  outerKeys := []
  done := false

/-- Inside the brackets of a flow collection. -/
def inFlow (x : Lexer) : Bool := !x.outerKeys.isEmpty

def fault {α : Type} (x : Lexer) (message : String) : Except Fault α := x.cursor.fault message

def push (x : Lexer) (t : Token) : Lexer := { x with tokens := x.tokens.push t }

/-- Puts a token in front of those from the `n`-th on. -/
def insertAt (x : Lexer) (n : Nat) (t : Token) : Lexer :=
  { x with tokens := x.tokens.insertIdxIfInBounds n t }

def skip (x : Lexer) (n : Nat) : Lexer := { x with cursor := x.cursor.skip n }

/-! ## Possible keys -/

/-- A key must be closed on its line and within 1024 characters. -/
def isStale (x : Lexer) (k : KeyPlace) : Bool :=
  k.line < x.cursor.line || k.index + 1024 < x.cursor.index

/-- The place, unless it has become too old for a key. -/
def refreshed (x : Lexer) : Option KeyPlace → Except Fault (Option KeyPlace)
  | none => .ok none
  | some k =>
    if x.isStale k then
      if k.required then x.fault "a key lacks its colon" else .ok none
    else .ok (some k)

/-- Forgets the places that have become too old. -/
def dropStale (x : Lexer) : Except Fault Lexer := do
  let outerKeys ← x.outerKeys.mapM x.refreshed
  let keyPlace ← x.refreshed x.keyPlace
  return { x with keyPlace, outerKeys }

/-- Forgets the possible key of the innermost collection. -/
def dropKey (x : Lexer) : Except Fault Lexer :=
  match x.keyPlace with
  | some k =>
    if k.required then x.fault "a key lacks its colon" else .ok { x with keyPlace := none }
  | none => .ok x

/-- Remembers the cursor as a place where a key may begin. -/
def saveKey (x : Lexer) : Except Fault Lexer :=
  if x.keyAllowed then do
    let required := !x.inFlow && x.indent == some x.cursor.column
    let c := x.cursor
    let place : KeyPlace := ⟨x.tokens.size, c.index, c.line, c.column, required⟩
    let x ← x.dropKey
    return { x with keyPlace := some place }
  else .ok x

/-! ## Indentation -/

/-- The column is deeper than the innermost block collection. -/
def isDeeper (x : Lexer) (column : Nat) : Bool :=
  match x.indent with
  | none => true
  | some n => n < column

/-- Opens a block collection at a deeper column, its token in front of those from the `n`-th on. -/
def openBlock (x : Lexer) (column n : Nat) (t : Token) : Lexer :=
  if !x.inFlow && x.isDeeper column then
    { x.insertAt n t with indent := some column, outer := x.indent :: x.outer }
  else x

/-- Closes block collections as long as a condition on their column holds. -/
def closeWhile (p : Nat → Bool) : (outer : List (Option Nat)) → Lexer → Lexer
  | [], x => x
  | up :: outer, x =>
    match x.indent with
    | some n =>
      if p n then closeWhile p outer { x.push .blockEnd with indent := up, outer } else x
    | none => x

/-- Closes the block collections that begin behind a column. -/
def closeDeeper (x : Lexer) (column : Nat) : Lexer :=
  if x.inFlow then x else closeWhile (fun n => column < n) x.outer x

/-- Closes all block collections. -/
def closeAll (x : Lexer) : Lexer :=
  if x.inFlow then x else closeWhile (fun _ => true) x.outer x

/-! ## Blanks -/

/-- Behind blanks, comments and line ends. A tab counts as a blank where no key can begin. -/
def skipGap : (fuel : Nat) → Lexer → Lexer
  | 0, x => x
  | fuel + 1, x =>
    let tabs := x.inFlow || !x.keyAllowed
    let c := if x.cursor.index = 0 ∧ x.cursor.head? = some '\ufeff' then x.cursor.skip 1
      else x.cursor
    let c := (c.skipWhile fun d => d = ' ' || (tabs && d = '\t')).skipComment
    match c.head? with
    | some d =>
      if isBreak d then
        skipGap fuel
          { x with cursor := c.skipBreak, keyAllowed := if x.inFlow then x.keyAllowed else true }
      else { x with cursor := c }
    | none => { x with cursor := c }

/-! ## Directives, anchors and tags -/

/-- A number of at most nine digits. -/
def scanVersionNumber (c : Cursor) : Except Fault (Nat × Cursor) :=
  let (ds, next) := c.span Decimal.isDigit
  if ds.isEmpty ∨ 9 < ds.length then c.fault "bad version number"
  else .ok (Decimal.readDigits 0 ds, next)

/-- The octets of a percent escape in a tag. -/
def scanOctets : (fuel : Nat) → (octets : List UInt8) → Cursor → Except Fault (List UInt8 × Cursor)
  | 0, octets, c => .ok (octets, c)
  | fuel + 1, octets, c =>
    if c.head? = some '%' then
      match natIn? 16 ((c.rest.drop 1).take 2) with
      | some n =>
        if (c.at? 2).isNone then c.fault "bad escape in a tag"
        else scanOctets fuel (octets ++ [UInt8.ofNat n]) (c.skip 3)
      | none => c.fault "bad escape in a tag"
    else .ok (octets, c)

/-- The characters that a tag may hold as they are. Commas and brackets belong to it between angle
brackets only. -/
def isTagChar (verbatim : Bool) (c : Char) : Bool :=
  isWordChar c || ";/?:@&=+$.%!~*'()".toList.contains c || (verbatim && ",[]".toList.contains c)

/-- The text of a tag. -/
def scanTagText (verbatim : Bool) :
    (fuel : Nat) → (read : List Char) → Cursor → Except Fault (List Char × Cursor)
  | 0, read, c => .ok (read, c)
  | fuel + 1, read, c =>
    match c.head? with
    | none => .ok (read, c)
    | some d =>
      if d = '%' then
        match scanOctets (c.rest.length + 1) [] c with
        | .error f => .error f
        | .ok (octets, next) =>
          match String.fromUTF8? octets.toByteArray with
          | some s => scanTagText verbatim fuel (read ++ s.toList) next
          | none => c.fault "bad escape in a tag"
      else if isTagChar verbatim d then scanTagText verbatim fuel (read ++ [d]) (c.skip 1)
      else .ok (read, c)

/-- The text of a tag, which must not be empty together with what was read before it. -/
def scanTagRest (verbatim : Bool) (head : List Char) (c : Cursor) :
    Except Fault (List Char × Cursor) :=
  match scanTagText verbatim (c.rest.length + 1) [] c with
  | .error f => .error f
  | .ok (text, next) =>
    if head.isEmpty ∧ text.isEmpty then c.fault "expected a tag"
    else .ok (head.drop 1 ++ text, next)

/-- A handle: an exclamation mark, and a word closed by another one if there is one. -/
def scanHandle (directive : Bool) (c : Cursor) : Except Fault (List Char × Cursor) :=
  if c.head? ≠ some '!' then c.fault "expected a tag handle"
  else
    let (word, next) := (c.skip 1).span isWordChar
    if next.head? = some '!' then .ok ('!' :: word ++ ['!'], next.skip 1)
    else if directive ∧ !word.isEmpty then c.fault "a tag handle is not closed"
    else .ok ('!' :: word, next)

/-- The directive of a line, behind its percent sign. -/
def scanDirective (c : Cursor) : Except Fault (Token × Cursor) := do
  let (name, next) := (c.skip 1).span isWordChar
  if name.isEmpty ∨ !isGap next.head? then c.fault "bad directive"
  else if String.ofList name = "YAML" then
    let (major, next) ← scanVersionNumber (next.skipWhile isSpaceOrTab)
    if next.head? ≠ some '.' then c.fault "bad version number"
    else
      let (minor, next) ← scanVersionNumber (next.skip 1)
      return (.versionDirective major minor, ← next.finishLine)
  else if String.ofList name = "TAG" then
    let (handle, next) ← scanHandle true (next.skipWhile isSpaceOrTab)
    if !next.head?.any isSpaceOrTab then c.fault "bad tag directive"
    else
      let (shorthand, next) ← scanTagRest true [] (next.skipWhile isSpaceOrTab)
      if !isGap next.head? then c.fault "bad tag directive"
      else
        return (.tagDirective (String.ofList handle) (String.ofList shorthand),
          ← next.finishLine)
  else c.fault "unknown directive"

/-- The name of an anchor or an alias, behind its mark. -/
def scanName (c : Cursor) : Except Fault (String × Cursor) :=
  let (name, next) := (c.skip 1).span isWordChar
  let ends := isGap next.head?
    || next.head?.any fun d => "?:,]%@\x7d".toList.contains d || d = '\x60'
  if name.isEmpty ∨ !ends then c.fault "bad name" else .ok (String.ofList name, next)

/-- A tag, from its exclamation mark on. -/
def scanTag (inFlow : Bool) (c : Cursor) : Except Fault (Token × Cursor) := do
  let (token, next) ←
    if c.at? 1 = some '<' then do
      let (suffix, next) ← scanTagRest true [] (c.skip 2)
      if next.head? ≠ some '>' then c.fault "a tag is not closed"
      else pure (Token.tag "" (String.ofList suffix), next.skip 1)
    else do
      let (handle, next) ← scanHandle false c
      if 2 ≤ handle.length ∧ handle.getLast? = some '!' then
        let (suffix, next) ← scanTagRest false [] next
        pure (Token.tag (String.ofList handle) (String.ofList suffix), next)
      else
        let (suffix, next) ← scanTagRest false handle next
        if suffix.isEmpty then pure (Token.tag "" "!", next)
        else pure (Token.tag "!" (String.ofList suffix), next)
  if isGap next.head? ∨ (inFlow ∧ next.head? = some ',') then return (token, next)
  else c.fault "a tag is not separated"

/-! ## Tokens -/

/-- A token that is read off without more ado, after which no key can begin. -/
def take (x : Lexer) (r : Except Fault (Token × Cursor)) : Except Fault Lexer :=
  match r with
  | .error f => .error f
  | .ok (t, c) => .ok { x.push t with cursor := c, keyAllowed := false }

/-- A mark between documents. -/
def takeDocumentMark (x : Lexer) (t : Token) : Except Fault Lexer := do
  let x ← x.closeAll.dropKey
  return { (x.push t).skip 3 with keyAllowed := false }

/-- An opening bracket. -/
def takeOpening (x : Lexer) (t : Token) : Except Fault Lexer := do
  let x ← x.saveKey
  return { (x.push t).skip 1 with
    outerKeys := x.keyPlace :: x.outerKeys, keyPlace := none, keyAllowed := true }

/-- A closing bracket. -/
def takeClosing (x : Lexer) (t : Token) : Except Fault Lexer := do
  let x ← x.dropKey
  let (keyPlace, outerKeys) := match x.outerKeys with
    | [] => (x.keyPlace, [])
    | up :: rest => (up, rest)
  return { (x.push t).skip 1 with keyPlace, outerKeys, keyAllowed := false }

/-- A comma between entries. -/
def takeComma (x : Lexer) : Except Fault Lexer := do
  let x ← x.dropKey
  return { (x.push .flowEntry).skip 1 with keyAllowed := true }

/-- The hyphen of a sequence entry. -/
def takeHyphen (x : Lexer) : Except Fault Lexer := do
  if !x.inFlow && !x.keyAllowed then x.fault "a sequence entry is not allowed here"
  else
    let x ← (x.openBlock x.cursor.column x.tokens.size .blockSequenceStart).dropKey
    return { (x.push .blockEntry).skip 1 with keyAllowed := true }

/-- The question mark of a key. -/
def takeKeyMark (x : Lexer) : Except Fault Lexer := do
  if !x.inFlow && !x.keyAllowed then x.fault "a key is not allowed here"
  else
    let x ← (x.openBlock x.cursor.column x.tokens.size .blockMappingStart).dropKey
    return { (x.push .key).skip 1 with keyAllowed := !x.inFlow }

/-- The colon in front of a value. -/
def takeColon (x : Lexer) : Except Fault Lexer :=
  match x.keyPlace with
  | some k =>
    let x := (x.insertAt k.token .key).openBlock k.column k.token .blockMappingStart
    .ok { (x.push .value).skip 1 with keyPlace := none, keyAllowed := false }
  | none =>
    if !x.inFlow && !x.keyAllowed then x.fault "a value is not allowed here"
    else
      let x := x.openBlock x.cursor.column x.tokens.size .blockMappingStart
      .ok { (x.push .value).skip 1 with keyAllowed := !x.inFlow }

/-- An anchor, an alias, a tag or a quoted scalar. A key may begin with any of them. -/
def takeSimple (x : Lexer) (scan : Cursor → Except Fault (Token × Cursor)) :
    Except Fault Lexer := do
  let x ← x.saveKey
  x.take (scan x.cursor)

def takeQuoted (x : Lexer) (quote : Char) : Except Fault Lexer :=
  x.takeSimple fun c => (scanQuoted quote c).map fun (s, c) => (.scalar s .quoted, c)

def takeBlockScalar (x : Lexer) (literal : Bool) : Except Fault Lexer := do
  let x ← x.dropKey
  let (s, c) ← scanBlock literal x.indent x.cursor
  return { x.push (.scalar s .quoted) with cursor := c, keyAllowed := true }

/-- A plain scalar. Behind one that ended with its line a key may begin. -/
def takePlain (x : Lexer) : Except Fault Lexer := do
  let x ← x.saveKey
  let least := match x.indent with
    | some n => n + 1
    | none => 0
  let (s, broken, c) ← scanPlain x.inFlow least x.cursor
  return { x.push (.scalar s .plain) with cursor := c, keyAllowed := broken }

/-- The end of the text closes what is open. -/
def takeEnd (x : Lexer) : Except Fault Lexer := do
  let x ← x.closeAll.dropKey
  return { x.push .streamEnd with done := true, keyAllowed := false }

/-- Whether a plain scalar may begin with `d`, given the character behind it. -/
def startsPlain (inFlow : Bool) (d : Char) (behind : Option Char) : Bool :=
  if d = '-' then !behind.any isSpaceOrTab
  else if d = '?' || d = ':' then !inFlow && !isGap behind
  else !(isSpaceOrTab d || isBreak d || isFlowMark d || d = '\x60'
    || "#&*!|>'\"%@".toList.contains d)

/-- The token that begins with the character at the cursor. -/
def takeAt (x : Lexer) (d : Char) : Except Fault Lexer :=
  let c := x.cursor
  let behind := c.at? 1
  if c.column = 0 ∧ d = '%' then do
    let x ← x.closeAll.dropKey
    x.take (scanDirective c)
  else if c.startsWith3 '-' then x.takeDocumentMark .documentStart
  else if c.startsWith3 '.' then x.takeDocumentMark .documentEnd
  else if d = '[' then x.takeOpening .flowSequenceStart
  else if d = '\x7b' then x.takeOpening .flowMappingStart
  else if d = ']' then x.takeClosing .flowSequenceEnd
  else if d = '\x7d' then x.takeClosing .flowMappingEnd
  else if d = ',' then x.takeComma
  else if d = '-' ∧ isGap behind then x.takeHyphen
  else if d = '?' ∧ (x.inFlow ∨ isGap behind) then x.takeKeyMark
  else if d = ':' ∧ (x.inFlow ∨ isGap behind) then x.takeColon
  else if d = '*' then x.takeSimple fun c => (scanName c).map fun (n, c) => (.alias n, c)
  else if d = '&' then x.takeSimple fun c => (scanName c).map fun (n, c) => (.anchor n, c)
  else if d = '!' then x.takeSimple (scanTag x.inFlow)
  else if d = '|' ∧ !x.inFlow then x.takeBlockScalar true
  else if d = '>' ∧ !x.inFlow then x.takeBlockScalar false
  else if d = '\'' ∨ d = '"' then x.takeQuoted d
  else if startsPlain x.inFlow d behind then x.takePlain
  else x.fault "no token begins with this character"

/-- One more token. -/
def next (x : Lexer) : Except Fault Lexer := do
  let x ← (skipGap (x.cursor.rest.length + 1) x).dropStale
  match x.cursor.head? with
  | none => x.takeEnd
  | some d => (x.closeDeeper x.cursor.column).takeAt d

/-- All tokens. Every round but the last reads at least one character. -/
def run : (fuel : Nat) → Lexer → Except Fault Lexer
  | 0, x => .ok x
  | fuel + 1, x =>
    if x.done then .ok x
    else
      match x.next with
      | .error f => .error f
      | .ok x => run fuel x

end Lexer

/-- The tokens of a text. -/
def tokens (text : String) : Except Fault (List Token) :=
  let cs := text.toList
  if cs.all isAllowed then
    (Lexer.run (cs.length + 2) (Lexer.ofText cs)).map fun x => x.tokens.toList
  else .error ⟨"a control character", 0⟩

end Crosswalk.Yaml
