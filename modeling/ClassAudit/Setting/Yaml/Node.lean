import ClassAudit.Setting.Yaml.Token

/-!
# YAML nodes

The first document of a text as a tree. Aliases stay in the tree and name the node they
stand for by a number; the nodes with an anchor are kept beside it.
-/

set_option autoImplicit false

namespace ClassAudit.Yaml

/-- A node of a document. A scalar without a tag takes its type from its text. -/
inductive Node where
  | scalar (tag : Option Bytes) (text : Bytes)
  | sequence (items : List Node)
  | mapping (pairs : List (Node × Node))
  | alias (name : Bytes) (target : Nat)
  deriving Repr

/-- A document's tree and its anchored nodes by number. -/
structure Tree where
  root : Node
  anchored : List (Nat × Node)
  deriving Repr

/-- The state of building a tree: the tokens left, the handles of tags, the number of
each anchor's latest node, and the anchored nodes that are complete. -/
structure Building where
  tokens : List Token
  handles : List (List Char × List Char) := []
  anchors : List (Bytes × Nat) := []
  count : Nat := 0
  anchored : List (Nat × Node) := []

/-- A step of building a tree. -/
abbrev Builder := StateT Building (Except SettingFlaw)

/-- The expansion of the handles that need no directive. -/
def standardHandles : List (List Char × List Char) :=
  [(['!'], ['!']), (['!', '!'], "tag:yaml.org,2002:".toList)]

/-- A tag in short form. -/
def shortTag (tag : List Char) : Bytes :=
  let standard := "tag:yaml.org,2002:".toList
  if standard.isPrefixOf tag then encodeChars (['!', '!'] ++ tag.drop standard.length)
  else encodeChars tag

/-- The tag of a text that is a string by its spelling. -/
def stringTag : Bytes := "!!str"

/-- The tag of the key that merges another table. -/
def mergeTag : Bytes := "!!merge"

/-- A scalar with its tag, if the document gives one. A quoted scalar is a string, and a
plain pair of less-than signs is the merge key. -/
def Node.ofScalar (tag : Option (List Char)) (plain : Bool) (text : List Char) : Node :=
  let value := encodeChars text
  match tag with
  | some tag => .scalar (some (shortTag tag)) value
  | none =>
      if !plain then .scalar (some stringTag) value
      else if text = ['<', '<'] then .scalar (some mergeTag) value
      else .scalar none value

/-- The node of a missing value. -/
def Node.missing : Node := .ofScalar none true []

namespace Builder

/-- The next token. There is none when the text could not be cut that far. -/
def peek : Builder Token := do
  match (← get).tokens with
  | token :: _ => return token
  | [] => throw (.expected "token")

/-- Moves over a token. -/
def skip : Builder Unit := modify fun state => { state with tokens := state.tokens.tail }

/-- A tag without its handle. The tag of a lone mark counts as none. -/
def expandTag (handle suffix : List Char) : Builder (Option (List Char)) := do
  let tag ←
    if handle.isEmpty then pure suffix
    else
      match ((← get).handles ++ standardHandles).lookup handle with
      | some expansion => pure (expansion ++ suffix)
      | none => throw .unknownTag
  return if tag = ['!'] then none else some tag

/-- The anchor and tag before a node, in either order. `given` says whether a tag stands
there, even one that counts as none. -/
def properties : Builder (Option Bytes × Bool × Option (List Char)) := do
  match ← peek with
  | .anchor name =>
      skip
      match ← peek with
      | .tag handle suffix =>
          skip
          return (some (encodeChars name), true, ← expandTag handle suffix)
      | _ => return (some (encodeChars name), false, none)
  | .tag handle suffix =>
      skip
      match ← peek with
      | .anchor name =>
          skip
          return (some (encodeChars name), true, ← expandTag handle suffix)
      | _ => return (none, true, ← expandTag handle suffix)
  | _ => return (none, false, none)

/-- Starts the node of an anchor: from here on the anchor means it. -/
def openAnchor : Option Bytes → Builder (Option Nat)
  | none => return none
  | some name => do
      let number := (← get).count
      modify fun state =>
        { state with anchors := (name, number) :: state.anchors, count := number + 1 }
      return some number

/-- Completes the node of an anchor. -/
def closeAnchor (number : Option Nat) (node : Node) : Builder Node := do
  match number with
  | some number =>
      modify fun state => { state with anchored := (number, node) :: state.anchored }
      return node
  | none => return node

/-- The node of an alias. -/
def aliasNode (name : Bytes) : Builder Node := do
  match (← get).anchors.lookup name with
  | some target => return .alias name target
  | none => throw (.unknownAnchor name)

/-- Whether a block mapping has no node before a token. -/
def endsBlockPart : Token → Bool
  | .key | .value | .blockEnd => true
  | _ => false

/-- Whether a flow sequence has no node before a token. -/
def endsFlowItem : Token → Bool
  | .flowEntry | .flowSequenceEnd => true
  | _ => false

/-- Whether a flow mapping has no node before a token. -/
def endsFlowValue : Token → Bool
  | .flowEntry | .flowMappingEnd => true
  | _ => false

mutual

/-- A node. Block collections count where `block` holds, and sequences without an
indentation of their own where `bare` holds. -/
def node : Nat → Bool → Bool → Builder Node
  | 0, _, _ => throw .nestedTooDeeply
  | fuel + 1, block, bare => do
      match ← peek with
      | .alias name =>
          skip
          aliasNode (encodeChars name)
      | _ =>
          let (anchor, tagged, tag) ← properties
          let number ← openAnchor anchor
          let token ← peek
          match token with
          | .scalar plain text =>
              skip
              closeAnchor number (.ofScalar tag plain text)
          | .flowSequenceStart =>
              skip
              closeAnchor number (.sequence (← flowItems fuel true))
          | .flowMappingStart =>
              skip
              closeAnchor number (.mapping (← flowPairs fuel true))
          | .blockEntry =>
              if bare then closeAnchor number (.sequence (← bareItems fuel))
              else if anchor.isSome || tagged then closeAnchor number (.ofScalar tag true [])
              else throw (.expected "value")
          | .sequenceStart =>
              if block then
                skip
                closeAnchor number (.sequence (← blockItems fuel))
              else if anchor.isSome || tagged then closeAnchor number (.ofScalar tag true [])
              else throw (.expected "value")
          | .mappingStart =>
              if block then
                skip
                closeAnchor number (.mapping (← blockPairs fuel))
              else if anchor.isSome || tagged then closeAnchor number (.ofScalar tag true [])
              else throw (.expected "value")
          | _ =>
              if anchor.isSome || tagged then closeAnchor number (.ofScalar tag true [])
              else throw (.expected "value")

/-- The items of a block sequence. -/
def blockItems : Nat → Builder (List Node)
  | 0 => throw .nestedTooDeeply
  | fuel + 1 => do
      match ← peek with
      | .blockEntry =>
          skip
          let item ← match ← peek with
            | .blockEntry | .blockEnd => pure Node.missing
            | _ => node fuel true false
          return item :: (← blockItems fuel)
      | .blockEnd =>
          skip
          return []
      | _ => throw (.expected "-")

/-- The items of a sequence at the indentation of its key. -/
def bareItems : Nat → Builder (List Node)
  | 0 => throw .nestedTooDeeply
  | fuel + 1 => do
      match ← peek with
      | .blockEntry =>
          skip
          let next ← peek
          let item ←
            if next = .blockEntry || endsBlockPart next then pure Node.missing
            else node fuel true false
          return item :: (← bareItems fuel)
      | _ => return []

/-- The pairs of a block mapping. -/
def blockPairs : Nat → Builder (List (Node × Node))
  | 0 => throw .nestedTooDeeply
  | fuel + 1 => do
      match ← peek with
      | .key =>
          skip
          let key ← if endsBlockPart (← peek) then pure Node.missing else node fuel true true
          let value ← match ← peek with
            | .value => do
                skip
                if endsBlockPart (← peek) then pure Node.missing else node fuel true true
            | _ => pure Node.missing
          return (key, value) :: (← blockPairs fuel)
      | .blockEnd =>
          skip
          return []
      | _ => throw (.expected "key")

/-- The items of a flow sequence. A key makes a pair of its own. -/
def flowItems : Nat → Bool → Builder (List Node)
  | 0, _ => throw .nestedTooDeeply
  | fuel + 1, first => do
      match ← peek with
      | .flowSequenceEnd =>
          skip
          return []
      | .flowEntry =>
          if first then throw (.expected "value")
          skip
          flowItem fuel
      | _ => if first then flowItem fuel else throw (.expected ",")

/-- An item of a flow sequence, if there is one, and the items after it. -/
def flowItem : Nat → Builder (List Node)
  | 0 => throw .nestedTooDeeply
  | fuel + 1 => do
      match ← peek with
      | .flowSequenceEnd =>
          skip
          return []
      | .key =>
          skip
          let next ← peek
          let key ←
            if next = .value || endsFlowItem next then do
              skip
              pure Node.missing
            else node fuel false false
          let value ← match ← peek with
            | .value => do
                skip
                if endsFlowItem (← peek) then pure Node.missing else node fuel false false
            | _ => pure Node.missing
          return .mapping [(key, value)] :: (← flowItems fuel false)
      | _ =>
          let item ← node fuel false false
          return item :: (← flowItems fuel false)

/-- The pairs of a flow mapping. -/
def flowPairs : Nat → Bool → Builder (List (Node × Node))
  | 0, _ => throw .nestedTooDeeply
  | fuel + 1, first => do
      match ← peek with
      | .flowMappingEnd =>
          skip
          return []
      | .flowEntry =>
          if first then throw (.expected "key")
          skip
          flowPair fuel
      | _ => if first then flowPair fuel else throw (.expected ",")

/-- A pair of a flow mapping, if there is one, and the pairs after it. -/
def flowPair : Nat → Builder (List (Node × Node))
  | 0 => throw .nestedTooDeeply
  | fuel + 1 => do
      match ← peek with
      | .flowMappingEnd =>
          skip
          return []
      | .key =>
          skip
          let next ← peek
          let key ←
            if next = .value || endsFlowValue next then pure Node.missing
            else node fuel false false
          let value ← match ← peek with
            | .value => do
                skip
                if endsFlowValue (← peek) then pure Node.missing else node fuel false false
            | _ => pure Node.missing
          return (key, value) :: (← flowPairs fuel false)
      | _ =>
          let key ← node fuel false false
          return (key, Node.missing) :: (← flowPairs fuel false)

end

/-- The directives before a document: at most one version, which has to be 1.1, and tag
handles, each at most once. -/
def directives : Nat → Bool → Builder Unit
  | 0, _ => throw .nestedTooDeeply
  | fuel + 1, versioned => do
      match ← peek with
      | .version major minor =>
          if versioned || major != 1 || minor != 1 then throw (.expected "version 1.1")
          skip
          directives fuel true
      | .tagHandle handle expansion =>
          if ((← get).handles.lookup handle).isSome then throw .unknownTag
          skip
          modify fun state => { state with handles := (handle, expansion) :: state.handles }
          directives fuel versioned
      | _ => return

/-- The content of a document after its start mark. -/
def content (fuel : Nat) : Builder Node := do
  match ← peek with
  | .version .. | .tagHandle .. | .documentStart | .documentEnd | .streamEnd =>
      return Node.missing
  | _ => node fuel true false

/-- The first document, if the text has one. -/
def document (fuel : Nat) : Builder (Option Node) := do
  match ← peek with
  | .streamEnd => return none
  | .version .. | .tagHandle .. | .documentStart =>
      directives fuel false
      match ← peek with
      | .documentStart =>
          skip
          let root ← content fuel
          let _ ← peek
          return some root
      | _ => throw (.expected "document start")
  | _ =>
      let root ← node fuel true false
      let _ ← peek
      return some root

end Builder

/-- The tree of the first document of a text, if the text has one. -/
def readTree (text : Bytes) : Except SettingFlaw (Option Tree) := do
  let chars ← readChars text
  let tokens := tokens chars
  let (root, state) ← (Builder.document (4 * tokens.length + 8)).run { tokens }
  return root.map fun root => { root, anchored := state.anchored }

end ClassAudit.Yaml
