import Checklist.Yaml.Tag
import Checklist.Yaml.Token

/-! # Nodes of a YAML text

The tokens of a document form a tree of scalars, lists and mappings. An alias stands for the node
that its anchor named before, which may be a list or a mapping around it. -/

namespace Checklist.Yaml
set_option autoImplicit false
open Text

/-- A node with its tag. -/
inductive Node where
  | scalar (tag : Tag) (s : Text)
  | list (tag : Tag) (items : List Node)
  | map (tag : Tag) (entries : List (Node × Node))
  /-- A mapping or a list around the place. -/
  | ring (isMapping : Bool)
  deriving Repr

namespace Node

def empty : Node := .scalar .null []

/-! ## Reading tokens -/

/-- The tokens still to come, what tag handles stand for, and the nodes that have names. -/
structure State where
  tokens : Tokens
  handles : List (Text × Text)
  anchors : List (Text × Node)

/-- A step of reading. -/
abbrev Read (α : Type) := StateT State (Except Error) α

/-- The next token, which stays. -/
def peek : Read Token := do
  let s ← get
  let (token, tokens) ← s.tokens.peek
  set { s with tokens }
  return token

def next : Read Token := do
  let s ← get
  let (token, tokens) ← s.tokens.next
  set { s with tokens }
  return token

def accept (token : Token) : Read Bool := do
  if (← peek) == token then do
    let _ ← next
    return true
  else return false

def isNext (tokens : List Token) : Read Bool := do
  return tokens.contains (← peek)

def expect (token : Token) : Read PUnit := do
  if ← accept token then return else throw .malformed

/-! ## Properties of nodes -/

/-- The anchor and the tag before a node. -/
structure Properties where
  anchor : Option Text
  tag : Option Text

def fullTag (handle : Option Text) (suffix : Text) : Read Text := do
  match handle with
  | none => return suffix
  | some handle => match (← get).handles.lookup handle with
    | some content => return content ++ suffix
    | none => throw .unsupported

/-- Reads an anchor and a tag, in either order. -/
def properties : Read Properties := do
  match ← peek with
  | .anchor name => do
    let _ ← next
    match ← peek with
    | .tag handle suffix => do
      let _ ← next
      return ⟨some name, some (← fullTag handle suffix)⟩
    | _ => return ⟨some name, none⟩
  | .tag handle suffix => do
    let _ ← next
    match ← peek with
    | .anchor name => do
      let _ ← next
      return ⟨some name, some (← fullTag handle suffix)⟩
    | _ => return ⟨none, some (← fullTag handle suffix)⟩
  | _ => return ⟨none, none⟩

def Properties.orElse (properties : Properties) (standard : Tag) : Tag :=
  match properties.tag with
  | none => standard
  | some tag => if tag == ['!'] then standard else Tag.ofText tag

/-- The tag of a scalar; a lone exclamation mark lets it be read as a plain one. -/
def Properties.ofScalar (properties : Properties) (s : Text) (plain : Bool) : Tag :=
  match properties.tag with
  | none => if plain then Tag.ofPlain s else .str
  | some tag => if tag == ['!'] then Tag.ofPlain s else Tag.ofText tag

/-- The tag of a scalar that is left out after a tag or an anchor. -/
def Properties.ofEmpty (properties : Properties) : Tag :=
  match properties.tag with
  | none => .null
  | some tag => if tag == ['!'] then .null else Tag.ofText tag

/-- Lets a name stand for a node from here on. -/
def name (name : Text) (node : Node) : Read PUnit :=
  modify fun s => { s with anchors := (name, node) :: s.anchors }

/-- Reads a node that may have a name, which may not be taken. Within the node the name stands
for a ring. -/
def named (properties : Properties) (isMapping : Bool) (read : Read Node) : Read Node := do
  match properties.anchor with
  | none => read
  | some anchor => do
    if ((← get).anchors.lookup anchor).isSome then throw .unsupported
    name anchor (.ring isMapping)
    let node ← read
    name anchor node
    return node

/-! ## Reading nodes -/

mutual

/-- A node; blocks and lists without an indent of their own stand only where they are allowed. -/
def node : Nat → Bool → Bool → Read Node
  | 0, _, _ => throw .malformed
  | fuel + 1, isBlock, isIndentless => do
    match ← peek with
    | .alias name => do
      let _ ← next
      match (← get).anchors.lookup name with
      | some node => return node
      | none => throw .unsupported
    | _ => do
      let properties ← properties
      match ← peek with
      | .entry =>
        if isIndentless then
          named properties false do return .list (properties.orElse .list) (← indentless fuel)
        else absent properties
      | .scalar s plain => do
        let _ ← next
        named properties false do return .scalar (properties.ofScalar s plain) s
      | .flowListStart => do
        let _ ← next
        named properties false do return .list (properties.orElse .list) (← flowList fuel true)
      | .flowMapStart => do
        let _ ← next
        named properties true do return .map (properties.orElse .map) (← flowMap fuel true)
      | .listStart =>
        if isBlock then do
          let _ ← next
          named properties false do return .list (properties.orElse .list) (← blockList fuel)
        else absent properties
      | .mapStart =>
        if isBlock then do
          let _ ← next
          named properties true do return .map (properties.orElse .map) (← blockMap fuel)
        else absent properties
      | _ => absent properties

/-- A node of which only an anchor or a tag is written. -/
def absent (properties : Properties) : Read Node := do
  if properties.anchor.isNone && properties.tag.isNone then throw .malformed
  else named properties false do return .scalar properties.ofEmpty []

/-- A node in a block, or an empty one if a token comes that cannot start it. -/
def nodeUnless : Nat → List Token → Bool → Bool → Read Node
  | 0, _, _, _ => throw .malformed
  | fuel + 1, stops, isBlock, isIndentless => do
    if ← isNext stops then return empty else node fuel isBlock isIndentless

def blockList : Nat → Read (List Node)
  | 0 => throw .malformed
  | fuel + 1 => do
    if ← accept .entry then do
      let item ← nodeUnless fuel [.entry, .blockEnd] true false
      return item :: (← blockList fuel)
    else do
      expect .blockEnd
      return []

/-- The entries of a list that is indented as the mapping around it. -/
def indentless : Nat → Read (List Node)
  | 0 => throw .malformed
  | fuel + 1 => do
    if ← accept .entry then do
      let item ← nodeUnless fuel [.entry, .key, .value, .blockEnd] true false
      return item :: (← indentless fuel)
    else return []

def blockMap : Nat → Read (List (Node × Node))
  | 0 => throw .malformed
  | fuel + 1 => do
    if ← accept .key then do
      let key ← nodeUnless fuel [.key, .value, .blockEnd] true true
      let value ← blockValue fuel
      return (key, value) :: (← blockMap fuel)
    else do
      expect .blockEnd
      return []

/-- The value after a key in a block, empty if there is none. -/
def blockValue : Nat → Read Node
  | 0 => throw .malformed
  | fuel + 1 => do
    if ← accept .value then nodeUnless fuel [.key, .value, .blockEnd] true true else return empty

/-- The entries of a list in brackets up to its end; a key and a value alone are a mapping
of one entry. -/
def flowList : Nat → Bool → Read (List Node)
  | 0, _ => throw .malformed
  | fuel + 1, isFirst => do
    if ← accept .flowListEnd then return []
    if !isFirst then expect .flowEntry
    if ← accept .key then do
      let key ← nodeUnless fuel [.value, .flowEntry, .flowListEnd] false false
      let value ← flowValue fuel .flowListEnd
      return .map .map [(key, value)] :: (← flowList fuel false)
    else if ← accept .flowListEnd then return []
    else do
      let item ← node fuel false false
      return item :: (← flowList fuel false)

/-- The value after a key in a flow collection, empty if there is none. -/
def flowValue : Nat → Token → Read Node
  | 0, _ => throw .malformed
  | fuel + 1, closing => do
    if ← accept .value then nodeUnless fuel [.flowEntry, closing] false false else return empty

def flowMap : Nat → Bool → Read (List (Node × Node))
  | 0, _ => throw .malformed
  | fuel + 1, isFirst => do
    if ← accept .flowMapEnd then return []
    if !isFirst then expect .flowEntry
    if ← accept .key then do
      let key ← nodeUnless fuel [.value, .flowEntry, .flowMapEnd] false false
      let value ← flowValue fuel .flowMapEnd
      return (key, value) :: (← flowMap fuel false)
    else if ← accept .flowMapEnd then return []
    else do
      let key ← node fuel false false
      return (key, empty) :: (← flowMap fuel false)

end

/-! ## Documents -/

/-- Reads directives: at most one version, which is a 1, and handles that differ. -/
def directives : Nat → Bool → List (Text × Text) → Read (List (Text × Text))
  | 0, _, _ => throw .malformed
  | fuel + 1, hasVersion, handles => do
    match ← peek with
    | .version major => do
      let _ ← next
      if hasVersion || major != 1 then throw .malformed else directives fuel true handles
    | .handle name content => do
      let _ ← next
      if (handles.lookup name).isSome then throw .malformed
      else directives fuel hasVersion ((name, content) :: handles)
    | .directive => do
      let _ ← next
      directives fuel hasVersion handles
    | _ => return handles

def standardHandles : List (Text × Text) :=
  [(['!'], ['!']), ("!!".toList, Tag.common)]

def skipEnds : Nat → Read PUnit
  | 0 => throw .malformed
  | fuel + 1 => do if ← accept .documentEnd then skipEnds fuel else return

def document (fuel : Nat) : Read Node := do
  match ← peek with
  | .documentStart | .documentEnd | .streamEnd | .version _ | .handle _ _ | .directive =>
    return empty
  | _ => node fuel true false

/-- The only document of a text; there may be none. -/
def only (fuel : Nat) : Read (Option Node) := do
  let isImplicit ← match ← peek with
    | .documentStart | .streamEnd | .version _ | .handle _ _ | .directive => pure false
    | _ => pure true
  let first ←
    if isImplicit then do pure (some (← node fuel true false))
    else do
      skipEnds fuel
      if ← isNext [.streamEnd] then pure none
      else do
        let handles ← directives fuel false []
        modify fun s => { s with handles := handles ++ standardHandles }
        expect .documentStart
        pure (some (← document fuel))
  skipEnds fuel
  if ← isNext [.streamEnd] then return first else throw .malformed

def isAllowed (c : Char) : Bool :=
  let code := c.toNat
  c == '\t' || c == '\n' || c == '\r' || (0x20 ≤ code && code ≤ 0x7e) || code == 0x85 ||
    (0xa0 ≤ code && code ≤ 0xfffd) || 0x10000 ≤ code

/-- The tree of a text. Every call reads a token or descends by one of a few levels, which bounds
them by its length. -/
def ofText (dialect : Dialect) (s : Text) : Except Error (Option Node) :=
  if s.all isAllowed then
    ((only (8 * s.length + 16)).run ⟨.ofText dialect s, standardHandles, []⟩).map Prod.fst
  else .error .malformed

end Node
end Checklist.Yaml
