import WireSchema.Yaml.Token.Scan

/-!
# Events of a document

The nodes of one document in the order of the text: scalars and aliases, and the
starts and ends of collections. `Event.ofTokens?` reads the only document of a
stream; it refuses streams with more than one. The grammar functions carry the
tokens still to be read and the events found so far; each takes a bound on the
depth of its calls, which no stream of that many tokens can reach.
-/

namespace WireSchema.Yaml

structure Properties where
  anchor : Option String
  tag : Option Octets
deriving DecidableEq, Repr

def Properties.empty : Properties := ⟨none, none⟩

inductive Event where
  | aliasTo (name : String)
  | scalar (properties : Properties) (text : String) (plain : Bool)
  | sequenceStart (properties : Properties)
  | sequenceEnd
  | mappingStart (properties : Properties)
  | mappingEnd
deriving DecidableEq, Repr

/-- The node that is left out. -/
def Event.empty : Event := .scalar .empty "" true

/-- What the handles of tags stand for. -/
abbrev Handles := List (String × Octets)

/-- The handles that need no directive. -/
def defaultHandles : Handles :=
  [("!", bareTag), ("!!", languageTag "")]

structure Progress where
  tokens : List Token
  events : Array Event

namespace Progress

def emit (p : Progress) (event : Event) : Progress :=
  { p with events := p.events.push event }

def next (p : Progress) : Progress :=
  { p with tokens := p.tokens.tail }

def isAt (p : Progress) (tokens : List Token) : Bool :=
  p.tokens.head?.any tokens.contains

end Progress

def expandTag? (handles : Handles) (handle : String) (suffix : Octets) : Option Octets :=
  if handle.isEmpty then some suffix
  else (handles.lookup handle).map (· ++ suffix)

/-- Reads an anchor and a tag, in either order. -/
def takeProperties? (handles : Handles) (p : Progress) : Option (Properties × Progress) :=
  match p.tokens with
  | .anchor name :: .tag handle suffix :: rest => do
    let tag ← expandTag? handles handle suffix
    return (⟨name, tag⟩, { p with tokens := rest })
  | .tag handle suffix :: .anchor name :: rest => do
    let tag ← expandTag? handles handle suffix
    return (⟨name, tag⟩, { p with tokens := rest })
  | .anchor name :: rest => some (⟨name, none⟩, { p with tokens := rest })
  | .tag handle suffix :: rest => do
    let tag ← expandTag? handles handle suffix
    return (⟨none, tag⟩, { p with tokens := rest })
  | _ => some (.empty, p)

/-- Where a node stands: which collections may start there. -/
inductive Place where
  /-- Anything may start. -/
  | block
  /-- Also a sequence that is indented no further than the mapping around it. -/
  | blockOrIndentless
  /-- Only flow collections may start. -/
  | flow
deriving DecidableEq

/-- A node that is only its properties; without any there is no node. -/
def takeEmpty? (properties : Properties) (p : Progress) : Option Progress :=
  if properties = .empty then none else some (p.emit (.scalar properties "" true))

mutual

def takeNode? (handles : Handles) : Nat → Place → Progress → Option Progress
  | 0, _, _ => none
  | depth + 1, place, p =>
    match p.tokens with
    | .aliasTo name :: rest => some (Progress.emit { p with tokens := rest } (.aliasTo name))
    | _ =>
      match takeProperties? handles p with
      | none => none
      | some (properties, p) => takeContent? handles depth place properties p

def takeContent? (handles : Handles) : Nat → Place → Properties → Progress → Option Progress
  | 0, _, _, _ => none
  | depth + 1, place, properties, p =>
    match p.tokens with
    | .scalar text plain :: rest =>
      some (Progress.emit { p with tokens := rest } (.scalar properties text plain))
    | .flowSequenceStart :: rest =>
      takeFlowItems? handles depth true
        (Progress.emit { p with tokens := rest } (.sequenceStart properties))
    | .flowMappingStart :: rest =>
      takeFlowEntries? handles depth true
        (Progress.emit { p with tokens := rest } (.mappingStart properties))
    | .blockEntry :: _ =>
      if place = .blockOrIndentless then
        takeIndentlessItems? handles depth (p.emit (.sequenceStart properties))
      else takeEmpty? properties p
    | .blockSequenceStart :: rest =>
      if place = .flow then takeEmpty? properties p
      else takeItems? handles depth
        (Progress.emit { p with tokens := rest } (.sequenceStart properties))
    | .blockMappingStart :: rest =>
      if place = .flow then takeEmpty? properties p
      else takeEntries? handles depth
        (Progress.emit { p with tokens := rest } (.mappingStart properties))
    | _ => takeEmpty? properties p

def takeItems? (handles : Handles) : Nat → Progress → Option Progress
  | 0, _ => none
  | depth + 1, p =>
    match p.tokens with
    | .blockEntry :: rest =>
      let p := { p with tokens := rest }
      if p.isAt [.blockEntry, .blockEnd] then takeItems? handles depth (p.emit .empty)
      else do takeItems? handles depth (← takeNode? handles depth .block p)
    | .blockEnd :: rest => some (Progress.emit { p with tokens := rest } .sequenceEnd)
    | _ => none

/-- Reads the items of a sequence that ends where no further one starts. -/
def takeIndentlessItems? (handles : Handles) : Nat → Progress → Option Progress
  | 0, _ => none
  | depth + 1, p =>
    match p.tokens with
    | .blockEntry :: rest =>
      let p := { p with tokens := rest }
      if p.isAt [.blockEntry, .key, .value, .blockEnd] then
        takeIndentlessItems? handles depth (p.emit .empty)
      else do takeIndentlessItems? handles depth (← takeNode? handles depth .block p)
    | _ => some (p.emit .sequenceEnd)

def takeEntries? (handles : Handles) : Nat → Progress → Option Progress
  | 0, _ => none
  | depth + 1, p =>
    match p.tokens with
    | .key :: rest =>
      let p := { p with tokens := rest }
      if p.isAt [.key, .value, .blockEnd] then takeEntryValue? handles depth (p.emit .empty)
      else do takeEntryValue? handles depth (← takeNode? handles depth .blockOrIndentless p)
    | .blockEnd :: rest => some (Progress.emit { p with tokens := rest } .mappingEnd)
    | _ => none

/-- Reads the value of an entry of a block mapping and the entries after it. -/
def takeEntryValue? (handles : Handles) : Nat → Progress → Option Progress
  | 0, _ => none
  | depth + 1, p =>
    match p.tokens with
    | .value :: rest =>
      let p := { p with tokens := rest }
      if p.isAt [.key, .value, .blockEnd] then takeEntries? handles depth (p.emit .empty)
      else do takeEntries? handles depth (← takeNode? handles depth .blockOrIndentless p)
    | _ => takeEntries? handles depth (p.emit .empty)

def takeFlowItems? (handles : Handles) : Nat → Bool → Progress → Option Progress
  | 0, _, _ => none
  | depth + 1, first, p =>
    if p.isAt [.flowSequenceEnd] then some (p.next.emit .sequenceEnd)
    else if !first && !p.isAt [.flowEntry] then none
    else
      let p := if first then p else p.next
      match p.tokens with
      | .key :: rest => do
        let p ← takePair? handles depth
          (Progress.emit { p with tokens := rest } (.mappingStart .empty))
        takeFlowItems? handles depth false p
      | .flowSequenceEnd :: rest => some (Progress.emit { p with tokens := rest } .sequenceEnd)
      | _ => do takeFlowItems? handles depth false (← takeNode? handles depth .flow p)

/-- Reads the key and the value of a single pair inside a flow sequence. -/
def takePair? (handles : Handles) : Nat → Progress → Option Progress
  | 0, _ => none
  | depth + 1, p => do
    let p ←
      if p.isAt [.value, .flowEntry, .flowSequenceEnd] then some (p.next.emit .empty)
      else takeNode? handles depth .flow p
    let p ←
      match p.tokens with
      | .value :: rest =>
        let p := { p with tokens := rest }
        if p.isAt [.flowEntry, .flowSequenceEnd] then some (p.emit .empty)
        else takeNode? handles depth .flow p
      | _ => some (p.emit .empty)
    return p.emit .mappingEnd

def takeFlowEntries? (handles : Handles) : Nat → Bool → Progress → Option Progress
  | 0, _, _ => none
  | depth + 1, first, p =>
    if p.isAt [.flowMappingEnd] then some (p.next.emit .mappingEnd)
    else if !first && !p.isAt [.flowEntry] then none
    else
      let p := if first then p else p.next
      match p.tokens with
      | .key :: rest => do
        let p := { p with tokens := rest }
        let p ←
          if p.isAt [.value, .flowEntry, .flowMappingEnd] then some (p.emit .empty)
          else takeNode? handles depth .flow p
        let p ←
          match p.tokens with
          | .value :: rest =>
            let p := { p with tokens := rest }
            if p.isAt [.flowEntry, .flowMappingEnd] then some (p.emit .empty)
            else takeNode? handles depth .flow p
          | _ => some (p.emit .empty)
        takeFlowEntries? handles depth false p
      | .flowMappingEnd :: rest => some (Progress.emit { p with tokens := rest } .mappingEnd)
      | _ => do
        let p ← takeNode? handles depth .flow p
        takeFlowEntries? handles depth false (p.emit .empty)

end

/-! ## The document -/

def takeDirectives? : Bool → Handles → List Token → Option (Handles × List Token)
  | versioned, handles, .versionDirective major minor :: rest =>
    if versioned || major != 1 || (minor != 1 && minor != 2) then none
    else takeDirectives? true handles rest
  | versioned, handles, .tagDirective handle expansion :: rest =>
    if (handles.lookup handle).isSome then none
    else takeDirectives? versioned (handles ++ [(handle, expansion)]) rest
  | _, handles, tokens => some (handles, tokens)

def Token.isDirective : Token → Bool
  | versionDirective .. => true
  | tagDirective .. => true
  | _ => false

def rootEvents? (handles : Handles) (tokens : List Token) : Option Progress :=
  takeNode? handles (4 * tokens.length + 8) .block ⟨tokens, #[]⟩

def endsStream (tokens : List Token) : Bool :=
  (tokens.dropWhile (· == .documentEnd)).isEmpty

/-- The events of the document of a stream; a stream without one has no events. -/
def Event.ofTokens? (tokens : List Token) : Option (Array Event) := do
  let explicit := tokens.head?.any fun token => token.isDirective || token == .documentStart
  if tokens.isEmpty then return #[]
  else if explicit then
    let (declared, rest) ← takeDirectives? false [] tokens
    let handles := declared ++ defaultHandles
    match rest with
    | .documentStart :: rest =>
      let isBare := rest.head?.all fun token =>
        token.isDirective || token == .documentStart || token == .documentEnd
      let p ← if isBare then some ⟨rest, #[Event.empty]⟩ else rootEvents? handles rest
      if endsStream p.tokens then return p.events else none
    | _ => none
  else
    let p ← rootEvents? defaultHandles tokens
    if endsStream p.tokens then return p.events else none

end WireSchema.Yaml
