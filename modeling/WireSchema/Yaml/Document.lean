import WireSchema.Yaml.Event
import WireSchema.Yaml.Scalar

/-!
# From events to a value

`Value.ofEvents?` builds the value of a document. Collections nest at most 128
deep; a mapping must not have two equal keys; an alias stands for the value of its
anchor, and following aliases is limited to a hundred times the number of events.
`Value.parse?` reads a text, and says nothing about why it cannot.
-/

namespace WireSchema.Yaml

/-! ## Aliases -/

/-- The numbers of anchors: an anchor is numbered by how many names have been seen when it
is defined, and a number leads to the last node that received it. -/
structure Anchors where
  numbers : List (String × Nat)
  nodes : List (Nat × Nat)

def Anchors.define (a : Anchors) (name : String) (index : Nat) : Anchors :=
  let number := a.numbers.length
  { numbers := (name, number) :: a.numbers.filter fun entry => entry.1 != name
    nodes := (number, index) :: a.nodes }

def Event.anchor? : Event → Option String
  | scalar properties .. => properties.anchor
  | sequenceStart properties => properties.anchor
  | mappingStart properties => properties.anchor
  | _ => none

/-- The number that each alias refers to, zero for other events. -/
def aliasNumbers? : Nat → Anchors → List Event → Option (List Nat × Anchors)
  | _, anchors, [] => some ([], anchors)
  | index, anchors, event :: rest => do
    let number ←
      match event with
      | .aliasTo name => anchors.numbers.lookup name
      | _ => some 0
    let anchors :=
      match event.anchor? with
      | some name => anchors.define name index
      | none => anchors
    let (numbers, anchors) ← aliasNumbers? (index + 1) anchors rest
    return (number :: numbers, anchors)

/-- The events of a document, with the index of the event that each alias leads to. -/
structure Linked where
  events : Array Event
  targets : Array Nat

/-- Finds where the aliases lead; every one must have an anchor before it. -/
def Linked.ofEvents? (events : Array Event) : Option Linked := do
  let (numbers, anchors) ← aliasNumbers? 0 ⟨[], []⟩ events.toList
  let targets := numbers.map fun number => (anchors.nodes.lookup number).getD 0
  return ⟨events, targets.toArray⟩

/-! ## Values -/

/-- A value, the index of the event after it, and how many aliases have been followed. -/
structure Built (α : Type) where
  value : α
  next : Nat
  jumps : Nat

def plainValue? (text : String) : Option Value :=
  match resolve text with
  | .value value => some value
  | .outOfRange => none

/-- The value of a scalar, its tag left out. A local tag leaves the choice between a plain
scalar and a string as it is; one that is not known makes a string. -/
def scalarValue? (tag : Option Octets) (text : String) (plain : Bool) : Option Value :=
  match tag with
  | none => if plain then plainValue? text else some (.string text)
  | some tag =>
    if tag = languageTag "bool" then (boolOf? text).map .bool
    else if tag = languageTag "int" then
      match resolveInteger? text.toList with
      | some (.value value) => some value
      | _ => none
    else if tag = languageTag "float" then
      (readFloat? text.toList).map fun x => .number (.float x)
    else if tag = languageTag "null" then if isNullText text then some .null else none
    else if isLocalTag tag && plain then plainValue? text
    else some (.string text)

def withTag (tag : Option Octets) (value : Value) : Value :=
  match tag.bind localTag? with
  | some tag => .tagged tag value
  | none => value

mutual

/-- Builds the value at the event of the given index. `nesting` is how many collections may
still be opened. -/
def build? (doc : Linked) : Nat → Nat → Nat → Nat → Option (Built Value)
  | 0, _, _, _ => none
  | depth + 1, nesting, index, jumps =>
    match doc.events[index]? with
    | some (.aliasTo _) =>
      if doc.events.size * 100 < jumps + 1 then none
      else
        match build? doc depth nesting (doc.targets.getD index 0) (jumps + 1) with
        | some built => some { built with next := index + 1 }
        | none => none
    | some (.scalar properties text plain) =>
      (scalarValue? properties.tag text plain).map fun value => ⟨withTag properties.tag value, index + 1, jumps⟩
    | some (.sequenceStart properties) =>
      if nesting = 0 then none
      else
        match buildItems? doc depth (nesting - 1) (index + 1) jumps with
        | some built => some { built with value := withTag properties.tag (.sequence built.value) }
        | none => none
    | some (.mappingStart properties) =>
      if nesting = 0 then none
      else
        match buildEntries? doc depth (nesting - 1) [] (index + 1) jumps with
        | some built => some { built with value := withTag properties.tag (.mapping built.value) }
        | none => none
    | _ => none

def buildItems? (doc : Linked) : Nat → Nat → Nat → Nat → Option (Built (List Value))
  | 0, _, _, _ => none
  | depth + 1, nesting, index, jumps =>
    if doc.events[index]? == some .sequenceEnd then some ⟨[], index + 1, jumps⟩
    else
      match build? doc depth nesting index jumps with
      | none => none
      | some item =>
        match buildItems? doc depth nesting item.next item.jumps with
        | none => none
        | some later => some { later with value := item.value :: later.value }

/-- Builds the entries of a mapping after those in `seen`, whose keys must not recur. -/
def buildEntries? (doc : Linked) : Nat → Nat → List Value → Nat → Nat → Option (Built Entries)
  | 0, _, _, _, _ => none
  | depth + 1, nesting, seen, index, jumps =>
    if doc.events[index]? == some .mappingEnd then some ⟨[], index + 1, jumps⟩
    else
      match build? doc depth nesting index jumps with
      | none => none
      | some key =>
        if seen.any key.value.sameKey then none
        else
          match build? doc depth nesting key.next key.jumps with
          | none => none
          | some value =>
            match buildEntries? doc depth nesting (key.value :: seen) value.next value.jumps with
            | none => none
            | some later => some { later with value := (key.value, value.value) :: later.value }

end

def nestingLimit : Nat := 128

/-- The value of a document. The bound on the depth of calls allows, for every level of
nesting, one call per event and one per alias. -/
def Value.ofEvents? (events : Array Event) : Option Value := do
  let doc ← Linked.ofEvents? events
  if events.isEmpty then return .null
  else
    let built ← build? doc ((nestingLimit + 1) * (events.size + 2)) nestingLimit 0 0
    return built.value

def Value.parse? (text : String) : Option Value := do
  let tokens ← Token.scan? text.toList
  let events ← Event.ofTokens? tokens
  Value.ofEvents? events

end WireSchema.Yaml
