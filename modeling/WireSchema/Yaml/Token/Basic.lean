import WireSchema.Yaml.Tag

/-!
# Tokens of a YAML stream

Directives, document markers, the brackets that indentation or flow style open
and close, the indicators between nodes, and the parts of a node: anchor, tag,
alias and scalar. The end of the list of tokens is the end of the stream.
-/

namespace WireSchema.Yaml

inductive Token where
  | versionDirective (major minor : Nat)
  | tagDirective (handle : String) (expansion : Octets)
  | documentStart
  | documentEnd
  | blockSequenceStart
  | blockMappingStart
  | blockEnd
  | flowSequenceStart
  | flowSequenceEnd
  | flowMappingStart
  | flowMappingEnd
  | blockEntry
  | flowEntry
  | key
  | value
  | aliasTo (name : String)
  | anchor (name : String)
  | tag (handle : String) (suffix : Octets)
  | scalar (text : String) (plain : Bool)
deriving DecidableEq, Repr

end WireSchema.Yaml
