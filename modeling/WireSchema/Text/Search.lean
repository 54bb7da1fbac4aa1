/-!
# Finding a text inside another
-/

namespace WireSchema.Text

def containsChars (part : List Char) : List Char → Bool
  | [] => part.isEmpty
  | c :: rest => part.isPrefixOf (c :: rest) || containsChars part rest

/-- The lower-case form of a character, if that is an ASCII letter; else the character. The
Kelvin sign is the one character outside ASCII with such a form that is a single letter. -/
def asciiLower (c : Char) : Char :=
  if c.toNat = 0x212A then 'k' else c.toLower

/-- Does the lower-case text stand somewhere in the other, whatever the case of the letters
there? -/
def containsLower (part whole : String) : Bool :=
  containsChars part.toList (whole.toList.map asciiLower)

end WireSchema.Text
