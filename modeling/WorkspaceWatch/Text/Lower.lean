/-!
# Lower case

Names and words are compared in lower case. They are made of letters of ASCII, so only what has such
a letter as its lower case matters: the capital letters of ASCII and the Kelvin sign.
-/

namespace WorkspaceWatch

/-- The lower case of a character, if that is a letter of ASCII. -/
def lowerChar (c : Char) : Char := if c = '\u212a' then 'k' else c.toLower

/-- A text in lower case, as far as letters of ASCII go. -/
def lowerText (s : List Char) : List Char := s.map lowerChar

/-- A string in lower case, as far as letters of ASCII go. -/
def lower (s : String) : String := String.ofList (lowerText s.toList)

end WorkspaceWatch
