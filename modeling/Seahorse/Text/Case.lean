/-!
# Letter case

Names that a player types are compared without regard to case, and all of them are made of ASCII
letters. So lowercasing only has to get those characters right whose lowercase form is an ASCII
letter: the capital letters and the Kelvin sign. Any other character keeps a text from being a name,
whatever its case, and is left as it is.
-/

namespace Seahorse.Text

/-- The sign `K` for kelvin, which lowers to the letter `k`. -/
def kelvinSign : Char := '\u212a'

/-- The lowercase form of a character, as far as it is an ASCII letter. -/
def lower (c : Char) : Char :=
  if c = kelvinSign then 'k' else c.toLower

end Seahorse.Text
