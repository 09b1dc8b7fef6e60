import MatrixFormula.Text.Basic

/-!
# Names with a fixed meaning

Some names stand for Greek letters, some for functions and some for constants,
whatever variables are defined.
-/

namespace MatrixFormula.Name

/-- The spellings of Greek letters with the markup of the letter. English and
Italian spellings are accepted. A capital that looks like a Latin capital is
written as that one. -/
def greekLetters : List (String × String) := [
  ("alfa", "\\alpha"), ("alpha", "\\alpha"),
  ("beta", "\\beta"),
  ("gamma", "\\gamma"),
  ("delta", "\\delta"),
  ("epsilon", "\\epsilon"),
  ("zeta", "\\zeta"),
  ("eta", "\\eta"),
  ("teta", "\\theta"), ("theta", "\\theta"),
  ("iota", "\\iota"),
  ("kappa", "\\kappa"),
  ("lambda", "\\lambda"),
  ("mi", "\\mu"), ("mu", "\\mu"),
  ("ni", "\\nu"), ("nu", "\\nu"),
  ("csi", "\\xi"), ("xi", "\\xi"),
  ("omicron", "o"),
  ("pi", "\\pi"),
  ("rho", "\\rho"),
  ("sigma", "\\sigma"),
  ("tau", "\\tau"),
  ("ipsilon", "\\upsilon"), ("upsilon", "\\upsilon"),
  ("fi", "\\phi"), ("phi", "\\phi"),
  ("chi", "\\chi"),
  ("psi", "\\psi"),
  ("omega", "\\omega"),
  ("Alfa", "A"), ("Alpha", "A"),
  ("Beta", "B"),
  ("Gamma", "\\Gamma"),
  ("Delta", "\\Delta"),
  ("Epsilon", "E"),
  ("Zeta", "Z"),
  ("Eta", "H"),
  ("Teta", "\\Theta"), ("Theta", "\\Theta"),
  ("Iota", "I"),
  ("Kappa", "K"),
  ("Lambda", "\\Lambda"),
  ("Mi", "M"), ("Mu", "M"),
  ("Ni", "N"), ("Nu", "N"),
  ("Csi", "\\Xi"), ("Xi", "\\Xi"),
  ("Omicron", "O"),
  ("Pi", "\\Pi"),
  ("Rho", "P"),
  ("Sigma", "\\Sigma"),
  ("Tau", "T"),
  ("Ipsilon", "\\Upsilon"), ("Upsilon", "\\Upsilon"),
  ("Fi", "\\Phi"), ("Phi", "\\Phi"),
  ("Chi", "X"),
  ("Psi", "\\Psi"),
  ("Omega", "\\Omega")]

/-- The names that are typeset as operators. -/
def functions : List Text :=
  (["sin", "cos", "tan", "log", "ln"] : List String).map String.toList

/-- The letter that a name spells. -/
def greek? (name : Text) : Option Text :=
  (greekLetters.find? fun (spelling, _) => spelling.toList == name).map fun (_, letter) =>
    letter.toList

/-- A name with its ASCII capitals made small. -/
def lowercase (name : Text) : Text := name.map Char.toLower

/-- Whether a name is that of a function. Capitals do not matter. -/
def isFunction (name : Text) : Bool := functions.contains (lowercase name)

/-- The cell that a constant stands for. Capitals do not matter. -/
def constant? (name : Text) : Option Text :=
  if lowercase name = ['p', 'i'] then some "\\pi"
  else if lowercase name = ['e'] then some ['e']
  else none

/-- How a variable is displayed: as the letter that its name spells, or as its name. -/
def display (name : Text) : Text := (greek? name).getD name

end MatrixFormula.Name
