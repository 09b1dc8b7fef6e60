import MatrixFormula.Latex
import MatrixFormula.Store

/-!
# How names are written

A displayed formula is the same in every mode but for the names it knows. A style
says how a known name is written: with a colour for its shape, as the value of the
variable, or by a template.
-/

namespace MatrixFormula.Markup

/-- The markup of a known name, from the name and from how it would be displayed if it
were not known. -/
abbrev NameStyle := Text → Text → Option Text

/-- The colours of variables that are not scalars. -/
structure Palette where
  matrix : Text := "red"
  vector : Text := "purple"
deriving DecidableEq, Repr

namespace NameStyle

/-- Knows no name. -/
def plain : NameStyle := fun _ _ => none

/-- Shows variables in the colour of their shape. Scalars have no colour. -/
def colored (store : Store) (palette : Palette) : NameStyle := fun name display =>
  (store.get? name).map fun tensor =>
    match tensor.shape with
    | .matrix => Latex.colored palette.matrix display
    | .vector => Latex.colored palette.vector display
    | .scalar => display

/-- Shows the values of variables. -/
def expanded (store : Store) : NameStyle := fun name _ => (store.get? name).map Tensor.latex

/-- Shows names by templates, in which a dollar sign stands for the display of the
name. -/
def ofTemplates (templates : List (Text × Text)) : NameStyle := fun name display =>
  (templates.lookup name).map fun template =>
    template.flatMap fun char => if char = '$' then display else [char]

end NameStyle

end MatrixFormula.Markup
