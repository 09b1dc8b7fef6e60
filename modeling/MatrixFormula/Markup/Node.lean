import MatrixFormula.Decimal.Basic
import MatrixFormula.Markup.NameStyle
import MatrixFormula.Name

/-!
# Displayed formulas

A displayed formula is a tree of numbers, names and markup blocks. Its layout is the
markup that shows it.
-/

namespace MatrixFormula.Markup

/-- The trees of displayed formulas. -/
inductive Node where
  | number (lexeme : Text)
  | name (text : Text)
  | block (text : Text)
  | group (inner : Node)
  | power (base exponent : Node)
  | fraction (numerator denominator : Node)
  | negation (operand : Node)
  | product (left right : Node)
  | sum (left right : Node)
  | difference (left right : Node)
  | equation (left right : Node)
deriving DecidableEq, Repr

/-- The markup of a name that is a letter or a variable. -/
def symbol? (style : NameStyle) (name : Text) : Option Text :=
  match Name.greek? name with
  | some letter => some ((style name letter).getD letter)
  | none => style name name

/-- The markup of each of some letters as a name of its own. -/
def letters (style : NameStyle) (name : Text) : List Text :=
  name.map fun char => (style [char] [char]).getD [char]

/-- The factors of a run of letters before a subscript: one symbol, or its letters. -/
def factors (style : NameStyle) (name : Text) : List Text :=
  match symbol? style name with
  | some symbol => [symbol]
  | none => letters style name

/-- The text of a subscript: the end of a name without one leading underscore, its
other underscores protected. -/
def subscriptText (suffix : Text) : Text :=
  let index :=
    match suffix with
    | '_' :: rest => rest
    | _ => suffix
  index.flatMap fun char => if char = '_' then ['\\', '_'] else [char]

/-- The markup of a name. A function is an operator, a letter or a variable is its
symbol, and any other run of letters is a product of letters. What follows the
letters is a subscript of the last factor. -/
def writeName (style : NameStyle) (name : Text) : Text :=
  if Name.isFunction name then '\\' :: Name.lowercase name
  else
    match symbol? style name with
    | some symbol => symbol
    | none =>
        let run : Text := name.takeWhile Char.isAlpha
        let suffix : Text := name.dropWhile Char.isAlpha
        if suffix = [] then Text.joined Latex.productDot (letters style run)
        else
          let all := factors style run
          let base := all.getLast?.getD (Latex.braced [])
          let index := subscriptText suffix
          let last := if index = [] then base else Latex.subscript base index
          Text.joined Latex.productDot (all.dropLast ++ [last])

/-- The markup of a displayed formula. -/
def Node.layout (style : NameStyle) : Node → Text
  | .number lexeme => Decimal.tidy lexeme
  | .name text => writeName style text
  | .block text => text
  | .group inner => Latex.parenthesized (inner.layout style)
  | .power base exponent => Latex.power (base.layout style) (exponent.layout style)
  | .fraction numerator denominator =>
      Latex.fraction (numerator.layout style) (denominator.layout style)
  | .negation operand => '-' :: operand.layout style
  | .product left right => left.layout style ++ Latex.productDot ++ right.layout style
  | .sum left right => left.layout style ++ " + " ++ right.layout style
  | .difference left right => left.layout style ++ " - " ++ right.layout style
  | .equation left right => left.layout style ++ " = " ++ right.layout style

end MatrixFormula.Markup
