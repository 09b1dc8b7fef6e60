import MatrixFormula.Tensor.Basic

/-!
# Interviews

A variable is declared by answering questions: first for its two dimensions and then,
if these are the dimensions of a possible grid, for its cells from left to right and
from top to bottom. The answers are the lines that follow, and an interview for
which the lines run out gives no declaration.
-/

namespace MatrixFormula.Session

/-- A question, with its answer if there was one. -/
structure Exchange where
  question : Text
  answer? : Option Text
deriving DecidableEq, Repr

/-- Asks questions that are answered by the next lines. The first question without an
answer is the last one. -/
def ask : List Text → List Text → List Exchange
  | [], _ => []
  | question :: _, [] => [⟨question, none⟩]
  | question :: questions, line :: lines => ⟨question, some line⟩ :: ask questions lines

/-- The answers, when every question has one. -/
def answers? (exchanges : List Exchange) : Option (List Text) :=
  exchanges.mapM Exchange.answer?

/-- The number of questions that have an answer. -/
def answered (exchanges : List Exchange) : Nat :=
  exchanges.countP fun exchange => exchange.answer?.isSome

/-- The questions for the cells of a grid, row by row. Rows and columns are counted
from one. -/
def cellQuestions (name : Text) (rows cols : Nat) : List Text :=
  (List.range rows).flatMap fun row =>
    (List.range cols).map fun col =>
      name ++ '[' :: Text.ofNat (row + 1) ++ ',' :: Text.ofNat (col + 1) ++ "] = "

/-- The questions that follow the answers for the two dimensions. A placeholder has no
cells to ask for, and neither has a grid of an impossible size. -/
def questionsAfter (name rows cols : Text) : List Text :=
  match Dim.ofText rows, Dim.ofText cols with
  | .fixed rows, .fixed cols =>
      if (cellCount? rows cols).isSome then cellQuestions name rows cols else []
  | _, _ => []

/-- The exchanges of an interview, and the declaration that came of it. -/
structure Interview where
  exchanges : List Exchange
  declaration? : Option Declaration
deriving DecidableEq, Repr

namespace Interview

/-- Asks for the declaration of a variable. -/
def conduct (name : Text) (lines : List Text) : Interview :=
  let sizes := ask [name ++ " rows: ", name ++ " cols: "] lines
  match answers? sizes with
  | some [rows, cols] =>
      let cells := ask (questionsAfter name rows cols) (lines.drop 2)
      ⟨sizes ++ cells, (answers? cells).map fun texts => ⟨rows, cols, texts⟩⟩
  | _ => ⟨sizes, none⟩

end Interview

end MatrixFormula.Session
