/-!
The lines of a text: what stands between line feeds, without a carriage return before the feed. A
feed at the very end opens no further line.
-/

namespace ReturnFlow.Text

/-- A reversed line without the carriage return at its end. -/
def dropReturn : List Char → List Char
  | '\r' :: cs => cs
  | cs => cs

/-- The lines of a text after the given start of a line, which is reversed. -/
def linesFrom (start : List Char) : List Char → List String
  | [] => if start = [] then [] else [String.ofList start.reverse]
  | c :: cs =>
    if c = '\n' then String.ofList (dropReturn start).reverse :: linesFrom [] cs
    else linesFrom (c :: start) cs

def lines (text : String) : List String :=
  linesFrom [] text.toList

end ReturnFlow.Text
