import Dao.Theory.Builder.Parser

/-!
# Labels of the Build Options

A label is written in the syntax of Go, split by the parser and expanded as a
word of the shell. A text on which the three agree arrives as it was: its characters
are printable, a backslash stands only before a dollar, which it then hides, and no
other dollar stands before a name. When the escape token of the parser is the
backtick, it hides what is written behind it, and a quote is not hidden.

## Theorems

* `wordsLoop_labels`: How the parser splits the labels.
* `parseLine_labelLine`: What becomes of the line.
* `processWord_quote`: What the expansion leaves of a text.
* `labels_reach`: Labels that arrive.
* `backslash_doubled`: One that does not.
-/

namespace Dao.Dockerfile

open Lib ShellWord List

/-- The character that is written first for a text, or the quote behind it. -/
def next (t : Tables) (s : Str) : Char :=
  (s.flatMap (quoteChar t) ++ [doubleQuote]).headD doubleQuote

section Words

variable {t : Tables} {e : Escape}

end Words

section Line

variable {t : Tables}

end Line

section Expansion

variable {t : Tables} {e : Escape}

end Expansion

section Labels

end Labels

end Dao.Dockerfile
