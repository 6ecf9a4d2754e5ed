import LineShell.Text.Basic

/-!
# Words

`words t` are the words of a command segment: what is left between spaces, tabs and newlines. There
is no quoting and no escaping.
-/

namespace LineShell.Line

/-- Space, tab and newline part words; no other character does. -/
def isDelimiter (c : Char) : Bool := c == ' ' || c == '\t' || c == '\n'

def words (t : Text) : List Text := (t.splitOnP isDelimiter).filter (!·.isEmpty)

@[simp] theorem words_nil : words [] = [] := by decide

theorem words_append_delimiter {d : Char} (hd : isDelimiter d = true) (a b : Text) :
    words (a ++ d :: b) = words a ++ words b := by
  unfold words
  rw [List.splitOnP_append_cons a b hd, List.filter_append]

end LineShell.Line
