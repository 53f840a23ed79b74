/-!
# Joining texts

Lists are written with a separator between neighbours and none at either end.
-/

namespace AnswerSet

/-- The texts in order, with `separator` between neighbours. -/
def joinWith (separator : String) : List String → String
  | [] => ""
  | [text] => text
  | text :: next :: rest => text ++ separator ++ joinWith separator (next :: rest)

@[simp] theorem joinWith_nil (separator : String) : joinWith separator [] = "" := rfl

@[simp] theorem joinWith_singleton (separator text : String) :
    joinWith separator [text] = text := rfl

theorem joinWith_cons_cons (separator text next : String) (rest : List String) :
    joinWith separator (text :: next :: rest) =
      text ++ separator ++ joinWith separator (next :: rest) := rfl

end AnswerSet
