/-!
# Quoted text

A name or a text is written between two quote characters, and a quote character inside it is
written twice. Nothing else is escaped, so a quoted text is as long as its content plus one
character for each inner quote and two for the ends.
-/

namespace SqlSelect.Quoted

/-- Every occurrence of the quote character is written twice. -/
def double (quote : Char) : List Char → List Char
  | [] => []
  | c :: rest => if c = quote then quote :: quote :: double quote rest else c :: double quote rest

/-- The doubled content between two quote characters. -/
def wrap (quote : Char) (content : List Char) : List Char :=
  quote :: double quote content ++ [quote]

/-- Content without quotes is written unchanged. -/
theorem double_eq_self {quote : Char} {content : List Char} (h : quote ∉ content) :
    double quote content = content := by
  induction content with
  | nil => rfl
  | cons c rest ih =>
    have hc : c ≠ quote := fun e => h (e ▸ List.mem_cons_self)
    simp [double, hc, ih fun m => h (List.mem_cons_of_mem _ m)]

end SqlSelect.Quoted
