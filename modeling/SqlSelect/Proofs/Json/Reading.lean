import Mathlib.Data.List.Forall2
import SqlSelect.Json.Read
import SqlSelect.Json.Text
import SqlSelect.Proofs.Json.Token

/-!
# Reading JSON trees back

The text of a tree, read where a value may come, leads to the state in which the tree stands at its
place in the arrays and objects around it. The reader never needs more than these, so a text is
read back at any depth and under any number of open brackets.
-/

namespace SqlSelect

namespace JsonState

/-- The state after the tokens of a text. -/
def readFrom (state : JsonState) (text : List Char) : JsonState :=
  (jsonTokens text).foldl next state

/-- A value may come inside the given arrays and objects. An array that has just been opened may be
closed instead. -/
def Awaits (state : JsonState) (outer : List JsonFrame) : Prop :=
  ∀ token, token ≠ .closeBracket → state.next token = (value outer).next token

/-- A text that, read where a value may come, puts a tree at its place. -/
def ReadsAs (text : List Char) (tree : Json) : Prop :=
  ∀ (state : JsonState) (outer : List JsonFrame) (rest : List Char), state.Awaits outer →
    Numeral.Ends rest → state.readFrom (text ++ rest) = (place tree outer).readFrom rest

theorem awaits_value (outer : List JsonFrame) : (value outer).Awaits outer := fun _ _ => rfl

/-- In an array that has just been opened the first item may come. -/
theorem awaits_firstItem (outer : List JsonFrame) :
    (firstItem outer).Awaits (.array [] :: outer) := by
  intro token htoken
  cases token with
  | closeBracket => exact absurd rfl htoken
  | _ => rfl

/-- One token is read. -/
theorem readFrom_cons (state : JsonState) {c : Char} {rest after : List Char} {token : JsonToken}
    (hspace : JsonToken.isSpace c = false) (h : JsonToken.read? c rest = some (token, after)) :
    state.readFrom (c :: rest) = (state.next token).readFrom after := by
  rw [readFrom, jsonTokens_cons hspace h]
  rfl

/-- A written string is read. -/
theorem readFrom_write (state : JsonState) (content : String) (rest : List Char) :
    state.readFrom (JsonString.write content.toList ++ rest) =
      (state.next (.string (some content))).readFrom rest := by
  rw [readFrom, jsonTokens_write]
  rfl

/-- A written number is read. -/
theorem readFrom_number (state : JsonState) {numeral : Numeral} (h : numeral.IsStandard)
    {rest : List Char} (hends : Numeral.Ends rest) :
    state.readFrom (numeral.text true ++ rest) = (state.next (.number numeral)).readFrom rest := by
  rw [readFrom, jsonTokens_number true h hends]
  rfl

/-- A text is read as a tree if it is one token that stands for the tree. -/
theorem readsAs_of_token {text : List Char} {tree : Json} (token : JsonToken)
    (htoken : token ≠ .closeBracket) (hplace : ∀ outer, (value outer).next token = place tree outer)
    (hread : ∀ (state : JsonState) (rest : List Char), Numeral.Ends rest →
      state.readFrom (text ++ rest) = (state.next token).readFrom rest) :
    ReadsAs text tree := by
  intro state outer rest hstate hends
  rw [hread state rest hends, hstate token htoken, hplace]

/-! ## Arrays and objects -/

/-- A mark ends a numeral. -/
theorem ends_cons {c : Char} (h : Digit.ofChar? c = none ∧ c ≠ '.' ∧ c ≠ 'e' ∧ c ≠ 'E')
    (rest : List Char) : Numeral.Ends (c :: rest) := by
  intro d hd
  obtain rfl : c = d := Option.some.inj hd
  exact h

/-- What follows a part of an array or an object is a comma or the closing bracket. -/
theorem ends_parts {close : Char}
    (h : Digit.ofChar? close = none ∧ close ≠ '.' ∧ close ≠ 'e' ∧ close ≠ 'E')
    (parts : List (List Char)) (rest : List Char) :
    Numeral.Ends (parts.flatMap (',' :: ·) ++ close :: rest) := by
  cases parts with
  | nil => exact ends_cons h rest
  | cons first others => exact ends_cons (by decide) _

/-- After the first part a comma stands before every part. -/
theorem intercalate_comma (first : List Char) (parts : List (List Char)) :
    ",".toList.intercalate (first :: parts) = first ++ parts.flatMap (',' :: ·) := by
  induction parts generalizing first with
  | nil => simp
  | cons second others ih =>
    rw [List.intercalate_cons_cons, ih, List.flatMap_cons, List.append_assoc]
    rfl

/-- The items of an array after some of them are read up to its end. -/
theorem readFrom_items {texts : List (List Char)} {items : List Json}
    (h : List.Forall₂ ReadsAs texts items) (found : List Json) (outer : List JsonFrame)
    (rest : List Char) :
    (afterItem found outer).readFrom (texts.flatMap (',' :: ·) ++ ']' :: rest) =
      (place (.array (found.reverse ++ items)) outer).readFrom rest := by
  induction h generalizing found with
  | nil =>
    rw [List.append_nil]
    exact readFrom_cons _ (c := ']') rfl rfl
  | @cons text first texts others hfirst _ ih =>
    rw [List.flatMap_cons, List.cons_append, List.cons_append, List.append_assoc,
      readFrom_cons _ (c := ',') rfl rfl]
    calc (value (.array found :: outer)).readFrom (text ++ (texts.flatMap (',' :: ·) ++ ']' :: rest))
        = (afterItem (first :: found) outer).readFrom (texts.flatMap (',' :: ·) ++ ']' :: rest) :=
          hfirst _ _ _ (awaits_value _) (ends_parts (by decide) _ _)
      _ = (place (.array ((first :: found).reverse ++ others)) outer).readFrom rest := ih _
      _ = (place (.array (found.reverse ++ first :: others)) outer).readFrom rest := by
          rw [List.reverse_cons, List.append_assoc, List.singleton_append]

/-- An array is read if its items are. -/
theorem readsAs_array {texts : List (List Char)} {items : List Json}
    (h : List.Forall₂ ReadsAs texts items) : ReadsAs (Json.arrayText texts) (.array items) := by
  intro state outer rest hstate hends
  rw [Json.arrayText, List.cons_append, List.cons_append, readFrom_cons _ (c := '[') rfl rfl,
    hstate _ (by decide)]
  cases h with
  | nil => exact readFrom_cons _ (c := ']') rfl rfl
  | @cons text first texts others hfirst hothers =>
    rw [intercalate_comma, List.append_assoc, List.append_assoc]
    calc (firstItem outer).readFrom (text ++ (texts.flatMap (',' :: ·) ++ ']' :: rest))
        = (afterItem [first] outer).readFrom (texts.flatMap (',' :: ·) ++ ']' :: rest) :=
          hfirst _ _ _ (awaits_firstItem outer) (ends_parts (by decide) _ _)
      _ = (place (.array (first :: others)) outer).readFrom rest :=
          readFrom_items hothers [first] outer rest

/-- A key may come after the given members. -/
def AwaitsKey (state : JsonState) (members : List (Option String × Json))
    (outer : List JsonFrame) : Prop :=
  ∀ key, state.next (.string key) = colon members key outer

/-- A key with a text is read as the same key with a tree. -/
def MemberReadsAs (text : Option String × List Char) (member : Option String × Json) : Prop :=
  text.1 = member.1 ∧ member.1 ≠ none ∧ ReadsAs text.2 member.2

/-- A member is read if its value is. -/
theorem readFrom_member {text : Option String × List Char} {member : Option String × Json}
    (hmember : MemberReadsAs text member) {state : JsonState} {members : List (Option String × Json)}
    {outer : List JsonFrame} (hstate : state.AwaitsKey members outer) {rest : List Char}
    (hends : Numeral.Ends rest) :
    state.readFrom (Json.memberText text.1 text.2 ++ rest) =
      (afterMember (member :: members) outer).readFrom rest := by
  obtain ⟨hkey, hsome, hvalue⟩ := hmember
  obtain ⟨name, hname⟩ := Option.ne_none_iff_exists'.1 hsome
  have htext : Json.memberText text.1 text.2 ++ rest =
      JsonString.write name.toList ++ ':' :: (text.2 ++ rest) := by
    rw [hkey, hname, Json.memberText, Json.stringText, List.append_assoc, List.cons_append]
  obtain ⟨key, tree⟩ := member
  obtain rfl : key = some name := hname
  rw [htext, readFrom_write, hstate, readFrom_cons _ (c := ':') rfl rfl]
  exact hvalue _ (.object members (some name) :: outer) rest (awaits_value _) hends

/-- The members of an object after some of them are read up to its end. -/
theorem readFrom_members {texts : List (Option String × List Char)}
    {members : List (Option String × Json)} (h : List.Forall₂ MemberReadsAs texts members)
    (found : List (Option String × Json)) (outer : List JsonFrame) (rest : List Char) :
    (afterMember found outer).readFrom
        ((texts.map fun t => Json.memberText t.1 t.2).flatMap (',' :: ·) ++ '\x7d' :: rest) =
      (place (.object (found.reverse ++ members)) outer).readFrom rest := by
  induction h generalizing found with
  | nil =>
    rw [List.append_nil]
    exact readFrom_cons _ (c := '\x7d') rfl rfl
  | @cons text first texts others hfirst _ ih =>
    have hkey : (nextKey found outer).AwaitsKey found outer := fun _ => rfl
    rw [List.map_cons, List.flatMap_cons, List.cons_append, List.cons_append, List.append_assoc,
      readFrom_cons _ (c := ',') rfl rfl]
    refine (readFrom_member hfirst hkey (ends_parts (by decide) _ _)).trans ?_
    rw [ih, List.reverse_cons, List.append_assoc, List.singleton_append]

/-- An object is read if the values of its members are. -/
theorem readsAs_object {texts : List (Option String × List Char)}
    {members : List (Option String × Json)} (h : List.Forall₂ MemberReadsAs texts members) :
    ReadsAs (Json.objectText (texts.map fun t => Json.memberText t.1 t.2)) (.object members) := by
  intro state outer rest hstate hends
  rw [Json.objectText, List.cons_append, List.cons_append, readFrom_cons _ (c := '\x7b') rfl rfl,
    hstate _ (by decide)]
  cases h with
  | nil => exact readFrom_cons _ (c := '\x7d') rfl rfl
  | @cons text first texts others hfirst hothers =>
    have hkey : (firstKey outer).AwaitsKey [] outer := fun _ => rfl
    rw [List.map_cons, intercalate_comma, List.append_assoc, List.append_assoc]
    refine (readFrom_member hfirst hkey (ends_parts (by decide) _ _)).trans ?_
    exact readFrom_members hothers [first] outer rest

end JsonState

namespace Json

open JsonState

/-- A tree with a text: its numbers may stand in JSON, its strings have content, and it has no
cut. -/
inductive Writable : Json → Prop where
  | null : Writable .null
  | bool (b : Bool) : Writable (.bool b)
  | number {numeral : Numeral} (h : numeral.IsStandard) : Writable (.number numeral)
  | text (content : String) : Writable (.text content)
  | array {items : List Json} (h : ∀ item ∈ items, Writable item) : Writable (.array items)
  | record {members : List (String × Json)} (h : ∀ m ∈ members, Writable m.2) :
    Writable (.record members)

/-- Every tree with a text is read back, wherever it stands. -/
theorem readsAs_render {tree : Json} (h : tree.Writable) : ReadsAs tree.render tree := by
  induction h with
  | null =>
    refine readsAs_of_token .null (by decide) (fun _ => rfl) fun state rest _ => ?_
    exact readFrom_cons _ (c := 'n') rfl rfl
  | bool b =>
    refine readsAs_of_token (.bool b) (by simp) (fun _ => rfl) fun state rest _ => ?_
    cases b with
    | true => exact readFrom_cons _ (c := 't') rfl rfl
    | false => exact readFrom_cons _ (c := 'f') rfl rfl
  | @number numeral hnumeral =>
    refine readsAs_of_token (.number numeral) (by simp) (fun _ => rfl) ?_
    exact fun state rest hends => readFrom_number state hnumeral hends
  | text content =>
    refine readsAs_of_token (.string (some content)) (by simp) (fun _ => rfl) ?_
    exact fun state rest _ => readFrom_write state content rest
  | @array items _ hitems =>
    rw [Json.render_array]
    refine readsAs_array ?_
    rw [List.forall₂_map_left_iff]
    exact List.forall₂_same.2 hitems
  | @record members _ hmembers =>
    have htext : (Json.record members).render =
        objectText ((members.map fun m => (some m.1, m.2.render)).map fun t => memberText t.1 t.2) := by
      rw [Json.record, Json.render_object, List.map_map, List.map_map]
      rfl
    rw [htext, Json.record]
    refine readsAs_object ?_
    rw [List.forall₂_map_left_iff, List.forall₂_map_right_iff]
    exact List.forall₂_same.2 fun m hm => ⟨rfl, Option.some_ne_none _, hmembers m hm⟩

/-- A text that is read as a tree wherever it stands is JSON, and reading it gives the tree. -/
theorem read_of_readsAs {text : List Char} {tree : Json} (h : ReadsAs text tree) :
    Json.read text = (tree, true) := by
  have hnothing : Numeral.Ends [] := fun c hc => by cases hc
  have hstate := h (value []) [] [] (awaits_value []) hnothing
  rw [List.append_nil] at hstate
  have hend : (place tree []).readFrom [] = complete tree := by
    rw [readFrom, jsonTokens]
    rfl
  have hread : readTokens (jsonTokens text) = complete tree := hstate.trans hend
  rw [Json.read, hread]
  rfl

/-- The text of a tree is JSON, and reading it gives the tree. -/
theorem read_render {tree : Json} (h : tree.Writable) : Json.read tree.render = (tree, true) :=
  read_of_readsAs (readsAs_render h)

end Json

end SqlSelect
