import SqlSelect.Proofs.Json.Reading

/-!
# Strings in the place of reals

In the tree of a value a real literal is an object whose one key is `Real`, and no other object has
that key. What the key holds is the payload of the literal. Here some payloads of a tree, counted in the
order of the text, are replaced by strings, in the tree and in its text. A string may be spelled with
any escapes that JSON has. The changed text is read as the changed tree.
-/

namespace SqlSelect

/-! ## Strings with any escapes -/

namespace JsonString

/-- What follows a string does not change how it is read. -/
theorem pieces?_append {text : List Char} {found : List Piece × List Char}
    (h : pieces? text = some found) (rest : List Char) :
    pieces? (text ++ rest) = some (found.1, found.2 ++ rest) := by
  fun_induction pieces? text generalizing found with
  | case1 => cases h
  | case2 tail =>
    obtain rfl := Option.some.inj h
    rfl
  | case3 a b c d tail code hcode ih =>
    obtain ⟨inner, hinner, rfl⟩ := Option.map_eq_some_iff.1 h
    simp only [List.cons_append, pieces?, hcode, ih hinner, Option.map_some]
  | case4 => cases h
  | case5 c tail hunit character hletter ih =>
    obtain ⟨inner, hinner, rfl⟩ := Option.map_eq_some_iff.1 h
    have hletter' : c ≠ 'u' := by
      rintro rfl
      have hnone : letterEscape? 'u' = none := by decide
      exact absurd (hnone.symm.trans hletter) (by simp)
    rw [List.cons_append, List.cons_append, pieces?, hletter, ih hinner]
    · rfl
    · exact fun _ _ _ _ _ hu _ => hletter' hu
  | case6 => cases h
  | case7 => cases h
  | case8 c tail hquote hunit hescape hplain ih =>
    obtain ⟨inner, hinner, rfl⟩ := Option.map_eq_some_iff.1 h
    have hbackslash : c ≠ '\\' := fun hc => hplain (.inr hc)
    rw [List.cons_append, pieces?, if_neg hplain, ih hinner]
    · rfl
    · exact hquote
    · exact fun _ _ _ _ _ hc _ => hbackslash hc
    · exact fun _ _ hc _ => hbackslash hc

end JsonString

/-- A string as it stands in a JSON text after its opening quote, and its content. -/
structure StringText where
  content : String
  text : List Char
  reads : JsonToken.readString text = some (some content, [])

namespace StringText

/-- A content as it is written. -/
def written (content : String) : StringText where
  content := content
  text := content.toList.flatMap JsonString.escape ++ ['"']
  reads := by
    simp [JsonToken.readString, JsonString.pieces?_flatMap_escape, JsonString.content?_map_piece]

/-- The text of a string with its opening quote. -/
def quoted (string : StringText) : List Char := '"' :: string.text

open JsonState

/-- A spelled string is read as its content wherever it stands. -/
theorem readsAs_quoted (string : StringText) : ReadsAs string.quoted (.text string.content) := by
  refine readsAs_of_token (.string (some string.content)) (by simp) (fun _ => rfl) ?_
  intro state rest _
  obtain ⟨found, hfound, hread⟩ := Option.map_eq_some_iff.1 string.reads
  obtain ⟨hcontent, hnothing⟩ := Prod.mk.inj hread
  have htoken : JsonToken.read? '"' (string.text ++ rest) =
      some (.string (some string.content), rest) := by
    have hpieces := JsonString.pieces?_append hfound rest
    rw [hnothing] at hpieces
    simp [JsonToken.read?, JsonToken.readString, hpieces, hcontent]
  exact readFrom_cons state rfl htoken

end StringText

/-! ## Payloads in a tree and in its text -/

namespace Json

/-- The key of a real literal. -/
def realKey : String := "Real"

mutual

/-- How many payloads of real literals there are in a tree. -/
def realCount : Json → Nat
  | array items => realCountEach items
  | object members => realCountMembers members
  | _ => 0

/-- How many there are in several trees. -/
def realCountEach : List Json → Nat
  | [] => 0
  | first :: rest => first.realCount + realCountEach rest

/-- How many there are in the members of an object. -/
def realCountMembers : List (Option String × Json) → Nat
  | [] => 0
  | (key, value) :: rest =>
    (if key = some realKey then 1 else value.realCount) + realCountMembers rest

end

section

-- Which payloads are replaced, by their number in the order of the text.
variable (chosen : Nat → Option StringText)

/-- The payload with a number, or the string that is chosen for it. -/
def payload (place : Nat) (tree : Json) : Json :=
  match chosen place with
  | some spelled => .text spelled.content
  | none => tree

/-- The text of the payload with a number, or that of the string that is chosen for it. -/
def payloadText (place : Nat) (tree : Json) : List Char :=
  match chosen place with
  | some spelled => spelled.quoted
  | none => tree.render

mutual

/-- A tree with the chosen strings in the place of payloads, which are counted from `start` on. -/
def replaceReals (start : Nat) : Json → Json
  | array items => array (replaceRealsEach start items)
  | object members => object (replaceRealsMembers start members)
  | tree => tree

/-- Several trees with the chosen strings. -/
def replaceRealsEach (start : Nat) : List Json → List Json
  | [] => []
  | first :: rest => first.replaceReals start :: replaceRealsEach (start + first.realCount) rest

/-- The members of an object with the chosen strings. -/
def replaceRealsMembers (start : Nat) : List (Option String × Json) → List (Option String × Json)
  | [] => []
  | (key, value) :: rest =>
    if key = some realKey then
      (key, payload chosen start value) :: replaceRealsMembers (start + 1) rest
    else (key, value.replaceReals start) :: replaceRealsMembers (start + value.realCount) rest

end

mutual

/-- The text of a tree with the chosen strings in the place of the texts of payloads. -/
def renderReplaced (start : Nat) : Json → List Char
  | array items => arrayText (renderReplacedEach start items)
  | object members =>
    objectText ((renderReplacedMembers start members).map fun m => memberText m.1 m.2)
  | tree => tree.render

/-- The texts of several trees with the chosen strings. -/
def renderReplacedEach (start : Nat) : List Json → List (List Char)
  | [] => []
  | first :: rest =>
    first.renderReplaced start :: renderReplacedEach (start + first.realCount) rest

/-- The keys of an object, and the texts of their values with the chosen strings. -/
def renderReplacedMembers (start : Nat) :
    List (Option String × Json) → List (Option String × List Char)
  | [] => []
  | (key, value) :: rest =>
    if key = some realKey then
      (key, payloadText chosen start value) :: renderReplacedMembers (start + 1) rest
    else
      (key, value.renderReplaced start) :: renderReplacedMembers (start + value.realCount) rest

end

variable {chosen}

/-! ### Trees without payloads -/

mutual

/-- Nothing is replaced in a tree without payloads. -/
theorem replaceReals_eq_self (start : Nat) :
    (tree : Json) → tree.realCount = 0 → tree.replaceReals chosen start = tree
  | array items, h => congrArg array (replaceRealsEach_eq_self start items h)
  | object members, h => congrArg object (replaceRealsMembers_eq_self start members h)
  | null, _ | bool _, _ | number _, _ | string _, _ | cut, _ => rfl

theorem replaceRealsEach_eq_self (start : Nat) :
    (items : List Json) → realCountEach items = 0 → replaceRealsEach chosen start items = items
  | [], _ => rfl
  | first :: rest, h => by
    obtain ⟨hfirst, hrest⟩ := Nat.add_eq_zero_iff.1 h
    rw [replaceRealsEach, replaceReals_eq_self _ first hfirst, replaceRealsEach_eq_self _ rest hrest]

theorem replaceRealsMembers_eq_self (start : Nat) :
    (members : List (Option String × Json)) → realCountMembers members = 0 →
      replaceRealsMembers chosen start members = members
  | [], _ => rfl
  | (key, value) :: rest, h => by
    obtain ⟨hvalue, hrest⟩ := Nat.add_eq_zero_iff.1 h
    split at hvalue
    · exact absurd hvalue Nat.one_ne_zero
    · next hkey =>
      rw [replaceRealsMembers, if_neg hkey, replaceReals_eq_self _ value hvalue,
        replaceRealsMembers_eq_self _ rest hrest]

end

mutual

/-- With no string chosen the text is that of the tree. -/
theorem renderReplaced_none (start : Nat) :
    (tree : Json) → tree.renderReplaced (fun _ => none) start = tree.render
  | array items => by rw [renderReplaced, render, renderReplacedEach_none]
  | object members => by rw [renderReplaced, render, renderReplacedMembers_none]
  | null | bool _ | number _ | string _ | cut => rfl

theorem renderReplacedEach_none (start : Nat) :
    (items : List Json) → renderReplacedEach (fun _ => none) start items = renderEach items
  | [] => rfl
  | first :: rest => by
    rw [renderReplacedEach, renderEach, renderReplaced_none _ first, renderReplacedEach_none _ rest]

theorem renderReplacedMembers_none (start : Nat) :
    (members : List (Option String × Json)) →
      ((renderReplacedMembers (fun _ => none) start members).map fun m => memberText m.1 m.2) =
        renderMembers members
  | [] => rfl
  | (key, value) :: rest => by
    rw [renderReplacedMembers, renderMembers]
    split
    · rw [List.map_cons, renderReplacedMembers_none _ rest, payloadText]
    · rw [List.map_cons, renderReplacedMembers_none _ rest, renderReplaced_none _ value]

end

/-! ### Objects with one key -/

theorem realCount_tagged {tag : String} (h : tag ≠ realKey) (tree : Json) :
    (tagged tag tree).realCount = tree.realCount := by
  simp [tagged, record, realCount, realCountMembers, h]

theorem replaceReals_tagged {tag : String} (h : tag ≠ realKey) (start : Nat) (tree : Json) :
    (tagged tag tree).replaceReals chosen start = tagged tag (tree.replaceReals chosen start) := by
  simp [tagged, record, replaceReals, replaceRealsMembers, h]

theorem replaceReals_real (start : Nat) (tree : Json) :
    (tagged realKey tree).replaceReals chosen start = tagged realKey (payload chosen start tree) := by
  simp [tagged, record, replaceReals, replaceRealsMembers]

/-! ### Reading the text -/

open JsonState

/-- The text of a payload is read as the payload, replaced or not. -/
theorem readsAs_payloadText (place : Nat) {tree : Json} (h : tree.Writable) :
    ReadsAs (payloadText chosen place tree) (payload chosen place tree) := by
  unfold payloadText payload
  split
  · next spelled _ => exact spelled.readsAs_quoted
  · exact readsAs_render h

/-- The text with the chosen strings is read as the tree with them. -/
theorem readsAs_renderReplaced {tree : Json} (h : tree.Writable) (start : Nat) :
    ReadsAs (tree.renderReplaced chosen start) (tree.replaceReals chosen start) := by
  induction h generalizing start with
  | null => exact readsAs_render .null
  | bool b => exact readsAs_render (.bool b)
  | number hnumeral => exact readsAs_render (.number hnumeral)
  | text content => exact readsAs_render (.text content)
  | @array items hwritable hitems =>
    clear hwritable
    rw [renderReplaced, replaceReals]
    refine readsAs_array ?_
    induction items generalizing start with
    | nil => exact .nil
    | cons first rest ih =>
      rw [List.forall_mem_cons] at hitems
      exact .cons (hitems.1 start) (ih hitems.2 _)
  | @record members hwritable hmembers =>
    rw [record, renderReplaced, replaceReals]
    refine readsAs_object ?_
    induction members generalizing start with
    | nil => exact .nil
    | cons first rest ih =>
      obtain ⟨name, value⟩ := first
      rw [List.forall_mem_cons] at hwritable hmembers
      rw [List.map_cons, renderReplacedMembers, replaceRealsMembers]
      split
      · exact .cons ⟨rfl, Option.some_ne_none _, readsAs_payloadText start hwritable.1⟩
          (ih hwritable.2 hmembers.2 _)
      · exact .cons ⟨rfl, Option.some_ne_none _, hmembers.1 start⟩ (ih hwritable.2 hmembers.2 _)

end

end Json

end SqlSelect
