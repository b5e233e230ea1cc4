import Mathlib.Data.List.Basic

/-! `JSON.parse` on UTF-16 code units, as JavaScript has its strings, and the texts that the
servers' libraries write. A string may hold half of a surrogate pair. -/
namespace Wschat.UnitJson

def unit (c : Char) : UInt16 := .ofNat c.toNat

/-- The code units of an ASCII text. -/
def units (s : String) : List UInt16 := s.toList.map unit

inductive Value where
  | null
  | bool (value : Bool)
  | number (literal : List UInt16)
  | string (value : List UInt16)
  | array (elements : List Value)
  | object (members : List (List UInt16 × Value))

def isBlank (c : UInt16) : Bool := c = unit ' ' || c = unit '\n' || c = unit '\r' || c = unit '\t'

def skip : List UInt16 → List UInt16 := List.dropWhile isBlank

def isDigit (c : UInt16) : Bool := unit '0' ≤ c && c ≤ unit '9'

def hexDigit (c : UInt16) : Option UInt16 :=
  if isDigit c then some (c - unit '0')
  else if unit 'a' ≤ c ∧ c ≤ unit 'f' then some (c - 87)
  else if unit 'A' ≤ c ∧ c ≤ unit 'F' then some (c - 55)
  else none

def hexQuad (h₁ h₂ h₃ h₄ : UInt16) : Option UInt16 := do
  return ((← hexDigit h₁) * 16 + (← hexDigit h₂)) * 256 + (← hexDigit h₃) * 16 + (← hexDigit h₄)

def shortEscape (e : UInt16) : Option UInt16 :=
  if e = unit '"' ∨ e = unit '\\' ∨ e = unit '/' then some e
  else if e = unit 'b' then some 8
  else if e = unit 'f' then some 12
  else if e = unit 'n' then some 10
  else if e = unit 'r' then some 13
  else if e = unit 't' then some 9
  else none

def prepend (c : UInt16) (rest : Option (List UInt16 × List UInt16)) :
    Option (List UInt16 × List UInt16) :=
  rest.map fun (string,left) => (c :: string,left)

/-- The code units of a string up to its closing quote, and the text after it. -/
def unquote : List UInt16 → Option (List UInt16 × List UInt16)
  | [] => none
  | c :: text =>
    if c = unit '"' then some ([],text)
    else if c = unit '\\' then
      match text with
      | [] => none
      | e :: text =>
        if e = unit 'u' then
          match text with
          | h₁ :: h₂ :: h₃ :: h₄ :: text =>
            match hexQuad h₁ h₂ h₃ h₄ with
            | none => none
            | some u => prepend u (unquote text)
          | _ => none
        else
          match shortEscape e with
          | none => none
          | some u => prepend u (unquote text)
    else if c < 0x20 then none
    else prepend c (unquote text)

def digits (text : List UInt16) : List UInt16 × List UInt16 := text.span isDigit

def natural (text : List UInt16) : Option (List UInt16 × List UInt16) :=
  match digits text with
  | ([],_) => none
  | (d :: e :: ds,text) => if d = unit '0' then none else some (d :: e :: ds,text)
  | found => some found

/-- A fraction, when there is one: a point and at least one digit. -/
def fraction (text : List UInt16) : Option (List UInt16 × List UInt16) :=
  match text with
  | [] => some ([],[])
  | c :: rest =>
    if c = unit '.' then
      match digits rest with
      | ([],_) => none
      | (ds,rest) => some (c :: ds,rest)
    else some ([],text)

def exponent (text : List UInt16) : Option (List UInt16 × List UInt16) :=
  match text with
  | [] => some ([],[])
  | c :: rest =>
    if c = unit 'e' ∨ c = unit 'E' then
      let (sign,rest) := match rest with
        | [] => ([],[])
        | s :: more => if s = unit '+' ∨ s = unit '-' then ([s],more) else ([],rest)
      match digits rest with
      | ([],_) => none
      | (ds,rest) => some (c :: sign ++ ds,rest)
    else some ([],text)

/-- A number is kept as its literal. -/
def number (sign text : List UInt16) : Option (Value × List UInt16) := do
  let (whole,text) ← natural text
  let (part,text) ← fraction text
  let (power,text) ← exponent text
  return (.number (sign ++ whole ++ part ++ power),text)

def literal (word : List UInt16) (value : Value) (text : List UInt16) :
    Option (Value × List UInt16) :=
  if word.isPrefixOf text then some (value,text.drop word.length) else none

mutual

/-- One value; the fuel bounds the number of values and separators read. -/
def value : Nat → List UInt16 → Option (Value × List UInt16)
  | 0, _ => none
  | fuel + 1, text =>
    match skip text with
    | [] => none
    | c :: text =>
      if c = unit '"' then (unquote text).map fun (string,text) => (.string string,text)
      else if c = unit '\x7b' then
        match skip text with
        | [] => none
        | d :: rest =>
          if d = unit '\x7d' then some (.object [],rest)
          else (members fuel (d :: rest)).map fun (found,text) => (.object found,text)
      else if c = unit '[' then
        match skip text with
        | [] => none
        | d :: rest =>
          if d = unit ']' then some (.array [],rest)
          else (elements fuel (d :: rest)).map fun (found,text) => (.array found,text)
      else if c = unit '-' then number [c] text
      else if isDigit c then number [] (c :: text)
      else if c = unit 'n' then literal (units "ull") .null text
      else if c = unit 't' then literal (units "rue") (.bool true) text
      else if c = unit 'f' then literal (units "alse") (.bool false) text
      else none

def members : Nat → List UInt16 → Option (List (List UInt16 × Value) × List UInt16)
  | 0, _ => none
  | fuel + 1, text =>
    match skip text with
    | [] => none
    | q :: text =>
      if q ≠ unit '"' then none
      else
        match unquote text with
        | none => none
        | some (key,text) =>
          match skip text with
          | [] => none
          | colon :: text =>
            if colon ≠ unit ':' then none
            else
              match value fuel text with
              | none => none
              | some (found,text) =>
                match skip text with
                | [] => none
                | c :: text =>
                  if c = unit ',' then
                    (members fuel text).map fun (more,text) => ((key,found) :: more,text)
                  else if c = unit '\x7d' then some ([(key,found)],text)
                  else none

def elements : Nat → List UInt16 → Option (List Value × List UInt16)
  | 0, _ => none
  | fuel + 1, text =>
    match value fuel text with
    | none => none
    | some (found,text) =>
      match skip text with
      | [] => none
      | c :: text =>
        if c = unit ',' then (elements fuel text).map fun (more,text) => (found :: more,text)
        else if c = unit ']' then some ([found],text)
        else none

end

/-- `JSON.parse`: one value, and nothing but blanks around it. -/
def parse (text : List UInt16) : Option Value :=
  match value (text.length + 2) text with
  | some (found,rest) => if skip rest = [] then some found else none
  | none => none

/-- What a library may write for a code unit of a string. -/
inductive Escapes (u : UInt16) : List UInt16 → Prop where
  | plain : ¬u < 0x20 → u ≠ unit '"' → u ≠ unit '\\' → Escapes u [u]
  | short (e : UInt16) : shortEscape e = some u → Escapes u [unit '\\',e]
  | unicode (h₁ h₂ h₃ h₄ : UInt16) : hexQuad h₁ h₂ h₃ h₄ = some u →
      Escapes u [unit '\\',unit 'u',h₁,h₂,h₃,h₄]

/-- How a library writes: what follows a comma and a colon, and each code unit. -/
structure Style where
  comma : List UInt16
  colon : List UInt16
  escape : UInt16 → List UInt16
  blanks : ∀ c ∈ comma ++ colon, isBlank c = true
  escapes : ∀ u, Escapes u (escape u)

def quote (style : Style) (s : List UInt16) : List UInt16 :=
  unit '"' :: s.flatMap style.escape ++ [unit '"']

/-- A key of a message is written as it is. -/
def writeKey (key : String) : List UInt16 := unit '"' :: units key ++ [unit '"']

/-- The members of an object of strings. -/
def writeMembers (style : Style) : List (String × List UInt16) → List UInt16
  | [] => []
  | [(key,s)] => writeKey key ++ unit ':' :: style.colon ++ quote style s
  | (key,s) :: m :: ms =>
    writeKey key ++ unit ':' :: style.colon ++ quote style s ++ unit ',' :: style.comma ++
      writeMembers style (m :: ms)

def writeObject (style : Style) (ms : List (String × List UInt16)) : List UInt16 :=
  unit '\x7b' :: writeMembers style ms ++ [unit '\x7d']

/-- What the written object stands for. -/
def stringMembers (ms : List (String × List UInt16)) : List (List UInt16 × Value) :=
  ms.map fun m => (units m.1,.string m.2)

/-- No character of the text needs an escape. -/
def Plain (text : List UInt16) : Prop := ∀ u ∈ text, ¬u < 0x20 ∧ u ≠ unit '"' ∧ u ≠ unit '\\'

instance (text : List UInt16) : Decidable (Plain text) :=
  List.decidableBAll (fun u => ¬u < 0x20 ∧ u ≠ unit '"' ∧ u ≠ unit '\\') text

theorem unquote_quote (text : List UInt16) : unquote (unit '"' :: text) = some ([],text) := by
  rw [unquote.eq_def]
  simp

theorem unquote_plain (u : UInt16) (text : List UInt16) (visible : ¬u < 0x20)
    (quote : u ≠ unit '"') (slash : u ≠ unit '\\') :
    unquote (u :: text) = prepend u (unquote text) := by
  rw [unquote.eq_def]
  simp [quote,slash,visible]

theorem unquote_escapes (escapes : Escapes u escape) (text : List UInt16) :
    unquote (escape ++ text) = prepend u (unquote text) := by
  cases escapes with
  | plain visible quote slash => exact unquote_plain u text visible quote slash
  | short e known =>
    have unknown : shortEscape (unit 'u') = none := by decide
    have other : e ≠ unit 'u' := by
      rintro rfl
      rw [unknown] at known
      contradiction
    have slash : unit '\\' ≠ unit '"' := by decide
    rw [List.cons_append,List.cons_append,List.nil_append,unquote.eq_def]
    simp [slash,other,known]
  | unicode h₁ h₂ h₃ h₄ known =>
    have slash : unit '\\' ≠ unit '"' := by decide
    rw [List.cons_append,unquote.eq_def]
    simp [slash,known]

theorem unquote_write (style : Style) (s text : List UInt16) :
    unquote (s.flatMap style.escape ++ unit '"' :: text) = some (s,text) := by
  induction s with
  | nil => exact unquote_quote text
  | cons u s ih =>
    rw [List.flatMap_cons,List.append_assoc,unquote_escapes (style.escapes u),ih]
    rfl

theorem unquote_key (key text : List UInt16) (plain : Plain key) :
    unquote (key ++ unit '"' :: text) = some (key,text) := by
  induction key with
  | nil => exact unquote_quote text
  | cons u key ih =>
    obtain ⟨⟨visible,quote,slash⟩,plain⟩ := List.forall_mem_cons.mp plain
    rw [List.cons_append,unquote_plain u _ visible quote slash,ih plain]
    rfl

theorem skip_blanks (bs text : List UInt16) (blanks : ∀ c ∈ bs, isBlank c = true) :
    skip (bs ++ text) = skip text :=
  List.dropWhile_append_of_pos blanks

theorem skip_cons (c : UInt16) (text : List UInt16) (solid : isBlank c = false) :
    skip (c :: text) = c :: text := by
  simp [skip,solid]

theorem value_string (style : Style) (fuel : Nat) (bs s text : List UInt16)
    (blanks : ∀ c ∈ bs, isBlank c = true) :
    value (fuel + 1) (bs ++ (quote style s ++ text)) = some (.string s,text) := by
  have skipped : skip (bs ++ (quote style s ++ text)) =
      unit '"' :: (s.flatMap style.escape ++ unit '"' :: text) := by
    rw [skip_blanks bs _ blanks,quote,List.cons_append,List.cons_append,
      skip_cons _ _ (by decide)]
    simp
  rw [value,skipped]
  simp [unquote_write]

theorem members_blanks (fuel : Nat) (bs text : List UInt16)
    (blanks : ∀ c ∈ bs, isBlank c = true) : members fuel (bs ++ text) = members fuel text := by
  cases fuel with
  | zero => rfl
  | succ fuel => rw [members,members,skip_blanks bs text blanks]

/-- A member, up to the separator behind it. -/
theorem members_member (style : Style) (fuel : Nat) (key : String) (s text : List UInt16)
    (plain : Plain (units key)) (c : UInt16) (solid : isBlank c = false) :
    members (fuel + 2) (writeKey key ++ unit ':' :: style.colon ++ quote style s ++ c :: text) =
      if c = unit ',' then
        (members (fuel + 1) text).map fun (more,text) => ((units key,.string s) :: more,text)
      else if c = unit '\x7d' then some ([(units key,.string s)],text)
      else none := by
  have colon : ∀ d ∈ style.colon, isBlank d = true := fun d inside =>
    style.blanks d (List.mem_append_right _ inside)
  have shape : writeKey key ++ unit ':' :: style.colon ++ quote style s ++ c :: text =
      unit '"' :: (units key ++ unit '"' :: unit ':' :: (style.colon ++ (quote style s ++ c :: text))) := by
    simp [writeKey]
  rw [shape,members,skip_cons _ _ (by decide)]
  simp only [ne_eq,not_true_eq_false,if_false,unquote_key _ _ plain,
    skip_cons (unit ':') _ (by decide),value_string style fuel style.colon s _ colon,
    skip_cons c text solid]

theorem members_write (style : Style) (ms : List (String × List UInt16)) (fuel : Nat)
    (text : List UInt16) (some_ : ms ≠ []) (enough : ms.length + 1 ≤ fuel)
    (plain : ∀ m ∈ ms, Plain (units m.1)) :
    members fuel (writeMembers style ms ++ unit '\x7d' :: text) = some (stringMembers ms,text) := by
  induction ms generalizing fuel with
  | nil => exact absurd rfl some_
  | cons m ms ih =>
    obtain ⟨key,s⟩ := m
    obtain ⟨fuel,rfl⟩ : ∃ f, fuel = f + 2 := ⟨fuel - 2,by simp at enough; omega⟩
    obtain ⟨here,plain⟩ := List.forall_mem_cons.mp plain
    have brace : unit '\x7d' ≠ unit ',' := by decide
    cases ms with
    | nil =>
      rw [writeMembers,members_member style fuel key s text here (unit '\x7d') (by decide)]
      simp [brace,stringMembers]
    | cons n ms =>
      have comma : ∀ d ∈ style.comma, isBlank d = true := fun d inside =>
        style.blanks d (List.mem_append_left _ inside)
      have more := ih (fuel + 1) (by simp) (by simp at enough ⊢; omega) plain
      have read := members_member style fuel key s
        (style.comma ++ (writeMembers style (n :: ms) ++ unit '\x7d' :: text)) here (unit ',')
        (by decide)
      rw [if_pos rfl,members_blanks _ _ _ comma,more] at read
      simpa [writeMembers,stringMembers] using read

theorem length_writeMembers (style : Style) (ms : List (String × List UInt16)) :
    ms.length ≤ (writeMembers style ms).length := by
  induction ms with
  | nil => simp [writeMembers]
  | cons m ms ih =>
    cases ms with
    | nil => simp [writeMembers,writeKey]
    | cons n ms => simp [writeMembers,writeKey] at ih ⊢; omega

/-- Parsing what a library wrote gives the strings back. -/
theorem parse_write (style : Style) (ms : List (String × List UInt16)) (some_ : ms ≠ [])
    (plain : ∀ m ∈ ms, Plain (units m.1)) :
    parse (writeObject style ms) = some (.object (stringMembers ms)) := by
  have long := length_writeMembers style ms
  have start : ∃ text, writeMembers style ms = unit '"' :: text := by
    cases ms with
    | nil => contradiction
    | cons m ms => cases ms <;> exact ⟨_,rfl⟩
  obtain ⟨text,eq⟩ := start
  have read := members_write style ms ((writeMembers style ms).length + 3) [] some_ (by omega) plain
  have quote : unit '"' ≠ unit '\x7d' := by decide
  have brace : unit '\x7b' ≠ unit '"' := by decide
  have found : value ((writeMembers style ms).length + 4) (writeObject style ms) =
      some (.object (stringMembers ms),[]) := by
    rw [writeObject,List.cons_append,value,skip_cons _ _ (by decide)]
    rw [eq] at read ⊢
    rw [List.cons_append,List.length_cons] at read
    rw [List.cons_append]
    simp [skip_cons (unit '"') _ (by decide),quote,brace,read]
  have size : (writeObject style ms).length + 2 = (writeMembers style ms).length + 4 := by
    simp [writeObject]
  rw [parse,size,found]
  rfl

end Wschat.UnitJson
