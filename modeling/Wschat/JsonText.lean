import Mathlib
import Wschat.Json

/-! A JSON reader, and a writer whose spacing and string escapes are a parameter. Reading
undoes writing on flat objects for every writer whose strings the reader takes back. -/
namespace Wschat.Json

variable {σ τ : Type}

def isBlank (c : Char) : Bool := c == ' ' || c == '\n' || c == '\r' || c == '\t'

def skip : List Char → List Char := List.dropWhile isBlank

def hexDigit (c : Char) : Option Nat :=
  if c.isDigit then some (c.toNat - 48)
  else if 'a' ≤ c ∧ c ≤ 'f' then some (c.toNat - 87)
  else if 'A' ≤ c ∧ c ≤ 'F' then some (c.toNat - 55)
  else none

def hexQuad (a b c d : Char) : Option Nat := do
  return ((← hexDigit a) * 16 + (← hexDigit b)) * 256 + (← hexDigit c) * 16 + (← hexDigit d)

def shortEscape (c : Char) : Option Char :=
  if c = '"' ∨ c = '\\' ∨ c = '/' then some c
  else if c = 'b' then some (Char.ofNat 8)
  else if c = 'f' then some (Char.ofNat 12)
  else if c = 'n' then some '\n'
  else if c = 'r' then some '\r'
  else if c = 't' then some '\t'
  else none

def prepend (c : Char) (rest : Option (List Char × List Char)) : Option (List Char × List Char) :=
  rest.map fun (chars,left) => (c :: chars,left)

/-- The characters of a string up to its closing quote, and the text after it. A surrogate
is accepted only as half of a pair. -/
def unquote : List Char → Option (List Char × List Char)
  | [] => none
  | c :: text =>
    if c = '"' then some ([],text)
    else if c = '\\' then
      match text with
      | [] => none
      | e :: text =>
        if e = 'u' then
          match text with
          | h₁ :: h₂ :: h₃ :: h₄ :: text =>
            match hexQuad h₁ h₂ h₃ h₄ with
            | none => none
            | some unit =>
              if unit < 0xD800 ∨ 0xDFFF < unit then prepend (Char.ofNat unit) (unquote text)
              else if 0xDBFF < unit then none
              else
                match text with
                | '\\' :: 'u' :: l₁ :: l₂ :: l₃ :: l₄ :: text =>
                  match hexQuad l₁ l₂ l₃ l₄ with
                  | none => none
                  | some low =>
                    if 0xDC00 ≤ low ∧ low ≤ 0xDFFF then
                      prepend (Char.ofNat (0x10000 + (unit - 0xD800) * 0x400 + (low - 0xDC00)))
                        (unquote text)
                    else none
                | _ => none
          | _ => none
        else
          match shortEscape e with
          | none => none
          | some c => prepend c (unquote text)
    else if c.toNat < 0x20 then none
    else prepend c (unquote text)

def digits (text : List Char) : List Char × List Char := text.span Char.isDigit

/-- A fraction, when there is one: a point and at least one digit. -/
def fraction : List Char → Option (List Char × List Char)
  | '.' :: text =>
    match digits text with
    | ([],_) => none
    | (ds,text) => some ('.' :: ds,text)
  | text => some ([],text)

def exponent : List Char → Option (List Char × List Char)
  | c :: text =>
    if c = 'e' ∨ c = 'E' then
      let (sign,text) := match text with
        | '+' :: text => (['+'],text)
        | '-' :: text => (['-'],text)
        | text => ([],text)
      match digits text with
      | ([],_) => none
      | (ds,text) => some (c :: sign ++ ds,text)
    else some ([],c :: text)
  | [] => some ([],[])

def natural (text : List Char) : Option (List Char × List Char) :=
  match digits text with
  | ([],_) => none
  | ('0' :: _ :: _,_) => none
  | found => some found

def number (negative : Bool) (text : List Char) : Option (Json σ × List Char) := do
  let (whole,text) ← natural text
  let (part,text) ← fraction text
  let (power,text) ← exponent text
  let size := Nat.ofDigitChars 10 whole 0
  if part = [] ∧ power = [] then return (.int (if negative then -size else size),text)
  else return (.real (String.ofList ((if negative then ['-'] else []) ++ whole ++ part ++ power)),text)

def literal (word : List Char) (value : Json σ) (text : List Char) : Option (Json σ × List Char) :=
  if word.isPrefixOf text then some (value,text.drop word.length) else none

/-- How a library reads a string behind its opening quote, and a word that is no JSON. -/
structure Reader (σ : Type) where
  string : List Char → Option (σ × List Char)
  special : List Char → Option (Json σ × List Char)

section Values

variable (reader : Reader σ)

mutual

/-- One value; the fuel bounds the number of values and separators read. -/
def value : Nat → List Char → Option (Json σ × List Char)
  | 0, _ => none
  | fuel + 1, text =>
    match skip text with
    | [] => none
    | c :: text =>
      if c = '"' then (reader.string text).map fun (found,text) => (.str found,text)
      else if c = '{' then
        match skip text with
        | '}' :: text => some (.obj [],text)
        | text => (members fuel text).map fun (found,text) => (.obj found,text)
      else if c = '[' then
        match skip text with
        | ']' :: text => some (.arr [],text)
        | text => (elements fuel text).map fun (found,text) => (.arr found,text)
      else if c = '-' then (number true text).or (reader.special (c :: text))
      else if c.isDigit then number false (c :: text)
      else if c = 'n' then literal ['u','l','l'] .null text
      else if c = 't' then literal ['r','u','e'] (.bool true) text
      else if c = 'f' then literal ['a','l','s','e'] (.bool false) text
      else reader.special (c :: text)

def members : Nat → List Char → Option (List (σ × Json σ) × List Char)
  | 0, _ => none
  | fuel + 1, text =>
    match skip text with
    | '"' :: text =>
      match reader.string text with
      | none => none
      | some (key,text) =>
        match skip text with
        | ':' :: text =>
          match value fuel text with
          | none => none
          | some (found,text) =>
            match skip text with
            | ',' :: text => (members fuel text).map fun (more,text) => ((key,found) :: more,text)
            | '}' :: text => some ([(key,found)],text)
            | _ => none
        | _ => none
    | _ => none

def elements : Nat → List Char → Option (List (Json σ) × List Char)
  | 0, _ => none
  | fuel + 1, text =>
    match value fuel text with
    | none => none
    | some (found,text) =>
      match skip text with
      | ',' :: text => (elements fuel text).map fun (more,text) => (found :: more,text)
      | ']' :: text => some ([found],text)
      | _ => none

end

/-- A whole text: one value, and nothing but blanks around it. -/
def Reader.parse (text : String) : Option (Json σ) :=
  match value reader (text.length + 2) text.toList with
  | some (found,rest) => if skip rest = [] then some found else none
  | none => none

end Values

/-- The reader `q` takes whatever `r` takes, with its own strings. -/
structure Reader.Extends (r : Reader σ) (q : Reader τ) (f : σ → τ) : Prop where
  string : ∀ text s rest, r.string text = some (s,rest) → q.string text = some (f s,rest)
  special : ∀ text j rest, r.special text = some (j,rest) → q.special text = some (j.map f,rest)

section Extension

variable {r : Reader σ} {q : Reader τ} {f : σ → τ}

theorem number_map (f : σ → τ) (negative : Bool) (text : List Char) :
    number (σ := τ) negative text = (number (σ := σ) negative text).map fun (j,rest) => (j.map f,rest) := by
  simp only [number,Option.bind_eq_bind,Option.map_bind,Function.comp_def]
  congr; funext whole
  congr; funext part
  congr; funext power
  split <;> rfl

theorem literal_map {word : List Char} {j : Json σ} {found : Json σ}
    (read : literal word j text = some (found,rest)) :
    literal word (j.map f) text = some (found.map f,rest) := by
  unfold literal at read ⊢
  split at read
  · obtain ⟨rfl,rfl⟩ := Prod.mk.inj (Option.some.inj read)
    rw [if_pos (by assumption)]
  · contradiction

/-- With this fuel. -/
structure Follows (r : Reader σ) (q : Reader τ) (f : σ → τ) (fuel : Nat) : Prop where
  value : ∀ text j rest, value r fuel text = some (j,rest) → value q fuel text = some (j.map f,rest)
  members : ∀ text ms rest, members r fuel text = some (ms,rest) →
    members q fuel text = some (mapMembers f ms,rest)
  elements : ∀ text js rest, elements r fuel text = some (js,rest) →
    elements q fuel text = some (mapElements f js,rest)

theorem value_follows (extends_ : r.Extends q f) (follows : Follows r q f fuel) (text : List Char)
    (j : Json σ) (rest : List Char) (read : value r (fuel + 1) text = some (j,rest)) :
    value q (fuel + 1) text = some (j.map f,rest) := by
  rw [value] at read ⊢
  cases left : skip text with
  | nil => simp [left] at read
  | cons c text =>
  simp only [left] at read ⊢
  by_cases quoted : c = '"'
  · simp only [if_pos quoted] at read ⊢
    obtain ⟨⟨s,more⟩,found,same⟩ := Option.map_eq_some_iff.mp read
    obtain ⟨rfl,rfl⟩ := Prod.mk.inj same
    simp [extends_.string _ _ _ found,map]
  by_cases brace : c = '{'
  · simp only [if_neg quoted,if_pos brace] at read ⊢
    split at read
    · obtain ⟨rfl,rfl⟩ := Prod.mk.inj (Option.some.inj read)
      simp [*,map,mapMembers]
    · obtain ⟨⟨ms,more⟩,found,same⟩ := Option.map_eq_some_iff.mp read
      obtain ⟨rfl,rfl⟩ := Prod.mk.inj same
      simp [follows.members _ _ _ found,map]
  by_cases bracket : c = '['
  · simp only [if_neg quoted,if_neg brace,if_pos bracket] at read ⊢
    split at read
    · obtain ⟨rfl,rfl⟩ := Prod.mk.inj (Option.some.inj read)
      simp [*,map,mapElements]
    · obtain ⟨⟨js,more⟩,found,same⟩ := Option.map_eq_some_iff.mp read
      obtain ⟨rfl,rfl⟩ := Prod.mk.inj same
      simp [follows.elements _ _ _ found,map]
  simp only [if_neg quoted,if_neg brace,if_neg bracket] at read ⊢
  by_cases minus : c = '-'
  · simp only [if_pos minus] at read ⊢
    rw [number_map (σ := σ) f]
    cases counted : number (σ := σ) true text with
    | some found =>
      obtain rfl : found = (j,rest) := by simpa [counted] using read
      rfl
    | none => simpa [counted] using extends_.special _ _ _ (by simpa [counted] using read)
  by_cases digit : c.isDigit = true
  · simp only [if_neg minus,if_pos digit] at read ⊢
    rw [number_map (σ := σ) f,read]
    rfl
  simp only [if_neg minus,if_neg digit] at read ⊢
  split at read
  · simpa [*,map] using literal_map (f := f) read
  split at read
  · simpa [*,map] using literal_map (f := f) read
  split at read
  · simpa [*,map] using literal_map (f := f) read
  · simpa [*] using extends_.special _ _ _ read

theorem members_follows (extends_ : r.Extends q f) (follows : Follows r q f fuel) (text : List Char)
    (ms : List (σ × Json σ)) (rest : List Char) (read : members r (fuel + 1) text = some (ms,rest)) :
    members q (fuel + 1) text = some (mapMembers f ms,rest) := by
  rw [members] at read ⊢
  split at read
  · split at read
    · contradiction
    next key left named =>
    simp only [extends_.string _ _ _ named]
    split at read
    · split at read
      · contradiction
      next j left found =>
      simp only [follows.value _ _ _ found]
      split at read
      · obtain ⟨⟨more,end_⟩,others,same⟩ := Option.map_eq_some_iff.mp read
        obtain ⟨rfl,rfl⟩ := Prod.mk.inj same
        simp [follows.members _ _ _ others,mapMembers]
      · obtain ⟨rfl,rfl⟩ := Prod.mk.inj (Option.some.inj read)
        simp [mapMembers]
      · contradiction
    · contradiction
  · contradiction

theorem elements_follows (follows : Follows r q f fuel) (text : List Char) (js : List (Json σ))
    (rest : List Char) (read : elements r (fuel + 1) text = some (js,rest)) :
    elements q (fuel + 1) text = some (mapElements f js,rest) := by
  rw [elements] at read ⊢
  cases found : value r fuel text with
  | none => simp [found] at read
  | some result =>
  obtain ⟨j,left⟩ := result
  simp only [found,follows.value _ _ _ found] at read ⊢
  split at read
  · obtain ⟨⟨more,end_⟩,others,same⟩ := Option.map_eq_some_iff.mp read
    obtain ⟨rfl,rfl⟩ := Prod.mk.inj same
    simp [follows.elements _ _ _ others,mapElements]
  · obtain ⟨rfl,rfl⟩ := Prod.mk.inj (Option.some.inj read)
    simp [mapElements]
  · contradiction

theorem Reader.Extends.follows (extends_ : r.Extends q f) (fuel : Nat) : Follows r q f fuel := by
  induction fuel with
  | zero => exact ⟨by simp [value],by simp [members],by simp [elements]⟩
  | succ fuel ih => exact ⟨value_follows extends_ ih,members_follows extends_ ih,elements_follows ih⟩

/-- What the stricter reader takes as a whole text, the other one reads alike. -/
theorem Reader.Extends.parse (extends_ : r.Extends q f) (parsed : r.parse text = some j) :
    q.parse text = some (j.map f) := by
  unfold Reader.parse at parsed ⊢
  split at parsed
  · next found rest read =>
    simp only [(extends_.follows _).value _ _ _ read]
    split at parsed
    · obtain rfl := Option.some.inj parsed
      exact if_pos (by assumption)
    · contradiction
  · contradiction

end Extension

/-- Strings of characters, and JSON alone. -/
def strict : Reader String where
  string := fun text => (unquote text).map fun (chars,text) => (String.ofList chars,text)
  special := fun _ => none

def parse (text : String) : Option Json := strict.parse text

/-- How a library writes: what follows a comma and a colon, and a string. -/
structure Layout (σ : Type) where
  comma : List Char
  colon : List Char
  quote : σ → List Char
  blanks : ∀ c ∈ comma ++ colon, isBlank c = true

def writeNat (n : Nat) : List Char := Nat.toDigits 10 n

def writeInt : Int → List Char
  | .ofNat n => writeNat n
  | .negSucc n => '-' :: writeNat (n + 1)

mutual

def write (layout : Layout σ) : Json σ → List Char
  | .null => ['n','u','l','l']
  | .bool true => ['t','r','u','e']
  | .bool false => ['f','a','l','s','e']
  | .int n => writeInt n
  | .real digits => digits.toList
  | .str s => layout.quote s
  | .arr xs => '[' :: writeElements layout xs ++ [']']
  | .obj ms => '{' :: writeMembers layout ms ++ ['}']

def writeElements (layout : Layout σ) : List (Json σ) → List Char
  | [] => []
  | [x] => write layout x
  | x :: y :: xs => write layout x ++ ',' :: layout.comma ++ writeElements layout (y :: xs)

def writeMembers (layout : Layout σ) : List (σ × Json σ) → List Char
  | [] => []
  | [(key,x)] => layout.quote key ++ ':' :: layout.colon ++ write layout x
  | (key,x) :: m :: ms =>
    layout.quote key ++ ':' :: layout.colon ++ write layout x ++ ',' :: layout.comma ++
      writeMembers layout (m :: ms)

end

/-- A layout that escapes one character at a time. The strict reader takes every escape back. -/
structure Style where
  comma : List Char
  colon : List Char
  escape : Char → List Char
  blanks : ∀ c ∈ comma ++ colon, isBlank c = true
  unescape : ∀ c text, unquote (escape c ++ text) = prepend c (unquote text)

def quote (style : Style) (s : String) : List Char :=
  '"' :: s.toList.flatMap style.escape ++ ['"']

def Style.layout (style : Style) : Layout String where
  comma := style.comma
  colon := style.colon
  quote := quote style
  blanks := style.blanks

@[simp] theorem layout_comma (style : Style) : style.layout.comma = style.comma := rfl

@[simp] theorem layout_colon (style : Style) : style.layout.colon = style.colon := rfl

@[simp] theorem layout_quote (style : Style) (s : String) : style.layout.quote s = quote style s := rfl

/-- What is written for a string the reader takes as `f` has it. -/
def Reads (layout : Layout σ) (reader : Reader τ) (f : σ → Option τ) : Prop :=
  ∀ s text, ∃ body, layout.quote s ++ text = '"' :: body ∧
    reader.string body = (f s).map fun t => (t,text)

theorem skip_blanks (bs text : List Char) (blanks : ∀ c ∈ bs, isBlank c = true) :
    skip (bs ++ text) = skip text :=
  List.dropWhile_append_of_pos blanks

@[simp] theorem skip_cons (c : Char) (text : List Char) (solid : isBlank c = false) :
    skip (c :: text) = c :: text := by
  simp [skip,solid]

theorem unquote_escape (style : Style) (chars text : List Char) :
    unquote (chars.flatMap style.escape ++ '"' :: text) = some (chars,text) := by
  induction chars with
  | nil =>
    rw [List.flatMap_nil,List.nil_append,unquote.eq_def]
    simp
  | cons c chars ih => simp [style.unescape,ih,prepend]

theorem reads_quote (style : Style) : Reads style.layout strict some := fun s text =>
  ⟨s.toList.flatMap style.escape ++ '"' :: text,by simp [Style.layout,quote],by
    simp [strict,unquote_escape style s.toList text]⟩

/-- The text after a value inside an object. -/
def Stops (text : List Char) : Prop := ∃ c rest, text = c :: rest ∧ (c = ',' ∨ c = '}')

theorem digits_writeNat (n : Nat) (text : List Char) (stops : Stops text) :
    digits (writeNat n ++ text) = (writeNat n,text) := by
  obtain ⟨c,rest,rfl,close⟩ := stops
  have all : ∀ d ∈ writeNat n, d.isDigit = true := fun d member =>
    Nat.isDigit_of_mem_toDigits (by decide) (by decide) member
  have stop : c.isDigit = false := by rcases close with rfl | rfl <;> decide
  rw [digits,List.span_eq_takeWhile_dropWhile,List.takeWhile_append_of_pos all,
    List.dropWhile_append_of_pos all]
  simp [stop]

theorem writeNat_leading (n : Nat) : ∀ d more, writeNat n ≠ '0' :: d :: more := by
  induction n using Nat.strong_induction_on with
  | _ n ih =>
    intro d more eq
    by_cases small : n < 10
    · simp [writeNat,Nat.toDigits_of_lt_base small] at eq
    · have split : writeNat n = writeNat (n / 10) ++ [(n % 10).digitChar] :=
        Nat.toDigits_of_base_le (by decide) (by omega)
      cases front : writeNat (n / 10) with
      | nil => exact Nat.toDigits_ne_nil front
      | cons e tail =>
        rw [split,front,List.cons_append,List.cons.injEq] at eq
        obtain ⟨rfl,eq⟩ := eq
        cases tail with
        | cons f tail => exact ih (n / 10) (by omega) f tail front
        | nil =>
          have zero : n / 10 = 0 := by
            have := congrArg (fun ds => Nat.ofDigitChars 10 ds 0) front
            simpa [writeNat,Nat.ofDigitChars_ten_toDigits,Nat.ofDigitChars_cons] using this
          omega

theorem natural_writeNat (n : Nat) (text : List Char) (stops : Stops text) :
    natural (writeNat n ++ text) = some (writeNat n,text) := by
  rw [natural,digits_writeNat n text stops]
  split
  · next eq => simp only [Prod.mk.injEq] at eq; exact absurd eq.1 Nat.toDigits_ne_nil
  · next eq => simp only [Prod.mk.injEq] at eq; exact absurd eq.1 (writeNat_leading n _ _)
  · rfl

theorem number_writeNat (negative : Bool) (n : Nat) (text : List Char) (stops : Stops text) :
    number (σ := σ) negative (writeNat n ++ text) =
      some (.int (if negative then -(n : Int) else n),text) := by
  have whole := natural_writeNat n text stops
  obtain ⟨c,rest,rfl,close⟩ := stops
  have part : fraction (c :: rest) = some ([],c :: rest) := by
    rcases close with rfl | rfl <;> rfl
  have power : exponent (c :: rest) = some ([],c :: rest) := by
    rcases close with rfl | rfl <;> rfl
  have size : Nat.ofDigitChars 10 (writeNat n) 0 = n := Nat.ofDigitChars_ten_toDigits
  simp [number,whole,part,power,size]

/-- Strings, integers and null, the members of every message. -/
def Scalar : Json σ → Prop
  | .str _ | .int _ | .null => True
  | .bool _ | .real _ | .arr _ | .obj _ => False

section Written

variable {reader : Reader τ} {layout : Layout σ} {f : σ → Option τ}

theorem value_blanks (fuel : Nat) (bs text : List Char) (blanks : ∀ c ∈ bs, isBlank c = true) :
    value reader fuel (bs ++ text) = value reader fuel text := by
  cases fuel with
  | zero => rfl
  | succ fuel => rw [value,value,skip_blanks bs text blanks]

theorem members_blanks (fuel : Nat) (bs text : List Char) (blanks : ∀ c ∈ bs, isBlank c = true) :
    members reader fuel (bs ++ text) = members reader fuel text := by
  cases fuel with
  | zero => rfl
  | succ fuel => rw [members,members,skip_blanks bs text blanks]

theorem value_digit (fuel : Nat) (d : Char) (text : List Char) (digit : d.isDigit = true) :
    value reader (fuel + 1) (d :: text) = number false (d :: text) := by
  have solid : isBlank d = false := by
    by_contra blank
    simp only [isBlank,Bool.not_eq_false,Bool.or_eq_true,beq_iff_eq] at blank
    rcases blank with ((rfl | rfl) | rfl) | rfl <;> simp at digit
  have other (c : Char) (letter : c.isDigit = false) : d ≠ c := by
    rintro rfl
    simp [letter] at digit
  rw [value,skip_cons d text solid]
  simp [digit,other '"' rfl,other '{' rfl,other '[' rfl,other '-' rfl]

theorem value_write (reads : Reads layout reader f) (fuel : Nat) (j : Json σ) (text : List Char)
    (scalar : Scalar j) (stops : Stops text) :
    value reader (fuel + 1) (write layout j ++ text) = (j.traverse f).map fun k => (k,text) := by
  cases j with
  | null =>
    rw [write,List.cons_append,value,skip_cons 'n' _ rfl]
    simp [literal,traverse]
  | str s =>
    obtain ⟨body,eq,read⟩ := reads s text
    rw [write,eq,value,skip_cons '"' body rfl]
    simp [read,traverse,Function.comp_def]
  | int n =>
    cases n with
    | ofNat n =>
      have read := number_writeNat (σ := τ) false n text stops
      cases ds : writeNat n with
      | nil => exact absurd ds Nat.toDigits_ne_nil
      | cons d more =>
        have digit : d.isDigit = true :=
          Nat.isDigit_of_mem_toDigits (b := 10) (n := n) (by decide) (by decide)
            (by simp [writeNat] at ds; simp [ds])
        rw [ds] at read
        simpa [write,writeInt,ds,value_digit fuel d _ digit,traverse] using read
    | negSucc n =>
      have read := number_writeNat (σ := τ) true (n + 1) text stops
      rw [write,writeInt,List.cons_append,value,skip_cons '-' _ rfl]
      simp [read,Int.negSucc_eq,traverse]
  | bool | real | arr | obj => exact scalar.elim

theorem members_write (reads : Reads layout reader f) (ms : List (σ × Json σ)) (fuel : Nat)
    (text : List Char) (some_ : ms ≠ []) (enough : ms.length + 1 ≤ fuel)
    (scalars : ∀ m ∈ ms, Scalar m.2) :
    members reader fuel (writeMembers layout ms ++ '}' :: text) =
      (traverseMembers f ms).map fun ns => (ns,text) := by
  induction ms generalizing fuel with
  | nil => exact absurd rfl some_
  | cons m ms ih =>
    obtain ⟨key,x⟩ := m
    obtain ⟨fuel,rfl⟩ : ∃ f, fuel = f + 2 := ⟨fuel - 2,by simp at enough; omega⟩
    obtain ⟨scalar,scalars⟩ := List.forall_mem_cons.mp scalars
    have blanks : ∀ c ∈ layout.colon, isBlank c = true := fun c member =>
      layout.blanks c (by simp [member])
    cases ms with
    | nil =>
      obtain ⟨body,eq,read⟩ := reads key (':' :: layout.colon ++ (write layout x ++ '}' :: text))
      have found := value_write reads fuel x ('}' :: text) scalar ⟨'}',text,rfl,.inr rfl⟩
      have shape : writeMembers layout [(key,x)] ++ '}' :: text = '"' :: body := by
        simp [writeMembers,← eq]
      rw [shape,members,skip_cons '"' body rfl]
      cases named : f key with
      | none => simp [read,named,traverseMembers]
      | some name =>
        cases y : x.traverse f <;>
          simp [read,named,value_blanks _ _ _ blanks,found,y,traverseMembers,
            show isBlank ':' = false from rfl,show isBlank '}' = false from rfl]
    | cons n ms =>
      obtain ⟨body,eq,read⟩ := reads key (':' :: layout.colon ++
        (write layout x ++ ',' :: (layout.comma ++ (writeMembers layout (n :: ms) ++ '}' :: text))))
      have found := value_write reads fuel x
        (',' :: (layout.comma ++ (writeMembers layout (n :: ms) ++ '}' :: text))) scalar
        ⟨',',_,rfl,.inl rfl⟩
      have more := ih (fuel + 1) (by simp) (by simp at enough ⊢; omega) scalars
      have comma : ∀ c ∈ layout.comma, isBlank c = true := fun c member =>
        layout.blanks c (by simp [member])
      have shape : writeMembers layout ((key,x) :: n :: ms) ++ '}' :: text = '"' :: body := by
        simp [writeMembers,← eq]
      rw [shape,members,skip_cons '"' body rfl,traverseMembers]
      cases named : f key with
      | none => simp [read,named]
      | some name =>
        cases y : x.traverse f with
        | none =>
          simp [read,named,value_blanks _ _ _ blanks,found,y,show isBlank ':' = false from rfl]
        | some value =>
          cases rest : traverseMembers f (n :: ms) <;>
            simp [read,named,value_blanks _ _ _ blanks,found,y,members_blanks _ _ _ comma,more,rest,
              show isBlank ':' = false from rfl,show isBlank ',' = false from rfl]

theorem length_writeMembers (layout : Layout σ) (ms : List (σ × Json σ)) :
    ms.length ≤ (writeMembers layout ms).length := by
  induction ms with
  | nil => simp [writeMembers]
  | cons m ms ih =>
    cases ms with
    | nil => simp [writeMembers]; omega
    | cons n ms => simp [writeMembers] at ih ⊢; omega

/-- Reading what a library wrote gives the object with the strings that the reader takes. -/
theorem parse_written (reads : Reads layout reader f) (ms : List (σ × Json σ))
    (scalars : ∀ m ∈ ms, Scalar m.2) :
    reader.parse (String.ofList (write layout (.obj ms))) = (Json.obj ms).traverse f := by
  have long := length_writeMembers layout ms
  simp only [Reader.parse,write,String.toList_ofList,String.length_ofList,traverse]
  cases ms with
  | nil => simp [writeMembers,value,skip,isBlank,traverseMembers]
  | cons m ms =>
    obtain ⟨key,x⟩ := m
    obtain ⟨body,eq⟩ : ∃ body, writeMembers layout ((key,x) :: ms) ++ ['}'] = '"' :: body := by
      cases ms with
      | nil =>
        obtain ⟨body,eq,-⟩ := reads key (':' :: layout.colon ++ (write layout x ++ ['}']))
        exact ⟨body,by simp [writeMembers,← eq]⟩
      | cons n ms =>
        obtain ⟨body,eq,-⟩ := reads key (':' :: layout.colon ++
          (write layout x ++ ',' :: (layout.comma ++ (writeMembers layout (n :: ms) ++ ['}']))))
        exact ⟨body,by simp [writeMembers,← eq]⟩
    have read := members_write reads ((key,x) :: ms) (body.length + 3) [] (by simp) ?_ scalars
    · rw [eq] at read
      cases found : traverseMembers f ((key,x) :: ms) <;>
        simp [eq,value,read,found,skip,isBlank]
    · have := congrArg List.length eq
      simp only [List.length_append,List.length_cons,List.length_nil] at this long ⊢
      omega

end Written

/-- Reading what a library wrote gives the object back. -/
theorem parse_write (style : Style) (ms : List (String × Json))
    (scalars : ∀ m ∈ ms, Scalar m.2) :
    parse (String.ofList (write style.layout (.obj ms))) = some (.obj ms) := by
  rw [parse,parse_written (reads_quote style) ms scalars,traverse_some]

/-- Quotes, backslashes and control characters, the escapes no JSON writer can leave out. -/
def escapeControl (c : Char) : List Char :=
  if c = '"' then ['\\','"']
  else if c = '\\' then ['\\','\\']
  else if c.toNat = 8 then ['\\','b']
  else if c.toNat = 9 then ['\\','t']
  else if c.toNat = 10 then ['\\','n']
  else if c.toNat = 12 then ['\\','f']
  else if c.toNat = 13 then ['\\','r']
  else if c.toNat < 32 then
    ['\\','u','0','0',(c.toNat / 16).digitChar,(c.toNat % 16).digitChar]
  else [c]

/-- The digits of an escaped code unit. -/
def fourDigits (n : Nat) : List Char :=
  [(n / 4096).digitChar,(n / 256 % 16).digitChar,(n / 16 % 16).digitChar,(n % 16).digitChar]

theorem hexQuad_fourDigits (small : n < 0x10000) :
    hexQuad (n / 4096).digitChar (n / 256 % 16).digitChar (n / 16 % 16).digitChar (n % 16).digitChar =
      some n := by
  have digit : ∀ d < 16, hexDigit d.digitChar = some d := by decide
  simp only [hexQuad,digit (n / 4096) (by omega),digit (n / 256 % 16) (by omega),
    digit (n / 16 % 16) (by omega),digit (n % 16) (by omega),Option.bind_eq_bind,Option.bind_some,
    Option.pure_def,Option.some.injEq]
  omega

theorem unquote_short (e c : Char) (text : List Char) (unicode : e ≠ 'u')
    (known : shortEscape e = some c) :
    unquote ('\\' :: e :: text) = prepend c (unquote text) := by
  rw [unquote.eq_def]
  simp [unicode,known]

theorem unquote_unicode (h₁ h₂ h₃ h₄ : Char) (unit : Nat) (text : List Char)
    (known : hexQuad h₁ h₂ h₃ h₄ = some unit) (plain : unit < 0xD800 ∨ 0xDFFF < unit) :
    unquote ('\\' :: 'u' :: h₁ :: h₂ :: h₃ :: h₄ :: text) =
      prepend (Char.ofNat unit) (unquote text) := by
  rw [unquote.eq_def]
  simp [known,plain]

theorem unquote_plain (c : Char) (text : List Char) (quote : c ≠ '"') (slash : c ≠ '\\')
    (visible : 32 ≤ c.toNat) : unquote (c :: text) = prepend c (unquote text) := by
  rw [unquote.eq_def]
  simp [quote,slash,visible]

theorem unescape_control (c : Char) (text : List Char) :
    unquote (escapeControl c ++ text) = prepend c (unquote text) := by
  have code (n : Nat) (eq : c.toNat = n) : c = Char.ofNat n := by
    rw [← eq,Char.ofNat_toNat]
  unfold escapeControl
  split
  case isTrue eq => subst eq; exact unquote_short '"' '"' text (by decide) rfl
  split
  case isTrue eq => subst eq; exact unquote_short '\\' '\\' text (by decide) rfl
  split
  case isTrue eq => rw [code 8 eq]; exact unquote_short 'b' _ text (by decide) rfl
  split
  case isTrue eq => rw [code 9 eq]; exact unquote_short 't' _ text (by decide) rfl
  split
  case isTrue eq => rw [code 10 eq]; exact unquote_short 'n' _ text (by decide) rfl
  split
  case isTrue eq => rw [code 12 eq]; exact unquote_short 'f' _ text (by decide) rfl
  split
  case isTrue eq => rw [code 13 eq]; exact unquote_short 'r' _ text (by decide) rfl
  split
  case isTrue low =>
    have known : ∀ n < 32,
        hexQuad '0' '0' (n / 16).digitChar (n % 16).digitChar = some n := by decide
    have read := unquote_unicode _ _ _ _ c.toNat text (known c.toNat low) (.inl (by omega))
    rwa [Char.ofNat_toNat] at read
  case isFalse quote slash _ _ _ _ _ visible =>
    exact unquote_plain c text quote slash (by omega)

/-- No space between tokens and no escape beyond the necessary ones. -/
def compact : Style where
  comma := []
  colon := []
  escape := escapeControl
  blanks := by simp
  unescape := unescape_control

def print (style : Style) (j : Json) : String := String.ofList (write style.layout j)

example : (parse "\x7b\"contents\": \"a\\u00e9\\n\", \"timestamp\": -12\x7d").map (print compact) =
    some "\x7b\"contents\":\"aé\\n\",\"timestamp\":-12\x7d" := by
  decide +kernel

end Wschat.Json
