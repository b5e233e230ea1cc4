import Wschat.JsonText
import Wschat.Utf16

/-! The strings of Python and its `json` module. A string is a list of code points, so it may
hold half of a surrogate pair, which `json.loads` takes from an escape and `json.dumps` writes
as one. -/
namespace Wschat.Py

abbrev CodePoint := Fin 0x110000

structure Str where
  points : List CodePoint
  deriving DecidableEq, Repr

def point (c : Char) : CodePoint := ⟨c.toNat,by have := char_valid c; omega⟩

namespace Str

def ofString (s : String) : Str := ⟨s.toList.map point⟩

instance : Coe String Str := ⟨ofString⟩

instance : Append Str := ⟨fun s t => ⟨s.points ++ t.points⟩⟩

def units (s : Str) : List UInt16 := s.points.flatMap fun p => utf16Code p.val

/-- The string of characters with the same code units, if there is one. -/
def decode? (s : Str) : Option String := (decodeUtf16 s.units).map String.ofList

theorem point_injective : Function.Injective point := by
  intro c d same
  have code : (point c).val = (point d).val := by rw [same]
  exact Char.toNat_inj.mp code

theorem ofString_injective : Function.Injective ofString := by
  intro s t same
  exact String.toList_inj.mp (List.map_injective_iff.mpr point_injective (congrArg points same))

@[simp] theorem ofString_inj : ofString s = ofString t ↔ s = t := ofString_injective.eq_iff

@[simp] theorem units_ofString (s : String) : (ofString s).units = utf16 s := by
  rw [units,ofString,List.flatMap_map]
  rfl

theorem decode?_iff (s : Str) (t : String) : s.decode? = some t ↔ utf16 t = s.units :=
  decodeUtf16_string s.units t

@[simp] theorem decode?_ofString (s : String) : (ofString s).decode? = some s := by
  rw [decode?_iff,units_ofString]

end Str

section Reading

open Json (hexQuad shortEscape)

def prepend (p : CodePoint) (rest : Option (List CodePoint × List Char)) :
    Option (List CodePoint × List Char) :=
  rest.map fun (points,left) => (p :: points,left)

/-- The code points of a string up to its closing quote, one for each escape, and the text
after it. -/
def scan : List Char → Option (List CodePoint × List Char)
  | [] => none
  | c :: text =>
    if c = '"' then some ([],text)
    else if c = '\\' then
      match text with
      | [] => none
      | e :: text =>
        if e = 'u' then
          match text with
          | h₁ :: h₂ :: h₃ :: h₄ :: text =>
            match hexQuad h₁ h₂ h₃ h₄ with
            | none => none
            | some unit => prepend (.ofNat _ unit) (scan text)
          | _ => none
        else
          match shortEscape e with
          | none => none
          | some c => prepend (point c) (scan text)
    else if c.toNat < 0x20 then none
    else prepend (point c) (scan text)

/-- Two halves in a row are one code point. Only escapes give halves. -/
def joinPairs : List CodePoint → List CodePoint
  | [] => []
  | [p] => [p]
  | p :: q :: points =>
    if IsHigh p.val ∧ IsLow q.val then .ofNat _ (pair p.val q.val) :: joinPairs points
    else p :: joinPairs (q :: points)

def scanstring (text : List Char) : Option (Str × List Char) :=
  (scan text).map fun (points,left) => (⟨joinPairs points⟩,left)

/-- The numbers beyond JSON that the module reads. -/
def constant (text : List Char) : Option (Json Str × List Char) :=
  ["NaN","Infinity","-Infinity"].findSome? fun word =>
    Json.literal word.toList (.real word) text

def reader : Json.Reader Str := ⟨scanstring,constant⟩

theorem joinPairs_plain (p : CodePoint) (points : List CodePoint) (plain : ¬IsHigh p.val) :
    joinPairs (p :: points) = p :: joinPairs points := by
  cases points with
  | nil => rfl
  | cons q points => rw [joinPairs,if_neg fun both => plain both.1]

theorem joinPairs_pair (p q : CodePoint) (points : List CodePoint) (high : IsHigh p.val)
    (low : IsLow q.val) : joinPairs (p :: q :: points) =
      .ofNat _ (pair p.val q.val) :: joinPairs points := if_pos ⟨high,low⟩

theorem point_plain (c : Char) : ¬IsHigh (point c).val := by
  have valid := char_valid c
  have same : (point c).val = c.toNat := rfl
  unfold IsHigh
  omega

theorem scan_unicode (text : List Char) (known : hexQuad h₁ h₂ h₃ h₄ = some unit) :
    scan ('\\' :: 'u' :: h₁ :: h₂ :: h₃ :: h₄ :: text) = prepend (.ofNat _ unit) (scan text) := by
  rw [scan.eq_def]
  simp [known]

/-- The text starts with a string that the module takes as these characters. -/
def Scans (text chars rest : List Char) : Prop :=
  ∃ points, scan text = some (points,rest) ∧ joinPairs points = chars.map point

theorem Scans.cons (scans : Scans text chars rest) (read : scan more = prepend p (scan text))
    (plain : ¬IsHigh p.val) (same : p = point c) : Scans more (c :: chars) rest := by
  obtain ⟨points,scanned,joined⟩ := scans
  exact ⟨p :: points,by rw [read,scanned]; rfl,by rw [joinPairs_plain p points plain,joined,same]; rfl⟩

theorem ofNat_val (small : n < 0x110000) : (Fin.ofNat 0x110000 n).val = n := Nat.mod_eq_of_lt small

theorem ofNat_point (valid : n < 0xd800 ∨ 0xdfff < n ∧ n < 0x110000) :
    .ofNat _ n = point (Char.ofNat n) := by
  have size : (point (Char.ofNat n)).val = n := toNat_ofNat_valid n valid
  apply Fin.ext
  rw [size,ofNat_val (by omega)]

theorem hexDigit_lt (known : Json.hexDigit c = some n) : n < 16 := by
  have size (a b : Char) : a ≤ b ↔ a.toNat ≤ b.toNat := Iff.rfl
  unfold Json.hexDigit at known
  repeat' split at known
  · next digit =>
    have small : c.toNat ≤ 57 := by
      simp only [Char.isDigit,Bool.and_eq_true,decide_eq_true_eq,UInt32.le_iff_toNat_le] at digit
      exact digit.2
    have := Option.some.inj known
    omega
  · next lower =>
    have small : c.toNat ≤ 102 := (size _ _).mp lower.2
    have := Option.some.inj known
    omega
  · next upper =>
    have small : c.toNat ≤ 70 := (size _ _).mp upper.2
    have := Option.some.inj known
    omega
  · cases known

theorem hexQuad_lt (known : hexQuad h₁ h₂ h₃ h₄ = some unit) : unit < 0x10000 := by
  simp only [hexQuad,Option.bind_eq_bind,Option.bind_eq_some_iff,Option.pure_def,Option.some.injEq] at known
  obtain ⟨a,first,b,second,c,third,d,fourth,rfl⟩ := known
  have := hexDigit_lt first
  have := hexDigit_lt second
  have := hexDigit_lt third
  have := hexDigit_lt fourth
  omega

/-- What the strict reader takes as a string, the module takes as the same string. -/
theorem scan_unquote (text chars rest : List Char) (read : Json.unquote text = some (chars,rest)) :
    Scans text chars rest := by
  fun_induction Json.unquote text generalizing chars rest
  case case2 =>
    obtain ⟨rfl,rfl⟩ := Prod.mk.inj (Option.some.inj read)
    exact ⟨[],by rw [scan.eq_def]; simp,rfl⟩
  case case5 text unit known plain _ ih =>
    obtain ⟨⟨chars,rest⟩,found,same⟩ := Option.map_eq_some_iff.mp read
    obtain ⟨rfl,rfl⟩ := Prod.mk.inj same
    have size := hexQuad_lt known
    have same := ofNat_point (n := unit) (by omega)
    exact (ih _ _ found).cons (scan_unicode text known) (same ▸ point_plain _) same
  case case8 unit known high other _ _ _ _ text low known' low' _ ih =>
    obtain ⟨⟨chars,rest⟩,found,same⟩ := Option.map_eq_some_iff.mp read
    obtain ⟨rfl,rfl⟩ := Prod.mk.inj same
    obtain ⟨points,scanned,joined⟩ := ih _ _ found
    have whole := ofNat_point (n := pair unit low) (by unfold pair; omega)
    have first := ofNat_val (n := unit) (by omega)
    have second := ofNat_val (n := low) (by omega)
    refine ⟨.ofNat _ unit :: .ofNat _ low :: points,?_,?_⟩
    · rw [scan_unicode _ known,scan_unicode _ known',scanned]
      rfl
    · rw [joinPairs_pair _ _ _ (by rw [first,IsHigh]; omega) (by rw [second,IsLow]; omega),first,second,
        whole,joined]
      rfl
  case case13 e text other c known _ ih =>
    obtain ⟨⟨chars,rest⟩,found,same⟩ := Option.map_eq_some_iff.mp read
    obtain ⟨rfl,rfl⟩ := Prod.mk.inj same
    exact (ih _ _ found).cons (by rw [scan.eq_def]; simp [other,known]) (point_plain c) rfl
  case case15 c text quote slash visible ih =>
    obtain ⟨⟨chars,rest⟩,found,same⟩ := Option.map_eq_some_iff.mp read
    obtain ⟨rfl,rfl⟩ := Prod.mk.inj same
    exact (ih _ _ found).cons (by rw [scan.eq_def]; simp [quote,slash,visible]) (point_plain c) rfl
  all_goals contradiction

/-- What is JSON, with strings of characters, is read alike. -/
theorem strict_extends : Json.strict.Extends reader Str.ofString where
  string := by
    intro text s rest read
    obtain ⟨⟨chars,left⟩,found,same⟩ := Option.map_eq_some_iff.mp read
    obtain ⟨rfl,rfl⟩ := Prod.mk.inj same
    obtain ⟨points,scanned,joined⟩ := scan_unquote text chars left found
    simp [reader,scanstring,scanned,joined,Str.ofString]
  special := by
    intro text j rest read
    contradiction

theorem parse_strict (parsed : Json.parse text = some j) : reader.parse text = some (j.map Str.ofString) :=
  strict_extends.parse parsed

end Reading

section Writing

open Json (hexQuad unquote)

/-- Everything but printable ASCII is escaped. -/
def escapeAscii (u : UInt16) : List Char :=
  if u.toNat < 0x7f then Json.escapeControl (.ofNat u.toNat)
  else '\\' :: 'u' :: Json.fourDigits u.toNat

/-- The default separators of `json.dumps`. -/
def layout : Json.Layout Str where
  comma := [' ']
  colon := [' ']
  quote := fun s => '"' :: s.units.flatMap escapeAscii ++ ['"']
  blanks := by simp [Json.isBlank]

/-- A character that is no backslash, an escape of one letter, or one of the unit's digits. -/
inductive Shape (n : Nat) : List Char → Prop where
  | plain (c : Char) : c ≠ '\\' → Shape n [c]
  | short (e : Char) : e ≠ 'u' → Shape n ['\\',e]
  | digits : Shape n ('\\' :: 'u' :: Json.fourDigits n)

theorem escapeControl_shape (c : Char) : Shape c.toNat (Json.escapeControl c) := by
  unfold Json.escapeControl
  split
  case isTrue => exact .short _ (by decide)
  split
  case isTrue => exact .short _ (by decide)
  split
  case isTrue => exact .short _ (by decide)
  split
  case isTrue => exact .short _ (by decide)
  split
  case isTrue => exact .short _ (by decide)
  split
  case isTrue => exact .short _ (by decide)
  split
  case isTrue => exact .short _ (by decide)
  split
  case isTrue low =>
    have two : ∀ n < 32, Json.fourDigits n = ['0','0',(n / 16).digitChar,(n % 16).digitChar] := by
      decide
    rw [← two c.toNat low]
    exact .digits
  case isFalse slash _ _ _ _ _ _ => exact .plain c slash

theorem escapeAscii_shape (u : UInt16) : Shape u.toNat (escapeAscii u) := by
  unfold escapeAscii
  split
  · next low =>
    have shape := escapeControl_shape (.ofNat u.toNat)
    rwa [toNat_ofNat_valid u.toNat (by omega)] at shape
  · exact .digits

/-- The text goes on with an escape of the second half of a pair. -/
def LowNext (text : List Char) : Prop :=
  ∃ l₁ l₂ l₃ l₄ rest low, text = '\\' :: 'u' :: l₁ :: l₂ :: l₃ :: l₄ :: rest ∧
    hexQuad l₁ l₂ l₃ l₄ = some low ∧ IsLow low

theorem unquote_alone (known : hexQuad h₁ h₂ h₃ h₄ = some unit) (high : IsHigh unit)
    (alone : ¬LowNext text) :
    unquote ('\\' :: 'u' :: h₁ :: h₂ :: h₃ :: h₄ :: text) = none := by
  have half : ¬(unit < 0xD800 ∨ 0xDFFF < unit) := by unfold IsHigh at high; omega
  have first : ¬0xDBFF < unit := by unfold IsHigh at high; omega
  rw [Json.unquote.eq_def]
  simp only [known,if_neg half,if_neg first,if_pos,if_neg (show '\\' ≠ '"' by decide)]
  split
  · next l₁ l₂ l₃ l₄ rest =>
    cases read : hexQuad l₁ l₂ l₃ l₄ with
    | none => rfl
    | some low => exact if_neg fun inside => alone ⟨l₁,l₂,l₃,l₄,rest,low,rfl,read,inside⟩
  · rfl

theorem unquote_pair (text : List Char) (known : hexQuad h₁ h₂ h₃ h₄ = some unit)
    (high : IsHigh unit) (known' : hexQuad l₁ l₂ l₃ l₄ = some low_) (low : IsLow low_) :
    unquote ('\\' :: 'u' :: h₁ :: h₂ :: h₃ :: h₄ :: '\\' :: 'u' :: l₁ :: l₂ :: l₃ :: l₄ :: text) =
      Json.prepend (.ofNat (pair unit low_)) (unquote text) := by
  have half : ¬(unit < 0xD800 ∨ 0xDFFF < unit) := by unfold IsHigh at high; omega
  have first : ¬0xDBFF < unit := by unfold IsHigh at high; omega
  rw [Json.unquote.eq_def]
  simp only [known,known',if_neg half,if_neg first,if_pos,if_neg (show '\\' ≠ '"' by decide)]
  exact if_pos low

theorem unquote_low (known : hexQuad h₁ h₂ h₃ h₄ = some unit) (low : IsLow unit) :
    unquote ('\\' :: 'u' :: h₁ :: h₂ :: h₃ :: h₄ :: text) = none := by
  have half : ¬(unit < 0xD800 ∨ 0xDFFF < unit) := by unfold IsLow at low; omega
  have second : 0xDBFF < unit := by unfold IsLow at low; omega
  rw [Json.unquote.eq_def]
  simp [known,half,second]

theorem escapeAscii_digits (u : UInt16) (surrogate : IsHigh u.toNat ∨ IsLow u.toNat) :
    escapeAscii u = '\\' :: 'u' :: Json.fourDigits u.toNat := by
  rw [escapeAscii,if_neg (by unfold IsHigh IsLow at surrogate; omega)]

theorem unquote_whole (u : UInt16) (text : List Char) (high : ¬IsHigh u.toNat) (low : ¬IsLow u.toNat) :
    unquote (escapeAscii u ++ text) = Json.prepend (.ofNat u.toNat) (unquote text) := by
  unfold escapeAscii
  split
  · exact Json.unescape_control _ text
  · exact Json.unquote_unicode _ _ _ _ _ text (Json.hexQuad_fourDigits u.toNat_lt)
      (by unfold IsHigh at high; unfold IsLow at low; omega)

theorem lowNext_escape (v : UInt16) (text : List Char) (next : LowNext (escapeAscii v ++ text)) :
    IsLow v.toNat := by
  obtain ⟨l₁,l₂,l₃,l₄,rest,low,starts,known,inside⟩ := next
  have shape := escapeAscii_shape v
  generalize escapeAscii v = escaped at starts shape
  cases shape with
  | plain c other => exact absurd (List.cons.inj starts).1 other
  | short e other => exact absurd (List.cons.inj (List.cons.inj starts).2).1 other
  | digits =>
    have read := Json.hexQuad_fourDigits v.toNat_lt
    simp only [Json.fourDigits,List.cons_append,List.nil_append,List.cons.injEq,true_and] at starts
    obtain ⟨rfl,rfl,rfl,rfl,-⟩ := starts
    rwa [Option.some.inj (read.symm.trans known)]

/-- The strict reader takes the written units where they are those of characters. -/
theorem unquote_units (us : List UInt16) (text : List Char) :
    unquote (us.flatMap escapeAscii ++ '"' :: text) = (decodeUtf16 us).map fun chars => (chars,text) := by
  have known (u : UInt16) := Json.hexQuad_fourDigits u.toNat_lt
  fun_induction decodeUtf16 us
  case case1 =>
    rw [List.flatMap_nil,List.nil_append,Json.unquote.eq_def]
    simp
  case case2 u high =>
    rw [List.flatMap_cons,escapeAscii_digits u (.inl high)]
    exact unquote_alone (known u) high (by rintro ⟨l₁,l₂,l₃,l₄,rest,low,starts,-⟩; simp at starts)
  case case3 u high v us low ih =>
    rw [List.flatMap_cons,List.flatMap_cons,escapeAscii_digits u (.inl high),
      escapeAscii_digits v (.inr low)]
    have read := unquote_pair (us.flatMap escapeAscii ++ '"' :: text) (known u) high (known v) low
    rw [ih] at read
    rw [List.append_assoc,List.append_assoc]
    refine read.trans ?_
    cases decodeUtf16 us <;> rfl
  case case4 u high v us low =>
    rw [List.flatMap_cons,escapeAscii_digits u (.inl high)]
    refine unquote_alone (known u) high fun next => low ?_
    exact lowNext_escape v _ (by simpa [Json.fourDigits] using next)
  case case5 u us high low =>
    rw [List.flatMap_cons,escapeAscii_digits u (.inr low)]
    exact unquote_low (known u) low
  case case6 u us high low ih =>
    rw [List.flatMap_cons,List.append_assoc,unquote_whole u _ high low,ih]
    cases decodeUtf16 us <;> rfl

/-- The other three libraries read what the module has written, if it is characters. -/
theorem reads_layout : Json.Reads layout Json.strict Str.decode? := by
  intro s text
  refine ⟨s.units.flatMap escapeAscii ++ '"' :: text,by simp [layout],?_⟩
  simp only [Json.strict,unquote_units,Str.decode?,Option.map_map]
  cases decodeUtf16 s.units <;> rfl

end Writing

example : (reader.parse "\"\\ud83d\\ude00\\ud83d\"").map (Json.write layout) =
    some "\"\\ud83d\\ude00\\ud83d\"".toList := by decide +kernel

end Wschat.Py
