import Wschat.Regex
import Wschat.ServerTexts

/-! `parseMessage` of `index.js`: the timestamp is cut out of the text before it is parsed.
A JSON text has the key `"timestamp"` followed by a colon only where it is a key: inside
a string every quote is escaped, and the quote that ends it has a comma or a brace behind it. -/
namespace Wschat.Web

open UnitJson

/-- `\s`. -/
def isSpace (c : UInt16) : Bool :=
  (9 ≤ c && c ≤ 13) || c = 0x20 || c = 0xa0 || c = 0x1680 || (0x2000 ≤ c && c ≤ 0x200a) ||
    c = 0x2028 || c = 0x2029 || c = 0x202f || c = 0x205f || c = 0x3000 || c = 0xfeff

/-- `\W`. -/
def isNotWord (c : UInt16) : Bool :=
  !(isDigit c || (unit 'A' ≤ c && c ≤ unit 'Z') || (unit 'a' ≤ c && c ≤ unit 'z') || c = unit '_')

/-- From the colon on. -/
def reValue : Regex UInt16 := .seqs
  [.set (· = unit ':'),.optional (.set (· = unit '"')),.many isNotWord,
    .group (.seqs [.set isDigit,.many isDigit]),.optional (.set (· = unit '"')),.many isSpace]

/-- `/,?\s*"timestamp"\s*:"?\W*(\d+)"?\s*/`. -/
def re : Regex UInt16 := .seqs
  [.optional (.set (· = unit ',')),.many isSpace,.literal (writeKey "timestamp"),.many isSpace,reValue]

/-- `BigInt` of a text of digits. -/
def bigInt (digits : List UInt16) : Nat :=
  digits.foldl (fun n d => 10 * n + (d - unit '0').toNat) 0

/-- A property of the returned object. -/
inductive Property where
  | bigint (n : Nat)
  | json (value : Value)

/-- The own properties of an object, in the order in which they were added. -/
abbrev Properties := List (List UInt16 × Property)

def Properties.set (key : List UInt16) (new : Property) : Properties → Properties
  | [] => [(key,new)]
  | (k,held) :: more => if k = key then (k,new) :: more else (k,held) :: set key new more

/-- The own properties of a value: an array and a string have their indices. A duplicate key
of an object is set twice, to the same effect as `JSON.parse` keeping the last. -/
def ownProperties : Value → List (List UInt16 × Value)
  | .object members => members
  | .array elements => elements.mapIdx fun i value => (writeNat i,value)
  | .string s => s.mapIdx fun i u => (writeNat i,.string [u])
  | _ => []

/-- `Object.assign`. Assigning `__proto__` makes no own property. -/
def assign (ret : Properties) (source : Value) : Properties :=
  (ownProperties source).foldl (fun ret (key,value) =>
    if key = units "__proto__" then ret else ret.set key (.json value)) ret

/-- `none` when `JSON.parse` throws. -/
def parseMessage (str : List UInt16) : Option Properties :=
  match re.search str with
  | some (whole,groups) => do
    let value ← parse (Regex.replaceFirst whole [] str)
    return assign [(units "timestamp",.bigint (bigInt (groups.headD [])))] value
  | none => do return assign [] (← parse str)

/-- What a member of an encoded object is to become. -/
def property : Field → Property
  | .text s => .json (.string s)
  | .integer n => .bigint n

section Keys

/-- The text starts with the key `"timestamp"` and a colon. -/
def StartsKey (text : List UInt16) : Prop :=
  ∃ bs rest, text = writeKey "timestamp" ++ (bs ++ unit ':' :: rest) ∧ ∀ c ∈ bs, isSpace c = true

/-- Nowhere in `front`, which `rest` follows, does the key start. -/
def Keyless : List UInt16 → List UInt16 → Prop
  | [], _ => True
  | c :: front, rest => ¬StartsKey (c :: front ++ rest) ∧ Keyless front rest

/-- A string ends here: behind its quote is a comma or a brace. -/
def Ends (text : List UInt16) : Prop := ∃ c rest, text = c :: rest ∧ (c = unit ',' ∨ c = unit '\x7d')

theorem keyless_append (front more rest : List UInt16) (first : Keyless front (more ++ rest))
    (second : Keyless more rest) : Keyless (front ++ more) rest := by
  induction front with
  | nil => exact second
  | cons c front ih =>
    exact ⟨fun starts => first.1 (by simpa using starts),ih first.2⟩

theorem Keyless.suffix {s t rest : List UInt16} (keyless : Keyless (s ++ t) rest) (some_ : t ≠ []) :
    ¬StartsKey (t ++ rest) := by
  induction s with
  | nil =>
    cases t with
    | nil => contradiction
    | cons c t => exact keyless.1
  | cons c s ih => exact ih keyless.2

theorem startsKey_head (starts : StartsKey (c :: text)) :
    c = unit '"' ∧ ∃ bs rest, text = units "timestamp" ++ unit '"' :: (bs ++ unit ':' :: rest) ∧
      ∀ c ∈ bs, isSpace c = true := by
  obtain ⟨bs,rest,eq,spaces⟩ := starts
  rw [writeKey,List.cons_append,List.cons_append,List.cons.injEq] at eq
  obtain ⟨rfl,rfl⟩ := eq
  exact ⟨rfl,bs,rest,by simp,spaces⟩

/-- Text without quotes. -/
theorem keyless_quoteless (front rest : List UInt16) (none_ : unit '"' ∉ front) :
    Keyless front rest := by
  induction front with
  | nil => trivial
  | cons c front ih =>
    simp only [List.mem_cons,not_or] at none_
    exact ⟨fun starts => none_.1 (startsKey_head starts).1.symm,ih none_.2⟩

/-- The first unescaped quote ends the string. -/
theorem quote_unique (style : Style) (s word rest text : List UInt16) (plain : Plain word)
    (eq : s.flatMap style.escape ++ unit '"' :: rest = word ++ unit '"' :: text) : rest = text := by
  induction s generalizing word with
  | nil =>
    cases word with
    | nil => exact (List.cons.inj eq).2
    | cons w word => exact absurd (List.cons.inj eq).1.symm (plain w (by simp)).2.1
  | cons u s ih =>
    -- An escape starts with a backslash, which is neither a quote nor in `word`.
    have escaped (tail : List UInt16)
        (eq : unit '\\' :: tail = word ++ unit '"' :: text) : rest = text := by
      cases word with
      | nil => exact absurd (List.cons.inj eq).1 (by decide)
      | cons w word => exact absurd (List.cons.inj eq).1.symm (plain w (by simp)).2.2
    have escapes := style.escapes u
    rw [List.flatMap_cons,List.append_assoc] at eq
    generalize style.escape u = escape at escapes eq
    cases escapes with
    | plain visible quote slash =>
      cases word with
      | nil => exact absurd (List.cons.inj eq).1 quote
      | cons w word =>
        exact ih word (fun c inside => plain c (List.mem_cons_of_mem w inside)) (List.cons.inj eq).2
    | short e known => exact escaped _ eq
    | unicode h₁ h₂ h₃ h₄ known => exact escaped _ eq

theorem Ends.head (ends : Ends text) : ¬∃ bs rest, text = bs ++ unit ':' :: rest ∧
    ∀ c ∈ bs, isSpace c = true := by
  obtain ⟨c,text,rfl,close⟩ := ends
  rintro ⟨bs,rest,eq,spaces⟩
  cases bs with
  | nil => rcases close with rfl | rfl <;> exact absurd (List.cons.inj eq).1 (by decide)
  | cons b bs =>
    obtain ⟨rfl,-⟩ := List.cons.inj eq
    have := spaces c (by simp)
    rcases close with rfl | rfl <;> revert this <;> decide

/-- Behind no quote inside a string does the rest of the key follow. -/
theorem quote_keyless (style : Style) (s rest : List UInt16) (ends : Ends rest) :
    ¬StartsKey (unit '"' :: (s.flatMap style.escape ++ unit '"' :: rest)) := by
  intro starts
  obtain ⟨-,bs,text,eq,spaces⟩ := startsKey_head starts
  exact ends.head ⟨bs,text,quote_unique style s _ _ _ (by decide) eq,spaces⟩

theorem hexDigit_quote (known : hexDigit h = some n) : h ≠ unit '"' := by
  rintro rfl
  have none_ : hexDigit (unit '"') = none := by decide
  rw [none_] at known
  contradiction

theorem hexQuad_quote (known : hexQuad h₁ h₂ h₃ h₄ = some u) : unit '"' ∉ [h₁,h₂,h₃,h₄] := by
  simp only [hexQuad,Option.bind_eq_bind,Option.bind_eq_some_iff] at known
  obtain ⟨_,first,_,second,_,third,_,fourth,-⟩ := known
  have := hexDigit_quote first
  have := hexDigit_quote second
  have := hexDigit_quote third
  have := hexDigit_quote fourth
  simp [*,Ne.symm]

/-- The body of a string. -/
theorem body_keyless (style : Style) (s rest : List UInt16) (ends : Ends rest) :
    Keyless (s.flatMap style.escape) (unit '"' :: rest) := by
  induction s with
  | nil => trivial
  | cons u s ih =>
    rw [List.flatMap_cons]
    refine keyless_append _ _ _ ?_ ih
    have escapes := style.escapes u
    generalize style.escape u = escape at escapes
    cases escapes with
    | plain visible quote slash => exact keyless_quoteless _ _ (by simp [quote.symm])
    | short e known =>
      refine ⟨fun starts => absurd (startsKey_head starts).1 (by decide),fun starts => ?_,trivial⟩
      obtain ⟨rfl,-⟩ := startsKey_head starts
      exact quote_keyless style s rest ends starts
    | unicode h₁ h₂ h₃ h₄ known =>
      refine keyless_quoteless _ _ ?_
      have := hexQuad_quote known
      have slash : unit '"' ≠ unit '\\' := by decide
      have letter : unit '"' ≠ unit 'u' := by decide
      simp only [List.mem_cons,slash,letter,false_or]
      simpa using this

/-- The quote at the end of a key or of a value. -/
theorem closing_keyless (c : UInt16) (rest : List UInt16) (other : c ≠ unit 't') :
    Keyless [unit '"'] (c :: rest) := by
  refine ⟨fun starts => ?_,trivial⟩
  obtain ⟨-,bs,text,eq,-⟩ := startsKey_head starts
  exact other (List.cons.inj eq).1

theorem value_keyless (style : Style) (s rest : List UInt16) (ends : Ends rest) :
    Keyless (quote style s) rest := by
  refine keyless_append (unit '"' :: s.flatMap style.escape) [unit '"'] rest ⟨?_,?_⟩ ?_
  · simpa using quote_keyless style s rest ends
  · exact body_keyless style s rest ends
  · obtain ⟨c,rest,rfl,close⟩ := ends
    exact closing_keyless c rest (by rcases close with rfl | rfl <;> decide)

/-- A key of a message other than the timestamp. -/
structure Key (key : String) : Prop where
  plain : Plain (units key)
  other : units key ≠ units "timestamp"

theorem quote_first (first : unit '"' ∉ s) (second : unit '"' ∉ t)
    (eq : s ++ unit '"' :: rest = t ++ unit '"' :: text) : s = t := by
  have cut (s rest : List UInt16) (none_ : unit '"' ∉ s) :
      (s ++ unit '"' :: rest).takeWhile (fun c => decide (c ≠ unit '"')) = s := by
    rw [List.takeWhile_append_of_pos]
    · simp
    · intro c inside
      exact decide_eq_true fun eq => none_ (eq ▸ inside)
  rw [← cut s rest first,eq,cut t text second]

theorem key_keyless (known : Key key) (rest : List UInt16) :
    Keyless (writeKey key) (unit ':' :: rest) := by
  have quoteless : unit '"' ∉ units key := fun inside => (known.plain _ inside).2.1 rfl
  refine keyless_append (unit '"' :: units key) [unit '"'] _ ⟨fun starts => ?_,?_⟩
    (closing_keyless _ rest (by decide))
  · obtain ⟨-,bs,text,eq,-⟩ := startsKey_head starts
    exact known.other (quote_first quoteless (by decide) (by simpa using eq))
  · exact keyless_quoteless _ _ quoteless

theorem blanks_quoteless (bs : List UInt16) (blanks : ∀ c ∈ bs, isBlank c = true) :
    unit '"' ∉ bs := fun inside => absurd (blanks _ inside) (by decide)

/-- A key, a colon and a string. -/
theorem member_keyless (style : Style) (known : Key key) (s rest : List UInt16) (ends : Ends rest) :
    Keyless (writeKey key ++ unit ':' :: style.colon ++ quote style s) rest := by
  have colon : unit '"' ∉ style.colon := blanks_quoteless _ fun c inside =>
    style.blanks c (List.mem_append_right _ inside)
  refine keyless_append _ _ _ (keyless_append _ _ _ ?_ ?_) (value_keyless style s rest ends)
  · exact key_keyless known _
  · refine keyless_quoteless _ _ ?_
    have other : unit '"' ≠ unit ':' := by decide
    simp [other,colon]

theorem members_keyless (style : Style) (ms : List (String × List UInt16))
    (keys : ∀ m ∈ ms, Key m.1) (rest : List UInt16) (ends : Ends rest) :
    Keyless (writeMembers style ms) rest := by
  have comma : unit '"' ∉ unit ',' :: style.comma := by
    have other : unit '"' ≠ unit ',' := by decide
    have := blanks_quoteless style.comma fun c inside => style.blanks c (List.mem_append_left _ inside)
    simp [other,this]
  induction ms with
  | nil => trivial
  | cons m ms ih =>
    obtain ⟨known,keys⟩ := List.forall_mem_cons.mp keys
    cases ms with
    | nil => exact member_keyless style known m.2 rest ends
    | cons n ms =>
      have first : Keyless (writeKey m.1 ++ unit ':' :: style.colon ++ quote style m.2)
          (unit ',' :: style.comma ++ (writeMembers style (n :: ms) ++ rest)) :=
        member_keyless style known m.2 _ ⟨_,_,rfl,.inl rfl⟩
      refine keyless_append _ _ _ (keyless_append _ _ _ ?_ ?_) (ih keys)
      · exact first
      · exact keyless_quoteless _ _ comma

end Keys

section Matching

theorem comma_quoteless (denotes : (Regex.optional (.set (· = unit ','))).Denotes u) :
    unit '"' ∉ u := by
  cases denotes with
  | skip => simp
  | take denotes =>
    cases denotes with
    | set here =>
      rw [of_decide_eq_true here]
      decide

theorem spaces_quoteless (denotes : (Regex.many isSpace).Denotes u) : unit '"' ∉ u := by
  cases denotes with
  | many all => exact fun inside => absurd (all _ inside) (by decide)

/-- A match starts at the key, at the comma before it or at blanks between. -/
theorem re_denotes (denotes : re.Denotes word) (rest : List UInt16) :
    ∃ front more, word ++ rest = front ++ more ∧ unit '"' ∉ front ∧ StartsKey more := by
  obtain ⟨comma,_,rfl,first,denotes⟩ := Regex.denotes_seqs _ _ _ denotes
  obtain ⟨spaces,_,rfl,second,denotes⟩ := Regex.denotes_seqs _ _ _ denotes
  obtain ⟨key,_,rfl,third,denotes⟩ := Regex.denotes_seqs _ _ _ denotes
  obtain ⟨bs,_,rfl,fourth,denotes⟩ := Regex.denotes_seqs _ _ _ denotes
  obtain ⟨value,tail,rfl,denotes,-⟩ := Regex.denotes_seqs _ _ _ denotes
  obtain ⟨colon,value,rfl,fifth,-⟩ := Regex.denotes_seqs _ _ _ denotes
  obtain rfl := Regex.denotes_literal _ third
  obtain rfl : colon = [unit ':'] := by
    cases fifth with
    | set here => rw [of_decide_eq_true here]
  have quoteless : unit '"' ∉ comma ++ spaces := by
    simp [comma_quoteless first,spaces_quoteless second]
  refine ⟨comma ++ spaces,writeKey "timestamp" ++ (bs ++ unit ':' :: (value ++ (tail ++ rest))),
    by simp,quoteless,bs,_,rfl,?_⟩
  cases fourth with
  | many all => exact all

theorem writeNat_small (small : n < 10) : writeNat n = [unit n.digitChar] := by
  rw [writeNat,Nat.toDigits_of_lt_base small]
  rfl

theorem writeNat_large (large : 10 ≤ n) :
    writeNat n = writeNat (n / 10) ++ [unit (n % 10).digitChar] := by
  rw [writeNat,Nat.toDigits_of_base_le (by decide) large,List.map_append]
  rfl

theorem isDigit_digitChar (n : Nat) (small : n < 10) : isDigit (unit n.digitChar) = true := by
  revert n
  decide

theorem writeNat_digits (n : Nat) : ∀ d ∈ writeNat n, isDigit d = true := by
  induction n using Nat.strong_induction_on with
  | _ n ih =>
    by_cases small : n < 10
    · simp [writeNat_small small,isDigit_digitChar n small]
    · have last := isDigit_digitChar (n % 10) (Nat.mod_lt n (by decide))
      rw [writeNat_large (by omega)]
      simpa [or_imp,forall_and,last] using ih (n / 10) (by omega)

theorem bigInt_writeNat (n : Nat) : bigInt (writeNat n) = n := by
  have digit : ∀ d < 10, (unit d.digitChar - unit '0').toNat = d := by decide
  induction n using Nat.strong_induction_on with
  | _ n ih =>
    by_cases small : n < 10
    · simp [writeNat_small small,bigInt,digit n small]
    · have front : (writeNat (n / 10)).foldl (fun n d => 10 * n + (d - unit '0').toNat) 0 = n / 10 :=
        ih (n / 10) (by omega)
      rw [writeNat_large (by omega),bigInt,List.foldl_append,front,List.foldl_cons,List.foldl_nil,
        digit _ (Nat.mod_lt n (by decide))]
      omega

theorem blank_space {c : UInt16} (blank : isBlank c = true) :
    isSpace c = true ∧ isNotWord c = true := by
  simp only [isBlank,Bool.or_eq_true,decide_eq_true_eq] at blank
  rcases blank with ((rfl | rfl) | rfl) | rfl <;> decide

section Exec

variable {next : List UInt16 → List (List UInt16) → Option β} {groups : List (List UInt16)} {b : β}

theorem writeNat_cons (n : Nat) : ∃ d ds, writeNat n = d :: ds ∧ isDigit d = true ∧
    ∀ e ∈ ds, isDigit e = true := by
  have some_ : writeNat n ≠ [] := by simp [writeNat,Nat.toDigits_ne_nil]
  obtain ⟨d,ds,eq⟩ := List.exists_cons_of_ne_nil some_
  exact ⟨d,ds,eq,List.forall_mem_cons.mp (eq ▸ writeNat_digits n)⟩

theorem digits_exec (n : Nat) (rest : List UInt16)
    (found : next (unit '\x7d' :: rest) groups = some b) :
    (Regex.seqs [.set isDigit,.many isDigit]).exec next (writeNat n ++ unit '\x7d' :: rest) groups =
      some b := by
  obtain ⟨d,ds,eq,first,more⟩ := writeNat_cons n
  rw [eq,List.cons_append,Regex.exec_seqs,Regex.exec_set isDigit first,Regex.exec_seqs]
  exact Regex.exec_many isDigit ds more (by decide) found

theorem reValue_exec (style : Style) (n : Nat) (rest : List UInt16)
    (found : next (unit '\x7d' :: rest) (groups ++ [writeNat n]) = some b) :
    reValue.exec next (unit ':' :: (style.colon ++ (writeNat n ++ unit '\x7d' :: rest))) groups =
      some b := by
  have colon : ∀ c ∈ style.colon, isBlank c = true := fun c inside =>
    style.blanks c (List.mem_append_right _ inside)
  obtain ⟨d,ds,eq,first,-⟩ := writeNat_cons n
  have ends : (Regex.seqs [.optional (.set (· = unit '"')),.many isSpace]).exec next
      (unit '\x7d' :: rest) (groups ++ [writeNat n]) = some b := by
    rw [Regex.exec_seqs,Regex.exec_skip _ _ (by decide),Regex.exec_seqs]
    exact Regex.exec_many isSpace [] (by simp) (by decide) found
  have captured : (Regex.seqs [.group (.seqs [.set isDigit,.many isDigit]),
      .optional (.set (· = unit '"')),.many isSpace]).exec next
      (writeNat n ++ unit '\x7d' :: rest) groups = some b := by
    rw [Regex.exec_seqs]
    exact Regex.exec_group _ (writeNat n) _ (fun k => digits_exec n rest) ends
  have read : (Regex.seqs [.many isNotWord,.group (.seqs [.set isDigit,.many isDigit]),
      .optional (.set (· = unit '"')),.many isSpace]).exec next
      (style.colon ++ (writeNat n ++ unit '\x7d' :: rest)) groups = some b := by
    have word : isNotWord d = false := by simp [isNotWord,first]
    rw [eq,List.cons_append] at captured ⊢
    rw [Regex.exec_seqs]
    exact Regex.exec_many isNotWord style.colon (fun c inside => (blank_space (colon c inside)).2)
      word captured
  have other : unit '"' ∉ style.colon ++ writeNat n := by
    rw [List.mem_append]
    rintro (inside | inside)
    · exact blanks_quoteless style.colon colon inside
    · exact absurd (writeNat_digits n _ inside) (by decide)
  rw [← List.append_assoc] at read ⊢
  rw [reValue,Regex.exec_seqs,Regex.exec_set _ (by decide),Regex.exec_seqs]
  cases value : style.colon ++ writeNat n with
  | nil => simp [eq] at value
  | cons c tail =>
    rw [value,List.mem_cons,not_or] at other
    rw [value,List.cons_append] at read
    have plain : decide (c = unit '"') = false := decide_eq_false (Ne.symm other.1)
    rw [List.cons_append,Regex.exec_skip (fun c => decide (c = unit '"')) c plain]
    exact read

/-- What the expression finds at the comma before the timestamp. -/
theorem re_exec (style : Style) (n : Nat) (rest : List UInt16)
    (found : next (unit '\x7d' :: rest) (groups ++ [writeNat n]) = some b) :
    re.exec next (stamp style n ++ unit '\x7d' :: rest) groups = some b := by
  have comma : ∀ c ∈ style.comma, isSpace c = true := fun c inside =>
    (blank_space (style.blanks c (List.mem_append_left _ inside))).1
  have shape : stamp style n ++ unit '\x7d' :: rest = unit ',' :: (style.comma ++
      (writeKey "timestamp" ++ unit ':' :: (style.colon ++ (writeNat n ++ unit '\x7d' :: rest)))) := by
    simp [stamp]
  have keyed : (Regex.seqs [.literal (writeKey "timestamp"),.many isSpace,reValue]).exec next
      (writeKey "timestamp" ++ unit ':' :: (style.colon ++ (writeNat n ++ unit '\x7d' :: rest)))
      groups = some b := by
    rw [Regex.exec_seqs,Regex.exec_literal,Regex.exec_seqs]
    exact Regex.exec_many isSpace [] (by simp) (by decide) (reValue_exec style n rest found)
  rw [shape,re,Regex.exec_seqs]
  apply Regex.exec_optional
  rw [Regex.exec_set _ (by decide),Regex.exec_seqs]
  exact Regex.exec_many isSpace style.comma comma (by decide) keyed

end Exec

theorem re_matchHere (style : Style) (n : Nat) (rest : List UInt16) :
    re.matchHere (stamp style n ++ unit '\x7d' :: rest) = some (stamp style n,[writeNat n]) :=
  re_exec style n rest (by rw [Regex.taken]; rfl)

end Matching

/-- The front of a message: everything before the timestamp. -/
theorem front_keyless (style : Style) (ms : List (String × List UInt16)) (keys : ∀ m ∈ ms, Key m.1)
    (rest : List UInt16) (ends : Ends rest) :
    Keyless (unit '\x7b' :: writeMembers style ms) rest :=
  ⟨fun starts => absurd (startsKey_head starts).1 (by decide),
    members_keyless style ms keys rest ends⟩

theorem members_quoted (style : Style) (ms : List (String × List UInt16)) (some_ : ms ≠ []) :
    ∃ front, writeMembers style ms = front ++ [unit '"'] := by
  induction ms with
  | nil => contradiction
  | cons m ms ih =>
    cases ms with
    | nil =>
      exact ⟨writeKey m.1 ++ unit ':' :: style.colon ++ unit '"' :: m.2.flatMap style.escape,by
        simp [writeMembers,quote]⟩
    | cons n ms =>
      obtain ⟨front,eq⟩ := ih (by simp)
      exact ⟨writeKey m.1 ++ unit ':' :: style.colon ++ quote style m.2 ++ unit ',' :: style.comma ++
        front,by simp [writeMembers,eq]⟩

theorem suffix_quoted (front s t : List UInt16) (eq : front ++ [unit '"'] = s ++ t) (some_ : t ≠ []) :
    unit '"' ∈ t := by
  obtain rfl | ⟨t,c,rfl⟩ := List.eq_nil_or_concat t
  · contradiction
  · rw [List.concat_eq_append,← List.append_assoc] at eq
    obtain ⟨rfl⟩ := List.append_inj_right' eq rfl
    simp

/-- In front of the timestamp, neither a match nor a copy of the timestamp starts: the key
would lie beyond a quote that it would have to skip. -/
theorem front_skips (style : Style) (ms : List (String × List UInt16)) (some_ : ms ≠ [])
    (keys : ∀ m ∈ ms, Key m.1) (rest word more s t : List UInt16) (ends : Ends rest)
    (front : unit '\x7b' :: writeMembers style ms = s ++ t) (proper : t ≠ [])
    (eq : t ++ rest = word ++ more) (quoteless : unit '"' ∉ word) : ¬StartsKey more := by
  obtain ⟨body,last⟩ := members_quoted style ms some_
  have quoted : unit '"' ∈ t := suffix_quoted (unit '\x7b' :: body) s t (by rw [← front,last]; rfl) proper
  have keyless := front_keyless style ms keys rest ends
  rcases List.append_eq_append_iff.mp eq with ⟨z,rfl,-⟩ | ⟨z,rfl,rfl⟩
  · simp [quoted] at quoteless
  · rw [front,← List.append_assoc] at keyless
    refine keyless.suffix ?_
    rintro rfl
    simp [quoteless] at quoted

theorem stamp_ends (style : Style) (n : Nat) (rest : List UInt16) : Ends (stamp style n ++ rest) :=
  ⟨_,_,rfl,.inl rfl⟩

theorem writeMessage_some (style : Style) (ms : List (String × List UInt16)) (n : Nat) :
    writeMessage style ms (some n) =
      (unit '\x7b' :: writeMembers style ms) ++ (stamp style n ++ [unit '\x7d']) := by
  simp [writeMessage]

/-- The match is the timestamp with its comma, and the digits are its group. -/
theorem search_stamp (style : Style) (ms : List (String × List UInt16)) (n : Nat) (some_ : ms ≠ [])
    (keys : ∀ m ∈ ms, Key m.1) :
    re.search (writeMessage style ms (some n)) = some (stamp style n,[writeNat n]) := by
  rw [writeMessage_some,Regex.search_append]
  · exact Regex.search_here (re_matchHere style n [])
  · intro s t front proper
    apply Regex.matchHere_none
    intro word rest eq denotes
    obtain ⟨skipped,more,same,quoteless,starts⟩ := re_denotes denotes rest
    exact front_skips style ms some_ keys _ skipped more s t (stamp_ends style n _) front proper
      (eq.trans same) quoteless starts

theorem stamp_key (style : Style) (n : Nat) (rest : List UInt16) :
    ∃ word more, stamp style n ++ rest = word ++ more ∧ unit '"' ∉ word ∧ StartsKey more := by
  have comma : unit '"' ∉ style.comma := blanks_quoteless _ fun c inside =>
    style.blanks c (List.mem_append_left _ inside)
  have other : unit '"' ≠ unit ',' := by decide
  refine ⟨unit ',' :: style.comma,_,?_,by simp [comma,other],[],style.colon ++ (writeNat n ++ rest),
    rfl,by simp⟩
  simp [stamp]

/-- The timestamp is cut out where it stands. -/
theorem replace_stamp (style : Style) (ms : List (String × List UInt16)) (n : Nat) (some_ : ms ≠ [])
    (keys : ∀ m ∈ ms, Key m.1) :
    Regex.replaceFirst (stamp style n) [] (writeMessage style ms (some n)) = writeObject style ms := by
  rw [writeMessage_some,Regex.replaceFirst_append _ _ _ _ (by simp [stamp])]
  · simp [writeObject]
  · rintro s t front proper ⟨rest,eq⟩
    obtain ⟨word,more,same,quoteless,starts⟩ := stamp_key style n rest
    exact front_skips style ms some_ keys _ word more s t (stamp_ends style n _) front proper
      (eq.symm.trans same) quoteless starts

theorem search_none (style : Style) (ms : List (String × List UInt16))
    (keys : ∀ m ∈ ms, Key m.1) : re.search (writeObject style ms) = none := by
  have brace : Ends [unit '\x7d'] := ⟨_,_,rfl,.inr rfl⟩
  have keyless : Keyless (writeObject style ms) [] :=
    keyless_append _ _ [] (front_keyless style ms keys _ brace)
      (keyless_quoteless _ _ (by decide))
  have passed := Regex.search_append (r := re) (writeObject style ms) [] fun s t front _ => by
    apply Regex.matchHere_none
    intro word rest eq denotes
    obtain ⟨skipped,more,same,-,starts⟩ := re_denotes denotes rest
    rw [List.append_nil,same] at eq
    rw [front,eq,← List.append_assoc] at keyless
    refine keyless.suffix ?_ (by rwa [List.append_nil])
    rintro rfl
    obtain ⟨bs,_,none_,-⟩ := starts
    simp [writeKey] at none_
  rw [List.append_nil] at passed
  rw [passed]
  apply Regex.matchHere_none
  intro word rest eq denotes
  obtain ⟨skipped,more,same,-,bs,_,starts,-⟩ := re_denotes denotes rest
  simp [← eq,starts,writeKey] at same

/-- What is parsed is the object without the timestamp. -/
theorem parseMessage_write (style : Style) (ms : List (String × List UInt16)) (timestamp : Option Nat)
    (some_ : ms ≠ []) (keys : ∀ m ∈ ms, Key m.1) :
    parseMessage (writeMessage style ms timestamp) =
      some (assign (timestamp.toList.map fun n => (units "timestamp",.bigint n))
        (.object (stringMembers ms))) := by
  have parsed := parse_write style ms some_ fun m inside => (keys m inside).plain
  cases timestamp with
  | none =>
    rw [writeMessage,parseMessage,search_none style ms keys,parsed]
    rfl
  | some n =>
    rw [parseMessage,search_stamp style ms n some_ keys]
    simp [replace_stamp style ms n some_ keys,parsed,bigInt_writeNat]

theorem set_new (key : List UInt16) (new : Property) (held : Properties)
    (absent : key ∉ held.map Prod.fst) : held.set key new = held ++ [(key,new)] := by
  induction held with
  | nil => rfl
  | cons m held ih =>
    simp only [List.map_cons,List.mem_cons,not_or] at absent
    rw [Properties.set,if_neg (Ne.symm absent.1),ih absent.2]
    rfl

/-- Members with new keys are added as they are. -/
theorem assign_new (ret : Properties) (ms : List (String × List UInt16))
    (distinct : (ret.map Prod.fst ++ ms.map fun m => units m.1).Nodup)
    (ordinary : ∀ m ∈ ms, units m.1 ≠ units "__proto__") :
    assign ret (.object (stringMembers ms)) = ret ++ ms.map fun m => (units m.1,.json (.string m.2)) := by
  induction ms generalizing ret with
  | nil => simp [assign,ownProperties,stringMembers]
  | cons m ms ih =>
    obtain ⟨here,ordinary⟩ := List.forall_mem_cons.mp ordinary
    have absent : units m.1 ∉ ret.map Prod.fst := fun inside =>
      (List.nodup_append.mp distinct).2.2 _ inside _ (by simp) rfl
    have added := set_new (units m.1) (.json (.string m.2)) ret absent
    have more := ih (ret ++ [(units m.1,.json (.string m.2))]) (by simpa using distinct) ordinary
    simp only [assign,ownProperties,stringMembers,List.map_cons,List.foldl_cons,if_neg here,added] at more ⊢
    simpa using more

theorem strings_key (server : Server) (msg : Chat) (inside : m ∈ server.strings msg) :
    m.1 ∈ ["sender","action","contents"] := by
  cases server with
  | go =>
    simp only [Server.strings,Server.omitempty] at inside
    split at inside <;> split at inside <;> simp at inside <;> rcases inside with rfl | rfl | rfl <;> simp
  | _ => simp [Server.strings] at inside; rcases inside with rfl | rfl | rfl <;> simp

theorem keys_known : ∀ key ∈ ["sender","action","contents"],
    Plain (units key) ∧ units key ≠ units "timestamp" ∧ units key ≠ units "__proto__" := by
  decide

theorem strings_some (server : Server) (msg : Chat) : server.strings msg ≠ [] := by
  cases server <;> simp [Server.strings]

theorem strings_nodup (server : Server) (msg : Chat) :
    ((server.strings msg).map fun m => units m.1).Nodup := by
  have distinct : (["sender","action","contents"].map units).Nodup := by decide
  have sorted : (["action","contents","sender"].map units).Nodup := by decide
  cases server with
  | cpp => exact sorted
  | go =>
    refine List.Nodup.sublist ?_ distinct
    have left (key : String) (s : List UInt16) :
        ((Server.omitempty key s).map fun m => units m.1).Sublist [units key] := by
      unfold Server.omitempty
      split <;> simp
    rw [Server.strings,List.map_append,List.map_cons]
    exact (left "sender" msg.sender).append ((left "contents" msg.contents).cons_cons _)
  | _ => exact distinct

/-- The browser gets the members of the object that a server encoded, whatever the strings. -/
theorem parse_emitted (server : Server) (msg : Chat) :
    ∃ ret, parseMessage (server.encode msg) = some ret ∧
      ret.Perm ((server.fields msg).map fun m => (units m.1,property m.2)) := by
  have keys : ∀ m ∈ server.strings msg, Key m.1 := fun m inside =>
    have known := keys_known m.1 (strings_key server msg inside)
    ⟨known.1,known.2.1⟩
  have ordinary : ∀ m ∈ server.strings msg, units m.1 ≠ units "__proto__" := fun m inside =>
    (keys_known m.1 (strings_key server msg inside)).2.2
  have fresh : units "timestamp" ∉ (server.strings msg).map fun m => units m.1 := fun inside => by
    obtain ⟨m,member,eq⟩ := List.mem_map.mp inside
    exact (keys m member).other eq
  refine ⟨_,parseMessage_write server.style _ _ (strings_some server msg) keys,?_⟩
  rw [assign_new _ _ ?_ ordinary]
  · refine List.perm_append_comm.trans (List.Perm.of_eq ?_)
    simp [Server.fields,property,Function.comp_def]
  · cases server.timestamp msg with
    | none => simpa using strings_nodup server msg
    | some n => simpa using ⟨by simpa using fresh,strings_nodup server msg⟩

end Wschat.Web
