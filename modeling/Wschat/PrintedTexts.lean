import Wschat.JsonText
import Wschat.ServerTexts

/-! The printers, in characters, write the code units that the servers send: the compact one
those of the Rust server, and that of `encoding/json` those of the Go server. -/
namespace Wschat

open UnitJson

/-- The code units of characters. -/
def encodeChars (chars : List Char) : List UInt16 := chars.flatMap utf16Char

theorem encodeChars_append (chars more : List Char) :
    encodeChars (chars ++ more) = encodeChars chars ++ encodeChars more := List.flatMap_append

theorem encodeChars_cons (c : Char) (chars : List Char) :
    encodeChars (c :: chars) = utf16Char c ++ encodeChars chars := List.flatMap_cons

theorem utf16_ofList (chars : List Char) : utf16 (String.ofList chars) = encodeChars chars := by
  rw [utf16,String.toList_ofList,encodeChars]

theorem utf16Char_small (c : Char) (small : c.toNat < 0x10000) : utf16Char c = [unit c] := if_pos small

/-- Text of small characters, one unit each. -/
theorem encodeChars_small (chars : List Char) (small : ∀ c ∈ chars, c.toNat < 0x10000) :
    encodeChars chars = chars.map unit := by
  induction chars with
  | nil => rfl
  | cons c chars ih =>
    obtain ⟨here,small⟩ := List.forall_mem_cons.mp small
    rw [encodeChars_cons,utf16Char_small c here,ih small]
    rfl

theorem shortEscape_low (known : shortEscape e = some u) : u.toNat < 128 := by
  unfold shortEscape at known
  repeat' split at known
  · next named => rcases named with rfl | rfl | rfl <;> obtain rfl := Option.some.inj known <;> decide
  · obtain rfl := Option.some.inj known; decide
  · obtain rfl := Option.some.inj known; decide
  · obtain rfl := Option.some.inj known; decide
  · obtain rfl := Option.some.inj known; decide
  · obtain rfl := Option.some.inj known; decide
  · contradiction

theorem escape_high (short : List Char) (long : UInt16 → Bool) (u : UInt16) (high : 128 ≤ u.toNat)
    (kept : long u = false) : escapeWith short long u = [u] := by
  have unnamed : short.find? (fun e => decide (shortEscape (unit e) = some u)) = none := by
    rw [List.find?_eq_none]
    intro e member named
    have low := shortEscape_low (of_decide_eq_true named)
    omega
  have visible : ¬u < 0x20 := by
    rw [UInt16.lt_iff_toNat_lt]
    have : (0x20 : UInt16).toNat = 32 := rfl
    omega
  rw [escapeWith,unnamed]
  exact if_neg (by simpa [kept] using visible)

/-- A character beyond ASCII is one unit, or two surrogates. -/
theorem utf16Char_high (c : Char) (high : ¬c.toNat < 128) :
    ∀ u ∈ utf16Char c, 128 ≤ u.toNat ∧ (u.toNat = c.toNat ∨ 0xd800 ≤ u.toNat) := by
  have valid : c.toNat < 0xd800 ∨ 0xdfff < c.toNat ∧ c.toNat < 0x110000 := c.valid
  intro u inside
  unfold utf16Char utf16Code at inside
  split at inside
  · obtain rfl := List.mem_singleton.mp inside
    rw [UInt16.toNat_ofNat']
    omega
  · rcases List.mem_cons.mp inside with rfl | inside
    · rw [UInt16.toNat_ofNat']
      omega
    · obtain rfl := List.mem_singleton.mp inside
      rw [UInt16.toNat_ofNat']
      omega

theorem flatMap_plain {f : UInt16 → List UInt16} {us : List UInt16} (plain : ∀ u ∈ us, f u = [u]) :
    us.flatMap f = us := by
  rw [List.flatMap_congr plain,List.flatMap_singleton']

theorem escapeControl_plain (c : Char) (high : ¬c.toNat < 128) : Json.escapeControl c = [c] := by
  have other (d : Char) (low : d.toNat < 128) : c ≠ d := by
    rintro rfl
    exact high low
  have quote := other '"' (by decide)
  have slash := other '\\' (by decide)
  unfold Json.escapeControl
  rw [if_neg quote,if_neg slash,if_neg (by omega),if_neg (by omega),if_neg (by omega),
    if_neg (by omega),if_neg (by omega),if_neg (by omega)]

theorem encodeChars_single (c : Char) : encodeChars [c] = utf16Char c := by
  rw [encodeChars_cons]
  exact List.append_nil _

/-- What is escaped is ASCII, and the other characters are left as they are. -/
theorem escape_compact (c : Char) :
    encodeChars (Json.compact.escape c) = (utf16Char c).flatMap Server.compact.escape := by
  by_cases ascii : c.toNat < 128
  · have all : ∀ n < 128, encodeChars (Json.escapeControl (Char.ofNat n)) =
        (utf16Char (Char.ofNat n)).flatMap Server.compact.escape := by decide
    have here := all c.toNat ascii
    rwa [Char.ofNat_toNat] at here
  · have escape : Server.compact.escape = escapeWith ['"','\\','b','f','n','r','t'] fun _ => false := rfl
    have plain : (utf16Char c).flatMap Server.compact.escape = utf16Char c := by
      rw [escape]
      exact flatMap_plain fun u inside => escape_high _ _ u (utf16Char_high c ascii u inside).1 rfl
    have kept : Json.compact.escape c = [c] := escapeControl_plain c ascii
    rw [plain,kept,encodeChars_single]

namespace Json

/-- What `json.Marshal` escapes in its own way. -/
def htmlCodes : List Nat := [0x26,0x3c,0x3e,0x2028,0x2029]

def escapeHtml (c : Char) : List Char :=
  if c ∈ ['"','\\','\n','\r','\t'] then escapeControl c
  else if c.toNat < 32 ∨ c.toNat ∈ htmlCodes then '\\' :: 'u' :: fourDigits c.toNat
  else [c]

theorem unescape_html (c : Char) (text : List Char) :
    unquote (escapeHtml c ++ text) = prepend c (unquote text) := by
  unfold escapeHtml
  split
  case isTrue => exact unescape_control c text
  case isFalse ordinary =>
    simp only [List.mem_cons,List.not_mem_nil,or_false,not_or] at ordinary
    split
    case isTrue coded =>
      have known : ∀ n ∈ List.range 32 ++ htmlCodes, n < 0xd800 := by decide
      have small := known c.toNat (by simpa using coded)
      have unquoted := unquote_unicode _ _ _ _ c.toNat text (hexQuad_fourDigits (by omega)) (.inl small)
      rwa [Char.ofNat_toNat] at unquoted
    case isFalse plain => exact unquote_plain c text ordinary.1 ordinary.2.1 (by omega)

/-- The printer of `encoding/json`. -/
def html : Style where
  comma := []
  colon := []
  escape := escapeHtml
  blanks := compact.blanks
  unescape := unescape_html

end Json

theorem escape_html (c : Char) :
    encodeChars (Json.html.escape c) = (utf16Char c).flatMap Server.marshal.escape := by
  have code (n : Nat) (same : c.toNat = n) : c = Char.ofNat n := by rw [← same,Char.ofNat_toNat]
  by_cases ascii : c.toNat < 128
  · have all : ∀ n < 128, encodeChars (Json.escapeHtml (Char.ofNat n)) =
        (utf16Char (Char.ofNat n)).flatMap Server.marshal.escape := by decide
    have here := all c.toNat ascii
    rwa [Char.ofNat_toNat] at here
  by_cases line : c.toNat = 0x2028
  · rw [code _ line]
    decide
  by_cases paragraph : c.toNat = 0x2029
  · rw [code _ paragraph]
    decide
  have kept : Json.html.escape c = [c] := by
    have ordinary : c ∉ ['"','\\','\n','\r','\t'] := by
      simp only [List.mem_cons,List.not_mem_nil,or_false]
      rintro (rfl | rfl | rfl | rfl | rfl) <;> exact ascii (by decide)
    have uncoded : ¬(c.toNat < 32 ∨ c.toNat ∈ Json.htmlCodes) := by
      simp only [Json.htmlCodes,List.mem_cons,List.not_mem_nil,or_false]
      omega
    change Json.escapeHtml c = [c]
    rw [Json.escapeHtml,if_neg ordinary,if_neg uncoded]
  have escape : Server.marshal.escape = escapeWith ['"','\\','n','r','t'] fun u =>
    u = unit '<' || u = unit '>' || u = unit '&' || u = 0x2028 || u = 0x2029 := rfl
  have plain : (utf16Char c).flatMap Server.marshal.escape = utf16Char c := by
    rw [escape]
    refine flatMap_plain fun u inside => ?_
    obtain ⟨big,unit_⟩ := utf16Char_high c ascii u inside
    refine escape_high _ _ u big ?_
    have apart (v : UInt16) (size : v.toNat < 128 ∨ v.toNat = 0x2028 ∨ v.toNat = 0x2029) : u ≠ v := by
      rintro rfl
      omega
    simp only [Bool.or_eq_false_iff,decide_eq_false_iff_not]
    exact ⟨⟨⟨⟨apart _ (.inl (by decide)),apart _ (.inl (by decide))⟩,apart _ (.inl (by decide))⟩,
      apart _ (.inr (.inl rfl))⟩,apart _ (.inr (.inr rfl))⟩
  rw [plain,kept,encodeChars_single]

/-- The two accounts of a library's style agree. -/
structure Alike (chars : Json.Style) (style : Style) : Prop where
  comma : encodeChars chars.comma = style.comma
  colon : encodeChars chars.colon = style.colon
  escape : ∀ c, encodeChars (chars.escape c) = (utf16Char c).flatMap style.escape
  keys : ∀ key ∈ ["sender","action","contents","timestamp"], quote style (utf16 key) = writeKey key

section Printer

variable {chars : Json.Style} {style : Style}

theorem Alike.string (alike : Alike chars style) (s : String) :
    encodeChars (Json.quote chars s) = quote style (utf16 s) := by
  have body (cs : List Char) : encodeChars (cs.flatMap chars.escape) =
      (cs.flatMap utf16Char).flatMap style.escape := by
    induction cs with
    | nil => rfl
    | cons c cs ih =>
      rw [List.flatMap_cons,encodeChars_append,alike.escape,ih,List.flatMap_cons,List.flatMap_append]
  have mark : utf16Char '"' = [unit '"'] := by decide
  rw [Json.quote,List.cons_append,encodeChars_cons,encodeChars_append,body,mark]
  rfl

theorem encode_natural (n : Nat) : encodeChars (Json.writeNat n) = writeNat n := by
  refine encodeChars_small _ fun c inside => ?_
  have digit := Nat.isDigit_of_mem_toDigits (by decide) (by decide) inside
  simp only [Char.isDigit,Bool.and_eq_true,decide_eq_true_eq,UInt32.le_iff_toNat_le] at digit
  have nine : ('9' : Char).val.toNat = 57 := rfl
  have size : c.toNat = c.val.toNat := rfl
  omega

theorem utf16Char_mark (c : Char) (inside : c ∈ [',',':','\x7b','\x7d']) : utf16Char c = [unit c] := by
  simp only [List.mem_cons,List.not_mem_nil,or_false] at inside
  rcases inside with rfl | rfl | rfl | rfl <;> rfl

/-- The JSON members of strings, with the timestamp last. -/
def messageMembers (ms : List (String × String)) (timestamp : Option Nat) : List (String × Json) :=
  ms.map (fun m => (m.1,.str m.2)) ++ timestamp.toList.map fun n => ("timestamp",.int n)

theorem Alike.member (alike : Alike chars style) (key s : String)
    (known : key ∈ ["sender","action","contents","timestamp"]) (rest : List Char) :
    encodeChars (Json.quote chars key ++ ':' :: chars.colon ++ Json.quote chars s ++ rest) =
      writeKey key ++ unit ':' :: style.colon ++ quote style (utf16 s) ++ encodeChars rest := by
  simp only [encodeChars_append,encodeChars_cons,alike.string,alike.keys key known,alike.colon,
    utf16Char_mark ':' (by simp),List.cons_append,List.nil_append,List.append_assoc]

theorem Alike.stamped (alike : Alike chars style) (n : Nat) :
    encodeChars (',' :: chars.comma ++ Json.writeMembers chars.layout [("timestamp",.int n)]) =
      stamp style n := by
  have digits : encodeChars (Json.writeInt n) = writeNat n := encode_natural n
  simp only [Json.writeMembers,Json.write,Json.layout_colon,Json.layout_quote,stamp,encodeChars_append,
    encodeChars_cons,alike.comma,alike.colon,alike.string,alike.keys "timestamp" (by simp),digits,
    utf16Char_mark ',' (by simp),utf16Char_mark ':' (by simp),List.cons_append,List.nil_append,
    List.append_assoc]

theorem Alike.members (alike : Alike chars style) (ms : List (String × String)) (timestamp : Option Nat)
    (some_ : ms ≠ []) (known : ∀ m ∈ ms, m.1 ∈ ["sender","action","contents","timestamp"]) :
    encodeChars (Json.writeMembers chars.layout (messageMembers ms timestamp)) =
      writeMembers style (ms.map fun m => (m.1,utf16 m.2)) ++
        timestamp.elim [] (stamp style) := by
  induction ms with
  | nil => contradiction
  | cons m ms ih =>
    obtain ⟨key,s⟩ := m
    obtain ⟨here,known⟩ := List.forall_mem_cons.mp known
    cases ms with
    | nil =>
      cases timestamp with
      | none =>
        have one := alike.member key s here []
        simpa [messageMembers,Json.writeMembers,Json.write,writeMembers,encodeChars] using one
      | some n =>
        have one := alike.member key s here (',' :: chars.comma ++
          Json.writeMembers chars.layout [("timestamp",.int n)])
        rw [alike.stamped] at one
        simpa [messageMembers,Json.writeMembers,Json.write,writeMembers] using one
    | cons m' ms =>
      have rest : encodeChars (',' :: chars.comma ++
          Json.writeMembers chars.layout (messageMembers (m' :: ms) timestamp)) =
          unit ',' :: style.comma ++ (writeMembers style ((m' :: ms).map fun m => (m.1,utf16 m.2)) ++
            timestamp.elim [] (stamp style)) := by
        rw [encodeChars_append,encodeChars_cons,alike.comma,ih (by simp) known,
          utf16Char_mark ',' (by simp)]
        rfl
      have one := alike.member key s here (',' :: chars.comma ++
        Json.writeMembers chars.layout (messageMembers (m' :: ms) timestamp))
      rw [rest] at one
      simpa [messageMembers,Json.writeMembers,Json.write,writeMembers] using one

/-- The printed object of a message is the text that the server's style says. -/
theorem Alike.message (alike : Alike chars style) (ms : List (String × String)) (timestamp : Option Nat)
    (some_ : ms ≠ []) (known : ∀ m ∈ ms, m.1 ∈ ["sender","action","contents","timestamp"]) :
    utf16 (Json.print chars (.obj (messageMembers ms timestamp))) =
      writeMessage style (ms.map fun m => (m.1,utf16 m.2)) timestamp := by
  rw [Json.print,utf16_ofList,Json.write]
  simp only [List.cons_append,encodeChars_cons,encodeChars_append,alike.members ms timestamp some_ known,
    utf16Char_mark '\x7b' (by simp),utf16Char_mark '\x7d' (by simp)]
  cases timestamp <;> simp [writeMessage,writeObject,encodeChars]

end Printer

theorem alike_compact : Alike Json.compact Server.compact :=
  ⟨rfl,rfl,escape_compact,by decide⟩

/-- The Rust server's texts. -/
theorem rust_compact (msg : Rust.Message) : utf16 (Json.print Json.compact (Rust.serialize msg)) =
    Server.rust.encode ⟨utf16 msg.sender,msg.action,utf16 msg.contents,msg.timestamp⟩ := by
  have printed := alike_compact.message
    [("sender",msg.sender),("action",msg.action.asStr),("contents",msg.contents)]
    (some msg.timestamp.toNat) (by simp) (by simp)
  have action : utf16 msg.action.asStr = units msg.action.asStr := utf16_action .rust msg.action
  simp only [List.map_cons,List.map_nil,action] at printed
  exact printed

theorem alike_html : Alike Json.html Server.marshal :=
  ⟨rfl,rfl,escape_html,by decide⟩

/-- The Go server's texts. -/
theorem go_html (sender contents : String) (action : Rust.Action) (n : UInt64) (now : Int64)
    (same : now.toInt = n.toNat) :
    utf16 (Json.print Json.html (Go.marshalJson ⟨sender,some action.go,contents,now⟩)) =
      Server.go.encode ⟨utf16 sender,action,utf16 contents,n⟩ := by
  have action_ : utf16 action.go.str = units action.go.str := utf16_action .go action
  have zero : now = 0 ↔ n = 0 := by
    rw [← Int64.toInt_inj,← UInt64.toNat_inj,same]
    simp
  have printed := alike_html.message
    ((if sender = "" then [] else [("sender",sender)]) ++ ("action",action.go.str) ::
      if contents = "" then [] else [("contents",contents)])
    (if n = 0 then none else some n.toNat) (by simp) (by split <;> split <;> simp)
  rw [Server.encode,Server.strings,Server.timestamp]
  simp only [utf16_eq_nil,Server.omitempty]
  by_cases s : sender = "" <;> by_cases c : contents = "" <;> by_cases t : n = 0 <;>
    simp [s,c,t,action_,messageMembers,zero,same,Go.marshalJson,Go.omitempty,Go.marshalAction,
      Server.actionStr] at printed ⊢ <;>
    exact printed

end Wschat
