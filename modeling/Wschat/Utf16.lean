import Mathlib.Data.List.Basic

/-! Strings as UTF-16 code units. A unit that is half of a surrogate pair stands for no
character without the other half. -/
namespace Wschat

/-- The code units of a code point. -/
def utf16Code (n : Nat) : List UInt16 :=
  if n < 0x10000 then [.ofNat n]
  else [.ofNat (0xd800 + (n - 0x10000) / 0x400),.ofNat (0xdc00 + (n - 0x10000) % 0x400)]

def utf16Char (c : Char) : List UInt16 := utf16Code c.toNat

def utf16 (s : String) : List UInt16 := s.toList.flatMap utf16Char

/-- Halves of a surrogate pair. -/
def IsHigh (n : Nat) : Prop := 0xd800 ≤ n ∧ n ≤ 0xdbff

def IsLow (n : Nat) : Prop := 0xdc00 ≤ n ∧ n ≤ 0xdfff

instance : DecidablePred IsHigh := fun n => inferInstanceAs (Decidable (0xd800 ≤ n ∧ n ≤ 0xdbff))

instance : DecidablePred IsLow := fun n => inferInstanceAs (Decidable (0xdc00 ≤ n ∧ n ≤ 0xdfff))

def pair (high low : Nat) : Nat := 0x10000 + (high - 0xd800) * 0x400 + (low - 0xdc00)

/-- The characters that the code units stand for. -/
def decodeUtf16 : List UInt16 → Option (List Char)
  | [] => some []
  | u :: us =>
    if IsHigh u.toNat then
      match us with
      | [] => none
      | v :: us =>
        if IsLow v.toNat then (decodeUtf16 us).map (Char.ofNat (pair u.toNat v.toNat) :: ·) else none
    else if IsLow u.toNat then none
    else (decodeUtf16 us).map (Char.ofNat u.toNat :: ·)

theorem char_valid (c : Char) : c.toNat < 0xd800 ∨ 0xdfff < c.toNat ∧ c.toNat < 0x110000 := c.valid

theorem toNat_ofNat_valid (n : Nat) (valid : n < 0xd800 ∨ 0xdfff < n ∧ n < 0x110000) :
    (Char.ofNat n).toNat = n := by
  rw [Char.ofNat,dif_pos valid]
  rfl

theorem utf16Code_pair (high : IsHigh m) (low : IsLow n) :
    utf16Code (pair m n) = [.ofNat m,.ofNat n] := by
  unfold IsHigh at high
  unfold IsLow at low
  have first : 0xd800 + (pair m n - 0x10000) / 0x400 = m := by unfold pair; omega
  have second : 0xdc00 + (pair m n - 0x10000) % 0x400 = n := by unfold pair; omega
  rw [utf16Code,if_neg (by unfold pair; omega),first,second]

theorem unit_toNat (small : n < 0x10000) : (UInt16.ofNat n).toNat = n := by
  rw [UInt16.toNat_ofNat',Nat.mod_eq_of_lt small]

theorem decodeUtf16_plain (us : List UInt16) (small : n < 0x10000) (high : ¬IsHigh n)
    (low : ¬IsLow n) : decodeUtf16 (.ofNat n :: us) = (decodeUtf16 us).map (Char.ofNat n :: ·) := by
  rw [decodeUtf16.eq_def]
  simp only [unit_toNat small,if_neg high,if_neg low]

theorem decodeUtf16_pair (us : List UInt16) (high : IsHigh m) (low : IsLow n) :
    decodeUtf16 (.ofNat m :: .ofNat n :: us) = (decodeUtf16 us).map (Char.ofNat (pair m n) :: ·) := by
  have first : m < 0x10000 := by unfold IsHigh at high; omega
  have second : n < 0x10000 := by unfold IsLow at low; omega
  rw [decodeUtf16.eq_def]
  simp only [unit_toNat first,unit_toNat second,if_pos high,if_pos low]

theorem decode_utf16Char (c : Char) (us : List UInt16) :
    decodeUtf16 (utf16Char c ++ us) = (decodeUtf16 us).map (c :: ·) := by
  have valid := char_valid c
  unfold utf16Char utf16Code
  split
  case isTrue small =>
    have read := decodeUtf16_plain (n := c.toNat) us small (by unfold IsHigh; omega)
      (by unfold IsLow; omega)
    rwa [Char.ofNat_toNat] at read
  case isFalse big =>
    have high : IsHigh (0xd800 + (c.toNat - 0x10000) / 0x400) := by unfold IsHigh; omega
    have low : IsLow (0xdc00 + (c.toNat - 0x10000) % 0x400) := by unfold IsLow; omega
    have whole : pair (0xd800 + (c.toNat - 0x10000) / 0x400) (0xdc00 + (c.toNat - 0x10000) % 0x400) =
        c.toNat := by
      unfold pair
      omega
    have read := decodeUtf16_pair us high low
    rwa [whole,Char.ofNat_toNat] at read

/-- Characters have code units of their own, and what has characters is their code units. -/
theorem decodeUtf16_iff (us : List UInt16) (cs : List Char) :
    decodeUtf16 us = some cs ↔ cs.flatMap utf16Char = us := by
  constructor
  · intro decoded
    fun_induction decodeUtf16 us generalizing cs with
    | case1 =>
      obtain rfl := Option.some.inj decoded
      rfl
    | case2 => contradiction
    | case3 u high v us low ih =>
      obtain ⟨rest,found,rfl⟩ := Option.map_eq_some_iff.mp decoded
      have size : (Char.ofNat (pair u.toNat v.toNat)).toNat = pair u.toNat v.toNat :=
        toNat_ofNat_valid _ (by unfold IsHigh at high; unfold IsLow at low; unfold pair; omega)
      have units : utf16Char (Char.ofNat (pair u.toNat v.toNat)) = [u,v] := by
        rw [utf16Char,size,utf16Code_pair high low,UInt16.ofNat_toNat,UInt16.ofNat_toNat]
      rw [List.flatMap_cons,units,ih rest found]
      rfl
    | case4 => contradiction
    | case5 => contradiction
    | case6 u us high low ih =>
      obtain ⟨rest,found,rfl⟩ := Option.map_eq_some_iff.mp decoded
      have size : (Char.ofNat u.toNat).toNat = u.toNat := by
        have := u.toNat_lt
        exact toNat_ofNat_valid _ (by unfold IsHigh at high; unfold IsLow at low; omega)
      rw [List.flatMap_cons,utf16Char,size,utf16Code,if_pos u.toNat_lt,UInt16.ofNat_toNat,
        ih rest found]
      rfl
  · rintro rfl
    induction cs with
    | nil => rfl
    | cons c cs ih => rw [List.flatMap_cons,decode_utf16Char,ih,Option.map_some]

/-- The string that code units stand for, when there is one. -/
theorem decodeUtf16_string (us : List UInt16) (s : String) :
    (decodeUtf16 us).map String.ofList = some s ↔ utf16 s = us := by
  rw [Option.map_eq_some_iff,utf16]
  constructor
  · rintro ⟨cs,decoded,rfl⟩
    rw [String.toList_ofList]
    exact (decodeUtf16_iff us cs).mp decoded
  · intro units
    exact ⟨s.toList,(decodeUtf16_iff us s.toList).mpr units,String.ofList_toList⟩

theorem utf16_injective : Function.Injective utf16 := by
  intro s t same
  have one := (decodeUtf16_string (utf16 t) s).mpr same
  have other := (decodeUtf16_string (utf16 t) t).mpr rfl
  exact Option.some.inj (one.symm.trans other)

theorem utf16_eq_nil (s : String) : utf16 s = [] ↔ s = "" := utf16_injective.eq_iff' rfl

end Wschat
