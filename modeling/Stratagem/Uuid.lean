/-!
# Universally unique identifiers

A `Uuid` is 128 bits. It is written as 32 lower-case hexadecimal digits in five groups
(`8-4-4-4-12`) and read in four forms, digits in either case:

* the grouped form that is written;
* the 32 digits without hyphens;
* the grouped form between braces;
* the grouped form after `urn:uuid:`, the label in either case.

Order is the order of the sixteen bytes, which is the order of the 128-bit number.
-/

namespace Stratagem

/-- A 128-bit identifier. -/
structure Uuid where
  bits : BitVec 128
deriving DecidableEq, Repr

namespace Uuid

/-- The identifier whose bits are all zero. -/
def nil : Uuid := ⟨0⟩

instance : Inhabited Uuid := ⟨nil⟩

instance : LT Uuid := ⟨fun a b => a.bits.toNat < b.bits.toNat⟩

instance : LE Uuid := ⟨fun a b => a.bits.toNat ≤ b.bits.toNat⟩

instance (a b : Uuid) : Decidable (a < b) :=
  inferInstanceAs (Decidable (a.bits.toNat < b.bits.toNat))

instance (a b : Uuid) : Decidable (a ≤ b) :=
  inferInstanceAs (Decidable (a.bits.toNat ≤ b.bits.toNat))

/-! ## Hexadecimal digits -/

/-- The last `width` hexadecimal digits of `n`, most significant first. -/
def hexDigits : Nat → Nat → List Char
  | 0, _ => []
  | width + 1, n => hexDigits width (n / 16) ++ [Nat.digitChar (n % 16)]

/-- The value of one hexadecimal digit, in either case. -/
def hexValue? (c : Char) : Option Nat :=
  if '0' ≤ c ∧ c ≤ '9' then some (c.toNat - '0'.toNat)
  else if 'a' ≤ c ∧ c ≤ 'f' then some (c.toNat - 'a'.toNat + 10)
  else if 'A' ≤ c ∧ c ≤ 'F' then some (c.toNat - 'A'.toNat + 10)
  else none

/-- The number that a run of hexadecimal digits spells. -/
def hexNumber? (digits : List Char) : Option Nat :=
  digits.foldlM (fun n c => (hexValue? c).map (n * 16 + ·)) 0

/-! ## Groups -/

/-- Digits per group of the written form. -/
def groupSizes : List Nat := [8, 4, 4, 4, 12]

/-- Cut a run of digits into hyphenated groups. -/
def group : List Nat → List Char → List Char
  | [], _ => []
  | [_], digits => digits
  | n :: sizes, digits => digits.take n ++ '-' :: group sizes (digits.drop n)

/-- The digits of a run that is hyphenated in groups of exactly the given sizes. -/
def ungroup? : List Nat → List Char → Option (List Char)
  | [], text => if text.isEmpty then some [] else none
  | [n], text => if text.length = n then some text else none
  | n :: sizes, text =>
    match text.drop n with
    | '-' :: rest => (ungroup? sizes rest).map (text.take n ++ ·)
    | _ => none

/-! ## Text -/

/-- The written form: lower-case digits in hyphenated groups. -/
def toString (id : Uuid) : String :=
  String.ofList (group groupSizes (hexDigits 32 id.bits.toNat))

instance : ToString Uuid := ⟨toString⟩

/-- The label of the third read form. -/
def urnLabel : List Char := ['u', 'r', 'n', ':', 'u', 'u', 'i', 'd', ':']

/-- The 32 digits of a text in one of the four read forms. -/
def digits? (text : List Char) : Option (List Char) :=
  match text.length with
  | 32 => some text
  | 36 => ungroup? groupSizes text
  | 38 =>
    match text with
    | '{' :: rest => if rest.getLast? = some '}' then ungroup? groupSizes rest.dropLast else none
    | _ => none
  | 45 =>
    if (text.take 9).map Char.toLower = urnLabel then ungroup? groupSizes (text.drop 9) else none
  | _ => none

/-- Read an identifier in any of the four forms. -/
def ofString? (text : String) : Option Uuid := do
  let digits ← digits? text.toList
  let n ← hexNumber? digits
  pure ⟨BitVec.ofNat 128 n⟩

end Uuid

/-! ## Identifiers of the entities -/

/-- What an identifier names. -/
inductive IdKind
  | actor | clan | family | role | culture | variable
deriving DecidableEq, Repr

/-- The word for an identifier of this kind where values are shown. -/
def IdKind.label : IdKind → String
  | .actor => "ActorId"
  | .clan => "ClanId"
  | .family => "FamilyId"
  | .role => "RoleId"
  | .culture => "CultureId"
  | .variable => "VariableId"

/-- An identifier of one kind of thing: identifiers of different kinds never mix. -/
structure Id (kind : IdKind) where
  uuid : Uuid
deriving DecidableEq, Repr

abbrev ActorId := Id .actor
abbrev ClanId := Id .clan
abbrev FamilyId := Id .family
abbrev RoleId := Id .role
abbrev CultureId := Id .culture
abbrev VariableId := Id .variable

namespace Id

variable {kind : IdKind}

instance : Inhabited (Id kind) := ⟨⟨Uuid.nil⟩⟩

/-- The identifier that names nothing in particular. -/
def nil : Id kind := ⟨Uuid.nil⟩

instance : LT (Id kind) := ⟨fun a b => a.uuid < b.uuid⟩

instance : LE (Id kind) := ⟨fun a b => a.uuid ≤ b.uuid⟩

instance (a b : Id kind) : Decidable (a < b) := inferInstanceAs (Decidable (a.uuid < b.uuid))

instance (a b : Id kind) : Decidable (a ≤ b) := inferInstanceAs (Decidable (a.uuid ≤ b.uuid))

instance : ToString (Id kind) := ⟨fun id => toString id.uuid⟩

theorem le_antisymm {a b : Id kind} (le : a ≤ b) (ge : b ≤ a) : a = b :=
  congrArg (fun bits => Id.mk ⟨bits⟩) (BitVec.eq_of_toNat_eq (Nat.le_antisymm le ge))

theorem lt_of_le_of_ne {a b : Id kind} (le : a ≤ b) (ne : a ≠ b) : a < b :=
  Nat.lt_of_le_of_ne le fun same => ne (le_antisymm le (Nat.le_of_eq same.symm))

/-- Read an identifier from any of the forms of its text. -/
def ofString? (text : String) : Option (Id kind) := (Uuid.ofString? text).map Id.mk

end Id

end Stratagem
