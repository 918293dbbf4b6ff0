import Plenora.Lib.Decimal
import Plenora.Lib.Machine

/-!
# JSON texts

A JSON text as its syntax tree: every character of the text belongs to the tree (the
spaces, the spelling of numbers and of escapes), so the valid texts are the texts of the
well-formed trees.  The keys of an object are compared after their escapes are decoded.

    x.RepeatsKey  ↔  some object, at some depth, has a key twice
-/

namespace Plenora.Lib.Json

abbrev Text := List Char

scoped instance : LawfulBEq Text := inferInstance

/-! ## Strings -/

/-- The escapes of one letter. -/
def escaped (e : Char) : Option Char :=
  if e = '"' then some '"'
  else if e = '\\' then some '\\'
  else if e = '/' then some '/'
  else if e = 'b' then some '\x08'
  else if e = 'f' then some '\x0C'
  else if e = 'n' then some '\n'
  else if e = 'r' then some '\r'
  else if e = 't' then some '\t'
  else none

/-- The number of hexadecimal digits. -/
def hexNumber (digits : Text) : Option Nat :=
  digits.foldlM (fun n c => (hexDigit c).map fun d => 16 * n + d) 0

theorem hexDigit_lt {c : Char} {d : Nat} (h : hexDigit c = some d) : d < 16 := by
  unfold hexDigit at h
  split at h
  next hrange =>
    cases h
    have : c.toNat ≤ 57 := hrange.2
    omega
  next =>
    split at h
    next hrange =>
      cases h
      have : c.toNat ≤ 102 := hrange.2
      omega
    next =>
      split at h
      next hrange =>
        cases h
        have : c.toNat ≤ 70 := hrange.2
        omega
      next => cases h

theorem hexNumber_lt {digits : Text} {n : Nat} (h : hexNumber digits = some n) :
    n < 16 ^ digits.length := by
  have hall (m : Nat) : ∀ n, digits.foldlM (fun n c => (hexDigit c).map fun d => 16 * n + d) m = some n →
      n < (m + 1) * 16 ^ digits.length := by
    clear h
    induction digits generalizing m with
    | nil =>
      intro n h
      cases h
      rw [List.length_nil]
      omega
    | cons c digits ih =>
      intro n h
      rw [List.foldlM_cons] at h
      obtain ⟨k, hk, h⟩ := Option.bind_eq_some_iff.1 h
      obtain ⟨d, hd, rfl⟩ := Option.map_eq_some_iff.1 hk
      have hlt := hexDigit_lt hd
      calc n < (16 * m + d + 1) * 16 ^ digits.length := ih _ n h
        _ ≤ ((m + 1) * 16) * 16 ^ digits.length := Nat.mul_le_mul_right _ (by omega)
        _ = (m + 1) * 16 ^ (digits.length + 1) := by rw [Nat.pow_succ]; ring
  have := hall 0 n h
  omega

/-- What stands for one character of a string. -/
inductive Piece where
  | char (c : Char)
  | escape (e : Char)
  /-- Four digits of a code outside the surrogates. -/
  | code (digits : Text)
  /-- A high surrogate and the low one after it. -/
  | pair (high low : Text)

def IsCode (digits : Text) (n : Nat) : Prop := digits.length = 4 ∧ hexNumber digits = some n

def Piece.WellFormed : Piece → Prop
  | .char c => c ≠ '"' ∧ c ≠ '\\' ∧ 0x20 ≤ c.toNat
  | .escape e => ∃ c, escaped e = some c
  | .code digits => ∃ n, IsCode digits n ∧ (n < 0xD800 ∨ 0xE000 ≤ n)
  | .pair high low =>
    ∃ m n, IsCode high m ∧ IsCode low n ∧ 0xD800 ≤ m ∧ m < 0xDC00 ∧ 0xDC00 ≤ n ∧ n < 0xE000

def Piece.text : Piece → Text
  | .char c => [c]
  | .escape e => ['\\', e]
  | .code digits => '\\' :: 'u' :: digits
  | .pair high low => '\\' :: 'u' :: high ++ '\\' :: 'u' :: low

def codeOf (digits : Text) : Nat := (hexNumber digits).getD 0

/-- The character of a surrogate pair. -/
def ofPair (high low : Nat) : Nat := 0x10000 + (high - 0xD800) * 1024 + (low - 0xDC00)

def Piece.decode : Piece → Char
  | .char c => c
  | .escape e => (escaped e).getD e
  | .code digits => Char.ofNat (codeOf digits)
  | .pair high low => Char.ofNat (ofPair (codeOf high) (codeOf low))

def decode (pieces : List Piece) : Text := pieces.map Piece.decode

def literal (pieces : List Piece) : Text := '"' :: pieces.flatMap Piece.text ++ ['"']

/-! ## Scalars -/

def isSpace (c : Char) : Bool := c = ' ' || c = '\t' || c = '\n' || c = '\r'

def IsSpace (spaces : Text) : Prop := ∀ c ∈ spaces, isSpace c = true

def Digits (l : Text) : Prop := l ≠ [] ∧ Decimal.AllDigits l

def IsNumber (raw : Text) : Prop :=
  ∃ sign integer fraction exponent, raw = sign ++ integer ++ fraction ++ exponent ∧
    (sign = [] ∨ sign = ['-']) ∧
    (integer = ['0'] ∨ (Digits integer ∧ integer.head? ≠ some '0')) ∧
    (fraction = [] ∨ ∃ ds, fraction = '.' :: ds ∧ Digits ds) ∧
    (exponent = [] ∨ ∃ e plus ds, exponent = e :: plus ++ ds ∧ (e = 'e' ∨ e = 'E') ∧
      (plus = [] ∨ plus = ['+'] ∨ plus = ['-']) ∧ Digits ds)

def IsScalar (raw : Text) : Prop :=
  raw = "null".toList ∨ raw = "true".toList ∨ raw = "false".toList ∨ IsNumber raw

/-! ## Trees -/

/-- What a tree stands for. -/
inductive Kind where
  | value
  | items
  | members

/-- A key between the spaces before it and those around its colon. -/
structure Key where
  before : Text
  pieces : List Piece
  between : Text
  after : Text

/-- The trees of values, of the items of an array and of the members of an object. -/
inductive Tree : Kind → Type
  | scalar (raw : Text) : Tree .value
  | string (pieces : List Piece) : Tree .value
  | emptyArray (spaces : Text) : Tree .value
  | array (all : Tree .items) : Tree .value
  | emptyObject (spaces : Text) : Tree .value
  | object (all : Tree .members) : Tree .value
  | item (before : Text) (v : Tree .value) (after : Text) : Tree .items
  | items (before : Text) (v : Tree .value) (after : Text) (more : Tree .items) : Tree .items
  | member (key : Key) (v : Tree .value) (after : Text) : Tree .members
  | members (key : Key) (v : Tree .value) (after : Text) (more : Tree .members) : Tree .members

def Key.text (key : Key) : Text := key.before ++ literal key.pieces ++ key.between ++ ':' :: key.after

def Key.WellFormed (key : Key) : Prop :=
  IsSpace key.before ∧ (∀ p ∈ key.pieces, p.WellFormed) ∧ IsSpace key.between ∧ IsSpace key.after

namespace Tree

def text : {kind : Kind} → Tree kind → Text
  | _, .scalar raw => raw
  | _, .string pieces => literal pieces
  | _, .emptyArray spaces => '[' :: spaces ++ [']']
  | _, .array all => '[' :: all.text ++ [']']
  | _, .emptyObject spaces => '{' :: spaces ++ ['}']
  | _, .object all => '{' :: all.text ++ ['}']
  | _, .item before v after => before ++ v.text ++ after
  | _, .items before v after more => before ++ v.text ++ after ++ ',' :: more.text
  | _, .member key v after => key.text ++ v.text ++ after
  | _, .members key v after more => key.text ++ v.text ++ after ++ ',' :: more.text

def WellFormed : {kind : Kind} → Tree kind → Prop
  | _, .scalar raw => IsScalar raw
  | _, .string pieces => ∀ p ∈ pieces, p.WellFormed
  | _, .emptyArray spaces => IsSpace spaces
  | _, .array all => all.WellFormed
  | _, .emptyObject spaces => IsSpace spaces
  | _, .object all => all.WellFormed
  | _, .item before v after => IsSpace before ∧ v.WellFormed ∧ IsSpace after
  | _, .items before v after more =>
    IsSpace before ∧ v.WellFormed ∧ IsSpace after ∧ more.WellFormed
  | _, .member key v after => key.WellFormed ∧ v.WellFormed ∧ IsSpace after
  | _, .members key v after more =>
    key.WellFormed ∧ v.WellFormed ∧ IsSpace after ∧ more.WellFormed

/-- The decoded keys of the members, none of another tree. -/
def keys : {kind : Kind} → Tree kind → List Text
  | _, .member key _ _ => [decode key.pieces]
  | _, .members key _ _ more => decode key.pieces :: more.keys
  | _, _ => []

/-- The keys of every object. -/
def keyLists : {kind : Kind} → Tree kind → List (List Text)
  | _, .scalar _ => []
  | _, .string _ => []
  | _, .emptyArray _ => []
  | _, .array all => all.keyLists
  | _, .emptyObject _ => []
  | _, .object all => all.keys :: all.keyLists
  | _, .item _ v _ => v.keyLists
  | _, .items _ v _ more => v.keyLists ++ more.keyLists
  | _, .member _ v _ => v.keyLists
  | _, .members _ v _ more => v.keyLists ++ more.keyLists

/-- Some object has a key twice. -/
def RepeatsKey {kind : Kind} (x : Tree kind) : Prop := ∃ ks ∈ x.keyLists, ¬ ks.Nodup

instance {kind : Kind} (x : Tree kind) : Decidable x.RepeatsKey :=
  inferInstanceAs (Decidable (∃ ks ∈ x.keyLists, ¬ ks.Nodup))

/-- How many arrays and objects are open at most. -/
def depth : {kind : Kind} → Tree kind → Nat
  | _, .scalar _ => 0
  | _, .string _ => 0
  | _, .emptyArray _ => 1
  | _, .array all => all.depth + 1
  | _, .emptyObject _ => 1
  | _, .object all => all.depth + 1
  | _, .item _ v _ => v.depth
  | _, .items _ v _ more => max v.depth more.depth
  | _, .member _ v _ => v.depth
  | _, .members _ v _ more => max v.depth more.depth

/-- The spellings of numbers, `null`, `true` and `false`. -/
def scalars : {kind : Kind} → Tree kind → List Text
  | _, .scalar raw => [raw]
  | _, .string _ => []
  | _, .emptyArray _ => []
  | _, .array all => all.scalars
  | _, .emptyObject _ => []
  | _, .object all => all.scalars
  | _, .item _ v _ => v.scalars
  | _, .items _ v _ more => v.scalars ++ more.scalars
  | _, .member _ v _ => v.scalars
  | _, .members _ v _ more => v.scalars ++ more.scalars

/-! ## Repeated keys, by the parts of a tree -/

theorem repeatsKey_object (all : Tree .members) :
    (object all).RepeatsKey ↔ ¬ all.keys.Nodup ∨ all.RepeatsKey := by
  unfold RepeatsKey
  rw [keyLists, List.exists_mem_cons_iff]

theorem repeatsKey_items (before : Text) (v : Tree .value) (after : Text) (more : Tree .items) :
    (items before v after more).RepeatsKey ↔ v.RepeatsKey ∨ more.RepeatsKey := by
  unfold RepeatsKey
  rw [keyLists]
  simp only [List.mem_append, or_and_right, exists_or]

theorem repeatsKey_members (key : Key) (v : Tree .value) (after : Text) (more : Tree .members) :
    (members key v after more).RepeatsKey ↔ v.RepeatsKey ∨ more.RepeatsKey := by
  unfold RepeatsKey
  rw [keyLists]
  simp only [List.mem_append, or_and_right, exists_or]

theorem not_repeatsKey_of_nil {kind : Kind} {x : Tree kind} (h : x.keyLists = []) :
    ¬ x.RepeatsKey := by
  rintro ⟨ks, hks, -⟩
  rw [h] at hks
  exact List.not_mem_nil hks

/-- Where the keys in `seen` come before those of the members, a key stands twice. -/
def Found : {kind : Kind} → List Text → Tree kind → Prop
  | .value, _, x => x.RepeatsKey
  | .items, _, x => x.RepeatsKey
  | .members, seen, x => x.RepeatsKey ∨ ¬ (x.keys ++ seen).Nodup

theorem found_object (all : Tree .members) : Found [] all ↔ (object all).RepeatsKey := by
  rw [repeatsKey_object, Found, List.append_nil, or_comm]

theorem found_member {seen : List Text} (hseen : seen.Nodup) (key : Key) (v : Tree .value)
    (after : Text) :
    Found seen (member key v after) ↔ decode key.pieces ∈ seen ∨ v.RepeatsKey := by
  have hrepeats : (member key v after).RepeatsKey ↔ v.RepeatsKey := Iff.rfl
  rw [Found, hrepeats, keys, List.singleton_append, List.nodup_cons, or_comm]
  simp [hseen]

theorem found_members {seen : List Text} (key : Key) (v : Tree .value) (after : Text)
    (more : Tree .members) :
    Found seen (members key v after more) ↔
      decode key.pieces ∈ seen ∨ v.RepeatsKey ∨ Found (decode key.pieces :: seen) more := by
  have hperm : (more.keys ++ decode key.pieces :: seen).Nodup ↔
      (decode key.pieces :: (more.keys ++ seen)).Nodup := List.perm_middle.nodup_iff
  rw [Found, Found, repeatsKey_members, keys, List.cons_append, hperm]
  by_cases hmem : decode key.pieces ∈ seen
  · have hdup : ¬ (decode key.pieces :: (more.keys ++ seen)).Nodup := fun hnodup =>
      (List.nodup_cons.1 hnodup).1 (List.mem_append_right _ hmem)
    simp [hmem, hdup]
  · tauto

end Tree

/-- A text with the spaces around its value. -/
structure Document where
  before : Text
  value : Tree .value
  after : Text

def Document.text (d : Document) : Text := d.before ++ d.value.text ++ d.after

def Document.WellFormed (d : Document) : Prop :=
  IsSpace d.before ∧ d.value.WellFormed ∧ IsSpace d.after

end Plenora.Lib.Json
