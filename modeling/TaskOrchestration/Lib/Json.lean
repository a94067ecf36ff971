import Mathlib.Data.Rat.Defs
import Mathlib.Data.Nat.Notation
import Mathlib.Data.Int.Notation

set_option autoImplicit false

/-!
# JSON values and their schemas

* `Json`: what a parsed text holds, with `get`, `orDefault` (the operator `??`), `withFields`,
  `truthy`, `entries`;
* `stored`: a value that has been written as a text and read again; `get_stored`;
* `Schema`, `Validator`: a schema, and what a library that checks values against it documents;
* `exactValidator`: such a library, that reads no number in a text.
-/

/-- **A JSON value** as a program holds it. A numeral that overflows is an infinite number. -/
inductive Json
  | null
  | bool (b : Bool)
  | number (x : ℚ)
  | infinite (negative : Bool)
  | string (s : String)
  | array (items : List Json)
  | object (fields : List (String × Json))

namespace Json

def get : Json → String → Option Json
  | .object fields, key => fields.lookup key
  | _, _ => none

/-- A value that is neither undefined nor `null`. -/
def given : Option Json → Option Json
  | none | some .null => none
  | some v => some v

/-- `v ?? default`. -/
def orDefault (v : Option Json) (default : Json) : Json := (given v).getD default

/-- The field of an object literal; an undefined one is absent. -/
def field (key : String) (v : Option Json) : List (String × Json) := v.toList.map fun v => (key, v)

/-- `{ ...v, ...fields }`. -/
def withFields (v : Json) (fields : List (String × Json)) : Json :=
  match v with
  | .object fs => .object (fields ++ fs)
  | _ => .object fields

theorem get_withFields (v : Json) (fields : List (String × Json)) (key : String) :
    (v.withFields fields).get key = (fields.lookup key).or (v.get key) := by
  cases v with
  | object fs => exact List.lookup_append
  | null | bool | number | infinite | string | array => exact (Option.or_none).symm

theorem eq_some_of_mem_given {v : Json} {o : Option Json} (h : v ∈ given o) : o = some v := by
  cases o with
  | none => exact absurd h (Option.not_mem_none v)
  | some w =>
      cases w with
      | null => exact absurd h (Option.not_mem_none v)
      | bool | number | infinite | string | array | object => exact h

def number? : Json → Option ℚ
  | .number x => some x
  | _ => none

def string? : Json → Option String
  | .string s => some s
  | _ => none

def truthy : Json → Bool
  | .null => false
  | .bool b => b
  | .number x => x != 0
  | .infinite _ => true
  | .string s => s != ""
  | .array _ | .object _ => true

/-- The units of a text, as values. A half of a pair is no text, and is given as `null`. -/
def units (s : String) : List Json :=
  s.toList.flatMap fun c =>
    if c.val < 0x10000 then [.string (String.singleton c)] else [.null, .null]

/-- `Object.entries`. -/
def entries : Json → List (String × Json)
  | .object fields => fields
  | .array items => items.zipIdx.map fun item => (toString item.2, item.1)
  | .string s => (units s).zipIdx.map fun unit => (toString unit.2, unit.1)
  | _ => []

mutual

/-- The value that the text of a value is read as. -/
def stored : Json → Json
  | .null => .null
  | .bool b => .bool b
  | .number x => .number x
  | .infinite _ => .null
  | .string s => .string s
  | .array items => .array (storedItems items)
  | .object fields => .object (storedFields fields)

def storedItems : List Json → List Json
  | [] => []
  | v :: items => stored v :: storedItems items

def storedFields : List (String × Json) → List (String × Json)
  | [] => []
  | (key, v) :: fields => (key, stored v) :: storedFields fields

end

theorem get_stored (v : Json) (key : String) : v.stored.get key = (v.get key).map stored := by
  cases v with
  | object fields =>
      rw [stored, get, get]
      induction fields with
      | nil => rfl
      | cons f fields ih =>
          obtain ⟨k, w⟩ := f
          rw [storedFields, List.lookup_cons, List.lookup_cons]
          cases key == k with
          | true => rfl
          | false => exact ih
  | null | bool | number | infinite | string | array => rfl

end Json

@[simp] theorem Json.number?_stored (v : Json) : v.stored.number? = v.number? := by
  cases v <;> rfl

@[simp] theorem Json.string?_stored (v : Json) : v.stored.string? = v.string? := by
  cases v <;> rfl

/-- **A schema.** A key of an object is required or not, and no other key is allowed. -/
inductive Schema
  | string (max : Option ℕ) (valid : List String)
  | uuid
  | date
  | number (integer : Bool) (min max : Option ℤ)
  | array (items : Schema) (min max : Option ℕ)
  | anyObject
  | object (keys : List (String × Bool × Schema))

namespace Schema

/-- **A library that checks values against schemas**, by what it documents: what it accepts for an
object has accepted fields; for a number, is a number within the bounds or a text that it reads
as one; for a string with a list of valid ones, is one of them. -/
structure Validator where
  accepts : Schema → Json → Bool
  toNumber : String → Option ℚ
  object : ∀ {keys v}, accepts (.object keys) v = true →
    ∀ k ∈ keys, ∀ w ∈ v.get k.1, accepts k.2.2 w = true
  number : ∀ {integer min max v}, accepts (.number integer min max) v = true →
    ∃ x, (v.number? = some x ∨ v.string?.bind toNumber = some x) ∧
      (∀ m ∈ min, (m : ℚ) ≤ x) ∧ ∀ m ∈ max, x ≤ m
  string : ∀ {max valid v}, accepts (.string max valid) v = true → valid ≠ [] →
    ∃ s ∈ v.string?, s ∈ valid

mutual

/-- A library that reads no number in a text, and no date or UUID. -/
def accepts : Schema → Json → Bool
  | .string max valid, v =>
      v.string?.any fun s =>
        s != "" && max.all (s.length ≤ ·) && (valid.isEmpty || valid.contains s)
  | .uuid, _ => false
  | .date, _ => false
  | .number integer min max, v =>
      v.number?.any fun x =>
        (!integer || x.den == 1) && min.all (fun m => decide ((m : ℚ) ≤ x)) &&
          max.all fun m => decide (x ≤ m)
  | .array items min max, .array vs =>
      (vs.all fun v => items.accepts v) && min.all (· ≤ vs.length) && max.all (vs.length ≤ ·)
  | .array _ _ _, _ => false
  | .anyObject, .object _ => true
  | .anyObject, _ => false
  | .object keys, .object fields =>
      acceptsKeys keys (.object fields) && fields.all fun f => (keys.map Prod.fst).contains f.1
  | .object _, _ => false

def acceptsKeys : List (String × Bool × Schema) → Json → Bool
  | [], _ => true
  | (key, required, schema) :: keys, v =>
      ((v.get key).elim (!required) fun w => schema.accepts w) && acceptsKeys keys v

end

theorem accepts_of_acceptsKeys {keys : List (String × Bool × Schema)} {v : Json}
    (h : acceptsKeys keys v = true) {k : String × Bool × Schema} (hk : k ∈ keys) {w : Json}
    (hw : w ∈ v.get k.1) : accepts k.2.2 w = true := by
  induction keys with
  | nil => exact absurd hk List.not_mem_nil
  | cons k' keys ih =>
      obtain ⟨key, required, schema⟩ := k'
      rw [acceptsKeys, Bool.and_eq_true] at h
      rcases List.mem_cons.mp hk with rfl | hk
      · have hv : v.get key = some w := hw
        rw [hv] at h
        exact h.1
      · exact ih h.2 hk

/-- `accepts` keeps what a library documents. -/
def exactValidator : Validator where
  accepts := accepts
  toNumber _ := none
  object {keys v} h k hk w hw := by
    cases v with
    | object fields =>
        rw [accepts, Bool.and_eq_true] at h
        exact accepts_of_acceptsKeys h.1 hk hw
    | null | bool | number | infinite | string | array => exact absurd hw (Option.not_mem_none w)
  number {integer min max v} h := by
    rw [accepts, Option.any_eq_true] at h
    obtain ⟨x, hx, h⟩ := h
    rw [Bool.and_eq_true, Bool.and_eq_true] at h
    refine ⟨x, .inl hx, fun m hm => ?_, fun m hm => ?_⟩
    · obtain rfl := Option.mem_def.mp hm
      exact of_decide_eq_true h.1.2
    · obtain rfl := Option.mem_def.mp hm
      exact of_decide_eq_true h.2
  string {max valid v} h hne := by
    rw [accepts, Option.any_eq_true] at h
    obtain ⟨s, hs, h⟩ := h
    rw [Bool.and_eq_true, Bool.or_eq_true] at h
    refine ⟨s, hs, ?_⟩
    rcases h.2 with hempty | hmem
    · exact absurd (List.isEmpty_iff.mp hempty) hne
    · exact List.contains_iff_mem.mp hmem

end Schema
