import Mathlib.Data.List.Forall2
import Mathlib.Data.Rat.Defs

/-!
# JSON values

A value as a JSON parser hands it on, the entries of an object, and typed reading: a cast
gives the value at its type, or a type error.
-/

namespace Marketplace.Lib

/-- A JSON value. -/
inductive Json
  | null
  | bool (b : Bool)
  | int (n : ℤ)
  | double (q : ℚ)
  | str (s : String)
  | arr (elements : List Json)
  | obj (entries : List (String × Json))

namespace Json

/-- A value, or null. -/
def ofOption {α : Type} (f : α → Json) (x : Option α) : Json := x.elim null f

/-- An absent value is `null`. -/
@[simp] theorem ofOption_none {α : Type} {f : α → Json} : ofOption f none = null := rfl

/-- A present value is written as itself. -/
@[simp] theorem ofOption_some {α : Type} {f : α → Json} {a : α} : ofOption f (some a) = f a := rfl

/-- The truth of a value in Python. -/
def truthy : Json → Bool
  | null => false
  | bool b => b
  | int n => n ≠ 0
  | double q => q ≠ 0
  | str s => s ≠ ""
  | arr elements => elements.isEmpty = false
  | obj entries => entries.isEmpty = false

/-- The entries of an object, in their order. -/
abbrev Entries := List (String × Json)

/-- The value at a key; null when there is none. -/
def Entries.at (entries : Entries) (key : String) : Json := (entries.lookup key).getD null

/-- What reading a value at a type throws. -/
inductive ReadError
  | typeError
  | formatException
deriving DecidableEq, Repr

/-- The text of a string. -/
def asString : Json → Except ReadError String
  | str s => .ok s
  | _ => .error .typeError

/-- The number of an integer. -/
def asInt : Json → Except ReadError ℤ
  | int n => .ok n
  | _ => .error .typeError

/-- The number of an integer or a double. -/
def asNum : Json → Except ReadError ℚ
  | int n => .ok n
  | double q => .ok q
  | _ => .error .typeError

/-- The value of a Boolean. -/
def asBool : Json → Except ReadError Bool
  | bool b => .ok b
  | _ => .error .typeError

/-- The elements of an array. -/
def asList : Json → Except ReadError (List Json)
  | arr elements => .ok elements
  | _ => .error .typeError

/-- The entries of an object. -/
def asMap : Json → Except ReadError Entries
  | obj entries => .ok entries
  | _ => .error .typeError

/-- A cast to the nullable type. -/
def orNull {α : Type} (cast : Json → Except ReadError α) : Json → Except ReadError (Option α)
  | null => .ok none
  | json => (cast json).map some

section Casts

variable {α : Type} {cast : Json → Except ReadError α}

/-- A string casts to itself. -/
@[simp] theorem asString_str (s : String) : asString (str s) = .ok s := rfl

/-- `null` is no string. -/
@[simp] theorem asString_null : asString null = .error .typeError := rfl

/-- An integer casts to itself. -/
@[simp] theorem asInt_int (n : ℤ) : asInt (int n) = .ok n := rfl

/-- A boolean casts to itself. -/
@[simp] theorem asBool_bool (b : Bool) : asBool (bool b) = .ok b := rfl

/-- An array casts to its elements. -/
@[simp] theorem asList_arr (elements : List Json) : asList (arr elements) = .ok elements := rfl

/-- An object casts to its entries. -/
@[simp] theorem asMap_obj (entries : Entries) : asMap (obj entries) = .ok entries := rfl

/-- `null` passes a nullable cast. -/
@[simp] theorem orNull_null : orNull cast null = .ok none := rfl

/-- A string passes a nullable cast. -/
@[simp] theorem orNull_str (s : String) : orNull asString (str s) = .ok (some s) := rfl

/-- An integer passes a nullable cast. -/
@[simp] theorem orNull_int (n : ℤ) : orNull asInt (int n) = .ok (some n) := rfl

/-- A boolean passes a nullable cast. -/
@[simp] theorem orNull_bool (b : Bool) : orNull asBool (bool b) = .ok (some b) := rfl

/-- An array passes a nullable cast. -/
@[simp] theorem orNull_arr (elements : List Json) :
    orNull asList (arr elements) = .ok (some elements) := rfl

end Casts

end Json

/-! ### Reading one thing after another -/

section Lists

variable {α β ε : Type} {R : α → β → Prop}

/-- What a computation goes on with is what its first part returned. -/
theorem bind_eq_ok {x : Except ε α} {f : α → Except ε β} {y : β} :
    (x >>= f) = .ok y ↔ ∃ a, x = .ok a ∧ f a = .ok y := by
  cases x with
  | error e => simp [bind, Except.bind]
  | ok a => simp [bind, Except.bind]

/-- Reading a list succeeds when each element is read, in order. -/
theorem mapM_eq_ok {f : α → Except ε β} {xs : List α} {ys : List β} :
    xs.mapM f = .ok ys ↔ List.Forall₂ (fun x y => f x = .ok y) xs ys := by
  induction xs generalizing ys with
  | nil =>
    cases ys with
    | nil => simp [pure, Except.pure]
    | cons y ys => simp [pure, Except.pure]
  | cons x xs ih =>
    rw [List.mapM_cons]
    cases hx : f x with
    | error e => cases ys <;> simp [bind, Except.bind, hx]
    | ok y' =>
      cases hxs : xs.mapM f with
      | error e =>
        cases ys with
        | nil => simp [bind, Except.bind]
        | cons y ys =>
          have hnone : ¬List.Forall₂ (fun x y => f x = .ok y) xs ys := by
            rw [← ih, hxs]
            simp
          simp [bind, Except.bind, hnone]
      | ok zs =>
        cases ys with
        | nil => simp [bind, Except.bind, pure, Except.pure]
        | cons y ys =>
          rw [List.forall₂_cons, ← ih, hx, hxs]
          simp [bind, Except.bind, pure, Except.pure]

/-- A list has images when each of its elements has one. -/
theorem exists_forall₂ {xs : List α} :
    (∃ ys, List.Forall₂ R xs ys) ↔ ∀ x ∈ xs, ∃ y, R x y := by
  induction xs with
  | nil => simp
  | cons x xs ih =>
    simp only [List.forall_mem_cons, ← ih]
    constructor
    · rintro ⟨ys, hys⟩
      obtain ⟨y, zs, hx, hxs, -⟩ := List.forall₂_cons_left_iff.mp hys
      exact ⟨⟨y, hx⟩, zs, hxs⟩
    · rintro ⟨⟨y, hx⟩, ys, hxs⟩
      exact ⟨y :: ys, .cons hx hxs⟩

end Lists

end Marketplace.Lib
