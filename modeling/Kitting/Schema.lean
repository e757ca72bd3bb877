import Kitting.Error
import Kitting.Json.Display
import Kitting.Number.Reader

/-!
Reading records from JSON values.

A `Reading` turns a value into a typed one or says what is wrong with it. `Check` puts the parts of a
record together and reports the problems of all of them; an overflow hides them.
-/

namespace Kitting

structure Check (α : Type) where
  result : Except Error α

namespace Check

variable {α β : Type}

def fail (e : Error) : Check α := ⟨.error e⟩

def join : Except Error (α → β) → Except Error α → Except Error β
  | .ok f, .ok a => .ok (f a)
  | .error (.invalid ps), .error (.invalid qs) => .error (.invalid (ps ++ qs))
  | .error (.invalid _), .error e => .error e
  | .error e, _ => .error e
  | .ok _, .error e => .error e

instance : Applicative Check where
  pure a := ⟨.ok a⟩
  seq f a := ⟨join f.result (a ()).result⟩

def andThen (a : Check α) (f : α → Check β) : Check β :=
  match a.result with
  | .ok a => f a
  | .error e => fail e

def all : List (Check α) → Check (List α)
  | [] => pure []
  | c :: cs => List.cons <$> c <*> all cs

theorem seq_eq_ok_iff {f : Check (α → β)} {x : Check α} {b : β} :
    (f <*> x).result = .ok b ↔ ∃ g a, f.result = .ok g ∧ x.result = .ok a ∧ g a = b := by
  change join f.result x.result = .ok b ↔ _
  rw [join.eq_def]
  split <;> simp_all

theorem map_eq_ok_iff {g : α → β} {x : Check α} {b : β} :
    (g <$> x).result = .ok b ↔ ∃ a, x.result = .ok a ∧ g a = b := by
  change (pure g <*> x).result = .ok b ↔ _
  rw [seq_eq_ok_iff]
  constructor
  · rintro ⟨g, a, ⟨⟩, h⟩
    exact ⟨a, h⟩
  · rintro ⟨a, h⟩
    exact ⟨g, a, rfl, h⟩

end Check

abbrev Reading (α : Type) := (place : List String) → Json → Check α

namespace Reading

variable {α : Type}

def misfit (m : Misfit) (place : List String) : Check α := .fail (.invalid [⟨place, m⟩])

def trimmed : Reading String := fun _ v => pure v.trimmed

def strict : Reading String
  | _, .str s => pure s
  | place, _ => misfit .notText place

def strict? : Reading (Option String)
  | _, .null => pure none
  | place, v => some <$> strict place v

def path : Reading String
  | _, .str s => pure s
  | place, _ => misfit .notPath place

def int : Reading Int
  | _, .int n => pure n
  | _, .bool b => pure (if b then 1 else 0)
  | place, .float x => match x.toRat? with
    | none => misfit .notFinite place
    | some _ => if x.isIntegral then pure (x.truncate?.getD 0) else misfit .fractional place
  | place, .str s => match intOfField? s with
    | some n => pure n
    | none => misfit .unreadableInteger place
  | place, _ => misfit .notInteger place

def number : Reading Double
  | _, .float x => pure x
  | _, .bool b => pure (.ofFraction false (if b then 1 else 0) 1)
  | place, .int n => match Double.ofInt? n with
    | some x => pure x
    | none => misfit .notNumber place
  | place, .str s => match Double.ofField? s with
    | some x => pure x
    | none => misfit .unreadableNumber place
  | place, _ => misfit .notNumber place

def flagWord? (s : String) : Option Bool :=
  let w := String.ofList (s.toList.map Char.toLower)
  if ["1", "on", "t", "true", "y", "yes"].contains w then some true
  else if ["0", "off", "f", "false", "n", "no"].contains w then some false
  else none

def flagOfInt (place : List String) (n : Int) : Check Bool :=
  if n = 0 then pure false else if n = 1 then pure true else misfit .unreadableFlag place

def flag : Reading Bool
  | _, .bool b => pure b
  | place, .int n => flagOfInt place n
  | place, .float x => if x.isIntegral then flagOfInt place (x.truncate?.getD 0) else misfit .notFlag place
  | place, .str s => match flagWord? s with
    | some b => pure b
    | none => misfit .unreadableFlag place
  | place, _ => misfit .notFlag place

def choice (names : List (String × α)) : Reading α
  | place, .str s => match names.lookup s with
    | some a => pure a
    | none => misfit .notChoice place
  | place, _ => misfit .notChoice place

def listFrom (r : Reading α) (place : List String) : Nat → List Json → List (Check α)
  | _, [] => []
  | i, v :: vs => r (place ++ [toString i]) v :: listFrom r place (i + 1) vs

def list (r : Reading α) : Reading (List α)
  | place, .arr vs => .all (listFrom r place 0 vs)
  | place, _ => misfit .notList place

theorem list_map {β : Type} {r : Reading β} {f : β → Json} {xs : List β}
    (h : ∀ x ∈ xs, ∀ place, r place (f x) = pure x) (place : List String) :
    list r place (.arr (xs.map f)) = pure xs := by
  suffices hall : ∀ i, Check.all (listFrom r place i (xs.map f)) = pure xs from hall 0
  induction xs with
  | nil => exact fun _ => rfl
  | cons x xs ih =>
    intro i
    rw [List.map_cons, listFrom, Check.all, h x List.mem_cons_self,
      ih fun y hy => h y (List.mem_cons_of_mem x hy)]
    rfl

theorem list_strict (place : List String) (ss : List String) :
    list strict place (.arr (ss.map .str)) = pure ss :=
  list_map (f := Json.str) (fun _ _ _ => rfl) place

/-- At least `low`; `nan` is not. -/
def atLeast (low : Double) (r : Reading Double) : Reading Double := fun place v =>
  (r place v).andThen fun x => if low.le x then pure x else misfit .tooLow place

def above (low : Double) (r : Reading Double) : Reading Double := fun place v =>
  (r place v).andThen fun x => if low.lt x then pure x else misfit .notAbove place

/-- Between two bounds. The upper one is looked at first, and refuses `nan`. -/
def between (low high : Double) (r : Reading Double) : Reading Double := fun place v =>
  (r place v).andThen fun x =>
    if !x.le high then misfit .tooHigh place else if !low.le x then misfit .tooLow place else pure x

theorem atLeast_float {low x : Double} (hlow : low.le x) (place : List String) :
    atLeast low number place (.float x) = pure x :=
  if_pos hlow

theorem between_float {low high x : Double} (hlow : low.le x) (hhigh : x.le high) (place : List String) :
    between low high number place (.float x) = pure x := by
  change (if !x.le high then _ else if !low.le x then _ else pure x) = _
  rw [hlow, hhigh]
  rfl

def intAtLeast (low : Int) (r : Reading Int) : Reading Int := fun place v =>
  (r place v).andThen fun n => if n < low then misfit .tooLow place else pure n

def intBetween (low high : Int) (r : Reading Int) : Reading Int := fun place v =>
  (r place v).andThen fun n =>
    if high < n then misfit .tooHigh place else if n < low then misfit .tooLow place else pure n

end Reading

structure Fields where
  place : List String
  members : List (String × Json)

namespace Fields

variable {α : Type}

def required (fs : Fields) (name : String) (r : Reading α) : Check α :=
  match Assoc.get? fs.members name with
  | some v => r (fs.place ++ [name]) v
  | none => Reading.misfit .missing (fs.place ++ [name])

def optional (fs : Fields) (name : String) (r : Reading α) (default : α) : Check α :=
  match Assoc.get? fs.members name with
  | some v => r (fs.place ++ [name]) v
  | none => pure default

theorem result_optional_pure (fs : Fields) (name : String) (f : Json → α) (default : α) :
    (fs.optional name (fun _ v => pure (f v)) default).result =
      .ok (((Assoc.get? fs.members name).map f).getD default) := by
  rw [optional]
  cases Assoc.get? fs.members name <;> rfl

end Fields

def Reading.record {α : Type} (f : Fields → Check α) : Reading α
  | place, .obj members => f ⟨place, members⟩
  | place, _ => misfit .notRecord place

theorem Reading.record_eq_ok_iff {α : Type} {f : Fields → Check α} {place : List String} {v : Json} {a : α} :
    (Reading.record f place v).result = .ok a ↔
      ∃ members, v = .obj members ∧ (f ⟨place, members⟩).result = .ok a := by
  cases v with
  | obj members => simp [record]
  | null | bool | int | float | str | arr => simp [record, misfit, Check.fail]

def Reading.run {α : Type} (r : Reading α) (v : Json) : Except Error α := (r [] v).result

end Kitting
