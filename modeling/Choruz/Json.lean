import Mathlib.Logic.Basic
import Mathlib.Tactic.SplitIfs

/-!
# `jsonb` values

The fragment of PostgreSQL's `jsonb` the pipeline uses.  An object is kept with its fields in key
order and no key twice, as `jsonb` normalises it, so equality is equality of the fields.
Numbers are the integers the pipeline writes.
-/

namespace Choruz

variable {k : String} {v : Json}

inductive Json where
  | null
  | bool (b : Bool)
  | num (n : Int)
  | str (s : String)
  | arr (xs : List Json)
  | obj (fields : List (String × Json))
deriving Inhabited

namespace Json

mutual

def decEq : (a b : Json) → Decidable (a = b)
  | .null, .null => isTrue rfl
  | .bool a, .bool b => decidable_of_iff (a = b) (by simp)
  | .num a, .num b => decidable_of_iff (a = b) (by simp)
  | .str a, .str b => decidable_of_iff (a = b) (by simp)
  | .arr a, .arr b => @decidable_of_iff _ (a = b) (by simp) (decEqList a b)
  | .obj a, .obj b => @decidable_of_iff _ (a = b) (by simp) (decEqFields a b)
  | .null, .bool _ | .null, .num _ | .null, .str _ | .null, .arr _ | .null, .obj _
  | .bool _, .null | .bool _, .num _ | .bool _, .str _ | .bool _, .arr _ | .bool _, .obj _
  | .num _, .null | .num _, .bool _ | .num _, .str _ | .num _, .arr _ | .num _, .obj _
  | .str _, .null | .str _, .bool _ | .str _, .num _ | .str _, .arr _ | .str _, .obj _
  | .arr _, .null | .arr _, .bool _ | .arr _, .num _ | .arr _, .str _ | .arr _, .obj _
  | .obj _, .null | .obj _, .bool _ | .obj _, .num _ | .obj _, .str _ | .obj _, .arr _ =>
    isFalse (by simp)

def decEqList : (a b : List Json) → Decidable (a = b)
  | [], [] => isTrue rfl
  | [], _ :: _ => isFalse (by simp)
  | _ :: _, [] => isFalse (by simp)
  | a :: as, b :: bs =>
    match decEq a b, decEqList as bs with
    | isTrue h, isTrue h' => isTrue (by rw [h, h'])
    | isFalse h, _ => isFalse (by simp [h])
    | _, isFalse h => isFalse (by simp [h])

def decEqFields : (a b : List (String × Json)) → Decidable (a = b)
  | [], [] => isTrue rfl
  | [], _ :: _ => isFalse (by simp)
  | _ :: _, [] => isFalse (by simp)
  | (k, a) :: as, (l, b) :: bs =>
    match decEq a b, decEqFields as bs with
    | isTrue h, isTrue h' => decidable_of_iff (k = l) (by simp [h, h'])
    | isFalse h, _ => isFalse (by simp [h])
    | _, isFalse h => isFalse (by simp [h])

end

instance : DecidableEq Json := decEq

def setField (k : String) (v : Json) : List (String × Json) → List (String × Json)
  | [] => [(k, v)]
  | (l, w) :: fs =>
    if k = l then (k, v) :: fs
    else if k < l then (k, v) :: (l, w) :: fs
    else (l, w) :: setField k v fs

variable (j : Json) {l : String}

/-- `j -> k`. -/
def field? (k : String) : Option Json :=
  match j with
  | .obj fs => (fs.find? fun f => f.1 = k).map Prod.snd
  | _ => none

/-- `jsonb_typeof(j) = 'object'`. -/
def isObject : Json → Bool
  | .obj _ => true
  | _ => false

/-- `j ? k`. -/
def hasKey (k : String) : Bool := (j.field? k).isSome

/-- `j ->> k` where the field is a string; the pipeline reads no other kind of field as text. -/
def text? (k : String) : Option String :=
  match j.field? k with
  | some (.str s) => some s
  | _ => none

/-- `jsonb_set(j, {k}, v)`. -/
def set (k : String) (v : Json) : Json :=
  match j with
  | .obj fs => .obj (setField k v fs)
  | j => j

/-- `j - k`. -/
def erase (k : String) : Json :=
  match j with
  | .obj fs => .obj (fs.filter fun f => f.1 ≠ k)
  | j => j

/-- `j - k1 - … - kₙ`. -/
def eraseAll (ks : List String) : Json := ks.foldl erase j

/-- `jsonb_build_object`, and `serde_json::json!` of an object. -/
def ofFields (fs : List (String × Json)) : Json :=
  .obj (fs.foldl (fun acc f => setField f.1 f.2 acc) [])

def ofOption : Option String → Json
  | none => .null
  | some s => .str s

/-- `COALESCE((j ->> k)::bigint, 0)`; `none` where the cast fails. -/
def bigint? (k : String) : Option Int :=
  match j.field? k with
  | none | some .null => some 0
  | some (.num n) => some n
  | some (.str s) => s.toInt?
  | _ => none

theorem find?_setField (hk : k ≠ l) :
    ∀ fs : List (String × Json), (setField l v fs).find? (fun f => f.1 = k) =
      fs.find? fun f => f.1 = k
  | [] => by simp [setField, hk.symm]
  | (m, w) :: fs => by
    unfold setField
    split_ifs with heq hlt
    · subst heq
      simp [hk.symm]
    · simp [hk.symm]
    · rw [List.find?_cons, List.find?_cons, find?_setField hk fs]

theorem field?_ofFields_eq_none {fs : List (String × Json)} (h : ∀ f ∈ fs, k ≠ f.1) :
    (ofFields fs).field? k = none := by
  suffices hall : ∀ acc : List (String × Json), (acc.find? fun f => f.1 = k) = none →
      ((fs.foldl (fun acc f => setField f.1 f.2 acc) acc).find? fun f => f.1 = k) = none by
    simp [ofFields, field?, hall [] rfl]
  induction fs with
  | nil => exact fun acc ha => ha
  | cons f fs ih =>
    intro acc ha
    refine ih (fun g hg => h g (List.mem_cons_of_mem _ hg)) _ ?_
    rw [find?_setField (h f List.mem_cons_self), ha]

theorem find?_setField_self :
    ∀ fs : List (String × Json), (setField k v fs).find? (fun f => f.1 = k) = some (k, v)
  | [] => by simp [setField]
  | (m, w) :: fs => by
    unfold setField
    split_ifs with heq hlt
    · simp
    · simp
    · rw [List.find?_cons_of_neg (by simpa using Ne.symm heq), find?_setField_self fs]

@[simp]
theorem isObject_set (j : Json) (k : String) (v : Json) : (j.set k v).isObject = j.isObject := by
  cases j <;> rfl

theorem field?_set_self {j : Json} (h : j.isObject) : (j.set k v).field? k = some v := by
  cases j with
  | obj fs => simp [set, field?, find?_setField_self]
  | _ => cases h

theorem field?_set_of_ne (hk : k ≠ l) (j : Json) : (j.set l v).field? k = j.field? k := by
  cases j with
  | obj fs => simp [set, field?, find?_setField hk]
  | _ => rfl

end Json

end Choruz
