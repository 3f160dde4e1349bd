import SelfTypeLint.Text.Blank

/-!
# Options

The options of a document are values under keys. Keys are compared without regard to the case of
ASCII letters, and values are kept as they are.
-/

namespace SelfTypeLint

/-- Values under lower-case keys, each key once. -/
structure Options where
  entries : List (String × String)
  deriving DecidableEq, Repr, Inhabited

namespace Options

/-- No options. -/
def empty : Options := ⟨[]⟩

/-- A list of values under keys with the value of one key set. -/
def setEntry (key value : String) : List (String × String) → List (String × String)
  | [] => [(key, value)]
  | (k, v) :: rest => if k = key then (k, value) :: rest else (k, v) :: setEntry key value rest

/-- Sets the value of a key. -/
def insert (o : Options) (key value : String) : Options :=
  ⟨setEntry (Text.lower key) value o.entries⟩

/-- Sets the values of several keys, one after the other. -/
def insertAll (o : Options) (pairs : List (String × String)) : Options :=
  pairs.foldl (fun o (k, v) => o.insert k v) o

/-- The value of a key. -/
def lookup (o : Options) (key : String) : Option String := o.entries.lookup (Text.lower key)

/-- Number of keys. -/
def size (o : Options) : Nat := o.entries.length

@[simp] theorem lookup_empty (key : String) : empty.lookup key = none := rfl

private theorem lookup_setEntry (key value k : String) (entries : List (String × String)) :
    (setEntry key value entries).lookup k = if k = key then some value else entries.lookup k := by
  induction entries with
  | nil =>
    by_cases h : k = key
    · simp [setEntry, h]
    · simp [setEntry, List.lookup_cons, h, beq_eq_false_iff_ne.2 h]
  | cons e rest ih =>
    obtain ⟨a, b⟩ := e
    rw [setEntry]
    split
    · next ha =>
      rw [List.lookup_cons, List.lookup_cons, ha]
      by_cases h : k = key
      · simp [h]
      · simp [h, beq_eq_false_iff_ne.2 h]
    · next ha =>
      rw [List.lookup_cons, List.lookup_cons]
      by_cases hk : k = a
      · simp [hk, ha]
      · simp only [beq_eq_false_iff_ne.2 hk, ih]

/-- A set value is found under its key in any letter case, and other keys keep theirs. -/
theorem lookup_insert (o : Options) (key value k : String) :
    (o.insert key value).lookup k =
      if Text.lower k = Text.lower key then some value else o.lookup k :=
  lookup_setEntry _ _ _ _

end Options

end SelfTypeLint
