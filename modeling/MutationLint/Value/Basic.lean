import MutationLint.Text.Basic

/-! Configuration values: what a settings file can hold. An object keeps its fields in the order of
first appearance. -/

namespace MutationLint

inductive Value where
  | null
  | bool (b : Bool)
  | int (i : Int)
  | float (x : Float)
  | string (s : Text)
  /-- A date or time, by its written form. -/
  | moment (written : String)
  | list (items : List Value)
  | object (fields : List (Text × Value))
  deriving Inhabited

/-- The fields of an object: one for each key. -/
@[ext]
structure Fields where
  entries : List (Text × Value)
  distinct : (entries.map Prod.fst).Nodup

namespace Fields

def empty : Fields := ⟨[], List.nodup_nil⟩

def get? (fields : Fields) (key : Text) : Option Value := fields.entries.lookup key

/-- A list of fields with one set: in place when its key is there, else at the end. -/
def setIn (key : Text) (value : Value) : List (Text × Value) → List (Text × Value)
  | [] => [(key, value)]
  | (k, v) :: rest => if k = key then (k, value) :: rest else (k, v) :: setIn key value rest

theorem keys_setIn (key : Text) (value : Value) (l : List (Text × Value)) :
    (setIn key value l).map Prod.fst =
      if key ∈ l.map Prod.fst then l.map Prod.fst else l.map Prod.fst ++ [key] := by
  induction l with
  | nil => simp [setIn]
  | cons f rest ih =>
    obtain ⟨k, v⟩ := f
    by_cases hk : k = key
    · simp [setIn, hk]
    · rw [setIn, if_neg hk, List.map_cons, ih]
      by_cases hrest : key ∈ rest.map Prod.fst <;> simp [hrest, Ne.symm hk]

def set (fields : Fields) (key : Text) (value : Value) : Fields where
  entries := setIn key value fields.entries
  distinct := by
    rw [keys_setIn]
    split
    · exact fields.distinct
    · rename_i h
      exact List.nodup_append.mpr ⟨fields.distinct, by simp, fun k hk k' hk' he =>
        h (List.mem_singleton.mp hk' ▸ he ▸ hk)⟩

def setAll (fields : Fields) (l : List (Text × Value)) : Fields :=
  l.foldl (fun fields f => fields.set f.1 f.2) fields

/-- The fields of a list in which a key may come again; the last one counts. -/
def ofList (l : List (Text × Value)) : Fields := empty.setAll l

def merge (base layer : Fields) : Fields := base.setAll layer.entries

def erase (fields : Fields) (key : Text) : Fields where
  entries := fields.entries.filter (·.1 != key)
  distinct := fields.distinct.sublist (List.filter_sublist.map _)

@[simp] theorem get?_empty (key : Text) : empty.get? key = none := rfl

@[simp] theorem setAll_nil (fields : Fields) : fields.setAll [] = fields := rfl

@[simp] theorem setAll_cons (fields : Fields) (k : Text) (v : Value) (rest : List (Text × Value)) :
    fields.setAll ((k, v) :: rest) = (fields.set k v).setAll rest := rfl

theorem setAll_append (fields : Fields) (a b : List (Text × Value)) :
    fields.setAll (a ++ b) = (fields.setAll a).setAll b := List.foldl_append

@[simp] theorem merge_empty (base : Fields) : base.merge empty = base := rfl

theorem lookup_setIn (key : Text) (value : Value) (l : List (Text × Value)) (other : Text) :
    (setIn key value l).lookup other = if other = key then some value else l.lookup other := by
  induction l with
  | nil => simp [setIn, Text.lookup_cons]
  | cons f rest ih =>
    obtain ⟨k, v⟩ := f
    by_cases hk : k = key
    · by_cases h : other = key <;> simp [setIn, Text.lookup_cons, hk, h]
    · by_cases h : other = k
      · simp [setIn, h, hk]
      · simp [setIn, Text.lookup_cons, h, hk, ih]

theorem get?_set (fields : Fields) (key : Text) (value : Value) (other : Text) :
    (fields.set key value).get? other = if other = key then some value else fields.get? other :=
  lookup_setIn key value fields.entries other

theorem get?_erase (fields : Fields) (key other : Text) :
    (fields.erase key).get? other = if other = key then none else fields.get? other :=
  Text.lookup_filter_ne fields.entries key other

theorem get?_setAll (fields : Fields) (l : List (Text × Value)) (key : Text) :
    (fields.setAll l).get? key = (l.reverse.lookup key).or (fields.get? key) := by
  induction l generalizing fields with
  | nil => rfl
  | cons f rest ih =>
    obtain ⟨k, v⟩ := f
    rw [setAll_cons, ih, get?_set, List.reverse_cons, List.lookup_append, Text.lookup_cons,
      List.lookup_nil]
    by_cases h : key = k <;> simp [h]

theorem setIn_of_not_mem {key : Text} (value : Value) {l : List (Text × Value)}
    (h : key ∉ l.map Prod.fst) : setIn key value l = l ++ [(key, value)] := by
  induction l with
  | nil => rfl
  | cons f rest ih =>
    obtain ⟨k, v⟩ := f
    rw [List.map_cons, List.mem_cons, not_or] at h
    rw [setIn, if_neg (Ne.symm h.1), ih h.2, List.cons_append]

theorem entries_setAll {fields : Fields} {l : List (Text × Value)}
    (h : ((fields.entries ++ l).map Prod.fst).Nodup) :
    (fields.setAll l).entries = fields.entries ++ l := by
  induction l generalizing fields with
  | nil => simp
  | cons f rest ih =>
    obtain ⟨k, v⟩ := f
    have hset : (fields.set k v).entries = fields.entries ++ [(k, v)] := by
      refine setIn_of_not_mem v fun hk => ?_
      rw [List.map_append, List.map_cons] at h
      exact (List.nodup_append.mp h).2.2 k hk k List.mem_cons_self rfl
    rw [setAll_cons, ih (by rw [hset]; simpa using h), hset]
    simp

@[simp] theorem ofList_entries (fields : Fields) : ofList fields.entries = fields :=
  Fields.ext ((entries_setAll (by simpa [empty] using fields.distinct)).trans (List.nil_append _))

/-- What is found after a merge is what the upper layer has, else what the lower one has. -/
theorem get?_merge (base layer : Fields) (key : Text) :
    (base.merge layer).get? key = (layer.get? key).or (base.get? key) := by
  have hlayer : (ofList layer.entries).get? key = layer.entries.reverse.lookup key := by
    rw [ofList, get?_setAll, get?_empty, Option.or_none]
  rw [merge, get?_setAll, ← hlayer, ofList_entries]

theorem get?_merge_ofList (base : Fields) (l : List (Text × Value)) (key : Text) :
    (base.merge (ofList l)).get? key = (base.setAll l).get? key := by
  rw [get?_merge, ofList, get?_setAll, get?_setAll, get?_empty, Option.or_none]

end Fields

namespace Value

def isNull : Value → Bool
  | .null => true
  | _ => false

/-- Nothing, no, zero and whatever is empty. -/
def isBare : Value → Bool
  | .null | .bool false | .list [] | .object [] => true
  | .int i => i == 0
  | .float x => x == 0.0
  | .string s => s.isEmpty
  | _ => false

/-- The fields of an object; of a key that comes again the last value counts. -/
def object? : Value → Option Fields
  | .object fields => some (.ofList fields)
  | _ => none

def string? : Value → Option Text
  | .string s => some s
  | _ => none

end Value
end MutationLint
