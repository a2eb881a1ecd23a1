/-!
Association lists in the order of first insertion. A key that is put again keeps its place and
takes the new value, so no key stands twice in a list made by `put`.
-/
namespace HeapLens.Ordered

def put {α : Type} : List (String × α) → String → α → List (String × α)
  | [], key, value => [(key, value)]
  | (k, v) :: rest, key, value =>
    if k = key then (key, value) :: rest else (k, v) :: put rest key value

/-- The list that holds each pair in turn, the last value of a key winning. -/
def ofPairs {α : Type} (pairs : List (String × α)) : List (String × α) :=
  pairs.foldl (fun entries p => put entries p.1 p.2) []

theorem lookup_put_self {α : Type} (entries : List (String × α)) (key : String) (value : α) :
    (put entries key value).lookup key = some value := by
  induction entries with
  | nil => simp [put]
  | cons e rest ih =>
    obtain ⟨k, v⟩ := e
    by_cases h : k = key
    · simp [put, h]
    · have : (key == k) = false := by simpa using Ne.symm h
      simp [put, h, List.lookup_cons, this, ih]

theorem lookup_put_of_ne {α : Type} (entries : List (String × α)) {key other : String} (value : α)
    (ne : other ≠ key) : (put entries key value).lookup other = entries.lookup other := by
  induction entries with
  | nil =>
    have : (other == key) = false := by simpa using ne
    simp [put, List.lookup_cons, this]
  | cons e rest ih =>
    obtain ⟨k, v⟩ := e
    by_cases h : k = key
    · subst h
      have : (other == k) = false := by simpa using ne
      simp [put, List.lookup_cons, this]
    · simp only [put, h, if_false, List.lookup_cons, ih]

/-- The keys after `put`: the same ones, with a new one at the end. -/
theorem keys_put {α : Type} (entries : List (String × α)) (key : String) (value : α) :
    (put entries key value).map (·.1) =
      if key ∈ entries.map (·.1) then entries.map (·.1) else entries.map (·.1) ++ [key] := by
  induction entries with
  | nil => simp [put]
  | cons e rest ih =>
    obtain ⟨k, v⟩ := e
    by_cases h : k = key
    · simp [put, h]
    · simp only [put, h, if_false, List.map_cons, ih, List.mem_cons]
      by_cases m : key ∈ rest.map (·.1)
      · simp [m]
      · simp [m, Ne.symm h]

theorem put_append_new {α : Type} (entries : List (String × α)) (key : String) (value : α)
    (new : key ∉ entries.map (·.1)) : put entries key value = entries ++ [(key, value)] := by
  induction entries with
  | nil => rfl
  | cons e rest ih =>
    obtain ⟨k, v⟩ := e
    simp only [List.map_cons, List.mem_cons, not_or] at new
    simp [put, Ne.symm new.1, ih new.2]

end HeapLens.Ordered
