/-! Named entries in the order in which their names first came. -/

namespace Blockwork

abbrev Entries (α : Type) := List (String × α)

namespace Entries

variable {α : Type}

def names (es : Entries α) : List String := es.map Prod.fst

def get? (es : Entries α) (name : String) : Option α := es.lookup name

def contains (es : Entries α) (name : String) : Bool := es.any (·.1 = name)

def put (es : Entries α) (name : String) (v : α) : Entries α :=
  match es with
  | [] => [(name, v)]
  | e :: rest => if e.1 = name then (name, v) :: rest else e :: put rest name v

def ofList (es : List (String × α)) : Entries α := es.foldl (fun acc e => acc.put e.1 e.2) []

theorem contains_iff {es : Entries α} {name : String} :
    es.contains name = true ↔ name ∈ es.names := by
  simp [contains, names]

theorem get?_eq_none {es : Entries α} {name : String} : es.get? name = none ↔ name ∉ es.names := by
  rw [get?, List.lookup_eq_none_iff, names, List.mem_map]
  constructor
  · rintro h ⟨e, he, rfl⟩
    exact bne_iff_ne.1 (h e he) rfl
  · exact fun h e he => bne_iff_ne.2 fun hname => h ⟨e, he, hname.symm⟩

theorem get?_put_self (es : Entries α) (name : String) (v : α) :
    (es.put name v).get? name = some v := by
  induction es with
  | nil => simp [put, get?]
  | cons e rest ih =>
    obtain ⟨k, w⟩ := e
    by_cases h : k = name
    · simp [put, get?, h]
    · have hk : (name == k) = false := by simpa using fun he => h he.symm
      simpa [put, get?, h, List.lookup_cons, hk] using ih

theorem get?_put_of_ne (es : Entries α) {name other : String} (v : α) (h : other ≠ name) :
    (es.put name v).get? other = es.get? other := by
  have hne : (other == name) = false := by simpa using h
  induction es with
  | nil => simp [put, get?, List.lookup_cons, hne]
  | cons e rest ih =>
    obtain ⟨k, w⟩ := e
    simp only [get?] at ih
    by_cases hk : k = name
    · simp [put, get?, List.lookup_cons, hk, hne]
    · simp [put, get?, hk, List.lookup_cons, ih]

theorem put_of_not_mem {es : Entries α} {name : String} (h : name ∉ es.names) (v : α) :
    es.put name v = es ++ [(name, v)] := by
  induction es with
  | nil => rfl
  | cons e rest ih =>
    have hname : e.1 ≠ name := fun he => h (List.mem_cons.2 (.inl he.symm))
    rw [put, if_neg hname, ih fun hrest => h (List.mem_cons.2 (.inr hrest)), List.cons_append]

theorem names_put (es : Entries α) (name : String) (v : α) :
    (es.put name v).names = if name ∈ es.names then es.names else es.names ++ [name] := by
  induction es with
  | nil => simp [put, names]
  | cons e rest ih =>
    simp only [names] at ih
    by_cases h : e.1 = name
    · simp [put, names, h]
    · have h' : ¬ name = e.1 := fun hn => h hn.symm
      by_cases hm : name ∈ rest.map Prod.fst <;> simp_all [put, names]

theorem nodup_names_put {es : Entries α} (h : es.names.Nodup) (name : String) (v : α) :
    (es.put name v).names.Nodup := by
  rw [names_put]
  split
  · exact h
  · exact List.nodup_append.2 ⟨h, List.nodup_cons.2 ⟨List.not_mem_nil, List.nodup_nil⟩, by
      intro a ha b hb
      obtain rfl := List.mem_singleton.1 hb
      exact fun hab => ‹¬ _› (hab ▸ ha)⟩

end Entries
end Blockwork
