import Mathlib
import Blockwork.Entries

/-! Entries put together and entries in another order. Where names are distinct the order decides on
nothing that is looked up. -/

namespace Blockwork

namespace Entries

variable {α : Type}

theorem put_append_of_mem {front : Entries α} {name : String} (h : name ∈ front.names) (v : α)
    (back : Entries α) : (front ++ back : Entries α).put name v = front.put name v ++ back := by
  induction front with
  | nil => exact absurd h List.not_mem_nil
  | cons e front ih =>
    by_cases he : e.1 = name
    · simp [put, he]
    · have hfront : name ∈ names front := (List.mem_cons.1 h).resolve_left fun h => he h.symm
      simp only [List.cons_append, put, if_neg he, ih hfront]

theorem put_append_of_not_mem {front : Entries α} {name : String} (h : name ∉ front.names) (v : α)
    (back : Entries α) : (front ++ back : Entries α).put name v = front ++ put back name v := by
  induction front with
  | nil => rfl
  | cons e front ih =>
    have he : e.1 ≠ name := fun he => h (List.mem_cons.2 (.inl he.symm))
    have hfront : name ∉ names front := fun hmem => h (List.mem_cons.2 (.inr hmem))
    simp only [List.cons_append, put, if_neg he, ih hfront]

theorem ofList_of_nodup {es : Entries α} (h : es.names.Nodup) : ofList es = es := by
  have key : ∀ done : Entries α, (done ++ es : Entries α).names.Nodup →
      es.foldl (fun acc e => acc.put e.1 e.2) done = done ++ es := by
    induction es with
    | nil => exact fun done _ => (List.append_nil done).symm
    | cons e rest ih =>
      intro done hdone
      have hsplit : done ++ e :: rest = (done ++ [e]) ++ rest := by
        rw [List.append_assoc, List.singleton_append]
      have hnew : e.1 ∉ done.names := by
        rw [names, List.map_append, List.map_cons] at hdone
        exact fun he => (List.nodup_append.1 hdone).2.2 e.1 he e.1 List.mem_cons_self rfl
      have hrest : (names rest).Nodup := (List.nodup_cons.1 h).2
      rw [hsplit] at hdone ⊢
      rw [List.foldl_cons, put_of_not_mem hnew]
      exact ih hrest _ hdone
  exact key [] h

def putAll (es new : Entries α) : Entries α := new.foldl (fun acc e => acc.put e.1 e.2) es

theorem putAll_append (es new new' : Entries α) :
    es.putAll (new ++ new') = (es.putAll new).putAll new' := List.foldl_append

theorem ofList_append_singleton (es : Entries α) (e : String × α) :
    ofList (es ++ [e]) = (ofList es).put e.1 e.2 := List.foldl_append

theorem get?_putAll (es new : Entries α) (name : String) :
    (es.putAll new).get? name = ((ofList new).get? name).or (es.get? name) := by
  induction new using List.reverseRecOn with
  | nil => rfl
  | append_singleton new e ih =>
    rw [putAll_append, ofList_append_singleton]
    show ((es.putAll new).put e.1 e.2).get? name = _
    by_cases h : name = e.1
    · rw [h, get?_put_self, get?_put_self, Option.some_or]
    · rw [get?_put_of_ne _ _ h, get?_put_of_ne _ _ h, ih]

theorem names_putAll (es new : Entries α) : (es.putAll new).names =
    es.names ++ (ofList new).names.filter fun name => name ∉ es.names := by
  induction new using List.reverseRecOn with
  | nil => exact (List.append_nil _).symm
  | append_singleton new e ih =>
    rw [putAll_append, ofList_append_singleton, names_put]
    show ((es.putAll new).put e.1 e.2).names = _
    rw [names_put, ih]
    by_cases hnew : e.1 ∈ (ofList new).names <;> by_cases hold : e.1 ∈ es.names <;>
      simp [hnew, hold]

theorem get?_eq_some_iff {es : Entries α} (h : es.names.Nodup) {name : String} {v : α} :
    es.get? name = some v ↔ (name, v) ∈ es := by
  induction es with
  | nil => simp [get?]
  | cons e rest ih =>
    obtain ⟨key, w⟩ := e
    obtain ⟨hkey, hrest⟩ := List.nodup_cons.1 h
    replace ih := ih hrest
    simp only [get?] at ih
    by_cases hname : name = key
    · subst hname
      have hnone : (name, v) ∉ rest := fun hmem => hkey (List.mem_map.2 ⟨_, hmem, rfl⟩)
      simp [get?, hnone, eq_comm]
    · have hlookup : (name == key) = false := by simpa using hname
      simp [get?, List.lookup_cons, hlookup, hname, ih]

theorem names_ofList (es : Entries α) : (ofList es).names = es.names.eraseDups := by
  induction es using List.reverseRecOn with
  | nil => rfl
  | append_singleton es e ih =>
    have hnames : names (es ++ [e]) = names es ++ [e.1] := List.map_append
    rw [ofList_append_singleton, names_put, ih, hnames, List.eraseDups_append]
    by_cases h : e.1 ∈ names es <;> simp [List.removeAll, h, List.eraseDups_cons]

theorem get?_ofList (es : Entries α) (name : String) :
    (ofList es).get? name = get? es.reverse name := by
  induction es using List.reverseRecOn with
  | nil => rfl
  | append_singleton es e ih =>
    rw [ofList_append_singleton, List.reverse_append, List.reverse_singleton,
      List.singleton_append]
    by_cases h : name = e.1
    · rw [h, get?_put_self, get?, List.lookup_cons_self]
    · have hne : (name == e.1) = false := by simpa using h
      rw [get?_put_of_ne _ _ h, ih, get?, get?, List.lookup_cons, hne]

theorem nodup_names_ofList (es : Entries α) : (ofList es).names.Nodup := by
  induction es using List.reverseRecOn with
  | nil => exact .nil
  | append_singleton es e ih =>
    rw [ofList_append_singleton]
    exact nodup_names_put ih e.1 e.2

theorem map_names_get? {es : Entries α} (h : es.names.Nodup) (v : α) :
    (es.names.map fun name => (name, (es.get? name).getD v)) = es := by
  rw [names, List.map_map]
  refine (List.map_congr_left fun e he => ?_).trans (List.map_id es)
  rw [Function.comp_apply, (get?_eq_some_iff h).2 he, Option.getD_some, id]

theorem put_of_get? {es : Entries α} {name : String} {v : α} (h : es.get? name = some v) :
    es.put name v = es := by
  induction es with
  | nil => exact absurd h (Option.some_ne_none v).symm
  | cons e rest ih =>
    obtain ⟨key, w⟩ := e
    by_cases hkey : key = name
    · subst hkey
      rw [get?, List.lookup_cons_self] at h
      rw [put, if_pos rfl, Option.some.inj h]
    · have hne : (name == key) = false := by simpa using fun heq : name = key => hkey heq.symm
      rw [get?, List.lookup_cons, hne] at h
      rw [put, if_neg hkey, ih h]

theorem get?_perm {es es' : Entries α} (h : es.Perm es') (hdistinct : es.names.Nodup)
    (name : String) : es.get? name = es'.get? name := by
  have hdistinct' : es'.names.Nodup := (h.map Prod.fst).nodup_iff.1 hdistinct
  refine Option.ext fun v => ?_
  rw [get?_eq_some_iff hdistinct, get?_eq_some_iff hdistinct']
  exact h.mem_iff

theorem put_perm {es : Entries α} (h : es.names.Nodup) (name : String) (v : α) :
    (es.put name v).Perm ((name, v) :: es.filter fun e => e.1 ≠ name) := by
  induction es with
  | nil => exact .refl _
  | cons e rest ih =>
    obtain ⟨hkey, hrest⟩ := List.nodup_cons.1 h
    by_cases he : e.1 = name
    · have hothers : rest.filter (fun e => e.1 ≠ name) = rest := by
        refine List.filter_eq_self.2 fun other hother => decide_eq_true fun hname => hkey ?_
        exact List.mem_map.2 ⟨other, hother, hname.trans he.symm⟩
      rw [put, if_pos he, List.filter_cons_of_neg (by simpa using he), hothers]
    · rw [put, if_neg he, List.filter_cons_of_pos (by simpa using he)]
      exact ((ih hrest).cons e).trans (.swap _ _ _)

end Entries

end Blockwork
