import Mathlib.Data.List.Nodup

/-!
# A table with a key

An element joins the table unless an element of its key is there. Where keys tell the elements
apart, the table holds every element that ever came, once, in whatever order and however often
they came.
-/

namespace Fold

variable {E K : Type*} [DecidableEq K] {key : E → K} {table es : List E} {e : E}

/-- The element joins, unless its key is there. -/
def insertNew (key : E → K) (table : List E) (e : E) : List E :=
  if key e ∈ table.map key then table else table ++ [e]

lemma insertNew_of_new (h : key e ∉ table.map key) : insertNew key table e = table ++ [e] :=
  if_neg h

lemma nodup_insertNew (h : (table.map key).Nodup) (e : E) :
    ((insertNew key table e).map key).Nodup := by
  rw [insertNew]
  split_ifs with hkey
  · exact h
  · rw [List.map_append, List.map_singleton, List.nodup_append_comm]
    exact List.nodup_cons.mpr ⟨hkey, h⟩

/-- No key is in the table twice. -/
lemma nodup_foldl_insertNew (h : (table.map key).Nodup) (es : List E) :
    ((es.foldl (insertNew key) table).map key).Nodup := by
  induction es generalizing table with
  | nil => exact h
  | cons e es ih => exact ih (nodup_insertNew h e)

lemma mem_insertNew (h : ∀ e' ∈ table, key e' = key e → e' = e) (e' : E) :
    e' ∈ insertNew key table e ↔ e' ∈ table ∨ e' = e := by
  rw [insertNew]
  split_ifs with hkey
  · -- the element of the key is the one that comes
    obtain ⟨x, hx, hxkey⟩ := List.mem_map.mp hkey
    obtain rfl := h x hx hxkey
    constructor
    · exact .inl
    · rintro (he' | rfl)
      · exact he'
      · exact hx
  · rw [List.mem_append, List.mem_singleton]

/-- What has come is in the table, and nothing else. -/
lemma mem_foldl_insertNew (h : ∀ x ∈ table ++ es, ∀ y ∈ table ++ es, key x = key y → x = y)
    (e : E) : e ∈ es.foldl (insertNew key) table ↔ e ∈ table ∨ e ∈ es := by
  induction es generalizing table with
  | nil => simp
  | cons x es ih =>
    have hhead : ∀ e' ∈ table, key e' = key x → e' = x := fun e' he' =>
      h e' (by simp [he']) x (by simp)
    have hmem := mem_insertNew hhead
    have hrest : ∀ y ∈ insertNew key table x ++ es, y ∈ table ++ x :: es := by
      intro y hy
      rw [List.mem_append, hmem] at hy
      simpa [or_assoc] using hy
    rw [List.foldl_cons, ih fun y hy z hz => h y (hrest y hy) z (hrest z hz), hmem, List.mem_cons,
      or_assoc]

/-- A key finds one element. -/
lemma filter_key_eq (h : (table.map key).Nodup) (he : e ∈ table) :
    (table.filter fun e' => key e' = key e) = [e] := by
  induction table with
  | nil => simp at he
  | cons x table ih =>
    rw [List.map_cons, List.nodup_cons] at h
    rcases List.mem_cons.mp he with rfl | he
    · have hnone : (table.filter fun e' => key e' = key e) = [] := by
        rw [List.filter_eq_nil_iff]
        intro e' he' hkey
        exact h.1 (of_decide_eq_true hkey ▸ List.mem_map_of_mem he')
      rw [List.filter_cons_of_pos (by simp), hnone]
    · have hx : key x ≠ key e := fun hkey => h.1 (hkey ▸ List.mem_map_of_mem he)
      rw [List.filter_cons_of_neg (by simpa using hx), ih h.2 he]

end Fold
