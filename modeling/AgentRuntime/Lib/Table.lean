import Mathlib.Data.List.Nodup

/-!
# Tables with unique constraints

A table is a list of rows in insertion order together with the proof that no two rows violate a
unique constraint. The identity columns of a row type (its primary key and every other column a
unique constraint covers) are declared once in `Row`; an insertion that would break a constraint
is refused, and an update may only touch the other columns, so a table that breaks its
constraints cannot be built.

* `Table.insert?` / `Table.update`: the two ways to change a table;
* `Table.get?_insert`, `Table.get?_update`: what a primary-key lookup sees afterwards;
* `Table.select_insert`, `Table.select_update`: what a `WHERE` clause sees afterwards;
* `Table.length_select_insert`, `Table.length_select_update`: how many rows it sees;
* `Table.FreeFor`: which identities can still be inserted;
* `Table.Stays`: rows stay, changed at most as a relation allows.
-/

namespace AgentRuntime.Lib

/-- The identity columns of a row type: `key` is the primary key, `clash` says that two rows may
not be stored together. -/
class Row (α : Type) (κ : outParam Type) where
  Ident : Type
  ident : α → Ident
  key : Ident → κ
  clash : Ident → Ident → Bool
  clash_of_key : ∀ i j, key i = key j → clash i j = true

/-- The primary key of a row. -/
def Row.id {α κ : Type} [Row α κ] (a : α) : κ := Row.key (Row.ident a)

/-- A change that keeps the identity of every row. -/
abbrev Row.Keeps {α κ : Type} [Row α κ] (f : α → α) : Prop :=
  ∀ a, Row.ident (f a) = (Row.ident a : Row.Ident α)

theorem Row.Keeps.onKey {α κ : Type} [Row α κ] [DecidableEq κ] {f : α → α} (hf : Row.Keeps f)
    (k : κ) : Row.Keeps fun a : α => if Row.id a = k then f a else a := by
  intro a
  dsimp only
  split
  · exact hf a
  · rfl

/-- Rows in insertion order, pairwise free of clashes. -/
structure Table (α : Type) {κ : Type} [Row α κ] where
  rows : List α
  unique : rows.Pairwise fun a b => Row.clash (Row.ident a) (Row.ident b) = false

namespace Table

variable {α κ : Type} [Row α κ]

/-- The table with no rows. -/
def empty : Table α := ⟨[], List.Pairwise.nil⟩

theorem eq_of_rows {t u : Table α} (h : t.rows = u.rows) : t = u := by
  cases t
  cases u
  obtain rfl := h
  rfl

@[simp] theorem empty_rows : (empty : Table α).rows = [] := rfl

/-- Insert a row at the end, unless it clashes with a stored one. -/
def insert? (t : Table α) (a : α) : Option (Table α) :=
  if h : ∀ b ∈ t.rows, Row.clash (Row.ident b) (Row.ident a) = false then
    some ⟨t.rows ++ [a], by
      rw [List.pairwise_append]
      refine ⟨t.unique, List.pairwise_singleton _ _, ?_⟩
      intro b hb c hc
      rw [List.mem_singleton.mp hc]
      exact h b hb⟩
  else none

variable {a : α}

theorem insert?_eq_some {t t' : Table α} (h : t.insert? a = some t') :
    t'.rows = t.rows ++ [a] ∧ ∀ b ∈ t.rows, Row.clash (Row.ident b) (Row.ident a) = false := by
  unfold insert? at h
  split at h
  · rename_i hfree
    rw [← Option.some.inj h]
    exact ⟨rfl, hfree⟩
  · exact absurd h (by simp)

variable {t : Table α}

theorem insert?_isSome (h : ∀ b ∈ t.rows, Row.clash (Row.ident b) (Row.ident a) = false) :
    ∃ t', t.insert? a = some t' := by
  unfold insert?
  rw [dif_pos h]
  exact ⟨_, rfl⟩

variable [DecidableEq κ]

/-- The row with primary key `k`. -/
def get? (t : Table α) (k : κ) : Option α := t.rows.find? fun a => decide (Row.id a = k)

/-- Change the non-identity columns of the row with primary key `k`. -/
def update (t : Table α) (k : κ) (f : α → α) (hf : Row.Keeps f) : Table α :=
  ⟨t.rows.map fun a => if Row.id a = k then f a else a, by
    rw [List.pairwise_map]
    refine t.unique.imp ?_
    intro a b hab
    rw [hf.onKey k a, hf.onKey k b]
    exact hab⟩

@[simp] theorem update_rows (t : Table α) (k : κ) (f : α → α) (hf : Row.Keeps f) :
    (t.update k f hf).rows = t.rows.map fun a => if Row.id a = k then f a else a := rfl

/-! ### Primary-key lookups -/

variable {k : κ}

theorem mem_of_get? (h : t.get? k = some a) : a ∈ t.rows ∧ Row.id a = k := by
  refine ⟨List.mem_of_find?_eq_some h, ?_⟩
  simpa using List.find?_some h

omit [DecidableEq κ] in
/-- Primary keys are distinct. -/
theorem ids_nodup (t : Table α) : (t.rows.map fun a => (Row.id a : κ)).Nodup := by
  rw [List.Nodup, List.pairwise_map]
  refine t.unique.imp ?_
  intro a b hab hkey
  rw [Row.clash_of_key _ _ hkey] at hab
  exact absurd hab (by simp)

omit [DecidableEq κ] in
/-- Two stored rows with one primary key are the same row. -/
theorem eq_of_id_eq {a b : α} (ha : a ∈ t.rows) (hb : b ∈ t.rows)
    (hid : (Row.id a : κ) = Row.id b) : a = b := by
  exact List.inj_on_of_nodup_map t.ids_nodup ha hb hid

omit [DecidableEq κ] in
/-- Two stored rows that clash are the same row. -/
theorem eq_of_clash {a b : α} (ha : a ∈ t.rows) (hb : b ∈ t.rows)
    (h : Row.clash (Row.ident a) (Row.ident b) = true)
    (h' : Row.clash (Row.ident b) (Row.ident a) = true) : a = b := by
  obtain ⟨i, hi, rfl⟩ := List.getElem_of_mem ha
  obtain ⟨j, hj, rfl⟩ := List.getElem_of_mem hb
  have hunique := List.pairwise_iff_getElem.mp t.unique
  rcases Nat.lt_trichotomy i j with hlt | rfl | hlt
  · rw [hunique i j hi hj hlt] at h
    exact absurd h (by simp)
  · rfl
  · rw [hunique j i hj hi hlt] at h'
    exact absurd h' (by simp)

theorem get?_eq_some_iff : t.get? k = some a ↔ a ∈ t.rows ∧ Row.id a = k := by
  constructor
  · exact mem_of_get?
  · rintro ⟨ha, hid⟩
    cases hget : t.get? k with
    | none =>
      have := List.find?_eq_none.mp hget a ha
      simp [hid] at this
    | some b =>
      obtain ⟨hb, hbid⟩ := mem_of_get? hget
      rw [eq_of_id_eq hb ha (hbid.trans hid.symm)]

theorem get?_eq_none_iff : t.get? k = none ↔ ∀ a ∈ t.rows, Row.id a ≠ k := by
  unfold get?
  rw [List.find?_eq_none]
  simp

@[simp] theorem get?_empty (k : κ) : (empty : Table α).get? k = none := rfl

/-- **Lookup after an insertion.** -/
theorem get?_insert {t t' : Table α} (h : t.insert? a = some t') (k : κ) :
    t'.get? k = if Row.id a = k then some a else t.get? k := by
  obtain ⟨hrows, hfree⟩ := insert?_eq_some h
  split
  · rename_i hk
    rw [get?_eq_some_iff, hrows]
    exact ⟨by simp, hk⟩
  · rename_i hk
    unfold get?
    rw [hrows, List.find?_append]
    simp [hk]

theorem get?_insert_fresh {t t' : Table α} (h : t.insert? a = some t') :
    t.get? (Row.id a) = none := by
  obtain ⟨-, hfree⟩ := insert?_eq_some h
  rw [get?_eq_none_iff]
  intro b hb hid
  have := hfree b hb
  rw [Row.clash_of_key _ _ hid] at this
  simp at this

/-- **Lookup after an update.** -/
theorem get?_update (t : Table α) (k k' : κ) (f : α → α) (hf : Row.Keeps f) :
    (t.update k f hf).get? k' = if k' = k then (t.get? k').map f else t.get? k' := by
  have hid : ∀ a : α, (Row.id (f a) : κ) = Row.id a := fun a => by unfold Row.id; rw [hf a]
  have hkey : ∀ l : List α,
      (l.map fun a => if Row.id a = k then f a else a).find? (fun a => decide (Row.id a = k'))
        = (l.find? fun a => decide (Row.id a = k')).map
            fun a => if Row.id a = k then f a else a := by
    intro l
    rw [List.find?_map]
    congr 2
    funext a
    simp only [Function.comp_apply]
    split
    · rw [hid a]
    · rfl
  unfold get?
  rw [update_rows, hkey]
  cases hfind : t.rows.find? fun a => decide (Row.id a = k') with
  | none => simp
  | some a =>
    have hak : Row.id a = k' := by simpa using List.find?_some hfind
    simp only [Option.map_some, hak]
    split <;> rfl

variable {f : α → α}

theorem mem_update {hf : Row.Keeps f} {b : α}
    (h : b ∈ (t.update k f hf).rows) : ∃ a ∈ t.rows, b = if Row.id a = k then f a else a := by
  rw [update_rows, List.mem_map] at h
  obtain ⟨a, ha, hb⟩ := h
  exact ⟨a, ha, hb.symm⟩

omit [DecidableEq κ] in
/-- What holds of all rows and of the new one holds of all rows afterwards. -/
theorem forall_insert {t t' : Table α} {P : α → Prop} (hins : t.insert? a = some t')
    (h : ∀ b ∈ t.rows, P b) (ha : P a) : ∀ b ∈ t'.rows, P b := by
  intro b hb
  rw [(insert?_eq_some hins).1] at hb
  rcases List.mem_append.mp hb with hb | hb
  · exact h b hb
  · rw [List.mem_singleton.mp hb]
    exact ha

theorem forall_update (hf : Row.Keeps f) {P : α → Prop}
    (h : ∀ b ∈ t.rows, P b) (hkeep : ∀ b, P b → P (f b)) : ∀ b ∈ (t.update k f hf).rows, P b := by
  intro b hb
  obtain ⟨a, ha, rfl⟩ := mem_update hb
  split
  · exact hkeep a (h a ha)
  · exact h a ha

/-! ### Selections -/

/-- The rows a `WHERE` clause selects. -/
def select (t : Table α) (p : α → Bool) : List α := t.rows.filter p

omit [DecidableEq κ] in

@[simp] theorem select_empty (p : α → Bool) : (empty : Table α).select p = [] := rfl

omit [DecidableEq κ] in
theorem mem_select {p : α → Bool} :
    a ∈ t.select p ↔ a ∈ t.rows ∧ p a = true := List.mem_filter

omit [DecidableEq κ] in
/-- **Selection after an insertion.** -/
theorem select_insert {t t' : Table α} (h : t.insert? a = some t') (p : α → Bool) :
    t'.select p = t.select p ++ if p a then [a] else [] := by
  obtain ⟨hrows, -⟩ := insert?_eq_some h
  unfold select
  rw [hrows, List.filter_append]
  congr 1
  cases hp : p a <;> simp [hp]

/-- **Selection after an update** that keeps the columns the clause reads. -/
theorem select_update (t : Table α) (k : κ) (f : α → α) (hf : Row.Keeps f) (p : α → Bool)
    (hp : ∀ a, p (f a) = p a) :
    (t.update k f hf).select p
      = (t.select p).map fun a => if Row.id a = k then f a else a := by
  unfold select
  rw [update_rows, List.filter_map]
  congr 2
  funext a
  simp only [Function.comp_apply]
  split
  · rw [hp a]
  · rfl

/-! ### Counting -/

omit [DecidableEq κ] in
/-- **Counting after an insertion.** -/
theorem length_select_insert {t t' : Table α} (h : t.insert? a = some t') (p : α → Bool) :
    (t'.select p).length = (t.select p).length + if p a then 1 else 0 := by
  rw [select_insert h, List.length_append]
  cases p a <;> rfl

theorem map_eq_self_of_id_ne {l : List α} (f : α → α) (h : ∀ a ∈ l, Row.id a ≠ k) :
    (l.map fun a => if Row.id a = k then f a else a) = l := by
  calc (l.map fun a => if Row.id a = k then f a else a)
      = l.map id := List.map_congr_left fun a ha => if_neg (h a ha)
    _ = l := List.map_id l

/-- **Counting after an update**: only the updated row is counted anew. -/
theorem length_select_update (t : Table α) (k : κ) (f : α → α) (hf : Row.Keeps f) (p : α → Bool)
    (ha : t.get? k = some a) :
    ((t.update k f hf).select p).length + (if p a then 1 else 0)
      = (t.select p).length + if p (f a) then 1 else 0 := by
  obtain ⟨hmem, hid⟩ := mem_of_get? ha
  obtain ⟨l1, l2, hrows⟩ := List.append_of_mem hmem
  have hids := t.ids_nodup
  rw [hrows, List.map_append, List.map_cons, List.nodup_middle, List.nodup_cons] at hids
  have hother : ∀ b ∈ l1 ++ l2, (Row.id b : κ) ≠ k := by
    intro b hb hbk
    refine hids.1 ?_
    rw [← List.map_append, hid, ← hbk]
    exact List.mem_map_of_mem hb
  have hleft := map_eq_self_of_id_ne f fun b hb => hother b (List.mem_append_left _ hb)
  have hright := map_eq_self_of_id_ne f fun b hb => hother b (List.mem_append_right _ hb)
  simp only [select, update_rows, hrows, List.map_append, List.map_cons, hleft, hright, if_pos hid,
    List.filter_append, List.length_append, List.filter_cons]
  cases p a <;> cases p (f a) <;> simp <;> omega

/-! ### Free identities -/

/-- No stored row clashes with the identity. -/
def FreeFor (t : Table α) (i : Row.Ident α) : Prop :=
  ∀ b ∈ t.rows, Row.clash (Row.ident b) i = false

omit [DecidableEq κ] in
theorem insert?_eq_none_of_not_freeFor (h : ¬ t.FreeFor (Row.ident a)) : t.insert? a = none := by
  cases hins : t.insert? a with
  | none => rfl
  | some t' => exact absurd (insert?_eq_some hins).2 h

omit [DecidableEq κ] in
/-- Two tables in which an identity is free or not alike both take the row or both refuse it. -/
theorem insert?_alike {t u : Table α} (h : t.FreeFor (Row.ident a) ↔ u.FreeFor (Row.ident a)) :
    (∃ t' u', t.insert? a = some t' ∧ u.insert? a = some u')
      ∨ (t.insert? a = none ∧ u.insert? a = none) := by
  by_cases hfree : t.FreeFor (Row.ident a)
  · obtain ⟨t', ht⟩ := insert?_isSome hfree
    obtain ⟨u', hu⟩ := insert?_isSome (h.mp hfree)
    exact .inl ⟨t', u', ht, hu⟩
  · refine .inr ⟨insert?_eq_none_of_not_freeFor hfree, insert?_eq_none_of_not_freeFor ?_⟩
    exact fun hu => hfree (h.mpr hu)

omit [DecidableEq κ] in
theorem freeFor_insert {t t' : Table α} (h : t.insert? a = some t') (i : Row.Ident α) :
    t'.FreeFor i ↔ t.FreeFor i ∧ Row.clash (Row.ident a) i = false := by
  unfold FreeFor
  rw [(insert?_eq_some h).1]
  simp only [List.mem_append, List.mem_singleton]
  constructor
  · exact fun hall => ⟨fun b hb => hall b (.inl hb), hall a (.inr rfl)⟩
  · rintro ⟨hfree, ha⟩ b (hb | rfl)
    · exact hfree b hb
    · exact ha

theorem freeFor_update (t : Table α) (k : κ) (f : α → α) (hf : Row.Keeps f) (i : Row.Ident α) :
    (t.update k f hf).FreeFor i ↔ t.FreeFor i := by
  unfold FreeFor
  rw [update_rows]
  simp only [List.mem_map, forall_exists_index, and_imp, forall_apply_eq_imp_iff₂, hf.onKey k]

/-! ### Rows that stay -/

/-- Every row of `t` is still there in `t'`, changed at most as `R` allows. -/
def Stays (R : κ → α → α → Prop) (t t' : Table α) : Prop :=
  ∀ k a, t.get? k = some a → ∃ a', t'.get? k = some a' ∧ R k a a'

section Stays

variable {R : κ → α → α → Prop} {t t' t'' u u' : Table α}

theorem Stays.refl (hR : ∀ k a, R k a a) : Stays R t t := fun k a h => ⟨a, h, hR k a⟩

theorem Stays.trans (hR : ∀ {k a b c}, R k a b → R k b c → R k a c) (h : Stays R t t')
    (h' : Stays R t' t'') : Stays R t t'' := by
  intro k a hget
  obtain ⟨a1, hget1, hR1⟩ := h k a hget
  obtain ⟨a2, hget2, hR2⟩ := h' k a1 hget1
  exact ⟨a2, hget2, hR hR1 hR2⟩

/-- What is not there was not there. -/
theorem Stays.get?_none (h : Stays R t t') (hnone : t'.get? k = none) : t.get? k = none := by
  cases hget : t.get? k with
  | none => rfl
  | some a =>
    obtain ⟨a', hget', -⟩ := h k a hget
    rw [hget'] at hnone
    exact absurd hnone (by simp)

theorem Stays.mono {R' : κ → α → α → Prop} (hR : ∀ {k a b}, R k a b → R' k a b)
    (h : Stays R t t') : Stays R' t t' := by
  intro k a hget
  obtain ⟨a', hget', hR'⟩ := h k a hget
  exact ⟨a', hget', hR hR'⟩

/-- The same row inserted on both sides. -/
theorem Stays.insert (hR : ∀ k a, R k a a) (h : Stays R t t') (hins : t.insert? a = some u)
    (hins' : t'.insert? a = some u') : Stays R u u' := by
  intro k b hget
  rw [get?_insert hins] at hget
  rw [get?_insert hins']
  split at hget
  · rename_i hk
    rw [if_pos hk]
    exact ⟨b, hget, hR k b⟩
  · rename_i hk
    rw [if_neg hk]
    exact h k b hget

/-- A row stays as it is when another one is inserted. -/
theorem get?_insert_of_some {a b : α} (hins : t.insert? a = some u) (hget : t.get? k = some b) :
    u.get? k = some b := by
  have hne : Row.id a ≠ k := by
    rintro rfl
    rw [get?_insert_fresh hins] at hget
    exact absurd hget (by simp)
  rw [get?_insert hins, if_neg hne]
  exact hget

theorem stays_insert (hR : ∀ k a, R k a a) (hins : t.insert? a = some u) : Stays R t u :=
  fun k b hget => ⟨b, get?_insert_of_some hins hget, hR k b⟩

/-- The same assignment on both sides. -/
theorem Stays.update (hf : Row.Keeps f)
    (hR : ∀ {a a'}, t.get? k = some a → t'.get? k = some a' → R k a a' → R k (f a) (f a'))
    (h : Stays R t t') : Stays R (t.update k f hf) (t'.update k f hf) := by
  intro k' b hb
  rw [get?_update] at hb ⊢
  split at hb
  · rename_i hk
    subst hk
    obtain ⟨a, ha, rfl⟩ := Option.map_eq_some_iff.mp hb
    obtain ⟨a', ha', hRa⟩ := h k' a ha
    rw [if_pos rfl, ha']
    exact ⟨f a', rfl, hR ha ha' hRa⟩
  · rename_i hk
    rw [if_neg hk]
    exact h k' b hb

theorem stays_update (hf : Row.Keeps f)
    (hrefl : ∀ k a, R k a a) (hR : ∀ {a}, t.get? k = some a → R k a (f a)) :
    Stays R t (t.update k f hf) := by
  intro k' b hb
  rw [get?_update]
  split
  · rename_i hk
    subst hk
    rw [hb]
    exact ⟨f b, rfl, hR hb⟩
  · exact ⟨b, hb, hrefl k' b⟩

end Stays

end Table

end AgentRuntime.Lib
